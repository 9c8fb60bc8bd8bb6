import HumanNetwork.Lib.Reach
import Mathlib.Data.Nat.Notation
import Mathlib.Logic.Function.Basic

/-!
# Threads that share a state

`Threads` says what a thread can do in its own state and the shared one, and what the environment does to the shared
state. A run is any interleaving of the threads and the environment: each event is one step that nothing interrupts.
`Threads.exists_enter` finds the event at which a thread got to where it is, and `Threads.count_add_rank_le` bounds the
events of a thread by a rank that each of them lowers.
-/

structure Threads (σ π α β : Type) where
  act : σ → π → α → Option (σ × π)
  env : σ → β → σ

namespace Threads
variable {σ π α β : Type}

structure Config (σ π : Type) where
  shared : σ
  pc : ℕ → π

inductive Event (α β : Type) where
  | act (i : ℕ) (a : α)
  | env (b : β)
deriving DecidableEq

inductive Step (T : Threads σ π α β) : Config σ π → Event α β → Config σ π → Prop
  | act {c i a s p} (h : T.act c.shared (c.pc i) a = some (s, p)) : Step T c (.act i a) ⟨s, Function.update c.pc i p⟩
  | env {c b} : Step T c (.env b) ⟨T.env c.shared b, c.pc⟩

variable {T : Threads σ π α β} {c c' : Config σ π} {es : List (Event α β)} {i : ℕ} {P : π → Prop}

theorem Step.unique {c'' : Config σ π} {e : Event α β} (h : T.Step c e c') (h' : T.Step c e c'') : c' = c'' := by
  cases h with
  | env =>
    cases h' with
    | env => rfl
  | act h =>
    cases h' with
    | act h' =>
      obtain ⟨rfl, rfl⟩ := Prod.mk.inj (Option.some.inj (h.symm.trans h'))
      rfl

/-- A thread that comes to `P` does so in an event of its own. -/
theorem Step.act_of_enter {e : Event α β} (h : T.Step c e c') (hstart : ¬ P (c.pc i)) (hend : P (c'.pc i)) :
    ∃ a s p, e = .act i a ∧ T.act c.shared (c.pc i) a = some (s, p) ∧ P p := by
  cases h with
  | env => exact absurd hend hstart
  | @act j a s p h =>
    dsimp only at hend
    by_cases hij : i = j
    · subst hij
      rw [Function.update_self] at hend
      exact ⟨a, s, p, rfl, h, hend⟩
    · rw [Function.update_of_ne hij] at hend
      exact absurd hend hstart

theorem exists_enter (h : Run T.Step c es c') (hstart : ¬ P (c.pc i)) (hend : P (c'.pc i)) :
    ∃ pre a post mid s p, es = pre ++ .act i a :: post ∧ Run T.Step c pre mid ∧ ¬ P (mid.pc i) ∧
      T.act mid.shared (mid.pc i) a = some (s, p) ∧ P p := by
  induction es generalizing c with
  | nil =>
    obtain rfl := h
    exact absurd hend hstart
  | cons e es ih =>
    obtain ⟨mid, hstep, hrun⟩ := h
    by_cases hmid : P (mid.pc i)
    · obtain ⟨a, s, p, rfl, hact, hp⟩ := hstep.act_of_enter hstart hmid
      exact ⟨[], a, es, c, s, p, rfl, rfl, hstart, hact, hp⟩
    · obtain ⟨pre, a, post, mid', s, p, rfl, hpre, hno, hact, hp⟩ := ih hrun hmid
      exact ⟨e :: pre, a, post, mid', s, p, rfl, ⟨mid, hstep, hpre⟩, hno, hact, hp⟩

variable (T) in
def acts : σ → π → List α → Option (σ × π)
  | s, p, [] => some (s, p)
  | s, p, a :: as => (T.act s p a).bind fun (s, p) => acts s p as

theorem acts_append (s : σ) (p : π) (as bs : List α) :
    T.acts s p (as ++ bs) = (T.acts s p as).bind fun (s, p) => T.acts s p bs := by
  induction as generalizing s p with
  | nil => rfl
  | cons a as ih => simp only [List.cons_append, acts, Option.bind_assoc, ih]

theorem run_acts {s s' : σ} {pc : ℕ → π} {p' : π} {as : List α} (h : T.acts s (pc i) as = some (s', p')) :
    Run T.Step ⟨s, pc⟩ (as.map (.act i)) ⟨s', Function.update pc i p'⟩ := by
  induction as generalizing s pc with
  | nil =>
    obtain ⟨rfl, rfl⟩ := Prod.mk.inj (Option.some.inj h)
    rw [Function.update_eq_self]
    rfl
  | cons a as ih =>
    obtain ⟨⟨s₁, p₁⟩, hact, h⟩ := Option.bind_eq_some_iff.1 h
    have hrest := @ih s₁ (Function.update pc i p₁) (by rwa [Function.update_self])
    rw [Function.update_idem] at hrest
    exact ⟨_, .act hact, hrest⟩

/-- What every event of a thread keeps holds for every thread after a run. -/
theorem forall_pc_of_run (hact : ∀ {s p a s' p'}, T.act s p a = some (s', p') → P p → P p')
    (h : Run T.Step c es c') (hc : ∀ i, P (c.pc i)) : ∀ i, P (c'.pc i) := by
  refine h.invariant (I := fun c => ∀ i, P (c.pc i)) hc fun {c} _ _ hc hstep => ?_
  cases hstep with
  | env => exact hc
  | act h => exact (Function.forall_update_iff c.pc fun _ => P).2 ⟨hact h (hc _), fun j _ => hc j⟩

def Event.isActOf (i : ℕ) : Event α β → Bool
  | .act j _ => j = i
  | .env _ => false

theorem count_add_rank_le {rank : π → ℕ} (hact : ∀ {s p a s' p'}, T.act s p a = some (s', p') → rank p' < rank p)
    (h : Run T.Step c es c') (i : ℕ) : es.countP (·.isActOf i) + rank (c'.pc i) ≤ rank (c.pc i) := by
  induction es generalizing c with
  | nil =>
    obtain rfl := h
    simp
  | cons e es ih =>
    obtain ⟨mid, hstep, hrun⟩ := h
    have hmid := ih hrun
    cases hstep with
    | env => simpa [Event.isActOf] using hmid
    | @act j a s p hp =>
      by_cases hij : j = i
      · subst hij
        have hlt := hact hp
        simp only [Function.update_self] at hmid
        rw [List.countP_cons_of_pos (by simp [Event.isActOf])]
        omega
      · simpa [Event.isActOf, hij, Function.update_of_ne (Ne.symm hij)] using hmid

end Threads
