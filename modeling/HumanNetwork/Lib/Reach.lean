import Mathlib.Data.List.Induction
import Mathlib.Logic.Relation

/-!
# Runs of a transition system under a condition

`Reach step ok s s'` says that `s'` is reached from `s` by steps whose events all meet a condition in
the state in which they happen. `Reach.invariant` is the induction over such a run. `Run step s es s'` names the
events, and `Run.congr` exchanges what is asked of the steps where an invariant makes it the same.
-/

universe u v

variable {σ : Type u} {ε : Type v} {step : σ → ε → σ → Prop} {ok : σ → ε → Prop} {s s' s'' : σ}

variable (step ok) in
/-- The second state is reached from the first by steps of `step` that meet `ok`. -/
def Reach : σ → σ → Prop := Relation.ReflTransGen fun s s' => ∃ e, ok s e ∧ step s e s'

theorem Reach.refl : Reach step ok s s := Relation.ReflTransGen.refl

theorem Reach.tail {e : ε} (h : Reach step ok s s') (hok : ok s' e) (hstep : step s' e s'') : Reach step ok s s'' :=
  Relation.ReflTransGen.tail h ⟨e, hok, hstep⟩

theorem Reach.head {e : ε} (hok : ok s e) (hstep : step s e s') (h : Reach step ok s' s'') : Reach step ok s s'' :=
  Relation.ReflTransGen.head ⟨e, hok, hstep⟩ h

/-- What holds at the start and is kept by every step that meets the condition holds at the end. -/
theorem Reach.invariant (h : Reach step ok s s') {I : σ → Prop} (hinit : I s)
    (hstep : ∀ {s e s'}, I s → ok s e → step s e s' → I s') : I s' := by
  induction h with
  | refl => exact hinit
  | tail _ hs ih =>
    obtain ⟨e, hok, hs⟩ := hs
    exact hstep ih hok hs

variable (step) in
def Run : σ → List ε → σ → Prop
  | s, [], s' => s' = s
  | s, e :: es, s' => ∃ mid, step s e mid ∧ Run mid es s'

theorem Run.append_iff {es es' : List ε} :
    Run step s (es ++ es') s'' ↔ ∃ s', Run step s es s' ∧ Run step s' es' s'' := by
  induction es generalizing s with
  | nil => simp [Run]
  | cons e es ih =>
    simp only [List.cons_append, Run, ih]
    constructor
    · rintro ⟨mid, hstep, s', hrun, hrun'⟩
      exact ⟨s', ⟨mid, hstep, hrun⟩, hrun'⟩
    · rintro ⟨s', ⟨mid, hstep, hrun⟩, hrun'⟩
      exact ⟨mid, hstep, s', hrun, hrun'⟩

theorem Run.unique {es : List ε} (h : Run step s es s') (h' : Run step s es s'')
    (hstep : ∀ {s e s' s''}, step s e s' → step s e s'' → s' = s'') : s' = s'' := by
  induction es generalizing s with
  | nil => exact h.trans h'.symm
  | cons e es ih =>
    obtain ⟨mid, hmid, hrun⟩ := h
    obtain ⟨mid', hmid', hrun'⟩ := h'
    obtain rfl := hstep hmid hmid'
    exact ih hrun hrun'

/-- An invariant that each event of this run keeps in the state in which it happens. -/
theorem Run.invariant_of_split {I : σ → Prop} {es : List ε} (h : Run step s es s') (hinit : I s)
    (hstep : ∀ pre e post mid mid', es = pre ++ e :: post → Run step s pre mid → I mid → step mid e mid' → I mid') :
    I s' := by
  induction es using List.reverseRecOn generalizing s' with
  | nil =>
    obtain rfl := h
    exact hinit
  | append_singleton es e ih =>
    obtain ⟨mid, hrun, last, hlast, rfl⟩ := Run.append_iff.1 h
    refine hstep es e [] mid _ rfl hrun (ih hrun ?_) hlast
    intro pre e' post mid mid' hsplit
    exact hstep pre e' (post ++ [e]) mid mid' (by rw [hsplit, List.append_assoc, List.cons_append])

theorem Run.invariant_of_mem {I : σ → Prop} {es : List ε} (h : Run step s es s') (hinit : I s)
    (hstep : ∀ {s e s'}, e ∈ es → I s → step s e s' → I s') : I s' :=
  h.invariant_of_split hinit fun pre e post _ _ hsplit _ hmid hs => hstep (by rw [hsplit]; simp) hmid hs

theorem Run.invariant {I : σ → Prop} {es : List ε} (h : Run step s es s') (hinit : I s)
    (hstep : ∀ {s e s'}, I s → step s e s' → I s') : I s' :=
  h.invariant_of_mem hinit fun _ => hstep

/-- Two kinds of steps make the same runs, if they are the same in the states that either of them gets to. -/
theorem Run.congr {step' : σ → ε → σ → Prop} {I : σ → Prop} {es : List ε}
    (h : ∀ {s e s'}, I s → (step s e s' ↔ step' s e s') ∧ (step s e s' → I s')) (hs : I s) :
    Run step s es s' ↔ Run step' s es s' := by
  induction es generalizing s with
  | nil => exact Iff.rfl
  | cons e es ih =>
    refine exists_congr fun mid => ⟨fun ⟨hstep, hrun⟩ => ?_, fun ⟨hstep, hrun⟩ => ?_⟩
    · exact ⟨(h hs).1.1 hstep, (ih ((h hs).2 hstep)).1 hrun⟩
    · have hstep' := (h hs).1.2 hstep
      exact ⟨hstep', (ih ((h hs).2 hstep')).2 hrun⟩
