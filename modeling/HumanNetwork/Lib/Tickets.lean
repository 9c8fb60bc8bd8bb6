import Mathlib.Data.List.Nodup
import Mathlib.Data.Set.Insert
import Mathlib.Logic.Function.Basic

/-!
# Tickets

Holders take tickets that were not issued before, and drop or spend them. `Tickets issued held spent` says that no ticket
is with two holders, none is both held and spent, and none is spent twice.
-/

variable {τ ι : Type*}

structure Tickets (issued : Set τ) (held : ι → Option τ) (spent : List τ) : Prop where
  unspent : ∀ i x, held i = some x → x ∈ issued ∧ x ∉ spent
  once : ∀ i j x, held i = some x → held j = some x → i = j
  mem_issued : ∀ x ∈ spent, x ∈ issued
  nodup : spent.Nodup

namespace Tickets
variable {issued issued' : Set τ} {held : ι → Option τ} {spent : List τ} {i j : ι} {x : τ} {y : Option τ}

theorem initial : Tickets issued (fun _ : ι => none) [] where
  unspent _ _ h := by cases h
  once _ _ _ h := by cases h
  mem_issued _ h := by cases h
  nodup := List.nodup_nil

theorem mono (h : Tickets issued held spent) (hsub : issued ⊆ issued') : Tickets issued' held spent where
  unspent i x hx := ⟨hsub (h.unspent i x hx).1, (h.unspent i x hx).2⟩
  once := h.once
  mem_issued x hx := hsub (h.mem_issued x hx)
  nodup := h.nodup

variable [DecidableEq ι]

theorem update_cases (h : Function.update held i y j = some x) : j = i ∧ y = some x ∨ j ≠ i ∧ held j = some x := by
  by_cases hij : j = i
  · subst hij
    rw [Function.update_self] at h
    exact .inl ⟨rfl, h⟩
  · rw [Function.update_of_ne hij] at h
    exact .inr ⟨hij, h⟩

theorem held_of_drop (h : Function.update held i none j = some x) : j ≠ i ∧ held j = some x := by
  rcases update_cases h with ⟨-, hx⟩ | hx
  · cases hx
  · exact hx

theorem drop (h : Tickets issued held spent) (i : ι) : Tickets issued (Function.update held i none) spent where
  unspent j x hx := h.unspent j x (held_of_drop hx).2
  once j k x hj hk := h.once j k x (held_of_drop hj).2 (held_of_drop hk).2
  mem_issued := h.mem_issued
  nodup := h.nodup

theorem take (h : Tickets issued held spent) (hx : x ∉ issued) (i : ι) :
    Tickets (insert x issued) (Function.update held i (some x)) spent where
  unspent j y hy := by
    rcases update_cases hy with ⟨-, hxy⟩ | ⟨-, hj⟩
    · obtain rfl := Option.some.inj hxy
      exact ⟨Set.mem_insert _ _, fun hmem => hx (h.mem_issued x hmem)⟩
    · exact ⟨Set.mem_insert_of_mem _ (h.unspent j y hj).1, (h.unspent j y hj).2⟩
  once j k y hj hk := by
    rcases update_cases hj with ⟨hji, hxy⟩ | ⟨-, hj⟩ <;> rcases update_cases hk with ⟨hki, hxy'⟩ | ⟨-, hk⟩
    · exact hji.trans hki.symm
    · obtain rfl := Option.some.inj hxy
      exact absurd (h.unspent k x hk).1 hx
    · obtain rfl := Option.some.inj hxy'
      exact absurd (h.unspent j x hj).1 hx
    · exact h.once j k y hj hk
  mem_issued y hy := Set.mem_insert_of_mem _ (h.mem_issued y hy)
  nodup := h.nodup

theorem spend (h : Tickets issued held spent) (hi : held i = some x) :
    Tickets issued (Function.update held i none) (spent ++ [x]) where
  unspent j y hy := by
    obtain ⟨hne, hy⟩ := held_of_drop hy
    refine ⟨(h.unspent j y hy).1, ?_⟩
    rw [List.mem_append, List.mem_singleton]
    rintro (hmem | rfl)
    · exact (h.unspent j y hy).2 hmem
    · exact hne (h.once j i y hy hi)
  once := (h.drop i).once
  mem_issued y hy := by
    rcases List.mem_append.1 hy with hy | hy
    · exact h.mem_issued y hy
    · rw [List.mem_singleton.1 hy]
      exact (h.unspent i x hi).1
  nodup := by
    refine List.nodup_append.2 ⟨h.nodup, List.nodup_singleton x, ?_⟩
    rintro y hy _ hx rfl
    rw [List.mem_singleton.1 hx] at hy
    exact (h.unspent i x hi).2 hy

end Tickets
