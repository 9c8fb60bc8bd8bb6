import Mathlib.Data.List.Basic
import Mathlib.Data.List.Count

/-!
# Exactly once

`OnceIn owed given` says that each of the things that are owed stands in the list of what is given exactly once. The
two lemmas say when this is kept while things are owed and given: `onceIn_push_iff` for one more of both, and
`onceIn_append_self_iff` for a part of the list that is given again.
-/

universe u

variable {α : Type u} [DecidableEq α] {owed given : List α}

def OnceIn (owed given : List α) : Prop := ∀ a ∈ owed, given.count a = 1

theorem OnceIn.count (h : OnceIn owed given) (hgiven : ∀ a ∈ given, a ∈ owed) (a : α) :
    given.count a = if a ∈ owed then 1 else 0 := by
  split
  next ha => exact h a ha
  next ha => exact List.count_eq_zero_of_not_mem fun hmem => ha (hgiven a hmem)

theorem onceIn_push_iff (h : OnceIn owed given) (hgiven : ∀ a ∈ given, a ∈ owed) (a : α) (pushed : Bool) :
    OnceIn (owed ++ [a]) (given ++ if pushed then [a] else []) ↔ (pushed = true ↔ a ∉ owed) := by
  have hcount := h.count hgiven a
  constructor
  · intro honce
    have ha := honce a (List.mem_append_right _ (List.mem_singleton_self a))
    rw [List.count_append, hcount] at ha
    cases pushed with
    | false => simpa using ha
    | true => simpa using ha
  · intro hpushed b hb
    rw [List.count_append]
    by_cases hba : b = a
    · subst hba
      rw [hcount]
      cases pushed with
      | false => simpa using hpushed
      | true => simpa using hpushed
    · have hb' : b ∈ owed := by simpa [hba] using hb
      rw [h b hb']
      cases pushed with
      | false => rfl
      | true =>
        have hzero : [a].count b = 0 := List.count_eq_zero_of_not_mem (by simpa using hba)
        exact congrArg (1 + ·) hzero

theorem onceIn_append_self_iff {part : List α} (hpart : ∀ a ∈ part, a ∈ owed) :
    OnceIn owed (given ++ part ++ part) ↔ OnceIn owed (given ++ part) ∧ part = [] := by
  constructor
  · intro honce
    have hnil : part = [] := by
      refine List.eq_nil_iff_forall_not_mem.2 fun a ha => ?_
      have hpos : 0 < part.count a := List.count_pos_iff.2 ha
      have hone := honce a (hpart a ha)
      rw [List.count_append, List.count_append] at hone
      omega
    rw [hnil, List.append_nil] at honce
    exact ⟨by rwa [hnil], hnil⟩
  · rintro ⟨honce, rfl⟩
    rwa [List.append_nil]
