import Mathlib.Data.List.TakeDrop
import Mathlib.Data.List.Basic
import Mathlib.Logic.Function.Basic

/-!
# A store that is written entry by entry

A `Store` has an entry for each key, of the type that the key says. `saveAll` writes the values of a list of keys one
after the other, and a process that stops on the way leaves the keys of a first part of the list written.
`loads_one_iff` says when what is loaded afterwards is always one of the two versions as a whole.
-/

universe u v

variable {K : Type u} {V : K → Type v}

/-- The entries that were written. -/
def Store (V : K → Type v) := ∀ k, Option (V k)

namespace Store

def full (value : ∀ k, V k) : Store V := fun k => some (value k)

def load (default : ∀ k, V k) (s : Store V) : ∀ k, V k := fun k => (s k).getD (default k)

theorem load_full (default value : ∀ k, V k) : load default (full value) = value := rfl

variable [DecidableEq K]

def insert (s : Store V) (k : K) (v : V k) : Store V := Function.update s k (some v)

theorem insert_self (s : Store V) (k : K) (v : V k) : s.insert k v k = some v := Function.update_self ..

theorem insert_of_ne (s : Store V) {k k' : K} (v : V k) (h : k' ≠ k) : s.insert k v k' = s k' := Function.update_of_ne h ..

def saveAll (value : ∀ k, V k) (keys : List K) (s : Store V) : Store V := keys.foldl (fun s k => s.insert k (value k)) s

theorem saveAll_apply (value : ∀ k, V k) (keys : List K) (s : Store V) (k : K) :
    saveAll value keys s k = if k ∈ keys then some (value k) else s k := by
  induction keys generalizing s with
  | nil => rfl
  | cons k' keys ih =>
    rw [saveAll, List.foldl_cons, ← saveAll, ih]
    by_cases hk : k = k'
    · subst hk
      simp [insert_self]
    · simp [insert_of_ne, hk]

theorem eq_saveAll {value : ∀ k, V k} {keys : List K} {s s' : Store V}
    (h : ∀ k, s' k = if k ∈ keys then some (value k) else s k) : s' = saveAll value keys s := by
  funext k
  rw [h, saveAll_apply]

theorem load_saveAll_full (default old new : ∀ k, V k) (keys : List K) (k : K) :
    load default (saveAll new keys (full old)) k = if k ∈ keys then new k else old k := by
  rw [load, saveAll_apply]
  split <;> rfl

/-- A writing that stops right after one key has not written a later one. -/
theorem load_between (default old new : ∀ k, V k) {order : List K} (hall : ∀ k, k ∈ order) {k k' : K}
    (hlt : order.idxOf k < order.idxOf k') :
    load default (saveAll new (order.take (order.idxOf k + 1)) (full old)) k = new k ∧
      load default (saveAll new (order.take (order.idxOf k + 1)) (full old)) k' = old k' := by
  have hmem : k ∈ order.take (order.idxOf k + 1) := (List.mem_take_iff_idxOf_lt (hall k)).2 (Nat.lt_succ_self _)
  have hnot : k' ∉ order.take (order.idxOf k + 1) := by
    rw [List.mem_take_iff_idxOf_lt (hall k')]
    omega
  rw [load_saveAll_full, load_saveAll_full, if_pos hmem, if_neg hnot]
  exact ⟨rfl, rfl⟩

/-- Wherever the writing stops, one version is loaded as a whole, if and only if the versions differ in one key at
most. -/
theorem loads_one_iff (default old new : ∀ k, V k) {order : List K} (hall : ∀ k, k ∈ order) :
    (∀ j, load default (saveAll new (order.take j) (full old)) = old ∨
      load default (saveAll new (order.take j) (full old)) = new) ↔
    ∀ k k', old k ≠ new k → old k' ≠ new k' → k = k' := by
  constructor
  · intro h
    -- of two keys that differ, the writing can stop between the first and the second
    have hbefore : ∀ k k', old k ≠ new k → old k' ≠ new k' → ¬ order.idxOf k < order.idxOf k' := by
      intro k k' hk hk' hlt
      obtain ⟨hwritten, hleft⟩ := load_between default old new hall hlt
      rcases h (order.idxOf k + 1) with hold | hnew
      · exact hk (by rw [← hwritten, hold])
      · exact hk' (by rw [← hleft, hnew])
    intro k k' hk hk'
    rcases Nat.lt_trichotomy (order.idxOf k) (order.idxOf k') with hlt | heq | hgt
    · exact absurd hlt (hbefore k k' hk hk')
    · exact (List.idxOf_inj (hall k)).1 heq
    · exact absurd hgt (hbefore k' k hk' hk)
  · intro h j
    by_cases hdiffer : ∃ k ∈ order.take j, old k ≠ new k
    · obtain ⟨k, hmem, hk⟩ := hdiffer
      right
      funext k'
      rw [load_saveAll_full]
      split
      next => rfl
      next hnot =>
        by_contra hk'
        exact hnot (h k k' hk hk' ▸ hmem)
    · left
      funext k
      rw [load_saveAll_full]
      split
      next hmem =>
        by_contra hk
        exact hdiffer ⟨k, hmem, fun heq => hk heq.symm⟩
      next => rfl

end Store
