import HumanNetwork.Lib.HMap
import Mathlib.Algebra.BigOperators.Group.List.Basic
import Mathlib.Data.List.Dedup

/-!
# Tables with unique keys

The rows of a table stand in the order of their insertion. `insertAll` inserts all rows or none, `insertNew` leaves out
the rows whose key is there, and both append rows whose keys are new. `groupSum` is what is left of the rows after
`GROUP BY` with a sum, and `distinctOn` after `DISTINCT ON`.
-/

namespace Table
variable {ρ κ ν : Type}

section Insert
variable (key : ρ → κ) {table rows : List ρ}

/-- No key of the rows comes twice or is there. -/
def Fresh (table rows : List ρ) : Prop := (rows.map key).Nodup ∧ ∀ r ∈ rows, key r ∉ table.map key

theorem fresh_of_forall_ne {key : ρ → κ} (hnodup : (rows.map key).Nodup) (h : ∀ t ∈ table, ∀ r ∈ rows, key t ≠ key r) :
    Fresh key table rows := by
  refine ⟨hnodup, fun r hr hmem => ?_⟩
  obtain ⟨t, ht, heq⟩ := List.mem_map.1 hmem
  exact h t ht r hr heq

variable [DecidableEq κ]

instance : Decidable (Fresh key table rows) := inferInstanceAs (Decidable (_ ∧ _))

def insertAll (table rows : List ρ) : Option (List ρ) := if Fresh key table rows then some (table ++ rows) else none

/-- `ON CONFLICT DO NOTHING`. -/
def insertNew (table rows : List ρ) : List ρ :=
  rows.foldl (fun table r => if key r ∈ table.map key then table else table ++ [r]) table

variable {key}

theorem insertAll_eq_some {table' : List ρ} :
    insertAll key table rows = some table' ↔ Fresh key table rows ∧ table' = table ++ rows := by
  unfold insertAll
  split
  next h => simp [h, eq_comm]
  next h => simp [h]

theorem insertNew_of_fresh (h : Fresh key table rows) : insertNew key table rows = table ++ rows := by
  induction rows generalizing table with
  | nil => exact (List.append_nil table).symm
  | cons r rows ih =>
    obtain ⟨hnodup, hnew⟩ := h
    rw [List.map_cons, List.nodup_cons] at hnodup
    have hrest : Fresh key (table ++ [r]) rows := by
      refine ⟨hnodup.2, fun r' hr' hmem => ?_⟩
      rw [List.map_append, List.mem_append] at hmem
      rcases hmem with hmem | hmem
      · exact hnew r' (List.mem_cons_of_mem _ hr') hmem
      · rw [List.map_singleton, List.mem_singleton] at hmem
        exact hnodup.1 (hmem ▸ List.mem_map_of_mem hr')
    show insertNew key (if key r ∈ table.map key then table else table ++ [r]) rows = _
    rw [if_neg (hnew r List.mem_cons_self), ih hrest, List.append_assoc, List.singleton_append]

end Insert

section Sum
variable [AddCommMonoid ν] {rows rows' : List (κ × ν)} {k : κ} {p q : κ → Prop} [DecidablePred p] [DecidablePred q]

variable (p) in
def sumOver (rows : List (κ × ν)) : ν := ((rows.filter fun r => p r.1).map Prod.snd).sum

@[simp] theorem sumOver_nil : sumOver p ([] : List (κ × ν)) = 0 := rfl

theorem sumOver_cons (r : κ × ν) : sumOver p (r :: rows) = (if p r.1 then r.2 else 0) + sumOver p rows := by
  unfold sumOver
  by_cases h : p r.1 <;> simp [h]

theorem sumOver_append : sumOver p (rows ++ rows') = sumOver p rows + sumOver p rows' := by
  rw [sumOver, List.filter_append, List.map_append, List.sum_append]
  rfl

theorem sumOver_perm (h : rows.Perm rows') : sumOver p rows = sumOver p rows' := ((h.filter _).map _).sum_eq

theorem sumOver_congr (h : ∀ r ∈ rows, p r.1 ↔ q r.1) : sumOver p rows = sumOver q rows := by
  unfold sumOver
  rw [List.filter_congr fun r hr => decide_eq_decide.2 (h r hr)]

theorem sumOver_eq_zero (h : ∀ r ∈ rows, ¬ p r.1) : sumOver p rows = 0 := by
  rw [sumOver, List.filter_eq_nil_iff.2 (by simpa using h)]
  rfl

theorem sumOver_or (h : ∀ k, p k → ¬ q k) : sumOver (fun k => p k ∨ q k) rows = sumOver p rows + sumOver q rows := by
  induction rows with
  | nil => exact (add_zero 0).symm
  | cons r rows ih =>
    rw [sumOver_cons, sumOver_cons, sumOver_cons, ih]
    by_cases hp : p r.1
    · simp [hp, h r.1 hp, add_assoc]
    · by_cases hq : q r.1 <;> simp [hp, hq, add_left_comm]

theorem sumOver_map {μ : Type} [AddCommMonoid μ] (f : ν →+ μ) :
    sumOver p (rows.map fun r => (r.1, f r.2)) = f (sumOver p rows) := by
  induction rows with
  | nil => exact (map_zero f).symm
  | cons r rows ih =>
    rw [List.map_cons, sumOver_cons, sumOver_cons, map_add, ih]
    split <;> simp

variable [DecidableEq κ]

def sumOf (k : κ) (rows : List (κ × ν)) : ν := sumOver (· = k) rows

theorem sumOf_eq_zero (h : k ∉ rows.map Prod.fst) : sumOf k rows = 0 :=
  sumOver_eq_zero fun _ hr heq => h (heq ▸ List.mem_map_of_mem hr)

/-- One row for each key, with the sum of its values. -/
def groupSum (rows : List (κ × ν)) : HMap κ ν := .ofKeys (rows.map Prod.fst).dedup (List.nodup_dedup _) (sumOf · rows)

theorem get?_groupSum : (groupSum rows).get? k = if k ∈ rows.map Prod.fst then some (sumOf k rows) else none := by
  rw [groupSum, HMap.get?_ofKeys]
  simp only [List.mem_dedup]

theorem get?_groupSum_perm (h : rows.Perm rows') : (groupSum rows).get? k = (groupSum rows').get? k := by
  have hsum : sumOf k rows = sumOf k rows' := sumOver_perm h
  simp only [get?_groupSum, hsum, (h.map Prod.fst).mem_iff]

theorem mem_keys_groupSum : k ∈ (groupSum rows).keys ↔ k ∈ rows.map Prod.fst := by
  rw [← HMap.get?_isSome, get?_groupSum]
  split <;> simp [*]

/-- Summing the groups is summing their rows. -/
theorem sumOver_groupSum : sumOver p (groupSum rows).entries = sumOver p rows := by
  have hkeys (ks : List κ) (hks : ks.Nodup) :
      sumOver p (ks.map fun k => (k, sumOf k rows)) = sumOver (fun k => k ∈ ks ∧ p k) rows := by
    induction ks with
    | nil => exact (sumOver_eq_zero fun r _ h => List.not_mem_nil h.1).symm
    | cons k ks ih =>
      obtain ⟨hk, hks⟩ := List.nodup_cons.1 hks
      rw [List.map_cons, sumOver_cons, ih hks]
      by_cases hp : p k
      · have hne : ∀ k', k' = k → ¬ (k' ∈ ks ∧ p k') := fun k' heq hmem => hk (heq ▸ hmem.1)
        rw [if_pos hp, sumOf, ← sumOver_or hne]
        refine sumOver_congr fun r _ => ?_
        have hpk : r.1 = k → p r.1 := fun heq => heq ▸ hp
        rw [List.mem_cons, or_and_right, and_iff_left_of_imp hpk]
      · rw [if_neg hp, zero_add]
        refine sumOver_congr fun r _ => ?_
        rw [List.mem_cons, or_and_right, or_iff_right]
        exact fun h => hp (h.1 ▸ h.2)
  refine (hkeys _ (List.nodup_dedup _)).trans (sumOver_congr fun r hr => ?_)
  rw [List.mem_dedup]
  exact and_iff_right (List.mem_map_of_mem hr)

end Sum

section Distinct
variable [DecidableEq κ] {key : ρ → κ} {rows : List ρ} {r r' : ρ}

variable (key) in
/-- `DISTINCT ON`: the first row of each key. -/
def distinctOn : List ρ → List ρ
  | [] => []
  | r :: rows => r :: (distinctOn rows).filter fun r' => key r' ≠ key r

theorem mem_of_mem_distinctOn (h : r ∈ distinctOn key rows) : r ∈ rows := by
  induction rows with
  | nil => exact h
  | cons a rows ih =>
    rcases List.mem_cons.1 h with rfl | h
    · exact List.mem_cons_self
    · exact List.mem_cons_of_mem _ (ih (List.mem_of_mem_filter h))

theorem nodup_distinctOn : ((distinctOn key rows).map key).Nodup := by
  induction rows with
  | nil => exact List.nodup_nil
  | cons a rows ih =>
    refine List.nodup_cons.2 ⟨fun hmem => ?_, ih.sublist (List.filter_sublist.map _)⟩
    obtain ⟨r, hr, heq⟩ := List.mem_map.1 hmem
    exact of_decide_eq_true (List.mem_filter.1 hr).2 heq

theorem exists_mem_distinctOn (h : r ∈ rows) : ∃ r' ∈ distinctOn key rows, key r' = key r := by
  induction rows with
  | nil => cases h
  | cons a rows ih =>
    by_cases heq : key a = key r
    · exact ⟨a, List.mem_cons_self, heq⟩
    rcases List.mem_cons.1 h with rfl | h
    · exact absurd rfl heq
    · obtain ⟨r', hr', hkey⟩ := ih h
      exact ⟨r', List.mem_cons_of_mem _ (List.mem_filter.2 ⟨hr', decide_eq_true (hkey ▸ Ne.symm heq)⟩), hkey⟩

theorem rel_of_mem_distinctOn {R : ρ → ρ → Prop} (hsorted : rows.Pairwise R) (h : r ∈ distinctOn key rows) (h' : r' ∈ rows)
    (hkey : key r' = key r) : r' = r ∨ R r r' := by
  induction rows with
  | nil => cases h'
  | cons a rows ih =>
    obtain ⟨hfirst, hsorted⟩ := List.pairwise_cons.1 hsorted
    rcases List.mem_cons.1 h with rfl | h
    · exact (List.mem_cons.1 h').imp_right (hfirst r')
    · obtain ⟨h, hne⟩ := List.mem_filter.1 h
      have hr' : r' ≠ a := fun heq => of_decide_eq_true hne (heq ▸ hkey.symm)
      exact ih hsorted h ((List.mem_cons.1 h').resolve_left hr')

end Distinct

end Table
