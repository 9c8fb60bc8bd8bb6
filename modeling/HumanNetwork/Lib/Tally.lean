import HumanNetwork.Lib.HMap
import Mathlib.Data.List.MinMax

/-!
# Counting in a hash map

`IterOrder` is an order in which the entries of a map are visited, and `mostCounted` is the last entry in that order
with the largest number. `increment` counts a value in a hash map of numbers, and `tallyBy` counts the second
components of pairs in one such map for each first component.
-/

universe u v

/-- An order of iteration. -/
def IterOrder (α : Type u) := { f : List α → List α // ∀ l, (f l).Perm l }

namespace HMap
variable {K : Type u} {V : Type v}

/-- `m.into_iter().max_by_key(|&(_, count)| count)`. -/
def mostCounted (iter : IterOrder (V × ℕ)) (m : HMap V ℕ) : Option (V × ℕ) :=
  (iter.1 m.entries).reverse.argmax Prod.snd

theorem exists_mostCounted (iter : IterOrder (V × ℕ)) {m : HMap V ℕ} {v : V} (h : v ∈ m.keys) :
    ∃ e, m.mostCounted iter = some e := by
  obtain ⟨e, he, -⟩ := List.mem_map.1 h
  rw [← Option.isSome_iff_exists, ← Option.ne_none_iff_isSome]
  intro hnone
  have hnil := List.reverse_eq_nil_iff.1 (List.argmax_eq_none.1 hnone)
  have hmem : e ∈ iter.1 m.entries := (iter.2 m.entries).mem_iff.2 he
  rw [hnil] at hmem
  cases hmem

variable [DecidableEq K] [DecidableEq V]

def increment (m : HMap V ℕ) (v : V) : HMap V ℕ := m.insert v ((m.get? v).getD 0 + 1)

theorem get?_foldl_increment (l : List V) (m : HMap V ℕ) (v : V) :
    (l.foldl increment m).get? v = if v ∈ l then some ((m.get? v).getD 0 + l.count v) else m.get? v := by
  induction l generalizing m with
  | nil => rw [List.foldl_nil, if_neg List.not_mem_nil]
  | cons w l ih =>
    rw [List.foldl_cons, ih, increment, get?_insert]
    by_cases hw : v = w
    · subst hw
      rw [if_pos rfl, if_pos List.mem_cons_self, List.count_cons_self]
      split
      next => rw [Option.getD_some, add_right_comm, add_assoc]
      next hv => rw [List.count_eq_zero_of_not_mem hv]
    · rw [if_neg hw, List.count_cons_of_ne (Ne.symm hw)]
      simp only [List.mem_cons, hw, false_or]

/-- The count of the second component, in the map of the first. -/
def countPair (counts : HMap K (HMap V ℕ)) (e : K × V) : HMap K (HMap V ℕ) :=
  counts.insert e.1 (((counts.get? e.1).getD ∅).increment e.2)

def tallyBy (l : List (K × V)) : HMap K (HMap V ℕ) := l.foldl countPair ∅

theorem get?_foldl_countPair (l : List (K × V)) (counts : HMap K (HMap V ℕ)) (k : K) :
    (l.foldl countPair counts).get? k =
      if (l.filter fun e => e.1 = k) = [] then counts.get? k
      else some (((l.filter fun e => e.1 = k).map Prod.snd).foldl increment ((counts.get? k).getD ∅)) := by
  induction l generalizing counts with
  | nil => rfl
  | cons e l ih =>
    rw [List.foldl_cons, ih, countPair, get?_insert, List.filter_cons]
    by_cases hk : e.1 = k
    · subst hk
      simp only [decide_true, if_true, reduceCtorEq, if_false, List.map_cons, List.foldl_cons, Option.getD_some]
      split
      next hnil => rw [hnil, List.map_nil, List.foldl_nil]
      next => rfl
    · rw [if_neg (Ne.symm hk)]
      simp only [hk, decide_false, Bool.false_eq_true, if_false]

theorem get?_of_tallyBy {l : List (K × V)} {k : K} {counts : HMap V ℕ} (h : (tallyBy l).get? k = some counts) (v : V) :
    counts.get? v = if (k, v) ∈ l then some (l.countP fun e => e = (k, v)) else none := by
  rw [tallyBy, get?_foldl_countPair] at h
  split at h
  next => cases h
  next =>
    obtain rfl := Option.some.inj h
    have hmem : v ∈ (l.filter fun e => e.1 = k).map Prod.snd ↔ (k, v) ∈ l := by simp
    have hcount : ((l.filter fun e => e.1 = k).map Prod.snd).count v = l.countP fun e => e = (k, v) := by
      rw [List.count, List.countP_map, List.countP_filter]
      refine List.countP_congr fun e _ => ?_
      simp [Prod.ext_iff, and_comm]
    simp only [get?_foldl_increment, hmem, hcount, get?_empty, Option.getD_none, zero_add]

theorem mem_keys_tallyBy {l : List (K × V)} {k : K} : k ∈ (tallyBy l).keys ↔ ∃ v, (k, v) ∈ l := by
  rw [← get?_isSome, tallyBy, get?_foldl_countPair]
  split
  next hnil =>
    rw [List.filter_eq_nil_iff] at hnil
    refine ⟨fun h => by simp at h, ?_⟩
    rintro ⟨v, hv⟩
    exact absurd (decide_eq_true rfl) (hnil _ hv)
  next hne =>
    refine ⟨fun _ => ?_, fun _ => rfl⟩
    obtain ⟨⟨k', v⟩, he⟩ := List.exists_mem_of_ne_nil _ hne
    obtain ⟨hmem, hk⟩ := List.mem_filter.1 he
    obtain rfl := of_decide_eq_true hk
    exact ⟨v, hmem⟩

theorem mostCounted_eq_some {iter : IterOrder (V × ℕ)} {m : HMap V ℕ} {e : V × ℕ} (h : m.mostCounted iter = some e) :
    m.get? e.1 = some e.2 ∧ ∀ v count, m.get? v = some count → count ≤ e.2 := by
  have hperm : ∀ e, e ∈ (iter.1 m.entries).reverse ↔ e ∈ m.entries := fun e =>
    List.mem_reverse.trans (iter.2 m.entries).mem_iff
  refine ⟨get?_eq_some.2 ((hperm e).1 (List.argmax_mem h)), fun v count hv => ?_⟩
  exact List.le_of_mem_argmax ((hperm (v, count)).2 (get?_eq_some.1 hv)) h

theorem countP_entries (m : HMap K V) (k : K) (v : V) :
    m.entries.countP (fun e => e = (k, v)) = if m.get? k = some v then 1 else 0 := by
  split
  next hk =>
    have hnodup : m.entries.Nodup := List.Nodup.of_map _ m.nodup
    rw [← List.count_eq_one_of_mem hnodup (get?_eq_some.1 hk), List.count]
    exact List.countP_congr fun e _ => by simp
  next hk =>
    rw [List.countP_eq_zero]
    intro e he heq
    exact hk (get?_eq_some.2 (of_decide_eq_true heq ▸ he))

end HMap
