import Mathlib.Data.Fintype.BigOperators
import Mathlib.Data.List.Perm.Subperm

/-!
# Drawing without replacement

`draw ks pool` takes from `pool`, for each number of `ks` in turn, the element at that number modulo the
elements that are left, and removes it. What was drawn is a part of the pool counted with multiplicity
(`subperm_of_draw`), so that distinctness and membership follow from Mathlib's lemmas about `List.Subperm`. The draws
succeed as long as the pool lasts (`exists_draw`). How many sequences of words draw one list is bounded by how many words
leave each remainder (`card_draw_bounds`).
-/

namespace List
variable {α : Type*}

/-- The elements of the pool drawn by the numbers, `none` if the pool runs out. -/
def draw : List ℕ → List α → Option (List α)
  | [], _ => some []
  | k :: ks, pool => do
    let x ← pool[k % pool.length]?
    let xs ← draw ks (pool.eraseIdx (k % pool.length))
    return x :: xs

variable {k : ℕ} {ks : List ℕ} {pool xs : List α}

theorem draw_cons_eq_some : draw (k :: ks) pool = some xs ↔
    ∃ x, pool[k % pool.length]? = some x ∧
      ∃ ys, draw ks (pool.eraseIdx (k % pool.length)) = some ys ∧ xs = x :: ys := by
  simp [draw, Option.bind_eq_some_iff, eq_comm (a := xs)]

theorem length_of_draw (h : draw ks pool = some xs) : xs.length = ks.length := by
  induction ks generalizing pool xs with
  | nil => obtain rfl : [] = xs := by simpa [draw] using h
           rfl
  | cons k ks ih =>
    obtain ⟨x, -, ys, hys, rfl⟩ := draw_cons_eq_some.1 h
    rw [length_cons, length_cons, ih hys]

theorem subperm_of_draw (h : draw ks pool = some xs) : xs <+~ pool := by
  induction ks generalizing pool xs with
  | nil => obtain rfl : [] = xs := by simpa [draw] using h
           exact nil_subperm
  | cons k ks ih =>
    obtain ⟨x, hx, ys, hys, rfl⟩ := draw_cons_eq_some.1 h
    obtain ⟨hlt, rfl⟩ := getElem?_eq_some_iff.1 hx
    exact ((subperm_cons _).2 (ih hys)).trans (getElem_cons_eraseIdx_perm hlt).subperm

theorem nodup_of_draw (h : draw ks pool = some xs) (hpool : pool.Nodup) : xs.Nodup := by
  obtain ⟨l, hperm, hsub⟩ := subperm_of_draw h
  exact hperm.nodup_iff.1 (hpool.sublist hsub)

theorem exists_draw (h : ks.length ≤ pool.length) : ∃ xs, draw ks pool = some xs := by
  induction ks generalizing pool with
  | nil => exact ⟨[], rfl⟩
  | cons k ks ih =>
    rw [length_cons] at h
    have hlt : k % pool.length < pool.length := Nat.mod_lt _ (by omega)
    have hrest : ks.length ≤ (pool.eraseIdx (k % pool.length)).length := by
      rw [length_eraseIdx_of_lt hlt]; omega
    obtain ⟨ys, hys⟩ := ih hrest
    exact ⟨_, draw_cons_eq_some.2 ⟨_, getElem?_eq_getElem hlt, ys, hys, rfl⟩⟩

/-- Draws whose first element is at position `n` are a first number for that position and draws from what it leaves. -/
theorem draw_cons_eq_cons {n : ℕ} {x : α} {ys : List α} (hpool : pool.Nodup) (hn : pool[n]? = some x) :
    draw (k :: ks) pool = some (x :: ys) ↔ k % pool.length = n ∧ draw ks (pool.eraseIdx n) = some ys := by
  rw [draw_cons_eq_some]
  constructor
  · rintro ⟨y, hy, zs, hzs, heq⟩
    obtain ⟨rfl, rfl⟩ := List.cons.inj heq
    obtain ⟨hk, hky⟩ := getElem?_eq_some_iff.1 hy
    obtain ⟨hn, hny⟩ := getElem?_eq_some_iff.1 hn
    have hkn : k % pool.length = n := hpool.getElem_inj_iff.1 (hky.trans hny.symm)
    exact ⟨hkn, hkn ▸ hzs⟩
  · rintro ⟨rfl, h⟩
    exact ⟨x, hn, ys, h, rfl⟩

section Count
open Finset
variable {W : Type*} [Fintype W] {f : W → ℕ} [DecidableEq α]

theorem card_draw_cons {j n : ℕ} {x : α} {ys : List α} (hpool : pool.Nodup) (hn : pool[n]? = some x) :
    #{ws : Fin (j + 1) → W | draw (ofFn (f ∘ ws)) pool = some (x :: ys)} =
      #{w | f w % pool.length = n} * #{ws : Fin j → W | draw (ofFn (f ∘ ws)) (pool.eraseIdx n) = some ys} := by
  rw [← Finset.card_product, ← Finset.filter_product, Finset.univ_product_univ]
  refine Finset.card_equiv (Fin.consEquiv fun _ => W).symm fun ws => ?_
  simp only [Finset.mem_filter, Finset.mem_univ, true_and, ofFn_succ]
  exact draw_cons_eq_cons hpool hn

/-- If between `lo m` and `hi m` of the words leave each remainder modulo `m`, then any one list of different members of
the pool is drawn by as many sequences of words as the products of these bounds say. -/
theorem card_draw_bounds {lo hi : ℕ → ℕ}
    (hcount : ∀ m j, j < m → lo m ≤ #{w | f w % m = j} ∧ #{w | f w % m = j} ≤ hi m)
    (hpool : pool.Nodup) (hxs : xs.Nodup) (hsub : xs ⊆ pool) :
    ∏ i ∈ Finset.range xs.length, lo (pool.length - i) ≤
        #{ws : Fin xs.length → W | draw (ofFn (f ∘ ws)) pool = some xs} ∧
      #{ws : Fin xs.length → W | draw (ofFn (f ∘ ws)) pool = some xs} ≤
        ∏ i ∈ Finset.range xs.length, hi (pool.length - i) := by
  induction xs generalizing pool with
  | nil => simp [draw]
  | cons x ys ih =>
    obtain ⟨n, hn, rfl⟩ := List.getElem_of_mem (hsub mem_cons_self)
    have hrest : ys ⊆ pool.eraseIdx n := by
      intro y hy
      rcases mem_cons.1 ((getElem_cons_eraseIdx_perm hn).symm.subset (hsub (mem_cons_of_mem _ hy))) with rfl | h
      · exact absurd hy (nodup_cons.1 hxs).1
      · exact h
    obtain ⟨hlo, hhi⟩ := ih (hpool.sublist (eraseIdx_sublist ..)) hxs.of_cons hrest
    obtain ⟨hlo', hhi'⟩ := hcount pool.length n hn
    -- the factor of the first draw is the last one of the product, the rest is the product of the smaller pool
    simp only [length_cons, Finset.prod_range_succ', Nat.sub_zero, card_draw_cons hpool (getElem?_eq_getElem hn)]
    rw [length_eraseIdx_of_lt hn] at hlo hhi
    simp only [Nat.sub_sub, Nat.add_comm 1] at hlo hhi
    rw [Nat.mul_comm #{w | _}]
    exact ⟨Nat.mul_le_mul hlo hlo', Nat.mul_le_mul hhi hhi'⟩

end Count

end List
