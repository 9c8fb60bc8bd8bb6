import Mathlib.LinearAlgebra.Lagrange
import Mathlib.Algebra.Polynomial.OfFn

/-!
# Shamir sharing over a field

A sharing is a polynomial `f : F[X]`, its secret is `f(0)`, and the share of a node is the value at
the node's point. `sum_weight_mul_eval` is reconstruction: the weights of a node set of more than
`deg f` points recover `f(0)` from the values. `exists_polynomial_of_subsets` is the converse: values from which
every set of `t` nodes recovers the same secret are a sharing. `exists_shift` is secrecy: there is a polynomial
which moves the secret anywhere and is invisible on a set of points without zero. Lists of
coefficients, lowest first, are read as polynomials by `ofCoeffs`.
-/

namespace Shamir
open Polynomial Finset

variable {F : Type*} [Field F]

/-! ### Reconstruction -/

section weight
variable {ι : Type*} [DecidableEq ι] {s : Finset ι} {v : ι → F} {f : F[X]}

/-- The value at zero of the Lagrange basis polynomial of node `i` among the nodes `s`. -/
noncomputable def weight (s : Finset ι) (v : ι → F) (i : ι) : F := (Lagrange.basis s v i).eval 0

theorem weight_eq_prod (s : Finset ι) (v : ι → F) (i : ι) :
    weight s v i = ∏ j ∈ s.erase i, v j * (v j - v i)⁻¹ := by
  rw [weight, Lagrange.basis, eval_prod]
  refine prod_congr rfl fun j _ => ?_
  have hneg : (v i - v j)⁻¹ = -(v j - v i)⁻¹ := by rw [← neg_sub (v j) (v i), inv_neg]
  simp only [Lagrange.basisDivisor, eval_mul, eval_C, eval_sub, eval_X, zero_sub, hneg]
  ring

theorem sum_weight_mul (s : Finset ι) (v y : ι → F) :
    ∑ i ∈ s, weight s v i * y i = (Lagrange.interpolate s v y).eval 0 := by
  rw [Lagrange.interpolate_apply, eval_finsetSum]
  refine sum_congr rfl fun i _ => ?_
  rw [eval_mul, eval_C, weight, mul_comm]

theorem sum_weight_mul_eval (hv : Set.InjOn v s) (hf : f.degree < s.card) :
    ∑ i ∈ s, weight s v i * f.eval (v i) = f.eval 0 := by
  rw [sum_weight_mul s v fun i => f.eval (v i), ← Lagrange.eq_interpolate hv hf]

theorem sum_weight_smul {M : Type*} [AddCommGroup M] [Module F M] (hv : Set.InjOn v s) (hf : f.degree < s.card)
    (p : M) : ∑ i ∈ s, weight s v i • f.eval (v i) • p = f.eval 0 • p := by
  rw [← sum_weight_mul_eval hv hf, sum_smul]
  exact sum_congr rfl fun i _ => (mul_smul _ _ _).symm

/-- Values of which every `t` interpolate to the same value at zero lie on one polynomial of degree below `t`,
provided that there are more than `t` of them. -/
theorem exists_polynomial_of_subsets [DecidableEq F] {t : ℕ} {y : ι → F} {p : F} (hv : Set.InjOn v s) (ht : 0 < t)
    (hts : t < s.card) (h : ∀ A ⊆ s, A.card = t → ∑ i ∈ A, weight A v i * y i = p) :
    ∃ f : F[X], f.degree < t ∧ f.eval 0 = p ∧ ∀ i ∈ s, y i = f.eval (v i) := by
  have hinj : ∀ {A : Finset ι}, A ⊆ s → Set.InjOn v A := fun hA => hv.mono (coe_subset.2 hA)
  have hzero : ∀ {A : Finset ι}, A ⊆ s → A.card = t → (Lagrange.interpolate A v y).eval 0 = p := fun hA hcard => by
    rw [← sum_weight_mul, h _ hA hcard]
  have hdeg : ∀ {A : Finset ι}, A ⊆ s → A.card = t → (Lagrange.interpolate A v y).degree < t := fun hA hcard => by
    rw [← hcard]
    exact Lagrange.degree_interpolate_lt _ (hinj hA)
  -- a set of `t` nodes with points other than zero
  have hnonzero : t ≤ (s.filter fun i => ¬ v i = 0).card := by
    have hone : (s.filter fun i => v i = 0).card ≤ 1 := by
      refine card_le_one.2 fun i hi j hj => ?_
      rw [mem_filter] at hi hj
      exact hv hi.1 hj.1 (hi.2.trans hj.2.symm)
    have hsum := card_filter_add_card_filter_not (s := s) fun i => v i = 0
    omega
  obtain ⟨A, hA, hcard⟩ := exists_subset_card_eq hnonzero
  have hAs : A ⊆ s := hA.trans (filter_subset _ _)
  have hA0 : ∀ i ∈ A, v i ≠ 0 := fun i hi => (mem_filter.1 (hA hi)).2
  refine ⟨Lagrange.interpolate A v y, hdeg hAs hcard, hzero hAs hcard, fun j hj => ?_⟩
  obtain ⟨i, hi⟩ := card_pos.1 (hcard ▸ ht)
  by_cases hjA : j ∈ A
  · exact (Lagrange.eval_interpolate_at_node y (hinj hAs) hjA).symm
  -- `j` in the place of another node of `A`
  have hjB : j ∉ A.erase i := fun hmem => hjA (mem_of_mem_erase hmem)
  have hBs : insert j (A.erase i) ⊆ s := insert_subset hj ((erase_subset i A).trans hAs)
  have hBcard : (insert j (A.erase i)).card = t := by
    rw [card_insert_of_notMem hjB, card_erase_of_mem hi]
    omega
  have hnode := Lagrange.eval_interpolate_at_node y (hinj hBs) (mem_insert_self j (A.erase i))
  by_cases hvj : v j = 0
  · rw [hvj] at hnode ⊢
    rw [← hnode, hzero hBs hBcard, hzero hAs hcard]
  · have hagree : Lagrange.interpolate A v y = Lagrange.interpolate (insert j (A.erase i)) v y := by
      have h0 : (0 : F) ∉ (A.erase i).image v := fun hmem => by
        obtain ⟨k, hk, hvk⟩ := mem_image.1 hmem
        exact hA0 k (mem_of_mem_erase hk) hvk
      have hpoints : (insert 0 ((A.erase i).image v)).card = t := by
        rw [card_insert_of_notMem h0, card_image_of_injOn (hinj ((erase_subset i A).trans hAs)), card_erase_of_mem hi]
        omega
      refine eq_of_degrees_lt_of_eval_finset_eq (insert 0 ((A.erase i).image v)) ?_ ?_ fun x hx => ?_
      · rw [hpoints]; exact hdeg hAs hcard
      · rw [hpoints]; exact hdeg hBs hBcard
      · rcases mem_insert.1 hx with rfl | hx
        · rw [hzero hAs hcard, hzero hBs hBcard]
        · obtain ⟨k, hk, rfl⟩ := mem_image.1 hx
          rw [Lagrange.eval_interpolate_at_node y (hinj hAs) (mem_of_mem_erase hk),
            Lagrange.eval_interpolate_at_node y (hinj hBs) (mem_insert_of_mem hk)]
    rw [hagree, hnode]

end weight

/-! ### Secrecy -/

theorem exists_shift [DecidableEq F] {A : Finset F} (h0 : 0 ∉ A) (d : F) :
    ∃ p : F[X], p.degree < (A.card + 1 : ℕ) ∧ (∀ a ∈ A, p.eval a = 0) ∧ p.eval 0 = d := by
  have hinj : Set.InjOn id ((insert 0 A : Finset F) : Set F) := Set.injOn_id _
  refine ⟨Lagrange.interpolate (insert 0 A) id fun x => if x = 0 then d else 0, ?_, ?_, ?_⟩
  · rw [← card_insert_of_notMem h0]
    exact Lagrange.degree_interpolate_lt _ hinj
  · intro a ha
    have ha0 : a ≠ 0 := fun h => h0 (h ▸ ha)
    have h := Lagrange.eval_interpolate_at_node (fun x => if x = 0 then d else 0) hinj
      (mem_insert_of_mem ha)
    simpa [ha0] using h
  · have h := Lagrange.eval_interpolate_at_node (fun x => if x = 0 then d else 0) hinj
      (mem_insert_self 0 A)
    simpa using h

/-! ### Coefficient lists -/

noncomputable def ofCoeffs : List F → F[X]
  | [] => 0
  | c :: cs => C c + X * ofCoeffs cs

theorem coeff_ofCoeffs (l : List F) (k : ℕ) : (ofCoeffs l).coeff k = l.getD k 0 := by
  induction l generalizing k with
  | nil => simp [ofCoeffs]
  | cons c cs ih => cases k <;> simp [ofCoeffs, coeff_C_succ, ih]

theorem degree_ofCoeffs_lt (l : List F) : (ofCoeffs l).degree < l.length := by
  rw [degree_lt_iff_coeff_zero]
  intro k hk
  rw [coeff_ofCoeffs, List.getD_eq_default _ _ hk]

theorem eval_zero_ofCoeffs (l : List F) : (ofCoeffs l).eval 0 = l.getD 0 0 := by
  rw [← coeff_zero_eq_eval_zero, coeff_ofCoeffs]

theorem eval_ofCoeffs (x : F) (l : List F) :
    (ofCoeffs l).eval x = ∑ k ∈ range l.length, x ^ k * l.getD k 0 := by
  induction l with
  | nil => simp [ofCoeffs]
  | cons c cs ih =>
    rw [ofCoeffs, eval_add, eval_C, eval_mul, eval_X, ih, List.length_cons, sum_range_succ', mul_sum,
      add_comm]
    simp [pow_succ', mul_assoc]

theorem ofCoeffs_ofFn [DecidableEq F] {t : ℕ} (a : Fin t → F) : ofCoeffs (List.ofFn a) = ofFn t a := by
  ext k
  rw [coeff_ofCoeffs]
  rcases lt_or_ge k t with hk | hk
  · rw [ofFn_coeff_eq_val_of_lt a hk, List.getD_eq_getElem _ _ (by simpa using hk), List.getElem_ofFn]
  · rw [ofFn_coeff_eq_zero_of_ge a hk, List.getD_eq_default _ _ (by simpa using hk)]

/-! ### Shifts by their coefficients -/

section shift
variable [DecidableEq F] {n : ℕ} {A : Finset F}

theorem exists_shift_ofFn (h0 : 0 ∉ A) (hcard : A.card + 1 = n) (d : F) :
    ∃ c : Fin n → F, (∀ a ∈ A, (ofFn n c).eval a = 0) ∧ (ofFn n c).eval 0 = d := by
  obtain ⟨p, hdeg, hA, hd⟩ := exists_shift h0 d
  rw [hcard, degree_lt_iff_coeff_zero] at hdeg
  have hp : ofFn n (fun i => p.coeff i) = p := by
    ext k
    rcases lt_or_ge k n with hk | hk
    · rw [ofFn_coeff_eq_val_of_lt _ hk]
    · rw [ofFn_coeff_eq_zero_of_ge _ hk, hdeg k hk]
  refine ⟨fun i => p.coeff i, ?_⟩
  rw [hp]
  exact ⟨hA, hd⟩

/-- A shift of the secret by `d`, by its coefficients other than the constant one. -/
theorem exists_shift_tail (h0 : 0 ∉ A) (hcard : A.card = n) (d : F) :
    ∃ c : Fin n → F, ∀ a ∈ A, (C d + X * ofFn n c).eval a = 0 := by
  obtain ⟨c, hA, hd⟩ := exists_shift_ofFn h0 (congrArg (· + 1) hcard) d
  have hc : ofFn (n + 1) c = C d + X * ofFn n (Fin.tail c) := by
    have hcons : List.ofFn c = c 0 :: List.ofFn (Fin.tail c) := List.ofFn_succ
    rw [← ofCoeffs_ofFn, eval_zero_ofCoeffs, hcons, List.getD_cons_zero] at hd
    rw [← ofCoeffs_ofFn, hcons, ofCoeffs, ofCoeffs_ofFn, hd]
  rw [hc] at hA
  exact ⟨Fin.tail c, hA⟩

end shift

end Shamir
