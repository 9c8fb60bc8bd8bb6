import HumanNetwork.Polynomial

/-!
# When Feldman verification is exact

`FeldmanEquation` is what `verify_vss` is for: the share times the base point is the committed
polynomial at the index, with the powers of the index taken in the scalar field. The code takes
them in a `u128`. `verifyVss_accepts_iff` is the code's verdict while the powers fit; past that,
`exists_overflow` finds a power whose wrapped value is another scalar, and the dealing of that
monomial is refused (`verifyVss_monomial`). `verifyVss_exact_iff` puts both together.
-/

namespace HumanNetwork
open Outcome

variable {ε : Type} (C : Curve)

def FeldmanEquation (index : ℕ) (share : C.FieldEl) (checks : List C.Point) : Prop :=
  C.scalarMul C.basePointOrGenerator share =
    ∑ k ∈ Finset.range checks.length, C.scalarMul (checks.getD k 0) ((index : C.FieldEl) ^ k)

section PrimeOrder
variable [C.PrimeOrder]

theorem verifyVss_release_of_fits {index : ℕ} {share : C.FieldEl} {checks : List C.Point}
    (hne : checks ≠ []) (hfits : index ^ (checks.length - 1) < 2 ^ 128) :
    (verifyVss C .release index share checks : Outcome ε Bool) = .ok true ↔
      FeldmanEquation C index share checks := by
  rw [verifyVss_release C hne, Except.ok.injEq, decide_eq_true_iff, FeldmanEquation]
  have hpow : ∀ k ∈ Finset.range checks.length,
      ((index ^ k % 2 ^ 128 : ℕ) : C.FieldEl) • checks.getD k 0 =
        C.scalarMul (checks.getD k 0) ((index : C.FieldEl) ^ k) := by
    intro k hk
    rw [Finset.mem_range] at hk
    have hlt : index ^ k < 2 ^ 128 := pow_lt_of_pow_lt (by decide) (by omega) hfits
    rw [Nat.mod_eq_of_lt hlt, Nat.cast_pow, C.scalarMul_eq_smul]
  rw [Finset.sum_congr rfl hpow, C.scalarMul_eq_smul]

/-- While the powers of the index fit, either build accepts exactly the shares that satisfy
Feldman's equation. -/
theorem verifyVss_accepts_iff (prof : Profile) {index : ℕ} {share : C.FieldEl} {checks : List C.Point}
    (hne : checks ≠ []) (hfits : index ^ (checks.length - 1) < 2 ^ 128) :
    (verifyVss C prof index share checks : Outcome ε Bool) = .ok true ↔
      FeldmanEquation C index share checks := by
  cases prof with
  | debug => rw [verifyVss_debug, and_iff_right hfits, verifyVss_release_of_fits C hne hfits]
  | release => exact verifyVss_release_of_fits C hne hfits

/-! ### Dealings -/

omit [C.PrimeOrder] in
theorem length_feldmanCommitments (poly : Poly C.FieldEl) :
    (feldmanCommitments C poly).length = poly.coefficients.length := List.length_map _

theorem getD_feldmanCommitments (poly : Poly C.FieldEl) (k : ℕ) :
    (feldmanCommitments C poly).getD k 0 = poly.coefficients.getD k 0 • C.basePointOrGenerator := by
  rw [feldmanCommitments, List.getD_eq_getElem?_getD, List.getElem?_map, List.getD_eq_getElem?_getD]
  cases poly.coefficients[k]? <;> simp

theorem getElem?_zero_feldmanCommitments {poly : Poly C.FieldEl} (h : 0 < poly.coefficients.length) :
    (feldmanCommitments C poly)[0]? = some (poly.toPolynomial.eval 0 • C.basePointOrGenerator) := by
  have hlen : 0 < (feldmanCommitments C poly).length := by rwa [length_feldmanCommitments]
  rw [List.getElem?_eq_getElem hlen, ← List.getD_eq_getElem _ 0 hlen, getD_feldmanCommitments,
    Poly.toPolynomial, Shamir.eval_zero_ofCoeffs]

theorem sum_smul_feldmanCommitments (w : ℕ → C.FieldEl) (poly : Poly C.FieldEl) :
    ∑ k ∈ Finset.range (feldmanCommitments C poly).length, w k • (feldmanCommitments C poly).getD k 0 =
      (∑ k ∈ Finset.range poly.coefficients.length, w k * poly.coefficients.getD k 0) •
        C.basePointOrGenerator := by
  rw [Finset.sum_smul, length_feldmanCommitments]
  refine Finset.sum_congr rfl fun k _ => ?_
  rw [getD_feldmanCommitments, mul_smul]

theorem feldmanEquation_of_dealt (poly : Poly C.FieldEl) (index : ℕ) :
    FeldmanEquation C index (poly.toPolynomial.eval (index : C.FieldEl)) (feldmanCommitments C poly) := by
  unfold FeldmanEquation
  simp only [C.scalarMul_eq_smul]
  rw [sum_smul_feldmanCommitments C (fun k => (index : C.FieldEl) ^ k), Poly.toPolynomial,
    Shamir.eval_ofCoeffs]

/-! ### Overflow -/

theorem natCast_mod_ne (c : CurveId) {n : ℕ} (hge : 2 ^ 128 ≤ n) (hlt : n < 2 ^ 128 * 2 ^ 128) :
    ((n % 2 ^ 128 : ℕ) : c.Scalar) ≠ (n : c.Scalar) := by
  intro h
  have hpos : 0 < n / 2 ^ 128 := Nat.div_pos hge (by decide)
  have hsmall : n / 2 ^ 128 < 2 ^ 128 := Nat.div_lt_of_lt_mul hlt
  have hsplit : (n : c.Scalar) = ((2 ^ 128 * (n / 2 ^ 128) : ℕ) : c.Scalar) + (n % 2 ^ 128 : ℕ) := by
    rw [← Nat.cast_add, Nat.div_add_mod]
  have hzero : ((2 ^ 128 * (n / 2 ^ 128) : ℕ) : c.Scalar) = 0 := by
    rw [h] at hsplit
    simpa using hsplit
  rw [ZMod.natCast_eq_zero_iff] at hzero
  rcases c.order_prime.dvd_mul.1 hzero with h2 | hm
  · have := Nat.le_of_dvd (by decide) h2
    exact absurd c.pow_lt_order (by omega)
  · have := Nat.le_of_dvd hpos hm
    exact absurd c.pow_lt_order (by omega)

theorem exists_overflow {index n : ℕ} (hindex : index < 2 ^ 128) (h : ¬ index ^ n < 2 ^ 128) :
    ∃ k ≤ n, 2 ^ 128 ≤ index ^ k ∧ index ^ k < 2 ^ 128 * 2 ^ 128 := by
  induction n with
  | zero => simp at h
  | succ n ih =>
    rcases Nat.lt_or_ge (index ^ n) (2 ^ 128) with hlt | hge
    · refine ⟨n + 1, le_rfl, Nat.not_lt.1 h, ?_⟩
      rw [pow_succ]
      exact Nat.mul_lt_mul_of_lt_of_lt hlt hindex
    · obtain ⟨k, hk, hk'⟩ := ih (Nat.not_lt.2 hge)
      exact ⟨k, by omega, hk'⟩

def monomialPoly (F : Type) [Field F] (t k : ℕ) : Poly F := ⟨(List.replicate t 0).set k 1⟩

theorem sum_mul_monomialPoly {F : Type} [Field F] {t k : ℕ} (hk : k < t) (w : ℕ → F) :
    ∑ j ∈ Finset.range (monomialPoly F t k).coefficients.length,
      w j * (monomialPoly F t k).coefficients.getD j 0 = w k := by
  have hlen : (monomialPoly F t k).coefficients.length = t := by simp [monomialPoly]
  have hcoeff : ∀ j ∈ Finset.range t,
      w j * (monomialPoly F t k).coefficients.getD j 0 = if j = k then w k else 0 := by
    intro j hj
    rw [Finset.mem_range] at hj
    rw [List.getD_eq_getElem _ _ (by rwa [hlen])]
    rcases eq_or_ne j k with rfl | hjk
    · simp [monomialPoly]
    · simp [monomialPoly, hjk, hjk.symm]
  rw [hlen, Finset.sum_congr rfl hcoeff]
  simp [hk]

theorem verifyVss_monomial (prof : Profile) {index t : ℕ} (hindex : index < 2 ^ 128)
    (h : ¬ index ^ (t - 1) < 2 ^ 128) : ∃ poly : Poly C.FieldEl, poly.coefficients.length = t ∧
      (verifyVss C prof index (poly.toPolynomial.eval (index : C.FieldEl)) (feldmanCommitments C poly) :
        Outcome ε Bool) ≠ .ok true := by
  obtain ⟨k, hk, hge, hlt⟩ := exists_overflow hindex h
  have ht : k < t := by
    rcases Nat.eq_zero_or_pos t with rfl | ht
    · simp at h
    · omega
  refine ⟨monomialPoly C.FieldEl t k, by simp [monomialPoly], fun hok => ?_⟩
  set poly := monomialPoly C.FieldEl t k with hpoly
  have hrel : (verifyVss C .release index (poly.toPolynomial.eval (index : C.FieldEl))
      (feldmanCommitments C poly) : Outcome ε Bool) = .ok true := by
    cases prof with
    | debug => exact (verifyVss_debug C).1 hok |>.2
    | release => exact hok
  have hne : feldmanCommitments C poly ≠ [] := by
    rw [← List.length_pos_iff]
    simp [feldmanCommitments, hpoly, monomialPoly]
    omega
  rw [verifyVss_release C hne, Except.ok.injEq, decide_eq_true_iff,
    sum_smul_feldmanCommitments C (fun k => ((index ^ k % 2 ^ 128 : ℕ) : C.FieldEl)),
    C.smul_generator_inj, Poly.toPolynomial, Shamir.eval_ofCoeffs,
    sum_mul_monomialPoly ht (fun k => (index : C.FieldEl) ^ k),
    sum_mul_monomialPoly ht (fun k => ((index ^ k % 2 ^ 128 : ℕ) : C.FieldEl)), ← Nat.cast_pow] at hrel
  exact natCast_mod_ne C.id hge hlt hrel.symm

/-! ### Exactness -/

theorem verifyVss_dealt_iff (prof : Profile) {t : ℕ} (ht : 0 < t) {T : Type} (set : HMap ℕ T)
    (hset : ∀ k ∈ set.keys, k < 2 ^ 128) :
    (∀ poly : Poly C.FieldEl, poly.coefficients.length = t →
      ∃ y v, (feldmanVss C poly set t : Outcome ε _) = .ok (y, v) ∧
        ∀ k share, y.get? k = some share → (verifyVss C prof k share v : Outcome ε Bool) = .ok true) ↔
      ∀ k ∈ set.keys, k ^ (t - 1) < 2 ^ 128 := by
  constructor
  · intro h k hk
    by_contra hfits
    obtain ⟨poly, hlen, hrej⟩ := verifyVss_monomial (ε := ε) C prof (hset k hk) hfits
    obtain ⟨y, v, hdeal, hacc⟩ := h poly hlen
    rw [feldmanVss_eq_ok C set hlen, Except.ok.injEq, Prod.mk.injEq] at hdeal
    obtain ⟨rfl, rfl⟩ := hdeal
    obtain ⟨w, hw⟩ := HMap.exists_get? hk
    exact hrej (hacc k _ (by rw [get?_feldmanShares, hw]; rfl))
  · intro h poly hlen
    refine ⟨_, _, feldmanVss_eq_ok C set hlen, fun k share hk => ?_⟩
    have hlen' : (feldmanCommitments C poly).length = t := by rw [length_feldmanCommitments, hlen]
    have hne : feldmanCommitments C poly ≠ [] := List.length_pos_iff.1 (hlen'.symm ▸ ht)
    rw [get?_feldmanShares, Option.map_eq_some_iff] at hk
    obtain ⟨w, hw, rfl⟩ := hk
    have hmem : k ∈ set.keys := HMap.get?_isSome.1 (by rw [hw]; rfl)
    rw [verifyVss_accepts_iff C prof hne (by rw [hlen']; exact h k hmem)]
    exact feldmanEquation_of_dealt C poly k

/-- Verification at an index with `t` commitments decides Feldman's equation exactly when the highest
power of the index it forms fits in a `u128`, and the dealings over a set of node ids are all
accepted exactly when this holds of every id. -/
theorem verifyVss_exact_iff (prof : Profile) {index t : ℕ} (hindex : index < 2 ^ 128) (ht : 0 < t) :
    ((∀ (share : C.FieldEl) (checks : List C.Point), checks.length = t →
        ((verifyVss C prof index share checks : Outcome ε Bool) = .ok true ↔
          FeldmanEquation C index share checks)) ↔ index ^ (t - 1) < 2 ^ 128) ∧
      ∀ {T : Type} (set : HMap ℕ T), (∀ k ∈ set.keys, k < 2 ^ 128) →
        ((∀ poly : Poly C.FieldEl, poly.coefficients.length = t →
            ∃ y v, (feldmanVss C poly set t : Outcome ε _) = .ok (y, v) ∧
              ∀ k share, y.get? k = some share → (verifyVss C prof k share v : Outcome ε Bool) = .ok true) ↔
          ∀ k ∈ set.keys, k ^ (t - 1) < 2 ^ 128) := by
  refine ⟨⟨fun h => ?_, fun hfits share checks hlen => ?_⟩, fun set hset => verifyVss_dealt_iff C prof ht set hset⟩
  · by_contra hfits
    obtain ⟨poly, hlen, hrej⟩ := verifyVss_monomial (ε := ε) C prof hindex hfits
    have hlen' : (feldmanCommitments C poly).length = t := by rw [length_feldmanCommitments, hlen]
    exact hrej ((h _ _ hlen').2 (feldmanEquation_of_dealt C poly index))
  · have hne : checks ≠ [] := List.length_pos_iff.1 (hlen.symm ▸ ht)
    exact verifyVss_accepts_iff C prof hne (by rw [hlen]; exact hfits)

end PrimeOrder

theorem verifyVss_exact_iff_secp256k1 :
    ((∀ (share : (scalarCurve .secp256k1).FieldEl) (checks : List (scalarCurve .secp256k1).Point),
        checks.length = 3 →
        ((verifyVss (scalarCurve .secp256k1) .release 7 share checks : Outcome Error Bool) = .ok true ↔
          FeldmanEquation (scalarCurve .secp256k1) 7 share checks)) ↔ 7 ^ (3 - 1) < 2 ^ 128) :=
  (verifyVss_exact_iff (scalarCurve .secp256k1) .release (by decide) (by decide)).1

/-- A node with id `2 ^ 64` refuses its share of `x ^ 2`: a release finds the wrapped power 0, and a
build with overflow checks panics. -/
theorem verifyVss_refuses_dealt_share :
    FeldmanEquation (scalarCurve .secp256k1) (2 ^ 64) ((2 ^ 128 : ℕ) : CurveId.Scalar .secp256k1)
        [(0 : CurveId.Scalar .secp256k1), (0 : CurveId.Scalar .secp256k1), (1 : CurveId.Scalar .secp256k1)] ∧
      (verifyVss (scalarCurve .secp256k1) .release (2 ^ 64) ((2 ^ 128 : ℕ) : CurveId.Scalar .secp256k1)
        [(0 : CurveId.Scalar .secp256k1), (0 : CurveId.Scalar .secp256k1), (1 : CurveId.Scalar .secp256k1)] :
          Outcome Error Bool) = .ok false ∧
      (verifyVss (scalarCurve .secp256k1) .debug (2 ^ 64) ((2 ^ 128 : ℕ) : CurveId.Scalar .secp256k1)
        [(0 : CurveId.Scalar .secp256k1), (0 : CurveId.Scalar .secp256k1), (1 : CurveId.Scalar .secp256k1)] :
          Outcome Error Bool) = .error (.panic "attempt to multiply with overflow") := by
  refine ⟨?_, ?_, ?_⟩
  · simp only [FeldmanEquation, scalarCurve_scalarMul, List.length_cons, List.length_nil, Finset.sum_range_succ]
    norm_num
  · have hne : ((2 ^ 128 : ℕ) : CurveId.Scalar .secp256k1) ≠ 0 :=
      (ZMod.natCast_eq_zero_iff _ _).not.2 (by decide)
    rw [verifyVss_release _ (by simp), Except.ok.injEq, decide_eq_false_iff_not]
    simp only [← Curve.scalarMul_eq_smul (scalarCurve .secp256k1), scalarCurve_scalarMul, List.length_cons,
      List.length_nil, Finset.sum_range_succ]
    norm_num at hne ⊢
    exact hne
  · rfl

end HumanNetwork
