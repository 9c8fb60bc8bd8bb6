import HumanNetwork.Lib.HMap
import HumanNetwork.Lib.Shamir
import HumanNetwork.Curve

/-!
# Polynomials and Feldman's verifiable secret sharing (`polynomial.rs`)

`Poly` is the `Polynomial` of the code: a vector of coefficients, lowest first. The definitions
follow the source; the lemmas read each of them in terms of `Shamir`: `Poly.eval_eq` and
`lagrangeBasisAt0_eq_weight` for the arithmetic, `feldmanVss_eq_ok` for a dealing. The loop of
`verifyVss` keeps the power of the index in a `u128`, so it also depends on how the program was
built: `verifyVss_release_of_fits` is its value while the powers fit, `verifyVss_release` and
`verifyVss_debug` what the two builds compute.

A random source is the sequence of the elements it returns.
-/

namespace HumanNetwork
open Outcome

/-- The panic of `unwrap` on `None`. -/
def unwrapNone : String := "called `Option::unwrap()` on a `None` value"

/-- `BigInt::<4>::deserialize_compressed` unwraps each limb, so bytes that are too few are no error of it. -/
def shortLimbs : String := "called `Result::unwrap()` on an `Err` value: " ++
  "IoError(Error \x7b kind: UnexpectedEof, message: \"failed to fill whole buffer\" \x7d)"

structure Poly (F : Type) where
  coefficients : List F

namespace Poly
variable {F : Type} [Field F]

/-- Every coefficient is drawn, the constant one included, which is then overwritten. -/
def randomPolynomialsWithSecret (draws : ℕ → F) (degree : ℕ) (secret : F) : Poly F :=
  ⟨((List.range (degree + 1)).map draws).set 0 secret⟩

def eval (p : Poly F) (x : F) : F := (p.coefficients.zipIdx.map fun ci => x ^ ci.2 * ci.1).sum

noncomputable def toPolynomial (p : Poly F) : Polynomial F := Shamir.ofCoeffs p.coefficients

theorem sum_zipIdx (x : F) (l : List F) (n : ℕ) :
    ((l.zipIdx n).map fun ci => x ^ ci.2 * ci.1).sum = x ^ n * (Shamir.ofCoeffs l).eval x := by
  induction l generalizing n with
  | nil => simp [Shamir.ofCoeffs]
  | cons c cs ih =>
    rw [List.zipIdx_cons, List.map_cons, List.sum_cons, ih, Shamir.ofCoeffs]
    simp only [Polynomial.eval_add, Polynomial.eval_C, Polynomial.eval_mul, Polynomial.eval_X]
    ring

theorem eval_eq (p : Poly F) (x : F) : p.eval x = p.toPolynomial.eval x := by
  rw [eval, sum_zipIdx, pow_zero, one_mul, toPolynomial]

theorem degree_toPolynomial_lt (p : Poly F) : p.toPolynomial.degree < p.coefficients.length :=
  Shamir.degree_ofCoeffs_lt _

omit [Field F] in
@[simp] theorem length_randomPolynomialsWithSecret (draws : ℕ → F) (degree : ℕ) (secret : F) :
    (randomPolynomialsWithSecret draws degree secret).coefficients.length = degree + 1 := by
  simp [randomPolynomialsWithSecret]

theorem eval_zero_randomPolynomialsWithSecret (draws : ℕ → F) (degree : ℕ) (secret : F) :
    (randomPolynomialsWithSecret draws degree secret).toPolynomial.eval 0 = secret := by
  rw [toPolynomial, Shamir.eval_zero_ofCoeffs, randomPolynomialsWithSecret, List.getD_eq_getElem _ _ (by simp)]
  simp

/-- The random source whose draws are the vector `a`, after a first one that nothing depends on. -/
def drawsOf {t : ℕ} (a : Fin t → F) (k : ℕ) : F := if h : k - 1 < t then a ⟨k - 1, h⟩ else 0

theorem toPolynomial_drawsOf [DecidableEq F] {t : ℕ} (a : Fin t → F) (secret : F) :
    (randomPolynomialsWithSecret (drawsOf a) t secret).toPolynomial =
      Polynomial.C secret + Polynomial.X * Polynomial.ofFn t a := by
  have hcoeffs : (randomPolynomialsWithSecret (drawsOf a) t secret).coefficients = secret :: List.ofFn a := by
    refine List.ext_getElem (by simp) fun k hk hk' => ?_
    rcases k with - | k
    · simp [randomPolynomialsWithSecret]
    · have hkt : k < t := by simpa using hk'
      simp [randomPolynomialsWithSecret, drawsOf, hkt]
  rw [toPolynomial, hcoeffs, Shamir.ofCoeffs, Shamir.ofCoeffs_ofFn]

end Poly

/-! ### Lagrange weights -/

section Lagrange
variable {ε F : Type} [Field F] [DecidableEq F]

/-- `Field::invert`. -/
def invert (x : F) : Option F := if x = 0 then none else some x⁻¹

def lagrangeBasisAt0 (i : ℕ) (indices : List ℕ) : Outcome ε F := do
  check (0 < i) "i must be greater than 0"
  indices.foldlM (fun acc j =>
    if j ≠ i then do
      let inv ← unwrap (invert ((j : F) - i)) unwrapNone
      pure (acc * j * inv)
    else pure acc) 1

theorem lagrangeBasisAt0_eq_prod {i : ℕ} {indices : List ℕ} (hi : 0 < i)
    (hne : ∀ j ∈ indices, j ≠ i → (j : F) ≠ i) :
    (lagrangeBasisAt0 i indices : Outcome ε F) =
      .ok ((indices.filter (· ≠ i)).map fun j : ℕ => (j : F) * ((j : F) - i)⁻¹).prod := by
  rw [lagrangeBasisAt0, check_of hi, bind_ok]
  have hstep : ∀ (acc : F), ∀ j ∈ indices,
      (if j ≠ i then do
        let inv ← unwrap (invert ((j : F) - i)) unwrapNone
        pure (acc * j * inv)
      else pure acc : Outcome ε F) = .ok (if j ≠ i then acc * ((j : F) * ((j : F) - i)⁻¹) else acc) := by
    intro acc j hj
    by_cases hji : j ≠ i
    · have hsub : (j : F) - i ≠ 0 := sub_ne_zero.2 (hne j hj hji)
      rw [if_pos hji, if_pos hji, invert, if_neg hsub, ← mul_assoc]
      rfl
    · rw [if_neg hji, if_neg hji]
      rfl
  rw [foldlM_eq_ok hstep, List.prod_eq_foldl, List.foldl_map, List.foldl_filter]
  simp only [decide_eq_true_eq]

theorem lagrangeBasisAt0_eq_weight {i : ℕ} {indices : List ℕ} (hi : 0 < i) (hnd : indices.Nodup)
    (hne : ∀ j ∈ indices, j ≠ i → (j : F) ≠ i) :
    (lagrangeBasisAt0 i indices : Outcome ε F) =
      .ok (Shamir.weight indices.toFinset (fun j : ℕ => (j : F)) i) := by
  rw [lagrangeBasisAt0_eq_prod hi hne, Shamir.weight_eq_prod]
  congr 1
  have hfilter : indices.toFinset.erase i = (indices.filter (· ≠ i)).toFinset := by
    ext j; simp [and_comm]
  rw [hfilter, List.prod_toFinset _ (hnd.filter _)]

end Lagrange

theorem lagrangeBasisAt0_u32 {ε : Type} {p : ℕ} [Fact p.Prime] (hp : 2 ^ 32 < p) {indices : List ℕ} (hnd : indices.Nodup)
    (hids : ∀ j ∈ indices, j < 2 ^ 32) {i : ℕ} (hpos : 0 < i) (hi : i < 2 ^ 32) :
    (lagrangeBasisAt0 i indices : Outcome ε (ZMod p)) =
      .ok (Shamir.weight indices.toFinset (fun j : ℕ => (j : ZMod p)) i) :=
  lagrangeBasisAt0_eq_weight hpos hnd fun j hj hji h =>
    hji (CharP.natCast_injOn_Iio (ZMod p) p ((hids j hj).trans hp) (hi.trans hp) h)

/-- In every prime field larger than `2 ^ 32`: the weights of a list of different indices recover the value at zero of every
polynomial of a degree below the number of the indices, each of them is computed without a panic, and the order of the
list has no part in it. -/
theorem lagrangeBasisAt0_exact {ε : Type} {p : ℕ} [Fact p.Prime] (hp : 2 ^ 32 < p) {indices : List ℕ} (hnd : indices.Nodup)
    (hids : ∀ i ∈ indices, 0 < i ∧ i < 2 ^ 32) :
    (∀ i ∈ indices, ∃ w, (lagrangeBasisAt0 i indices : Outcome ε (ZMod p)) = .ok w) ∧
    (∀ f : Poly (ZMod p), f.toPolynomial.degree < indices.length →
      (do
        let terms ← indices.mapM fun i => do return (← lagrangeBasisAt0 i indices) * f.eval (i : ZMod p)
        return terms.sum : Outcome ε (ZMod p)) = .ok (f.eval 0)) ∧
    ∀ indices', indices'.Perm indices → ∀ i < 2 ^ 32,
      (lagrangeBasisAt0 i indices' : Outcome ε (ZMod p)) = lagrangeBasisAt0 i indices := by
  have hlt : ∀ i ∈ indices, i < 2 ^ 32 := fun i hi => (hids i hi).2
  refine ⟨fun i hi => ⟨_, lagrangeBasisAt0_u32 hp hnd hlt (hids i hi).1 (hlt i hi)⟩, fun f hf => ?_,
    fun indices' hperm i hi => ?_⟩
  · have hterm : ∀ i ∈ indices, (do return (← lagrangeBasisAt0 i indices) * f.eval (i : ZMod p) : Outcome ε (ZMod p)) =
        .ok (Shamir.weight indices.toFinset (fun j : ℕ => (j : ZMod p)) i * f.toPolynomial.eval (i : ZMod p)) := by
      intro i hi
      rw [lagrangeBasisAt0_u32 hp hnd hlt (hids i hi).1 (hlt i hi), f.eval_eq]
      rfl
    have hinj : Set.InjOn (fun j : ℕ => (j : ZMod p)) indices.toFinset :=
      (CharP.natCast_injOn_Iio (ZMod p) p).mono fun j hj => (hlt j (List.mem_toFinset.1 hj)).trans hp
    rw [← List.toFinset_card_of_nodup hnd] at hf
    rw [mapM_eq_ok_map hterm, f.eval_eq, ← Shamir.sum_weight_mul_eval hinj hf, List.sum_toFinset _ hnd]
    rfl
  · rcases Nat.eq_zero_or_pos i with rfl | hpos
    · rfl
    have hlt' : ∀ j ∈ indices', j < 2 ^ 32 := fun j hj => hlt j (hperm.mem_iff.1 hj)
    rw [lagrangeBasisAt0_u32 hp (hperm.nodup_iff.2 hnd) hlt' hpos hi, lagrangeBasisAt0_u32 hp hnd hlt hpos hi,
      List.toFinset_eq_of_perm _ _ hperm]

theorem lagrangeBasisAt0_exact_line :
    (do
      let terms ← [3, 1, 4].mapM fun i => do
        return (← lagrangeBasisAt0 i [3, 1, 4]) * (Poly.mk [5, 7]).eval (i : ZMod (CurveId.order .secp256k1))
      return terms.sum : Outcome Error (CurveId.Scalar .secp256k1)) = .ok ((Poly.mk [5, 7]).eval 0) ∧
    (lagrangeBasisAt0 1 [1, 3, 4] : Outcome Error (CurveId.Scalar .secp256k1)) = lagrangeBasisAt0 1 [3, 1, 4] := by
  have hids : ∀ i ∈ [3, 1, 4], 0 < i ∧ i < 2 ^ 32 := by decide
  have hlarge : 2 ^ 32 < CurveId.order .secp256k1 := by decide
  obtain ⟨-, hsum, horder⟩ := lagrangeBasisAt0_exact (ε := Error) hlarge (by decide) hids
  exact ⟨hsum ⟨[5, 7]⟩ ((Poly.degree_toPolynomial_lt _).trans (by decide)), horder _ (by decide) 1 (by decide)⟩

theorem lagrangeBasisAt0_ids {ε : Type} {C : Curve} {ids : List ℕ} (hnd : ids.Nodup) (hids : ∀ k ∈ ids, 0 < k ∧ k < 2 ^ 32) {k : ℕ}
    (hk : k ∈ ids) : (lagrangeBasisAt0 k ids : Outcome ε C.FieldEl) =
      .ok (Shamir.weight ids.toFinset (fun j : ℕ => (j : C.FieldEl)) k) := by
  have hlarge : 2 ^ 32 < C.id.order := lt_trans (by decide) C.id.pow_lt_order
  exact lagrangeBasisAt0_u32 hlarge hnd (fun j hj => (hids j hj).2) (hids k hk).1 (hids k hk).2

/-! ### Dealing -/

section Feldman
variable {ε : Type} (C : Curve)

def feldmanVss {T : Type} (poly : Poly C.FieldEl) (set : HMap ℕ T) (t : ℕ) :
    Outcome ε (HMap ℕ C.FieldEl × List C.Point) := do
  -- evaluation of the polynomial for each index value included in the network
  let y := set.entries.foldl (fun y e => y.orInsert e.1 (poly.eval (e.1 : C.FieldEl))) ∅
  -- commitment of each of the polynomial coefficients
  let len := poly.coefficients.length
  let v ← (List.range t).mapM fun j => do
    let coeff ← unwrap poly.coefficients[j]? s!"index out of bounds: the len is {len} but the index is {j}"
    pure (C.scalarMul C.basePointOrGenerator coeff)
  pure (y, v)

def feldmanShares {T : Type} (poly : Poly C.FieldEl) (set : HMap ℕ T) : HMap ℕ C.FieldEl :=
  set.mapVal fun k _ => poly.eval (k : C.FieldEl)

def feldmanCommitments (poly : Poly C.FieldEl) : List C.Point :=
  poly.coefficients.map (C.scalarMul C.basePointOrGenerator)

theorem get?_feldmanShares {T : Type} (poly : Poly C.FieldEl) (set : HMap ℕ T) (k : ℕ) :
    (feldmanShares C poly set).get? k = (set.get? k).map fun _ => poly.toPolynomial.eval (k : C.FieldEl) := by
  rw [feldmanShares, HMap.get?_mapVal, ← Poly.eval_eq]

theorem feldmanVss_eq_ok {T : Type} {poly : Poly C.FieldEl} {t : ℕ} (set : HMap ℕ T)
    (ht : poly.coefficients.length = t) :
    (feldmanVss C poly set t : Outcome ε _) = .ok (feldmanShares C poly set, feldmanCommitments C poly) := by
  subst ht
  have hv : ∀ j ∈ List.range poly.coefficients.length,
      (unwrap poly.coefficients[j]?
          s!"index out of bounds: the len is {poly.coefficients.length} but the index is {j}" >>= fun coeff =>
        pure (C.scalarMul C.basePointOrGenerator coeff) : Outcome ε C.Point) =
      .ok (C.scalarMul C.basePointOrGenerator (poly.coefficients.getD j 0)) := by
    intro j hj
    rw [List.mem_range] at hj
    rw [List.getD_eq_getElem _ _ hj, List.getElem?_eq_getElem hj]
    rfl
  have hy : set.entries.foldl (fun y e => y.orInsert e.1 (poly.eval (e.1 : C.FieldEl))) ∅ =
      feldmanShares C poly set := HMap.foldl_orInsert (fun (k : ℕ) _ => poly.eval (k : C.FieldEl)) set
  have hmap : (List.range poly.coefficients.length).map
      (fun j => C.scalarMul C.basePointOrGenerator (poly.coefficients.getD j 0)) =
      feldmanCommitments C poly := by
    refine List.ext_getElem (by simp [feldmanCommitments]) fun j hj _ => ?_
    have hj' : j < poly.coefficients.length := by simpa using hj
    simp [feldmanCommitments, List.getElem?_eq_getElem hj']
  rw [feldmanVss, mapM_eq_ok_map hv, bind_ok, hy, hmap, pure_eq_ok]

end Feldman

/-! ### Verification -/

/-- How the program was built: with overflow checks, or without them, as releases are. -/
inductive Profile where
  | debug
  | release
deriving DecidableEq, Repr

def mulU128 {ε : Type} (prof : Profile) (a b : ℕ) : Outcome ε ℕ :=
  if a * b < 2 ^ 128 then .ok (a * b)
  else match prof with
    | .debug => crash "attempt to multiply with overflow"
    | .release => .ok (a * b % 2 ^ 128)

section Verify
variable {ε : Type} (C : Curve)

/-- One iteration of the loop over the commitments, on `(accum, exp)`. -/
def verifyVssStep (prof : Profile) (index : ℕ) (st : C.Point × ℕ) (i : C.Point) :
    Outcome ε (C.Point × ℕ) := do
  let exp ← mulU128 prof st.2 index
  let temp : C.FieldEl := exp
  let res2 := C.scalarMul i temp
  pure (C.addSelf st.1 res2, exp)

def verifyVss (prof : Profile) (index : ℕ) (share : C.FieldEl) (checks : List C.Point) : Outcome ε Bool := do
  let res := C.scalarMul C.basePointOrGenerator share
  match checks with
  | [] => crash "index out of bounds: the len is 0 but the index is 0"
  | v0 :: cop =>
    let st ← cop.foldlM (verifyVssStep C prof index) (v0, 1)
    pure (decide (res = st.1))

theorem mulU128_of_lt (prof : Profile) {a b : ℕ} (h : a * b < 2 ^ 128) :
    (mulU128 prof a b : Outcome ε ℕ) = .ok (a * b) := if_pos h

theorem mulU128_release (a b : ℕ) : (mulU128 .release a b : Outcome ε ℕ) = .ok (a * b % 2 ^ 128) := by
  unfold mulU128
  split
  next h => rw [Nat.mod_eq_of_lt h]
  next => rfl

theorem pow_lt_of_pow_lt {index k n M : ℕ} (hM : 1 < M) (hk : k ≤ n) (h : index ^ n < M) : index ^ k < M := by
  rcases Nat.eq_zero_or_pos index with rfl | hpos
  · rcases Nat.eq_zero_or_pos k with rfl | hk0
    · simpa using hM
    · rw [zero_pow hk0.ne']; omega
  · exact (Nat.pow_le_pow_right hpos hk).trans_lt h

theorem errorsIn_verifyVss {p : ε → Prop} (prof : Profile) (index : ℕ) (share : C.FieldEl) (checks : List C.Point) :
    ErrorsIn p (verifyVss C prof index share checks) := by
  cases checks with
  | nil => exact .crash _
  | cons v0 cop =>
    refine ErrorsIn.bind (.foldlM (fun st i _ => ErrorsIn.bind ?_ fun _ _ => .ok _) _) fun _ _ => .ok _
    unfold mulU128
    split
    · exact .ok _
    · cases prof with
      | debug => exact .crash _
      | release => exact .ok _

variable [C.PrimeOrder]

theorem verifyVss_loop_release (index e : ℕ) (acc : C.Point) (vs : List C.Point) :
    ∃ e', (vs.foldlM (verifyVssStep C .release index) (acc, e % 2 ^ 128) : Outcome ε _) =
      .ok (acc + ∑ k ∈ Finset.range vs.length,
        ((e * index ^ (k + 1) % 2 ^ 128 : ℕ) : C.FieldEl) • vs.getD k 0, e') := by
  induction vs generalizing e acc with
  | nil => exact ⟨e % 2 ^ 128, by simp [pure_eq_ok]⟩
  | cons v vs ih =>
    obtain ⟨e', ih⟩ := ih (e * index) (acc + ((e * index % 2 ^ 128 : ℕ) : C.FieldEl) • v)
    refine ⟨e', ?_⟩
    have hstep : (verifyVssStep C .release index (acc, e % 2 ^ 128) v : Outcome ε _) =
        .ok (acc + ((e * index % 2 ^ 128 : ℕ) : C.FieldEl) • v, e * index % 2 ^ 128) := by
      rw [verifyVssStep, mulU128_release, bind_ok, Nat.mod_mul_mod, pure_eq_ok]
      simp
    rw [List.foldlM_cons, hstep, bind_ok, ih, List.length_cons, Finset.sum_range_succ', add_assoc,
      add_comm (_ • v)]
    simp [pow_succ', mul_assoc]

omit [C.PrimeOrder] in
theorem verifyVss_loop_debug {index e : ℕ} (he : e < 2 ^ 128) (acc : C.Point) (vs : List C.Point)
    {r : C.Point × ℕ} :
    (vs.foldlM (verifyVssStep C .debug index) (acc, e) : Outcome ε _) = .ok r ↔
      (∀ k ≤ vs.length, e * index ^ k < 2 ^ 128) ∧
        (vs.foldlM (verifyVssStep C .release index) (acc, e) : Outcome ε _) = .ok r := by
  induction vs generalizing e acc with
  | nil => simpa using fun _ => he
  | cons v vs ih =>
    rw [List.foldlM_cons, List.foldlM_cons]
    rcases Nat.lt_or_ge (e * index) (2 ^ 128) with hlt | hge
    · have hstep : ∀ prof, (verifyVssStep C prof index (acc, e) v : Outcome ε _) =
          .ok (acc + C.scalarMul v ((e * index : ℕ) : C.FieldEl), e * index) := fun prof => by
        rw [verifyVssStep, mulU128_of_lt prof hlt, bind_ok, pure_eq_ok, C.addSelf_eq]
      rw [hstep, hstep, bind_ok, bind_ok, ih hlt]
      refine and_congr_left fun _ => ⟨fun h k hk => ?_, fun h k hk => ?_⟩
      · cases k with
        | zero => simpa using he
        | succ k => simpa [pow_succ', mul_assoc] using h k (by simpa using hk)
      · simpa [pow_succ', mul_assoc] using h (k + 1) (by simpa using hk)
    · have hcrash : (verifyVssStep C .debug index (acc, e) v : Outcome ε _) =
          crash "attempt to multiply with overflow" := by
        rw [verifyVssStep, mulU128, if_neg (Nat.not_lt.2 hge)]
        rfl
      rw [hcrash]
      refine iff_of_false (by simp [crash]) fun h => ?_
      exact absurd (h.1 1 (by simp)) (by simpa using hge)

theorem verifyVss_release {index : ℕ} {share : C.FieldEl} {checks : List C.Point} (hne : checks ≠ []) :
    (verifyVss C .release index share checks : Outcome ε Bool) =
      .ok (decide (share • C.basePointOrGenerator = ∑ k ∈ Finset.range checks.length,
        ((index ^ k % 2 ^ 128 : ℕ) : C.FieldEl) • checks.getD k 0)) := by
  cases checks with
  | nil => exact absurd rfl hne
  | cons v0 cop =>
    obtain ⟨e', hloop⟩ := verifyVss_loop_release (ε := ε) C index 1 v0 cop
    rw [Nat.one_mod_two_pow (by decide)] at hloop
    simp only [verifyVss, hloop, bind_ok, pure_eq_ok, C.scalarMul_eq_smul, one_mul]
    rw [List.length_cons, Finset.sum_range_succ', add_comm v0]
    simp

omit [C.PrimeOrder] in
/-- With overflow checks the verdict is that of a release, given only when every power fits. -/
theorem verifyVss_debug {index : ℕ} {share : C.FieldEl} {checks : List C.Point} {b : Bool} :
    (verifyVss C .debug index share checks : Outcome ε Bool) = .ok b ↔
      index ^ (checks.length - 1) < 2 ^ 128 ∧
        (verifyVss C .release index share checks : Outcome ε Bool) = .ok b := by
  cases checks with
  | nil => simp [verifyVss, crash]
  | cons v0 cop =>
    simp only [verifyVss, bind_eq_ok, verifyVss_loop_debug C (show 1 < 2 ^ 128 by decide), one_mul,
      List.length_cons, Nat.add_sub_cancel]
    constructor
    · rintro ⟨st, ⟨hfits, hst⟩, hb⟩
      exact ⟨hfits _ le_rfl, st, hst, hb⟩
    · rintro ⟨hfits, st, hst, hb⟩
      exact ⟨st, ⟨fun k hk => pow_lt_of_pow_lt (by decide) hk hfits, hst⟩, hb⟩

end Verify

end HumanNetwork
