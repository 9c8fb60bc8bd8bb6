import HumanNetwork.Polynomial
import HumanNetwork.CoordinateField
import HumanNetwork.Lib.Edwards
import HumanNetwork.Lib.Montgomery
import HumanNetwork.Lib.PrimeSubgroup
import Mathlib.NumberTheory.LegendreSymbol.Basic

/-!
# The points of BabyJubJub (`curve.rs`)

The curve is `x² + y² = 1 + d x² y²`. The code holds a coordinate in Montgomery form, and reads the limbs of `y` from a
byte string as they are. So an `Affine` has coordinates that need not be reduced, and several of them stand for one point
of the curve (`CurveAffine.toPoint`). Arithmetic depends on the residues only and returns reduced coordinates, while
`==`, the test for the identity and `encode` look at the limbs.

Which root of a square the library returns is a parameter (`SquareRoots`). Nothing depends on it: of the two points with
one `y`, the flag of an encoding picks the one with the smaller or the larger `x` (`getPointFromYUnchecked_eq_some`).

`babyJubJub` is the curve with these encodings and the points as a group. The scalars count the multiples of the
generator, which are not all points: the cofactor is 8.
-/

namespace HumanNetwork
open Outcome

namespace BabyJubJub

abbrev Coordinate := CurveId.Coordinate .babyJubJub

abbrev prime : ℕ := CurveId.coordinatePrime .babyJubJub

abbrev order : ℕ := CurveId.order .babyJubJub

instance : MontgomeryModulus prime where
  out := CurveId.coordinatePrime_prime _
  lt := CurveId.coordinatePrime_lt_pow _
  ne_two := by decide

/-- `COEFF_D`. `COEFF_A` is 1. -/
def coeffD : Coordinate :=
  ((9706598848417545097372247223557719406784115219466060233080913168975159366771 : ℕ) : Coordinate)

theorem not_isSquare_coeffD : ¬ IsSquare coeffD := by
  have hne : coeffD ≠ 0 := by decide +kernel
  have hle : prime / 2 ≤ prime := Nat.div_le_self _ _
  rw [ZMod.euler_criterion prime hne, coeffD, ← Pratt.isOnePow_iff hle]
  decide +kernel

def curve : EdwardsCurve Coordinate where
  d := coeffD
  not_isSquare := not_isSquare_coeffD
  two_ne_zero := by decide +kernel

abbrev Point := curve.Point

/-! ### The two points with one `y` -/

structure SquareRoots where
  sqrt : Coordinate → Option Coordinate
  mul_self_of_sqrt : ∀ {a r}, sqrt a = some r → r * r = a
  exists_sqrt : ∀ r, ∃ r', sqrt (r * r) = some r'

open Classical in
noncomputable def SquareRoots.chosen : SquareRoots where
  sqrt a := if h : ∃ r, r * r = a then some h.choose else none
  mul_self_of_sqrt := by
    intro a r h
    split at h
    next hr => exact Option.some.inj h ▸ hr.choose_spec
    next => cases h
  exists_sqrt r := by
    have hr : ∃ r', r' * r' = r * r := ⟨r, rfl⟩
    exact ⟨hr.choose, dif_pos hr⟩

variable (lib : SquareRoots)

/-- `get_xs_from_y_unchecked`: the smaller one first. -/
def xsFromY (y : Coordinate) : Option (Coordinate × Coordinate) :=
  let y2 := y * y
  let numerator := 1 - y2
  let denominator := 1 - y2 * coeffD
  if denominator = 0 then none
  else (lib.sqrt (denominator⁻¹ * numerator)).map fun x => if x.val ≤ (-x).val then (x, -x) else (-x, x)

def Picked (greatest : Bool) (x : Coordinate) : Prop :=
  if greatest then (-x).val ≤ x.val else x.val ≤ (-x).val

instance (greatest : Bool) (x : Coordinate) : Decidable (Picked greatest x) := by
  unfold Picked
  infer_instance

def isGreatest (x : Coordinate) : Bool := (-x).val < x.val

variable {greatest : Bool} {x x' y : Coordinate}

theorem picked_isGreatest (x : Coordinate) : Picked (isGreatest x) x := by
  unfold Picked isGreatest
  split <;> simp_all [le_of_lt]

theorem neg_eq_self_iff : -x = x ↔ x = 0 := by
  refine ⟨fun h => ?_, fun h => by rw [h, neg_zero]⟩
  have htwo : 2 * x = 0 := by linear_combination -h
  exact (mul_eq_zero.1 htwo).resolve_left curve.two_ne_zero

theorem Picked.eq_isGreatest (h : Picked greatest x) (hx : x ≠ 0) : greatest = isGreatest x := by
  have hne : (-x).val ≠ x.val := fun hval => hx (neg_eq_self_iff.1 (ZMod.val_injective _ hval))
  cases greatest with
  | false => exact (decide_eq_false (not_lt.2 h)).symm
  | true => exact (decide_eq_true (lt_of_le_of_ne h hne)).symm

theorem Picked.eq (h : Picked greatest x) (h' : Picked greatest x') (hsq : x' = x ∨ x' = -x) : x' = x := by
  rcases hsq with rfl | rfl
  · rfl
  -- both orders hold, so `x` and `-x` are the same number
  · refine ZMod.val_injective _ ?_
    cases greatest <;> simp only [Picked, neg_neg, Bool.false_eq_true, if_true, if_false] at h h' <;> omega

theorem xsFromY_cases (y : Coordinate) : (xsFromY lib y = none ∧ ∀ x, ¬ curve.OnCurve x y) ∨
    ∃ x, xsFromY lib y = some (x, -x) ∧ curve.OnCurve x y ∧ Picked false x := by
  have hden : 1 - y * y * coeffD ≠ 0 := by
    have h := curve.one_sub_mul_sq_ne_zero y
    rwa [pow_two, mul_comm] at h
  have hiff : ∀ x, curve.OnCurve x y ↔ x * x = (1 - y * y * coeffD)⁻¹ * (1 - y * y) := by
    intro x
    rw [EdwardsCurve.onCurve_iff, pow_two, pow_two, mul_comm curve.d, div_eq_inv_mul]
    rfl
  simp only [xsFromY, if_neg hden]
  cases hroot : lib.sqrt ((1 - y * y * coeffD)⁻¹ * (1 - y * y)) with
  | none =>
    refine .inl ⟨rfl, fun x hx => ?_⟩
    obtain ⟨r, hr⟩ := lib.exists_sqrt x
    rw [(hiff x).1 hx, hroot] at hr
    cases hr
  | some r =>
    have hon : curve.OnCurve r y := (hiff r).2 (lib.mul_self_of_sqrt hroot)
    have hneg : curve.OnCurve (-r) y := (hiff (-r)).2 (by rw [neg_mul_neg, lib.mul_self_of_sqrt hroot])
    rw [Option.map_some]
    by_cases hle : r.val ≤ (-r).val
    · exact .inr ⟨r, by rw [if_pos hle], hon, hle⟩
    · refine .inr ⟨-r, by rw [if_neg hle, neg_neg], hneg, ?_⟩
      show (-r).val ≤ (-(-r)).val
      rw [neg_neg]
      omega

/-! ### Points with limbs -/

structure Affine where
  x : Montgomery prime
  y : Montgomery prime
deriving DecidableEq

namespace Affine

def OnCurve (p : Affine) : Prop := curve.OnCurve p.x.value p.y.value

instance : DecidablePred OnCurve := fun p => inferInstanceAs (Decidable (curve.OnCurve p.x.value p.y.value))

def zero : Affine := ⟨.ofValue 0, .ofValue 1⟩

structure Reduced (p : Affine) : Prop where
  x : p.x.Reduced
  y : p.y.Reduced

end Affine

abbrev CurveAffine := { p : Affine // p.OnCurve }

namespace CurveAffine

def toPoint (p : CurveAffine) : Point := ⟨p.1.x.value, p.1.y.value, p.2⟩

theorem onCurve_ofPoint (P : Point) : (Affine.mk (.ofValue P.x) (.ofValue P.y)).OnCurve := by
  show curve.OnCurve (Montgomery.ofValue P.x).value (Montgomery.ofValue P.y).value
  rw [Montgomery.value_ofValue, Montgomery.value_ofValue]
  exact P.onCurve

def ofPoint (P : Point) : CurveAffine := ⟨⟨.ofValue P.x, .ofValue P.y⟩, onCurve_ofPoint P⟩

@[simp] theorem toPoint_ofPoint (P : Point) : (ofPoint P).toPoint = P :=
  EdwardsCurve.Point.ext (Montgomery.value_ofValue _) (Montgomery.value_ofValue _)

theorem reduced_ofPoint (P : Point) : (ofPoint P).1.Reduced :=
  ⟨Montgomery.reduced_ofValue _, Montgomery.reduced_ofValue _⟩

theorem eq_ofPoint_iff {p : CurveAffine} {P : Point} : p = ofPoint P ↔ p.1.Reduced ∧ p.toPoint = P := by
  constructor
  · rintro rfl
    exact ⟨reduced_ofPoint P, toPoint_ofPoint P⟩
  · rintro ⟨hred, rfl⟩
    refine Subtype.ext ?_
    rw [ofPoint, Affine.mk.injEq]
    exact ⟨(Montgomery.ofValue_value_iff.2 hred.x).symm, (Montgomery.ofValue_value_iff.2 hred.y).symm⟩

theorem ofPoint_eq_zero_iff {P : Point} : (ofPoint P).1 = Affine.zero ↔ P = 0 := by
  have hzero : Affine.zero = (ofPoint 0).1 := rfl
  rw [hzero, Subtype.coe_inj, eq_ofPoint_iff, toPoint_ofPoint, and_iff_right (reduced_ofPoint P)]

end CurveAffine

def getPointFromYUnchecked (y : Montgomery prime) (greatest : Bool) : Option Affine :=
  (xsFromY lib y.value).map fun xs => ⟨.ofValue (if greatest then xs.2 else xs.1), y⟩

/-- What the function returns does not depend on the root that the library finds. -/
theorem getPointFromYUnchecked_eq_some {y : Montgomery prime} {p : Affine} :
    getPointFromYUnchecked lib y greatest = some p ↔
      p.OnCurve ∧ p.y = y ∧ p.x.Reduced ∧ Picked greatest p.x.value := by
  rw [getPointFromYUnchecked]
  rcases xsFromY_cases lib y.value with ⟨hnone, hnot⟩ | ⟨x, hsome, hx, hpick⟩
  · rw [hnone]
    refine iff_of_false (by simp) ?_
    rintro ⟨hon, rfl, -⟩
    exact hnot _ hon
  have hon : curve.OnCurve (if greatest then -x else x) y.value := by
    split
    · exact (-(⟨x, y.value, hx⟩ : Point)).onCurve
    · exact hx
  have hpick : Picked greatest (if greatest then -x else x) := by
    cases greatest with
    | false => exact hpick
    | true => simpa [Picked] using hpick
  rw [hsome, Option.map_some, Option.some.injEq]
  generalize (if greatest then -x else x) = x' at hon hpick
  constructor
  · rintro rfl
    refine ⟨?_, rfl, Montgomery.reduced_ofValue _, ?_⟩
    · show curve.OnCurve (Montgomery.ofValue _).value y.value
      rwa [Montgomery.value_ofValue]
    · rwa [Montgomery.value_ofValue]
  · rintro ⟨hp, rfl, hred, hp'⟩
    have heq : p.x.value = x' := hpick.eq hp' (EdwardsCurve.x_eq_or_eq_neg hp hon)
    rw [← heq, Montgomery.ofValue_value_iff.2 hred]

/-! ### Encodings -/

inductive BincodeError where
  | unexpectedEof
  | invalidBoolEncoding (byte : UInt8)

def BincodeError.debug : BincodeError → String
  | unexpectedEof => "Io(Custom \x7b kind: UnexpectedEof, error: \"\" \x7d)"
  | invalidBoolEncoding byte => "InvalidBoolEncoding(" ++ toString byte ++ ")"

structure EncodedBabyJubJubPoint where
  greatest : Bool
  y : Bytes

namespace EncodedBabyJubJubPoint

def serialize (e : EncodedBabyJubJubPoint) : Bytes := CurveId.compressed .babyJubJub e.greatest e.y

/-- `bincode::deserialize`: bytes behind the point are ignored. -/
def deserialize : Bytes → Outcome BincodeError EncodedBabyJubJubPoint
  | [] => fail .unexpectedEof
  | flag :: rest =>
    let y := (rest.drop 8).take (Bytes.ofLe (rest.take 8))
    if 1 < flag then fail (.invalidBoolEncoding flag)
    else if rest.length < 8 ∨ y.length < Bytes.ofLe (rest.take 8) then fail .unexpectedEof
    else .ok ⟨flag = 1, y⟩

theorem deserialize_serialize_append {e : EncodedBabyJubJubPoint} (he : e.y.length < 256 ^ 8) (trailing : Bytes) :
    deserialize (e.serialize ++ trailing) = .ok e := by
  obtain ⟨greatest, y⟩ := e
  have hlen : (Bytes.toLe 8 y.length).length = 8 := Bytes.length_toLe _ _
  have htake : (Bytes.toLe 8 y.length ++ (y ++ trailing)).take 8 = Bytes.toLe 8 y.length := List.take_left' hlen
  have hdrop : (Bytes.toLe 8 y.length ++ (y ++ trailing)).drop 8 = y ++ trailing := List.drop_left' hlen
  have hof : Bytes.ofLe (Bytes.toLe 8 y.length) = y.length := Bytes.ofLe_toLe he
  have hy : (y ++ trailing).take y.length = y := List.take_left
  have hflag : ¬ 1 < (if greatest then 1 else 0 : UInt8) := by cases greatest <;> decide
  have hshort : ¬ ((Bytes.toLe 8 y.length ++ (y ++ trailing)).length < 8 ∨ y.length < y.length) := by
    rw [List.length_append, hlen]
    omega
  simp only [serialize, CurveId.compressed, List.cons_append, List.append_assoc, deserialize, htake, hdrop, hof, hy,
    if_neg hflag, if_neg hshort]
  cases greatest <;> rfl

theorem deserialize_eq_ok {b : Bytes} {e : EncodedBabyJubJubPoint} :
    deserialize b = .ok e ↔ e.y.length < 256 ^ 8 ∧ ∃ trailing, b = e.serialize ++ trailing := by
  constructor
  · intro h
    cases b with
    | nil => cases h
    | cons flag rest =>
      simp only [deserialize] at h
      split at h
      next => cases h
      next hflag =>
      split at h
      next => cases h
      next hlen =>
      obtain rfl := Except.ok.inj h
      have hflag : flag = if flag = 1 then 1 else 0 := by
        split
        next h => exact h
        next h =>
          rw [← UInt8.toNat_inj] at h ⊢
          rw [UInt8.lt_iff_toNat_lt] at hflag
          simp at h hflag ⊢
          omega
      have htake : (rest.take 8).length = 8 := by
        rw [List.length_take]
        omega
      have hy : ((rest.drop 8).take (Bytes.ofLe (rest.take 8))).length = Bytes.ofLe (rest.take 8) :=
        le_antisymm (List.length_take_le _ _) (by omega)
      have hpow : Bytes.ofLe (rest.take 8) < 256 ^ 8 := (Bytes.ofLe_lt _).trans_eq (by rw [htake])
      refine ⟨by rwa [hy], (rest.drop 8).drop (Bytes.ofLe (rest.take 8)), ?_⟩
      have hprefix : Bytes.toLe 8 (Bytes.ofLe (rest.take 8)) = rest.take 8 := by
        have h := Bytes.toLe_ofLe (rest.take 8)
        rwa [htake] at h
      simp only [serialize, CurveId.compressed, decide_eq_true_eq, List.cons_append, List.append_assoc, hy, hprefix,
        List.take_append_drop, ← hflag]
  · rintro ⟨he, trailing, rfl⟩
    exact deserialize_serialize_append he trailing

end EncodedBabyJubJubPoint

def findX (options : Coordinate × Coordinate) (x : Montgomery prime) : Outcome Error Bool :=
  if .ofValue options.1 = x then .ok false
  else if .ofValue options.2 = x then .ok true
  else crash "Point not on curve"

/-- The limbs of `y` are written as they are. -/
def encode (p : Affine) : Outcome Error Bytes := do
  check (p ≠ .zero) unwrapNone
  let options ← unwrap (xsFromY lib p.y.value) unwrapNone
  let greatest ← findX options p.x
  return EncodedBabyJubJubPoint.serialize ⟨greatest, p.y.writeLe⟩

def fromEncoded (encoded : Bytes) : Outcome Error CurveAffine := do
  let encoded ← unwrapOk BincodeError.debug (EncodedBabyJubJubPoint.deserialize encoded)
  let y ← unwrap (Montgomery.readLe encoded.y) shortLimbs
  match getPointFromYUnchecked lib y encoded.greatest with
  | some p => if h : p.OnCurve then pure ⟨p, h⟩ else fail .invalidInput
  | none => fail .invalidInput

variable {lib} {b : Bytes} {p : CurveAffine}

theorem fromEncoded_eq_ok : fromEncoded lib b = .ok p ↔ ∃ e, EncodedBabyJubJubPoint.deserialize b = .ok e ∧
    Montgomery.readLe e.y = some p.1.y ∧ p.1.x.Reduced ∧ Picked e.greatest p.1.x.value := by
  simp only [fromEncoded, bind_eq_ok, unwrapOk_eq_ok, unwrap_eq_ok]
  refine exists_congr fun e => and_congr_right fun _ => ?_
  constructor
  · rintro ⟨y, hy, h⟩
    split at h
    next q hq =>
      obtain ⟨hon, rfl, hred, hpick⟩ := (getPointFromYUnchecked_eq_some lib).1 hq
      rw [dif_pos hon] at h
      obtain rfl := Except.ok.inj h
      exact ⟨hy, hred, hpick⟩
    next => cases h
  · rintro ⟨hy, hred, hpick⟩
    refine ⟨_, hy, ?_⟩
    rw [(getPointFromYUnchecked_eq_some lib).2 ⟨p.2, rfl, hred, hpick⟩]
    exact dif_pos p.2

theorem length_writeLe_lt (y : Montgomery prime) : y.writeLe.length < 256 ^ 8 := by
  rw [Montgomery.writeLe, Bytes.length_toLe]
  decide

theorem deserialize_writeLe (greatest : Bool) (y : Montgomery prime) (trailing : Bytes) :
    EncodedBabyJubJubPoint.deserialize (EncodedBabyJubJubPoint.serialize ⟨greatest, y.writeLe⟩ ++ trailing) =
      .ok ⟨greatest, y.writeLe⟩ :=
  EncodedBabyJubJubPoint.deserialize_serialize_append (length_writeLe_lt y) trailing

theorem fromEncoded_serialize_append {y : Montgomery prime} (trailing : Bytes) :
    fromEncoded lib (EncodedBabyJubJubPoint.serialize ⟨greatest, y.writeLe⟩ ++ trailing) = .ok p ↔
      p.1.y = y ∧ p.1.x.Reduced ∧ Picked greatest p.1.x.value := by
  rw [fromEncoded_eq_ok, deserialize_writeLe]
  simp only [Except.ok.injEq, exists_eq_left', Montgomery.readLe_writeLe, Option.some.injEq]
  exact and_congr_left fun _ => eq_comm

theorem fromEncoded_serialize {y : Montgomery prime} :
    fromEncoded lib (EncodedBabyJubJubPoint.serialize ⟨greatest, y.writeLe⟩) = .ok p ↔
      p.1.y = y ∧ p.1.x.Reduced ∧ Picked greatest p.1.x.value := by
  have h : fromEncoded lib (EncodedBabyJubJubPoint.serialize ⟨greatest, y.writeLe⟩ ++ []) = .ok p ↔ _ :=
    fromEncoded_serialize_append []
  rwa [List.append_nil] at h

theorem fromEncoded_noPanic_iff :
    NoPanic (fromEncoded lib b) ↔ ∃ e, EncodedBabyJubJubPoint.deserialize b = .ok e ∧ 32 ≤ e.y.length := by
  have hpoint : ∀ (y : Montgomery prime) (greatest : Bool), NoPanic (match getPointFromYUnchecked lib y greatest with
      | some p => if h : p.OnCurve then pure ⟨p, h⟩ else fail .invalidInput
      | none => fail .invalidInput : Outcome Error CurveAffine) := by
    intro y greatest
    split
    · split
      · exact .ok _
      · exact .fail _
    · exact .fail _
  rw [fromEncoded, noPanic_bind, noPanic_unwrapOk]
  simp only [unwrapOk_eq_ok, noPanic_unwrap_bind, hpoint, and_true]
  constructor
  · rintro ⟨⟨e, he⟩, hread⟩
    obtain ⟨y, hy⟩ := hread e he
    exact ⟨e, he, (Montgomery.readLe_eq_some.1 hy).1⟩
  · rintro ⟨e, he, hlen⟩
    refine ⟨⟨e, he⟩, fun e' he' => ?_⟩
    obtain rfl := Except.ok.inj (he.symm.trans he')
    exact ⟨_, dif_pos hlen⟩

theorem findX_eq_ok {a : Montgomery prime} (hpick : Picked false x) (hx : a.value = x ∨ a.value = -x) :
    findX (x, -x) a = .ok greatest ↔ a.Reduced ∧ greatest = isGreatest a.value := by
  have hle : x.val ≤ (-x).val := hpick
  have hoption : ∀ v, Montgomery.ofValue v = a ↔ a.Reduced ∧ a.value = v :=
    fun v => eq_comm.trans Montgomery.eq_ofValue_iff
  unfold findX
  by_cases hred : a.Reduced
  · by_cases hfirst : a.value = x
    · have hflag : isGreatest a.value = false := by
        rw [hfirst]
        exact decide_eq_false (by omega)
      rw [if_pos ((hoption x).2 ⟨hred, hfirst⟩), Except.ok.injEq, hflag, and_iff_right hred]
      exact eq_comm
    · have hsecond : a.value = -x := hx.resolve_left hfirst
      have hflag : isGreatest a.value = true := by
        have hne : x.val ≠ (-x).val := fun h => hfirst (hsecond.trans (ZMod.val_injective _ h).symm)
        rw [hsecond, isGreatest, neg_neg]
        exact decide_eq_true (by omega)
      rw [if_neg fun h => hfirst ((hoption x).1 h).2, if_pos ((hoption (-x)).2 ⟨hred, hsecond⟩), Except.ok.injEq, hflag,
        and_iff_right hred]
      exact eq_comm
  · rw [if_neg fun h => hred ((hoption x).1 h).1, if_neg fun h => hred ((hoption (-x)).1 h).1]
    exact iff_of_false (fun h => by cases h) fun h => hred h.1

theorem encode_eq_ok : encode lib p.1 = .ok b ↔ p.1 ≠ .zero ∧ p.1.x.Reduced ∧
    b = EncodedBabyJubJubPoint.serialize ⟨isGreatest p.1.x.value, p.1.y.writeLe⟩ := by
  rcases xsFromY_cases lib p.1.y.value with ⟨-, hnot⟩ | ⟨x, hsome, hon, hpick⟩
  · exact absurd p.2 (hnot _)
  rw [encode, hsome]
  constructor
  · intro h
    obtain ⟨_, hzero, h⟩ := bind_eq_ok.1 h
    obtain ⟨options, hoptions, h⟩ := bind_eq_ok.1 h
    obtain rfl := Option.some.inj (unwrap_eq_ok.1 hoptions)
    obtain ⟨greatest, hfind, h⟩ := bind_eq_ok.1 h
    obtain ⟨hred, rfl⟩ := (findX_eq_ok hpick (EdwardsCurve.x_eq_or_eq_neg p.2 hon)).1 hfind
    exact ⟨check_eq_ok.1 hzero, hred, (Except.ok.inj h).symm⟩
  · rintro ⟨hzero, hred, rfl⟩
    have hfind := (findX_eq_ok hpick (EdwardsCurve.x_eq_or_eq_neg p.2 hon)).2 ⟨hred, rfl⟩
    exact bind_eq_ok.2 ⟨(), check_eq_ok.2 hzero, bind_eq_ok.2 ⟨_, unwrap_eq_ok.2 rfl, bind_eq_ok.2 ⟨_, hfind, rfl⟩⟩⟩

theorem fromEncoded_encode (h : encode lib p.1 = .ok b) : fromEncoded lib b = .ok p := by
  obtain ⟨-, hred, rfl⟩ := encode_eq_ok.1 h
  exact fromEncoded_serialize.2 ⟨rfl, hred, picked_isGreatest _⟩

/-! ### The subgroup of the generator -/

def sqrtA : Coordinate :=
  ((7214280148105020021932206872019688659210616427216992810330019057549499971851 : ℕ) : Coordinate)

def generatorX : Coordinate :=
  ((5299619240641551281634865583518297030282874472190772894086521144482721001553 : ℕ) : Coordinate) * sqrtA

def generatorY : Coordinate :=
  ((16950150798460657717958625567821834550301663161624707787222815936182638968203 : ℕ) : Coordinate)

/-- `BABYJUB_BASE_POINT`, by `twisted_to_edwards`. -/
def generator : Point := ⟨generatorX, generatorY, by decide +kernel⟩

theorem generator_ne_zero : generator ≠ 0 := by
  intro h
  have hx : generatorX = 0 := congrArg EdwardsCurve.Point.x h
  exact absurd hx (by decide +kernel)

theorem order_nsmul_eq_zero (P : Point) (h : let T := EdwardsCurve.Projective.smul coeffD ⟨P.x, P.y, 1⟩ 251 order
    T.X = 0 ∧ T.Y = T.Z) : order • P = 0 := by
  have hone : (EdwardsCurve.Projective.mk P.x P.y 1).Represents P :=
    ⟨one_ne_zero, (mul_one _).symm, (mul_one _).symm⟩
  have hlt : order < 2 ^ 251 := by decide
  exact (hone.smul hlt).eq_zero_iff.2 h

theorem order_nsmul_generator : order • generator = 0 := order_nsmul_eq_zero generator (by decide +kernel)

theorem point_injective : Function.Injective fun P : Point => (P.y, isGreatest P.x) := by
  intro P P' h
  obtain ⟨hy, hflag⟩ : P.y = P'.y ∧ isGreatest P.x = isGreatest P'.x := by simpa using h
  have hpick := picked_isGreatest P.x
  rw [hflag] at hpick
  have hx := EdwardsCurve.x_eq_or_eq_neg (hy ▸ P.onCurve) P'.onCurve
  exact EdwardsCurve.Point.ext ((picked_isGreatest P'.x).eq hpick hx) hy

instance : Finite Point := Finite.of_injective _ point_injective

theorem card_lt : Nat.card Point < order ^ 2 := by
  refine (Nat.card_le_card_of_injective _ point_injective).trans_lt ?_
  rw [Nat.card_prod, Nat.card_zmod, Nat.card_eq_fintype_card, Fintype.card_bool]
  decide

/-- `is_in_correct_subgroup_assuming_on_curve`. -/
def isInSubgroup (P : Point) : Bool := order • P = 0

/-! ### Arithmetic with limbs -/

abbrev Scalar := CurveId.Scalar .babyJubJub

instance : MontgomeryModulus order where
  out := CurveId.order_prime _
  lt := CurveId.order_lt_pow _
  ne_two := by decide

abbrev Fr := Montgomery order

def basePointOrGenerator : CurveAffine := .ofPoint generator

/-- `mul_bigint` of the number that the limbs are taken for, which is the order for limbs of the order. -/
def scalarMul (p : CurveAffine) (s : Fr) : CurveAffine := .ofPoint (s.intoBigint • p.toPoint)

def addSelf (p q : CurveAffine) : CurveAffine := .ofPoint (p.toPoint + q.toPoint)

end BabyJubJub

/-! ### The curve -/

open BabyJubJub

abbrev babyJubJub (lib : SquareRoots) : Curve where
  id := .babyJubJub
  Point := BabyJubJub.Point
  basePointOrGenerator := BabyJubJub.generator
  isOnCurve P := decide (CurveAffine.ofPoint P).1.OnCurve
  isInSubgroupAssumingOnCurve := BabyJubJub.isInSubgroup
  encode P := (BabyJubJub.encode lib (CurveAffine.ofPoint P).1).result?
  fromEncoded b := do
    let p ← BabyJubJub.fromEncoded lib b
    return p.toPoint

variable {lib : SquareRoots}

theorem babyJubJub_isOnCurve (P : BabyJubJub.Point) : (babyJubJub lib).isOnCurve P = true :=
  decide_eq_true (CurveAffine.ofPoint P).2

theorem babyJubJub_isInSubgroup (P : BabyJubJub.Point) :
    (babyJubJub lib).isInSubgroupAssumingOnCurve P = BabyJubJub.isInSubgroup P := by
  simp only

theorem babyJubJub_encode_eq_some {P : BabyJubJub.Point} {b : Bytes} :
    (babyJubJub lib).encode P = some b ↔ P ≠ 0 ∧
      b = EncodedBabyJubJubPoint.serialize ⟨isGreatest P.x, Montgomery.writeLe (.ofValue P.y)⟩ := by
  show (BabyJubJub.encode lib (CurveAffine.ofPoint P).1).result? = some b ↔ _
  rw [result?_eq_some, encode_eq_ok, ne_eq, CurveAffine.ofPoint_eq_zero_iff,
    and_iff_right (CurveAffine.reduced_ofPoint P).x]
  show _ ∧ b = EncodedBabyJubJubPoint.serialize ⟨isGreatest (Montgomery.ofValue P.x).value, _⟩ ↔ _
  rw [Montgomery.value_ofValue]
  rfl

theorem babyJubJub_fromEncoded_encode {P : BabyJubJub.Point} {b : Bytes} (h : (babyJubJub lib).encode P = some b) :
    (babyJubJub lib).fromEncoded b = .ok P := by
  show (BabyJubJub.fromEncoded lib b >>= fun p => pure p.toPoint) = .ok P
  rw [fromEncoded_encode (result?_eq_some.1 h), bind_ok, CurveAffine.toPoint_ofPoint]
  rfl

instance : (babyJubJub lib).PrimeSubgroup where
  order_nsmul_generator := BabyJubJub.order_nsmul_generator
  generator_ne_zero := BabyJubJub.generator_ne_zero
  exists_scalarMul P hP := by
    obtain ⟨k, hk, h⟩ := PrimeSubgroup.exists_nsmul_eq BabyJubJub.card_lt BabyJubJub.generator_ne_zero
      BabyJubJub.order_nsmul_generator hP
    refine ⟨(k : CurveId.Scalar .babyJubJub), ?_⟩
    show (k : CurveId.Scalar .babyJubJub).val • BabyJubJub.generator = P
    rw [ZMod.val_natCast_of_lt hk, h]

instance : (babyJubJub lib).FaithfulEncodings where
  encode_inj h h' := Except.ok.inj ((babyJubJub_fromEncoded_encode h).symm.trans (babyJubJub_fromEncoded_encode h'))
  fromEncoded_encode _ h := babyJubJub_fromEncoded_encode h
  encodes _ hP _ := ⟨_, babyJubJub_encode_eq_some.2 ⟨hP, rfl⟩⟩

end HumanNetwork
