import HumanNetwork.Curve
import HumanNetwork.CoordinateField
import HumanNetwork.Lib.CubicCurve
import HumanNetwork.Lib.PrimeSubgroup
import Mathlib.FieldTheory.Finite.Basic

/-!
# The points of secp256k1 (`curve.rs`)

The curve is `y² = x³ + 7`. A point is written in the SEC1 form, a tag and one or two coordinates, and read back by
taking a square root, which is a power because the prime is 3 modulo 4.

`secp256k1` is the curve with these encodings. Every point can be written and read back, and the group has the order of
the scalar field: the generator has that order, there are at most two points for each `x`, and no point is its own
opposite.
-/

namespace HumanNetwork
open Outcome CubicCurve

namespace Secp256k1

abbrev Coordinate := CurveId.Coordinate .secp256k1

abbrev prime : ℕ := CurveId.coordinatePrime .secp256k1

def equationB : Coordinate := ((7 : ℕ) : Coordinate)

def curve : CubicCurve Coordinate where
  b := equationB
  b_ne_zero := by decide +kernel
  two_ne_zero := by decide +kernel
  three_ne_zero := by decide +kernel

abbrev AffinePoint := curve.Point

/-! ### Coordinates -/

def fieldElement (bytes : Bytes) : Option Coordinate :=
  if Bytes.ofBe bytes < prime then some (Bytes.ofBe bytes) else none

def toBytes (v : Coordinate) : Bytes := Bytes.toBe 32 v.val

def isOdd (v : Coordinate) : Bool := v.val % 2 = 1

/-- A power of the number is a root of it, if it has one. -/
def sqrt (a : Coordinate) : Option { beta : Coordinate // beta * beta = a } :=
  if h : a ^ ((prime + 1) / 4) * a ^ ((prime + 1) / 4) = a then some ⟨a ^ ((prime + 1) / 4), h⟩ else none

theorem fieldElement_eq_some {bytes : Bytes} {x : Coordinate} :
    fieldElement bytes = some x ↔ Bytes.ofBe bytes < prime ∧ x = Bytes.ofBe bytes := by
  simp [fieldElement, eq_comm]

theorem fieldElement_toBytes (v : Coordinate) : fieldElement (toBytes v) = some v := by
  have hv : Bytes.ofBe (toBytes v) = v.val := Bytes.ofBe_toBe (CurveId.coordinate_val_lt _ v)
  rw [fieldElement_eq_some, hv, ZMod.natCast_zmod_val]
  exact ⟨ZMod.val_lt v, rfl⟩

theorem isOdd_neg {v : Coordinate} (hv : v ≠ 0) : isOdd (-v) = !isOdd v := by
  have hlt : v.val < CurveId.coordinatePrime .secp256k1 := ZMod.val_lt v
  have hodd : CurveId.coordinatePrime .secp256k1 % 2 = 1 := by decide
  rw [isOdd, isOdd, ZMod.neg_val, if_neg hv, ← decide_not, decide_eq_decide]
  omega

theorem exists_sqrt {a beta : Coordinate} (h : beta * beta = a) : ∃ root, sqrt a = some root := by
  have hpow : a ^ ((prime + 1) / 4) * a ^ ((prime + 1) / 4) = a := by
    have hexp : 2 * ((prime + 1) / 4 + (prime + 1) / 4) = prime + 1 := by decide
    rw [← pow_add, ← h, ← pow_two, ← pow_mul, hexp, pow_succ, ZMod.pow_card, pow_two]
  exact ⟨⟨_, hpow⟩, by rw [sqrt, dif_pos hpow]⟩

/-! ### SEC1 -/

inductive Tag where
  | identity
  | compressedEvenY
  | compressedOddY
  | uncompressed
  | compact
deriving DecidableEq

namespace Tag

def toU8 : Tag → UInt8
  | identity => 0
  | compressedEvenY => 2
  | compressedOddY => 3
  | uncompressed => 4
  | compact => 5

def fromU8 (byte : UInt8) : Option Tag :=
  if byte = 0 then some identity
  else if byte = 2 then some compressedEvenY
  else if byte = 3 then some compressedOddY
  else if byte = 4 then some uncompressed
  else if byte = 5 then some compact
  else none

def messageLen : Tag → ℕ
  | identity => 1
  | compressedEvenY | compressedOddY | compact => 33
  | uncompressed => 65

def compressed (yIsOdd : Bool) : Tag := if yIsOdd then compressedOddY else compressedEvenY

theorem fromU8_toU8 (tag : Tag) : fromU8 tag.toU8 = some tag := by
  cases tag <;> rfl

end Tag

/-- The bytes of a point, with as many coordinates as the tag says. -/
structure EncodedPoint where
  tag : Tag
  coordinates : Bytes
  length_eq : coordinates.length + 1 = tag.messageLen

namespace EncodedPoint

def asBytes (e : EncodedPoint) : Bytes := e.tag.toU8 :: e.coordinates

def fromBytes : Bytes → Option EncodedPoint
  | [] => none
  | byte :: rest => (Tag.fromU8 byte).bind fun tag =>
    if h : rest.length + 1 = tag.messageLen then some ⟨tag, rest, h⟩ else none

theorem fromBytes_asBytes (e : EncodedPoint) : fromBytes e.asBytes = some e := by
  rw [asBytes, fromBytes, Tag.fromU8_toU8, Option.bind_some, dif_pos e.length_eq]

def identity : EncodedPoint := ⟨.identity, [], rfl⟩

theorem length_compressed (yIsOdd : Bool) (x : Coordinate) :
    (toBytes x).length + 1 = (Tag.compressed yIsOdd).messageLen := by
  rw [toBytes, Bytes.length_toBe]
  cases yIsOdd <;> rfl

theorem length_uncompressed (x y : Coordinate) :
    (toBytes x ++ toBytes y).length + 1 = Tag.uncompressed.messageLen := by
  rw [List.length_append, toBytes, toBytes, Bytes.length_toBe, Bytes.length_toBe]
  rfl

def fromAffineCoordinates (x y : Coordinate) (compress : Bool) : EncodedPoint :=
  if compress then ⟨.compressed (isOdd y), toBytes x, length_compressed (isOdd y) x⟩
  else ⟨.uncompressed, toBytes x ++ toBytes y, length_uncompressed x y⟩

end EncodedPoint

def toEncodedPoint (compress : Bool) : AffinePoint → EncodedPoint
  | .zero => .identity
  | .some x y _ => .fromAffineCoordinates x y compress

theorem onCurve_select {x : Coordinate} (beta : { beta : Coordinate // beta * beta = x * x * x + equationB })
    (yIsOdd : Bool) : curve.OnCurve x (if isOdd beta.1 = yIsOdd then beta.1 else -beta.1) := by
  have hbeta : curve.OnCurve x beta.1 := by
    have h := beta.2
    show beta.1 ^ 2 = x ^ 3 + equationB
    linear_combination h
  split
  · exact hbeta
  · exact onCurve_neg hbeta

def decompress (xBytes : Bytes) (yIsOdd : Bool) : Option AffinePoint :=
  (fieldElement xBytes).bind fun x => (sqrt (x * x * x + equationB)).map fun beta => point (onCurve_select beta yIsOdd)

def fromEncodedPoint (encoded : EncodedPoint) : Option AffinePoint :=
  match encoded.tag with
  | .identity => some 0
  | .compressedEvenY => decompress encoded.coordinates false
  | .compressedOddY => decompress encoded.coordinates true
  | .uncompressed =>
    (fieldElement (encoded.coordinates.take 32)).bind fun x => (fieldElement (encoded.coordinates.drop 32)).bind fun y =>
      if h : curve.OnCurve x y then some (point h) else none
  | .compact => none

/-! ### `PointTrait` -/

/-- The library has no method for this, so the point is written and read back. -/
def isOnCurve (p : AffinePoint) : Bool :=
  match fromEncodedPoint (toEncodedPoint false p) with
  | some decoded => decoded = p
  | none => false

def encode (p : AffinePoint) : Bytes := (toEncodedPoint true p).asBytes

def fromEncoded (encoded : Bytes) : Outcome Error AffinePoint := do
  let encodedPoint ← okOr (EncodedPoint.fromBytes encoded) Error.invalidInput
  okOr (fromEncodedPoint encodedPoint) (Error.other "Failed to parse EncodedPoint as SEC1-encoded AffinePoint")

/-! ### Reading back -/

/-- A point with `y = 0` would make -7 a cube. -/
theorem not_cube (x : Coordinate) : x ^ 3 + equationB ≠ 0 := by
  intro h
  have hx : x ≠ 0 := by
    rintro rfl
    exact absurd h (by decide +kernel)
  have hpow : ((prime - 7 : ℕ) : Coordinate) ^ ((prime - 1) / 3) = 1 := by
    have hcast : ((prime - 7 : ℕ) : Coordinate) = x ^ 3 := by
      have hneg : ((prime - 7 : ℕ) : Coordinate) + equationB = 0 := by decide +kernel
      linear_combination hneg - h
    have hexp : 3 * ((prime - 1) / 3) = prime - 1 := by decide
    rw [hcast, ← pow_mul, hexp, ZMod.pow_card_sub_one_eq_one hx]
  have hcheck : Pratt.isOnePow prime (prime - 7) ((prime - 1) / 3) = false := by decide +kernel
  rw [(Pratt.isOnePow_iff ((Nat.div_le_self _ _).trans (Nat.sub_le _ _))).2 hpow] at hcheck
  cases hcheck

theorem y_ne_zero {x y : Coordinate} (h : curve.OnCurve x y) : y ≠ 0 := by
  rintro rfl
  refine not_cube x ?_
  rw [OnCurve, zero_pow two_ne_zero] at h
  exact h.symm

theorem decompress_eq_some {xBytes : Bytes} {yIsOdd : Bool} {p : AffinePoint} : decompress xBytes yIsOdd = some p ↔
    ∃ x y, ∃ h : curve.OnCurve x y, fieldElement xBytes = some x ∧ isOdd y = yIsOdd ∧ p = point h := by
  simp only [decompress, Option.bind_eq_some_iff, Option.map_eq_some_iff]
  constructor
  · rintro ⟨x, hx, beta, -, rfl⟩
    refine ⟨x, _, onCurve_select beta yIsOdd, hx, ?_, rfl⟩
    have hne := y_ne_zero (onCurve_select beta yIsOdd)
    split
    next hodd => exact hodd
    next hodd =>
      rw [if_neg hodd] at hne
      rw [isOdd_neg (neg_ne_zero.1 hne)]
      cases yIsOdd <;> simpa using hodd
  · rintro ⟨x, y, h, hx, hodd, rfl⟩
    have hy : y * y = x * x * x + equationB := by
      have hy : y ^ 2 = x ^ 3 + equationB := h
      linear_combination hy
    obtain ⟨beta, hbeta⟩ := exists_sqrt hy
    refine ⟨x, hx, beta, hbeta, point_inj.2 ⟨rfl, ?_⟩⟩
    rcases mul_self_eq_mul_self_iff.1 (beta.2.trans hy.symm) with heq | heq
    · rw [heq, if_pos hodd]
    · rw [heq, isOdd_neg (y_ne_zero h), neg_neg, hodd, if_neg (by cases yIsOdd <;> decide)]

theorem decompress_toBytes {x y : Coordinate} (h : curve.OnCurve x y) :
    decompress (toBytes x) (isOdd y) = some (point h) :=
  decompress_eq_some.2 ⟨x, y, h, fieldElement_toBytes x, rfl, rfl⟩

theorem fromEncodedPoint_compressed {yIsOdd : Bool} {x : Bytes} (h : x.length + 1 = (Tag.compressed yIsOdd).messageLen) :
    fromEncodedPoint ⟨.compressed yIsOdd, x, h⟩ = decompress x yIsOdd := by
  cases yIsOdd <;> rfl

theorem fromEncodedPoint_toEncodedPoint (compress : Bool) (p : AffinePoint) :
    fromEncodedPoint (toEncodedPoint compress p) = some p := by
  rcases eq_zero_or_eq_point p with rfl | ⟨x, y, h, rfl⟩
  · rfl
  cases compress with
  | true => exact (fromEncodedPoint_compressed (EncodedPoint.length_compressed (isOdd y) x)).trans (decompress_toBytes h)
  | false =>
    have hlen : (toBytes x).length = 32 := Bytes.length_toBe _ _
    have hx : fieldElement ((toBytes x ++ toBytes y).take 32) = some x := by
      rw [List.take_left' hlen, fieldElement_toBytes]
    have hy : fieldElement ((toBytes x ++ toBytes y).drop 32) = some y := by
      rw [List.drop_left' hlen, fieldElement_toBytes]
    simp only [toEncodedPoint, point, EncodedPoint.fromAffineCoordinates, Bool.false_eq_true, if_false, fromEncodedPoint, hx,
      hy, Option.bind_some]
    exact dif_pos h

theorem isOnCurve_eq (p : AffinePoint) : isOnCurve p = true := by
  rw [isOnCurve, fromEncodedPoint_toEncodedPoint]
  exact decide_eq_true rfl

theorem fromEncoded_encode (p : AffinePoint) : fromEncoded (encode p) = .ok p := by
  rw [fromEncoded, encode, EncodedPoint.fromBytes_asBytes]
  show okOr (fromEncodedPoint (toEncodedPoint true p)) _ = _
  rw [fromEncodedPoint_toEncodedPoint]
  rfl

theorem fromEncoded_noPanic (encoded : Bytes) : NoPanic (fromEncoded encoded) :=
  noPanic_bind.2 ⟨.okOr _ _, fun _ _ => .okOr _ _⟩

/-! ### The order of the group -/

def generatorX : Coordinate :=
  ((55066263022277343669578718895168534326250603453777594175500187360389116729240 : ℕ) : Coordinate)

def generatorY : Coordinate :=
  ((32670510020758816978083085130507043184471273380659243275938904335757337482424 : ℕ) : Coordinate)

theorem onCurve_generator : curve.OnCurve generatorX generatorY := by
  decide +kernel

def generator : AffinePoint := point onCurve_generator

abbrev order : ℕ := CurveId.order .secp256k1

theorem smul_generator_check :
    let T := Projective.smul generatorX generatorY 255 (order - 1)
    T.Z ≠ 0 ∧ T.X = generatorX * T.Z ∧ T.Y = -generatorY * T.Z := by
  decide +kernel

theorem order_nsmul_generator : order • generator = 0 := by
  obtain ⟨hz, hX, hY⟩ := smul_generator_check
  have hlow : 2 ^ 255 ≤ order - 1 := by decide
  have hhigh : order - 1 < 2 ^ (255 + 1) := by decide
  obtain ⟨x, y, h, hpoint, hx, hy⟩ := Projective.represents_smul onCurve_generator hlow hhigh hz
  have hneg : (order - 1) • generator = -generator := by
    rw [generator, neg_point, hpoint, point_inj]
    exact ⟨mul_right_cancel₀ hz (hx.symm.trans hX), mul_right_cancel₀ hz (hy.symm.trans hY)⟩
  have hsucc : order = order - 1 + 1 := by decide
  rw [hsucc, succ_nsmul, hneg, neg_add_cancel]

theorem generator_ne_zero : generator ≠ 0 := point_ne_zero _

def compressedForm : AffinePoint → Option (Coordinate × Bool)
  | .zero => none
  | .some x y _ => some (x, isOdd y)

theorem compressedForm_injective : Function.Injective compressedForm := by
  intro p p' h
  rcases eq_zero_or_eq_point p with rfl | ⟨x, y, hp, rfl⟩ <;> rcases eq_zero_or_eq_point p' with rfl | ⟨x', y', hp', rfl⟩
  · rfl
  · cases h
  · cases h
  · obtain ⟨rfl, hodd⟩ : x = x' ∧ isOdd y = isOdd y' := by simpa [compressedForm, point] using h
    have hy := decompress_toBytes hp
    rw [hodd, decompress_toBytes hp'] at hy
    exact (Option.some.inj hy).symm

instance : Finite AffinePoint := Finite.of_injective _ compressedForm_injective

theorem card_lt : Nat.card AffinePoint < 3 * order := by
  refine (Nat.card_le_card_of_injective _ compressedForm_injective).trans_lt ?_
  have hcard : Nat.card (Option (Coordinate × Bool)) = prime * 2 + 1 := by
    rw [Finite.card_option, Nat.card_prod, Nat.card_zmod, Nat.card_eq_fintype_card, Fintype.card_bool]
  rw [hcard]
  decide

theorem eq_zero_of_two_nsmul {p : AffinePoint} (h : 2 • p = 0) : p = 0 := by
  rcases eq_zero_or_eq_point p with rfl | ⟨x, y, hp, rfl⟩
  · rfl
  · rw [two_nsmul, ← eq_neg_iff_add_eq_zero, neg_point, point_inj] at h
    have hy : 2 * y = 0 := by linear_combination h.2
    exact absurd ((mul_eq_zero.1 hy).resolve_left curve.two_ne_zero) (y_ne_zero hp)

theorem card_eq_order : Nat.card AffinePoint = order :=
  PrimeSubgroup.card_eq card_lt generator_ne_zero order_nsmul_generator fun _ => eq_zero_of_two_nsmul

theorem order_nsmul (p : AffinePoint) : order • p = 0 := by
  rw [← card_eq_order, card_nsmul_eq_zero']

end Secp256k1

/-! ### The curve -/

abbrev secp256k1 : Curve where
  id := .secp256k1
  Point := Secp256k1.AffinePoint
  basePointOrGenerator := Secp256k1.generator
  isOnCurve := Secp256k1.isOnCurve
  -- there is no cofactor
  isInSubgroupAssumingOnCurve _ := true
  encode p := some (Secp256k1.encode p)
  fromEncoded := Secp256k1.fromEncoded

instance : secp256k1.PrimeOrder where
  order_nsmul := Secp256k1.order_nsmul
  generator_ne_zero := Secp256k1.generator_ne_zero
  exists_scalarMul p := by
    have hcard : Nat.card Secp256k1.AffinePoint < Secp256k1.order ^ 2 := by
      rw [Secp256k1.card_eq_order]
      decide
    obtain ⟨k, hk, h⟩ := PrimeSubgroup.exists_nsmul_eq hcard Secp256k1.generator_ne_zero
      Secp256k1.order_nsmul_generator (Secp256k1.order_nsmul p)
    refine ⟨(k : CurveId.Scalar .secp256k1), ?_⟩
    show (k : CurveId.Scalar .secp256k1).val • Secp256k1.generator = p
    rw [ZMod.val_natCast_of_lt hk, h]

instance : secp256k1.TotalEncodings where
  encodes p := ⟨_, rfl, Secp256k1.fromEncoded_encode p⟩

end HumanNetwork
