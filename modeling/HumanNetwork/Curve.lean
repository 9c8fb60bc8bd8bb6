import HumanNetwork.Lib.Outcome
import HumanNetwork.CurveOrder
import Mathlib.Algebra.Module.ZMod
import Mathlib.Algebra.Module.Torsion.Basic
import Mathlib.Algebra.Field.ZMod

/-!
# Curves, scalars and points (`curve.rs`)

`CurveId.Scalar` is the scalar field of a curve; `Curve::Scalar` and `Curve::FieldEl` convert into
each other by value, so both are this one type. The scalar operations of `ScalarTrait` differ
between the curves and are given for each: what `rand_vartime` can return, how a scalar is written
as bytes, what an inversion of zero does.

A `Curve` adds the points, which come from libraries: a commutative group with a base point and
encodings that may fail. `Curve.scalarMul` multiplies by the canonical representative of the
scalar. Where the group has the order of the scalar field (`Curve.PrimeOrder`) the points are a
module over the scalars, and `Curve.scalarMul_eq_smul` moves every statement there.
-/

namespace HumanNetwork

/-- The `Error` of `lib.rs`. -/
inductive Error where
  | invalidInput
  | invalidSignature
  | extremelyRareErrorInputUnhashableToCurve
  | invalidDLEQProof
  | unknownError
  | other (data : String)
deriving DecidableEq, Repr

def Error.display : Error → String
  | invalidInput => "Invalid input"
  | extremelyRareErrorInputUnhashableToCurve => "Extremely rare error: input unhashable to curve"
  | invalidDLEQProof => "Invalid DLEQ proof"
  | invalidSignature => "Invalid signature"
  | unknownError => "Unknown error"
  | other data => "Error :" ++ data.quote

/-- The derived `Debug`. -/
def Error.debug : Error → String
  | invalidInput => "InvalidInput"
  | invalidSignature => "InvalidSignature"
  | extremelyRareErrorInputUnhashableToCurve => "ExtremelyRareErrorInputUnhashableToCurve"
  | invalidDLEQProof => "InvalidDLEQProof"
  | unknownError => "UnknownError"
  | other data => "Other(" ++ data.quote ++ ")"

/-! ### Scalars -/

namespace CurveId

abbrev Scalar (c : CurveId) := ZMod c.order

instance (c : CurveId) : Field c.Scalar := ZMod.instField c.order

/-- What the random source hands to `rand_vartime`: `generate_vartime` returns any scalar of
secp256k1, while for BabyJubJub a `random::<u32>()` is drawn. -/
def RandSpace : CurveId → Type
  | secp256k1 => ZMod (order secp256k1)
  | babyJubJub => Fin (2 ^ 32)

def randVartime : (c : CurveId) → c.RandSpace → c.Scalar
  | secp256k1, r => r
  | babyJubJub, r => (r.val : ZMod _)

instance (c : CurveId) : Fintype c.RandSpace :=
  match c with
  | secp256k1 => inferInstanceAs (Fintype (ZMod (order secp256k1)))
  | babyJubJub => inferInstanceAs (Fintype (Fin (2 ^ 32)))

/-- Both implementations reduce: a decimal string without leading zeros always parses. -/
def fromBiguintVartime (c : CurveId) (b : ℕ) : Outcome Error c.Scalar := .ok b

def toRepr (c : CurveId) (s : c.Scalar) : Bytes := Bytes.toBe c.reprLen s.val

/-- `Fr::to_bytes` serializes the Montgomery form, little endian. -/
def toBytes : (c : CurveId) → c.Scalar → Bytes
  | secp256k1, s => Bytes.toBe 32 s.val
  | babyJubJub, s => Bytes.toLe 32 (s * 2 ^ 256).val

/-- `Fr::mul_inv` unwraps the inverse before it looks at the flag. -/
def mulInv {ε : Type} : (c : CurveId) → c.Scalar → Outcome ε (Option c.Scalar)
  | secp256k1, s => .ok (if s = 0 then none else some s⁻¹)
  | babyJubJub, s =>
    if s = 0 then .crash "called `Option::unwrap()` on a `None` value" else .ok (some s⁻¹)

theorem val_lt_pow (c : CurveId) (s : c.Scalar) : s.val < 256 ^ 32 :=
  (ZMod.val_lt s).trans c.order_lt_pow

theorem mulInv_of_ne_zero {ε : Type} (c : CurveId) {s : c.Scalar} (hs : s ≠ 0) :
    (c.mulInv s : Outcome ε _) = .ok (some s⁻¹) := by
  cases c <;> simp [mulInv, hs]

theorem length_toRepr (c : CurveId) (s : c.Scalar) : (c.toRepr s).length = c.reprLen :=
  Bytes.length_toBe _ _

theorem fromBiguintVartime_toRepr (c : CurveId) (s : c.Scalar) :
    c.fromBiguintVartime (Bytes.ofBe (c.toRepr s)) = .ok s := by
  have hs : s.val < 256 ^ c.reprLen := (ZMod.val_lt s).trans c.order_lt_reprLen
  rw [toRepr, Bytes.ofBe_toBe hs, fromBiguintVartime, ZMod.natCast_zmod_val]

theorem toRepr_injective (c : CurveId) : Function.Injective c.toRepr := by
  intro s s' h
  have h' := c.fromBiguintVartime_toRepr s
  rw [h, fromBiguintVartime_toRepr] at h'
  exact (Except.ok.inj h').symm

theorem two_ne_zero_babyJubJub : (2 : ZMod (order babyJubJub)) ≠ 0 := by
  have h := babyJubJub.natCast_inj (i := 2) (j := 0) (by decide) (by decide)
  simpa using h.not.2 (by decide)

theorem toBytes_injective (c : CurveId) : Function.Injective c.toBytes := by
  intro s s' h
  cases c with
  | secp256k1 => exact ZMod.val_injective _ ((Bytes.toBe_inj (val_lt_pow _ s) (val_lt_pow _ s')).1 h)
  | babyJubJub =>
    have hmont : s * 2 ^ 256 = s' * 2 ^ 256 :=
      ZMod.val_injective _ ((Bytes.toLe_inj (val_lt_pow _ _) (val_lt_pow _ _)).1 h)
    exact mul_right_cancel₀ (pow_ne_zero _ two_ne_zero_babyJubJub) hmont

end CurveId

/-! ### Points -/

/-- A curve of the code base with its points. `encode` may panic, which is `none`. -/
structure Curve where
  id : CurveId
  Point : Type
  [group : AddCommGroup Point]
  [decEq : DecidableEq Point]
  basePointOrGenerator : Point
  isOnCurve : Point → Bool
  isInSubgroupAssumingOnCurve : Point → Bool
  encode : Point → Option Bytes
  fromEncoded : Bytes → Outcome Error Point

namespace Curve
variable (C : Curve)

instance : AddCommGroup C.Point := C.group
instance : DecidableEq C.Point := C.decEq

abbrev FieldEl := C.id.Scalar

def scalarMul (p : C.Point) (s : C.FieldEl) : C.Point := s.val • p

def addSelf (p p' : C.Point) : C.Point := p + p'

@[simp] theorem addSelf_eq (p p' : C.Point) : C.addSelf p p' = p + p' := rfl

theorem scalarMul_one (p : C.Point) : C.scalarMul p 1 = p := by
  rw [scalarMul, ZMod.val_one, one_smul]

@[simp] theorem scalarMul_zero (p : C.Point) : C.scalarMul p 0 = 0 := by
  rw [scalarMul, ZMod.val_zero, zero_smul]

/-- The points are the group that the scalars count: every point has the order of the scalar field
and is a multiple of the base point. -/
class PrimeOrder (C : Curve) : Prop where
  order_nsmul : ∀ p : C.Point, C.id.order • p = 0
  generator_ne_zero : C.basePointOrGenerator ≠ 0
  exists_scalarMul : ∀ p : C.Point, ∃ s : C.FieldEl, C.scalarMul C.basePointOrGenerator s = p

/-- The multiples of the base point are a subgroup of the order of the scalar field, and no other point
has that order. -/
class PrimeSubgroup (C : Curve) : Prop where
  order_nsmul_generator : C.id.order • C.basePointOrGenerator = 0
  generator_ne_zero : C.basePointOrGenerator ≠ 0
  exists_scalarMul : ∀ p : C.Point, C.id.order • p = 0 → ∃ s : C.FieldEl, C.scalarMul C.basePointOrGenerator s = p

instance [h : C.PrimeOrder] : C.PrimeSubgroup where
  order_nsmul_generator := h.order_nsmul _
  generator_ne_zero := h.generator_ne_zero
  exists_scalarMul p _ := h.exists_scalarMul p

class TotalEncodings (C : Curve) : Prop where
  encodes : ∀ p : C.Point, ∃ b, C.encode p = some b ∧ C.fromEncoded b = .ok p

/-- An encoding belongs to one point. In the prime-order subgroup it is read back, and every point but zero
has one: BabyJubJub cannot encode zero. -/
class FaithfulEncodings (C : Curve) : Prop where
  encode_inj : ∀ {p p' : C.Point} {b}, C.encode p = some b → C.encode p' = some b → p = p'
  fromEncoded_encode : ∀ {p : C.Point} {b}, C.id.order • p = 0 → C.encode p = some b → C.fromEncoded b = .ok p
  encodes : ∀ p : C.Point, p ≠ 0 → C.id.order • p = 0 → ∃ b, C.encode p = some b

theorem TotalEncodings.fromEncoded_encode {C : Curve} [h : C.TotalEncodings] {p : C.Point} {b : Bytes}
    (hb : C.encode p = some b) : C.fromEncoded b = .ok p := by
  obtain ⟨b', henc, hdec⟩ := h.encodes p
  obtain rfl : b' = b := Option.some.inj (henc.symm.trans hb)
  exact hdec

instance [h : C.TotalEncodings] : C.FaithfulEncodings where
  encode_inj hp hp' :=
    Except.ok.inj ((TotalEncodings.fromEncoded_encode hp).symm.trans (TotalEncodings.fromEncoded_encode hp'))
  fromEncoded_encode _ hb := TotalEncodings.fromEncoded_encode hb
  encodes p _ _ := by
    obtain ⟨b, hb, -⟩ := h.encodes p
    exact ⟨b, hb⟩

/-! ### Points of the order of the scalar field -/

section Torsion

abbrev Torsion := AddSubgroup.torsionBy C.Point (C.id.order : ℤ)

instance : Module C.FieldEl C.Torsion := AddSubgroup.torsionBy.zmodModule

variable {C}

def Torsion.mk {p : C.Point} (hp : C.id.order • p = 0) : C.Torsion := ⟨p, AddSubgroup.torsionBy.nsmul_iff.2 hp⟩

theorem scalarMul_coe (p : C.Torsion) (s : C.FieldEl) : C.scalarMul p s = ((s • p : C.Torsion) : C.Point) := by
  have h : s.val • p = s • p := by rw [← Nat.cast_smul_eq_nsmul C.FieldEl, ZMod.natCast_zmod_val]
  rw [scalarMul, ← h, AddSubgroup.coe_nsmul]

variable {p : C.Point} (hp : C.id.order • p = 0)
include hp

theorem scalarMul_eq_coe (s : C.FieldEl) : C.scalarMul p s = ((s • Torsion.mk hp : C.Torsion) : C.Point) :=
  scalarMul_coe (Torsion.mk hp) s

theorem order_nsmul_scalarMul (s : C.FieldEl) : C.id.order • C.scalarMul p s = 0 := by
  rw [scalarMul, smul_comm, hp, smul_zero]

theorem scalarMul_scalarMul (s s' : C.FieldEl) : C.scalarMul (C.scalarMul p s) s' = C.scalarMul p (s' * s) := by
  rw [scalarMul_eq_coe hp, scalarMul_coe, scalarMul_eq_coe hp, mul_smul]

theorem scalarMul_sub_add (r s s' : C.FieldEl) :
    C.scalarMul p (r - s' * s) + C.scalarMul (C.scalarMul p s) s' = C.scalarMul p r := by
  rw [scalarMul_scalarMul hp, scalarMul_eq_coe hp, scalarMul_eq_coe hp, scalarMul_eq_coe hp, ← AddSubgroup.coe_add,
    sub_smul, sub_add_cancel]

variable (hne : p ≠ 0)
include hne

theorem scalarMul_inj {s s' : C.FieldEl} : C.scalarMul p s = C.scalarMul p s' ↔ s = s' := by
  have hmk : Torsion.mk hp ≠ 0 := fun h => hne (congrArg Subtype.val h)
  rw [scalarMul_eq_coe hp, scalarMul_eq_coe hp, Subtype.coe_inj]
  exact ⟨fun h => smul_left_injective C.FieldEl hmk h, fun h => by rw [h]⟩

theorem scalarMul_ne_zero {s : C.FieldEl} (hs : s ≠ 0) : C.scalarMul p s ≠ 0 := by
  intro h
  rw [← C.scalarMul_zero p, scalarMul_inj hp hne] at h
  exact hs h

theorem exists_scalarMul_eq [h : C.PrimeSubgroup] {p' : C.Point} (hp' : C.id.order • p' = 0) :
    ∃ s : C.FieldEl, C.scalarMul p s = p' := by
  obtain ⟨g, rfl⟩ := h.exists_scalarMul p hp
  obtain ⟨g', rfl⟩ := h.exists_scalarMul p' hp'
  have hg : g ≠ 0 := by
    rintro rfl
    exact hne (C.scalarMul_zero _)
  refine ⟨g' * g⁻¹, ?_⟩
  rw [scalarMul_scalarMul h.order_nsmul_generator, inv_mul_cancel_right₀ hg]

end Torsion

section PrimeOrder
variable [C.PrimeOrder]

instance : Module C.FieldEl C.Point := AddCommGroup.zmodModule PrimeOrder.order_nsmul

@[simp] theorem scalarMul_eq_smul (p : C.Point) (s : C.FieldEl) : C.scalarMul p s = s • p := by
  rw [scalarMul, ← Nat.cast_smul_eq_nsmul C.FieldEl, ZMod.natCast_zmod_val]

theorem exists_smul_eq (p : C.Point) : ∃ s : C.FieldEl, s • C.basePointOrGenerator = p := by
  simpa using PrimeOrder.exists_scalarMul p

theorem smul_generator_inj {s s' : C.FieldEl} :
    s • C.basePointOrGenerator = s' • C.basePointOrGenerator ↔ s = s' := by
  refine ⟨fun h => ?_, fun h => by rw [h]⟩
  have h0 : (s - s') • C.basePointOrGenerator = 0 := by rw [sub_smul, h, sub_self]
  rcases smul_eq_zero.1 h0 with hs | hG
  · exact sub_eq_zero.1 hs
  · exact absurd hG PrimeOrder.generator_ne_zero

end PrimeOrder

theorem exists_encoder [C.TotalEncodings] : ∃ enc : C.Point → Bytes,
    (∀ p, C.encode p = some (enc p)) ∧ ∀ p, C.fromEncoded (enc p) = .ok p := by
  choose enc henc using fun p : C.Point => TotalEncodings.encodes p
  exact ⟨enc, fun p => (henc p).1, fun p => (henc p).2⟩

end Curve

/-! ### The scalars as a curve -/

namespace CurveId

/-- A compressed point: a coordinate and which of its two points is meant. This is SEC1 for secp256k1,
and for BabyJubJub `bincode` of an `EncodedBabyJubJubPoint`. -/
def compressed : CurveId → Bool → Bytes → Bytes
  | secp256k1, greatest, x => (if greatest then 3 else 2) :: x
  | babyJubJub, greatest, y => (if greatest then 1 else 0) :: (Bytes.toLe 8 y.length ++ y)

def readCompressed : CurveId → Bytes → Option (Bool × Bytes)
  | _, [] => none
  | secp256k1, tag :: x => if tag = 2 then some (false, x) else if tag = 3 then some (true, x) else none
  | babyJubJub, flag :: rest =>
    let y := (rest.drop 8).take (Bytes.ofLe (rest.take 8))
    if flag ≤ 1 ∧ 8 ≤ rest.length ∧ y.length = Bytes.ofLe (rest.take 8) then some (flag = 1, y) else none

theorem readCompressed_compressed (c : CurveId) (greatest : Bool) {x : Bytes} (hx : x.length < 256 ^ 8) :
    c.readCompressed (c.compressed greatest x) = some (greatest, x) := by
  cases c with
  | secp256k1 => cases greatest <;> rfl
  | babyJubJub =>
    have hlen : (Bytes.toLe 8 x.length).length = 8 := Bytes.length_toLe _ _
    have htake : (Bytes.toLe 8 x.length ++ x).take 8 = Bytes.toLe 8 x.length := List.take_left' hlen
    have hdrop : (Bytes.toLe 8 x.length ++ x).drop 8 = x := List.drop_left' hlen
    have hof : Bytes.ofLe (Bytes.toLe 8 x.length) = x.length := Bytes.ofLe_toLe hx
    simp only [compressed, readCompressed, htake, hdrop, hof, List.take_length, List.length_append, hlen]
    cases greatest <;> simp

end CurveId

/-- The group of the scalars themselves with base point 1, up to isomorphism the prime-order group of
either curve. A scalar is the coordinate of itself and of its negative. -/
abbrev scalarCurve (c : CurveId) : Curve where
  id := c
  Point := c.Scalar
  basePointOrGenerator := (1 : c.Scalar)
  isOnCurve _ := true
  isInSubgroupAssumingOnCurve _ := true
  encode p := some (c.compressed false (Bytes.toBe 32 (ZMod.val p)))
  fromEncoded b :=
    match c.readCompressed b with
    | none => .fail .invalidInput
    | some (greatest, x) =>
      if Bytes.ofBe x < c.order then .ok (if greatest then -(Bytes.ofBe x : c.Scalar) else (Bytes.ofBe x : c.Scalar))
      else .fail .invalidInput

theorem scalarCurve_scalarMul (c : CurveId) (p s : c.Scalar) : (scalarCurve c).scalarMul p s = s * p := by
  show s.val • p = s * p
  rw [nsmul_eq_mul, ZMod.natCast_zmod_val]

theorem scalarCurve_scalarMul_generator (c : CurveId) (x : c.Scalar) :
    (scalarCurve c).scalarMul (scalarCurve c).basePointOrGenerator x = x :=
  (scalarCurve_scalarMul c 1 x).trans (mul_one x)

instance (c : CurveId) : (scalarCurve c).PrimeOrder where
  order_nsmul := fun p : c.Scalar => by
    show c.order • p = 0
    rw [nsmul_eq_mul, ZMod.natCast_self, zero_mul]
  generator_ne_zero := one_ne_zero (α := c.Scalar)
  exists_scalarMul := fun p : c.Scalar => ⟨p, by rw [scalarCurve_scalarMul, mul_one]⟩

theorem scalarCurve_fromEncoded {c : CurveId} {x : Bytes} (hlen : x.length < 256 ^ 8) (hx : Bytes.ofBe x < c.order) :
    (scalarCurve c).fromEncoded (c.compressed false x) = .ok (Bytes.ofBe x : c.Scalar) := by
  simp [c.readCompressed_compressed _ hlen, hx]

instance (c : CurveId) : (scalarCurve c).TotalEncodings where
  encodes := fun p : c.Scalar => by
    have hof : Bytes.ofBe (Bytes.toBe 32 p.val) = p.val := Bytes.ofBe_toBe (c.val_lt_pow p)
    have hlen : (Bytes.toBe 32 p.val).length < 256 ^ 8 := by rw [Bytes.length_toBe]; decide
    refine ⟨c.compressed false (Bytes.toBe 32 p.val), rfl, ?_⟩
    rw [scalarCurve_fromEncoded hlen (by rw [hof]; exact ZMod.val_lt p), hof, ZMod.natCast_zmod_val]

end HumanNetwork
