import HumanNetwork.BabyJubJub
import HumanNetwork.Lib.TwistedEdwards

/-!
# The two forms of BabyJubJub (`twisted_conversion.rs`)

The curve is defined as `168700 x² + y² = 1 + 168696 x² y²`, and circuits compute with this form, while the library has the
one with `a = 1`. The conversions multiply `x` by a root of `168700` or by its inverse. So they are inverse to each other
and carry the solutions of one equation to those of the other. `twisted_forms_same_group` adds that they carry over the
addition law and the multiples.
-/

namespace HumanNetwork.BabyJubJub

def sqrtAInv : Coordinate :=
  ((2957874849018779266517920829765869116077630550401372566248359756137677864698 : ℕ) : Coordinate)

def twistedCurve : TwistedEdwardsCurve curve where
  a := ((168700 : ℕ) : Coordinate)
  d := ((168696 : ℕ) : Coordinate)
  root := sqrtA
  root_mul_root := by decide +kernel
  a_ne_zero := by decide +kernel
  d_eq := by decide +kernel

abbrev TwistedPoint := twistedCurve.Point

theorem sqrtA_mul_sqrtAInv : sqrtA * sqrtAInv = 1 := by decide +kernel

theorem root_twistedCurve : twistedCurve.root = sqrtA := rfl

theorem inv_root_twistedCurve : twistedCurve.root⁻¹ = sqrtAInv := by
  rw [root_twistedCurve]
  exact inv_eq_of_mul_eq_one_right sqrtA_mul_sqrtAInv

theorem curve_d_eq : curve.d = twistedCurve.d / twistedCurve.a := by
  rw [twistedCurve.d_eq, mul_div_cancel_right₀ _ twistedCurve.a_ne_zero]

/-! ### Coordinates -/

namespace Affine
variable (p : Affine)

/-- `Self { x: self.x * v, y: self.y }`. -/
def scaleX (v : Coordinate) : Affine := ⟨p.x.scale v, p.y⟩

def twistedToEdwards : Affine := p.scaleX sqrtA

def edwardsToTwisted : Affine := p.scaleX sqrtAInv

/-- The elements of the field that the limbs stand for. -/
def coordinates : Coordinate × Coordinate := (p.x.value, p.y.value)

def OnTwistedCurve : Prop := twistedCurve.OnCurve p.x.value p.y.value

theorem value_scaleX (v : Coordinate) : (p.scaleX v).x.value = p.x.value * v := by
  rw [scaleX, Montgomery.value_scale]

theorem scaleX_scaleX {v w : Coordinate} (h : v * w = 1) : (p.scaleX v).scaleX w = ⟨.ofValue p.x.value, p.y⟩ := by
  rw [scaleX, scaleX, p.x.scale_scale_of_mul_eq_one h]

theorem edwardsToTwisted_twistedToEdwards : p.twistedToEdwards.edwardsToTwisted = ⟨.ofValue p.x.value, p.y⟩ :=
  p.scaleX_scaleX sqrtA_mul_sqrtAInv

theorem twistedToEdwards_edwardsToTwisted : p.edwardsToTwisted.twistedToEdwards = ⟨.ofValue p.x.value, p.y⟩ :=
  p.scaleX_scaleX ((mul_comm _ _).trans sqrtA_mul_sqrtAInv)

theorem coordinates_reduced : (Affine.mk (.ofValue p.x.value) p.y).coordinates = p.coordinates := by
  rw [coordinates, coordinates, Montgomery.value_ofValue]

variable {p}

theorem eq_of_reduced (h : p.x.Reduced) : Affine.mk (.ofValue p.x.value) p.y = p := by
  rw [Montgomery.ofValue_value_iff.2 h]

theorem twistedToEdwards_ofValue (x y : Coordinate) :
    (Affine.mk (.ofValue x) (.ofValue y)).twistedToEdwards = ⟨.ofValue (x * sqrtA), .ofValue y⟩ := by
  rw [twistedToEdwards, scaleX, Montgomery.scale, Montgomery.value_ofValue]

theorem onCurve_twistedToEdwards : p.twistedToEdwards.OnCurve ↔ p.OnTwistedCurve := by
  rw [OnCurve, OnTwistedCurve, twistedToEdwards, scaleX, Montgomery.value_scale, TwistedEdwardsCurve.onCurve_iff,
    root_twistedCurve]

theorem onTwistedCurve_edwardsToTwisted (h : p.OnCurve) : p.edwardsToTwisted.OnTwistedCurve := by
  rw [OnTwistedCurve, edwardsToTwisted, scaleX, Montgomery.value_scale, ← inv_root_twistedCurve]
  exact TwistedEdwardsCurve.onCurve_mul_inv h

end Affine

theorem basePointOrGenerator_eq : basePointOrGenerator.1 = Affine.twistedToEdwards
    ⟨.ofValue ((5299619240641551281634865583518297030282874472190772894086521144482721001553 : ℕ) : Coordinate),
      .ofValue generatorY⟩ := by
  rw [Affine.twistedToEdwards_ofValue, ← generatorX]
  rfl

/-! ### Points -/

@[simp] theorem CurveAffine.toPoint_x (p : CurveAffine) : p.toPoint.x = p.1.x.value := rfl
@[simp] theorem CurveAffine.toPoint_y (p : CurveAffine) : p.toPoint.y = p.1.y.value := rfl

abbrev TwistedAffine := { p : Affine // p.OnTwistedCurve }

namespace TwistedAffine

def toPoint (p : TwistedAffine) : TwistedPoint := ⟨p.1.x.value, p.1.y.value, p.2⟩

@[simp] theorem toPoint_x (p : TwistedAffine) : p.toPoint.x = p.1.x.value := rfl
@[simp] theorem toPoint_y (p : TwistedAffine) : p.toPoint.y = p.1.y.value := rfl

def twistedToEdwards (p : TwistedAffine) : CurveAffine := ⟨p.1.twistedToEdwards, Affine.onCurve_twistedToEdwards.2 p.2⟩

@[simp] theorem coe_twistedToEdwards (p : TwistedAffine) : p.twistedToEdwards.1 = p.1.twistedToEdwards := rfl

theorem toPoint_twistedToEdwards (p : TwistedAffine) : p.twistedToEdwards.toPoint = twistedCurve.equivEdwards p.toPoint := by
  refine EdwardsCurve.Point.ext ?_ ?_
  · rw [CurveAffine.toPoint_x, coe_twistedToEdwards, TwistedEdwardsCurve.equivEdwards_x, toPoint_x,
      Affine.twistedToEdwards, Affine.value_scaleX, root_twistedCurve]
  · rw [CurveAffine.toPoint_y, coe_twistedToEdwards, TwistedEdwardsCurve.equivEdwards_y, toPoint_y,
      Affine.twistedToEdwards, Affine.scaleX]

end TwistedAffine

namespace CurveAffine

def edwardsToTwisted (p : CurveAffine) : TwistedAffine := ⟨p.1.edwardsToTwisted, Affine.onTwistedCurve_edwardsToTwisted p.2⟩

@[simp] theorem coe_edwardsToTwisted (p : CurveAffine) : p.edwardsToTwisted.1 = p.1.edwardsToTwisted := rfl

theorem toPoint_edwardsToTwisted (p : CurveAffine) :
    p.edwardsToTwisted.toPoint = twistedCurve.equivEdwards.symm p.toPoint := by
  refine TwistedEdwardsCurve.Point.ext ?_ ?_
  · rw [TwistedAffine.toPoint_x, coe_edwardsToTwisted, TwistedEdwardsCurve.equivEdwards_symm_x, toPoint_x,
      Affine.edwardsToTwisted, Affine.value_scaleX, inv_root_twistedCurve]
  · rw [TwistedAffine.toPoint_y, coe_edwardsToTwisted, TwistedEdwardsCurve.equivEdwards_symm_y, toPoint_y,
      Affine.edwardsToTwisted, Affine.scaleX]

end CurveAffine

/-- The conversions are inverse to each other, and carry the solutions of each equation to those of the other. The addition
law has no exceptions in either form, and sums and multiples are converted to sums and multiples. -/
theorem twisted_forms_same_group :
    curve.d = twistedCurve.d / twistedCurve.a ∧
    (∀ p : Affine, p.twistedToEdwards.edwardsToTwisted.coordinates = p.coordinates ∧
      p.edwardsToTwisted.twistedToEdwards.coordinates = p.coordinates ∧
      (p.x.Reduced → p.twistedToEdwards.edwardsToTwisted = p ∧ p.edwardsToTwisted.twistedToEdwards = p)) ∧
    (∀ p : Affine, (p.OnTwistedCurve → p.twistedToEdwards.OnCurve) ∧ (p.OnCurve → p.edwardsToTwisted.OnTwistedCurve)) ∧
    (∀ P Q : Point, 1 + curve.d * P.x * Q.x * P.y * Q.y ≠ 0 ∧ 1 - curve.d * P.x * Q.x * P.y * Q.y ≠ 0) ∧
    (∀ P Q : TwistedPoint, 1 + twistedCurve.d * P.x * Q.x * P.y * Q.y ≠ 0 ∧ 1 - twistedCurve.d * P.x * Q.x * P.y * Q.y ≠ 0) ∧
    (∀ p q r : TwistedAffine, r.toPoint = p.toPoint + q.toPoint →
      r.twistedToEdwards.toPoint = (addSelf p.twistedToEdwards q.twistedToEdwards).toPoint) ∧
    (∀ p q : CurveAffine,
      (addSelf p q).edwardsToTwisted.toPoint = p.edwardsToTwisted.toPoint + q.edwardsToTwisted.toPoint) ∧
    (∀ (p r : TwistedAffine) (s : Fr), r.toPoint = s.intoBigint • p.toPoint →
      r.twistedToEdwards.toPoint = (scalarMul p.twistedToEdwards s).toPoint) ∧
    ∀ (p : CurveAffine) (s : Fr), (scalarMul p s).edwardsToTwisted.toPoint = s.intoBigint • p.edwardsToTwisted.toPoint := by
  refine ⟨curve_d_eq, fun p => ?_, fun p => ⟨Affine.onCurve_twistedToEdwards.2, Affine.onTwistedCurve_edwardsToTwisted⟩,
    fun P Q => ?_, fun P Q => ?_, fun p q r h => ?_, fun p q => ?_, fun p r s h => ?_, fun p s => ?_⟩
  · rw [p.edwardsToTwisted_twistedToEdwards, p.twistedToEdwards_edwardsToTwisted]
    exact ⟨p.coordinates_reduced, p.coordinates_reduced, fun h => ⟨Affine.eq_of_reduced h, Affine.eq_of_reduced h⟩⟩
  · exact ⟨EdwardsCurve.one_add_ne_zero P.onCurve Q.onCurve, EdwardsCurve.one_sub_ne_zero P.onCurve Q.onCurve⟩
  · exact ⟨TwistedEdwardsCurve.one_add_ne_zero P.onCurve Q.onCurve, TwistedEdwardsCurve.one_sub_ne_zero P.onCurve Q.onCurve⟩
  · rw [addSelf, CurveAffine.toPoint_ofPoint, r.toPoint_twistedToEdwards, h, map_add, p.toPoint_twistedToEdwards,
      q.toPoint_twistedToEdwards]
  · rw [(addSelf p q).toPoint_edwardsToTwisted, addSelf, CurveAffine.toPoint_ofPoint, map_add, p.toPoint_edwardsToTwisted,
      q.toPoint_edwardsToTwisted]
  · rw [scalarMul, CurveAffine.toPoint_ofPoint, r.toPoint_twistedToEdwards, h, map_nsmul, p.toPoint_twistedToEdwards]
  · rw [(scalarMul p s).toPoint_edwardsToTwisted, scalarMul, CurveAffine.toPoint_ofPoint, map_nsmul, p.toPoint_edwardsToTwisted]

end HumanNetwork.BabyJubJub
