import HumanNetwork.Lib.Edwards
import Mathlib.Algebra.Group.Equiv.Defs

/-!
# Twisted Edwards curves

The curve `a x² + y² = 1 + d x² y²`, where `a` has a root. Multiplying `x` by the root leads to the Edwards curve with
`d / a` (`onCurve_iff`), and from the addition law

`(x₁, y₁) + (x₂, y₂) = ((x₁ y₂ + y₁ x₂) / (1 + d x₁ x₂ y₁ y₂), (y₁ y₂ - a x₁ x₂) / (1 - d x₁ x₂ y₁ y₂))`

to the one there. So the law has no exceptions (`one_add_ne_zero`, `one_sub_ne_zero`), and the points of both curves are
one group (`equivEdwards`).
-/

/-- The curve `a x² + y² = 1 + d x² y²` that becomes the Edwards curve with a root of `a`. -/
structure TwistedEdwardsCurve {F : Type*} [Field F] (E : EdwardsCurve F) where
  a : F
  d : F
  root : F
  root_mul_root : root * root = a
  a_ne_zero : a ≠ 0
  d_eq : d = E.d * a

namespace TwistedEdwardsCurve
variable {F : Type*} [Field F] {E : EdwardsCurve F} {T : TwistedEdwardsCurve E} {x y x₁ y₁ x₂ y₂ : F}

def OnCurve (T : TwistedEdwardsCurve E) (x y : F) : Prop := T.a * x ^ 2 + y ^ 2 = 1 + T.d * x ^ 2 * y ^ 2

theorem root_ne_zero (T : TwistedEdwardsCurve E) : T.root ≠ 0 := by
  intro h
  have hroot := T.root_mul_root
  rw [h, zero_mul] at hroot
  exact T.a_ne_zero hroot.symm

theorem onCurve_iff : T.OnCurve x y ↔ E.OnCurve (x * T.root) y := by
  have hroot := T.root_mul_root
  unfold OnCurve EdwardsCurve.OnCurve
  rw [T.d_eq]
  constructor
  · intro h
    linear_combination h + (x ^ 2 - E.d * x ^ 2 * y ^ 2) * hroot
  · intro h
    linear_combination h - (x ^ 2 - E.d * x ^ 2 * y ^ 2) * hroot

theorem denominator_eq (T : TwistedEdwardsCurve E) (x₁ y₁ x₂ y₂ : F) :
    E.d * (x₁ * T.root) * (x₂ * T.root) * y₁ * y₂ = T.d * x₁ * x₂ * y₁ * y₂ := by
  have hroot := T.root_mul_root
  rw [T.d_eq]
  linear_combination E.d * x₁ * x₂ * y₁ * y₂ * hroot

theorem one_add_ne_zero (h₁ : T.OnCurve x₁ y₁) (h₂ : T.OnCurve x₂ y₂) : 1 + T.d * x₁ * x₂ * y₁ * y₂ ≠ 0 := by
  rw [← T.denominator_eq]
  exact EdwardsCurve.one_add_ne_zero (onCurve_iff.1 h₁) (onCurve_iff.1 h₂)

theorem one_sub_ne_zero (h₁ : T.OnCurve x₁ y₁) (h₂ : T.OnCurve x₂ y₂) : 1 - T.d * x₁ * x₂ * y₁ * y₂ ≠ 0 := by
  rw [← T.denominator_eq]
  exact EdwardsCurve.one_sub_ne_zero (onCurve_iff.1 h₁) (onCurve_iff.1 h₂)

/-! ### The group of points -/

variable (T) in
@[ext] structure Point where
  x : F
  y : F
  onCurve : T.OnCurve x y

namespace Point
variable {P Q : T.Point}

def toEdwards (P : T.Point) : E.Point := ⟨P.x * T.root, P.y, onCurve_iff.1 P.onCurve⟩

theorem toEdwards_injective : Function.Injective (toEdwards (T := T)) := by
  intro P Q h
  obtain ⟨hx, hy⟩ := EdwardsCurve.Point.ext_iff.1 h
  exact Point.ext (mul_right_cancel₀ T.root_ne_zero hx) hy

theorem toEdwards_add_x : (P.toEdwards + Q.toEdwards).x =
    (P.x * Q.y + P.y * Q.x) / (1 + T.d * P.x * Q.x * P.y * Q.y) * T.root := by
  show (P.x * T.root * Q.y + P.y * (Q.x * T.root)) / (1 + E.d * (P.x * T.root) * (Q.x * T.root) * P.y * Q.y) = _
  rw [T.denominator_eq, div_mul_eq_mul_div]
  congr 1
  ring

theorem toEdwards_add_y : (P.toEdwards + Q.toEdwards).y =
    (P.y * Q.y - T.a * P.x * Q.x) / (1 - T.d * P.x * Q.x * P.y * Q.y) := by
  show (P.y * Q.y - P.x * T.root * (Q.x * T.root)) / (1 - E.d * (P.x * T.root) * (Q.x * T.root) * P.y * Q.y) = _
  rw [T.denominator_eq, ← T.root_mul_root]
  congr 1
  ring

instance : Zero T.Point := ⟨⟨0, 1, by unfold OnCurve; ring⟩⟩

instance : Neg T.Point := ⟨fun P => ⟨-P.x, P.y, by have h := P.onCurve; unfold OnCurve at h ⊢; linear_combination h⟩⟩

theorem onCurve_add (P Q : T.Point) : T.OnCurve ((P.x * Q.y + P.y * Q.x) / (1 + T.d * P.x * Q.x * P.y * Q.y))
    ((P.y * Q.y - T.a * P.x * Q.x) / (1 - T.d * P.x * Q.x * P.y * Q.y)) := by
  have h := (P.toEdwards + Q.toEdwards).onCurve
  rwa [toEdwards_add_x, toEdwards_add_y, ← onCurve_iff] at h

instance : Add T.Point := ⟨fun P Q => ⟨_, _, onCurve_add P Q⟩⟩

theorem toEdwards_zero : (0 : T.Point).toEdwards = 0 := EdwardsCurve.Point.ext (zero_mul _) rfl

theorem toEdwards_neg : (-P).toEdwards = -P.toEdwards := EdwardsCurve.Point.ext (neg_mul _ _) rfl

theorem toEdwards_add : (P + Q).toEdwards = P.toEdwards + Q.toEdwards :=
  EdwardsCurve.Point.ext toEdwards_add_x.symm toEdwards_add_y.symm

instance : AddCommGroup T.Point where
  add_assoc P Q R := toEdwards_injective (by simp only [toEdwards_add, add_assoc])
  zero_add P := toEdwards_injective (by rw [toEdwards_add, toEdwards_zero, zero_add])
  add_zero P := toEdwards_injective (by rw [toEdwards_add, toEdwards_zero, add_zero])
  add_comm P Q := toEdwards_injective (by rw [toEdwards_add, toEdwards_add, add_comm])
  neg_add_cancel P := toEdwards_injective (by rw [toEdwards_add, toEdwards_neg, toEdwards_zero, neg_add_cancel])
  nsmul := nsmulRec
  zsmul := zsmulRec

end Point

theorem onCurve_mul_inv (h : E.OnCurve x y) : T.OnCurve (x * T.root⁻¹) y := by
  rw [onCurve_iff, inv_mul_cancel_right₀ T.root_ne_zero]
  exact h

variable (T) in
/-- The points of the two curves, with `x` multiplied or divided by the root. -/
def equivEdwards : T.Point ≃+ E.Point where
  toFun := Point.toEdwards
  invFun Q := ⟨Q.x * T.root⁻¹, Q.y, onCurve_mul_inv Q.onCurve⟩
  left_inv P := Point.ext (mul_inv_cancel_right₀ T.root_ne_zero P.x) rfl
  right_inv Q := EdwardsCurve.Point.ext (inv_mul_cancel_right₀ T.root_ne_zero Q.x) rfl
  map_add' _ _ := Point.toEdwards_add

@[simp] theorem equivEdwards_x (P : T.Point) : (T.equivEdwards P).x = P.x * T.root := rfl
@[simp] theorem equivEdwards_y (P : T.Point) : (T.equivEdwards P).y = P.y := rfl
@[simp] theorem equivEdwards_symm_x (Q : E.Point) : (T.equivEdwards.symm Q).x = Q.x * T.root⁻¹ := rfl
@[simp] theorem equivEdwards_symm_y (Q : E.Point) : (T.equivEdwards.symm Q).y = Q.y := rfl

end TwistedEdwardsCurve
