import Mathlib.Algebra.Field.Basic
import Mathlib.Algebra.Ring.Parity
import Mathlib.Tactic.FieldSimp
import Mathlib.Tactic.LinearCombination
import Mathlib.Tactic.Ring

/-!
# Edwards curves

The points of `x² + y² = 1 + d x² y²` over a field. As long as `d` is not a square, the addition law

`(x₁, y₁) + (x₂, y₂) = ((x₁ y₂ + y₁ x₂) / (1 + d x₁ x₂ y₁ y₂), (y₁ y₂ - x₁ x₂) / (1 - d x₁ x₂ y₁ y₂))`

has no exceptions (`one_add_ne_zero`, `one_sub_ne_zero`) and makes the points a commutative group with zero `(0, 1)`. The
identities behind it are stated about coordinates `x₁₂`, `y₁₂` that satisfy the law without its denominators.

`Projective.smul` multiplies by a number without divisions, so that the kernel can run it.
-/

/-- The curve `x² + y² = 1 + d x² y²`. -/
structure EdwardsCurve (F : Type*) [Field F] where
  d : F
  not_isSquare : ¬ IsSquare d
  two_ne_zero : (2 : F) ≠ 0

namespace EdwardsCurve
variable {F : Type*} [Field F] {E : EdwardsCurve F} {x y x₁ y₁ x₂ y₂ x₃ y₃ : F}

def OnCurve (E : EdwardsCurve F) (x y : F) : Prop := x ^ 2 + y ^ 2 = 1 + E.d * x ^ 2 * y ^ 2

instance [DecidableEq F] : Decidable (E.OnCurve x y) := inferInstanceAs (Decidable (_ = _))

/-! ### Denominators -/

/-- If `d x₁ x₂ y₁ y₂` were a root of one, a quotient of coordinates would be a root of `d`. -/
theorem add_eq_zero_of_root (h₁ : E.OnCurve x₁ y₁) (h₂ : E.OnCurve x₂ y₂) (hx : x₁ ≠ 0) (hy : y₁ ≠ 0)
    (hroot : (E.d * x₁ * x₂ * y₁ * y₂) ^ 2 = 1) {s : F} (hs : s ^ 2 = 1) : x₂ + s * y₂ = 0 := by
  by_contra hne
  have hden : x₁ * y₁ * (x₂ + s * y₂) ≠ 0 := mul_ne_zero (mul_ne_zero hx hy) hne
  have hsq : (x₁ + s * (E.d * x₁ * x₂ * y₁ * y₂) * y₁) ^ 2 = E.d * (x₁ * y₁ * (x₂ + s * y₂)) ^ 2 := by
    unfold OnCurve at h₁ h₂
    linear_combination h₁ - E.d * x₁ ^ 2 * y₁ ^ 2 * h₂ + (y₁ ^ 2 - 1) * hroot +
      (y₁ ^ 2 * (E.d * x₁ * x₂ * y₁ * y₂) ^ 2 - E.d * x₁ ^ 2 * y₁ ^ 2 * y₂ ^ 2) * hs
  refine E.not_isSquare ⟨(x₁ + s * (E.d * x₁ * x₂ * y₁ * y₂) * y₁) / (x₁ * y₁ * (x₂ + s * y₂)), ?_⟩
  rw [← sq, div_pow, hsq, mul_div_cancel_right₀ _ (pow_ne_zero 2 hden)]

theorem sq_ne_one (h₁ : E.OnCurve x₁ y₁) (h₂ : E.OnCurve x₂ y₂) : (E.d * x₁ * x₂ * y₁ * y₂) ^ 2 ≠ 1 := by
  intro hroot
  have hne : E.d * x₁ * x₂ * y₁ * y₂ ≠ 0 := by
    intro h
    rw [h] at hroot
    norm_num at hroot
  have hx₁ : x₁ ≠ 0 := by rintro rfl; simp at hne
  have hy₁ : y₁ ≠ 0 := by rintro rfl; simp at hne
  have hx₂ : x₂ ≠ 0 := by rintro rfl; simp at hne
  have hplus := add_eq_zero_of_root h₁ h₂ hx₁ hy₁ hroot (one_pow 2)
  have hminus := add_eq_zero_of_root h₁ h₂ hx₁ hy₁ hroot neg_one_sq
  refine mul_ne_zero E.two_ne_zero hx₂ ?_
  linear_combination hplus + hminus

theorem one_add_ne_zero (h₁ : E.OnCurve x₁ y₁) (h₂ : E.OnCurve x₂ y₂) : 1 + E.d * x₁ * x₂ * y₁ * y₂ ≠ 0 := by
  intro h
  refine sq_ne_one h₁ h₂ ?_
  linear_combination (E.d * x₁ * x₂ * y₁ * y₂ - 1) * h

theorem one_sub_ne_zero (h₁ : E.OnCurve x₁ y₁) (h₂ : E.OnCurve x₂ y₂) : 1 - E.d * x₁ * x₂ * y₁ * y₂ ≠ 0 := by
  intro h
  refine sq_ne_one h₁ h₂ ?_
  linear_combination -(E.d * x₁ * x₂ * y₁ * y₂ + 1) * h

theorem one_sub_mul_sq_ne_zero (E : EdwardsCurve F) (y : F) : 1 - E.d * y ^ 2 ≠ 0 := by
  intro h
  have hy : y ≠ 0 := by
    rintro rfl
    norm_num at h
  refine E.not_isSquare ⟨y⁻¹, ?_⟩
  field_simp
  linear_combination -h

theorem onCurve_iff : E.OnCurve x y ↔ x ^ 2 = (1 - y ^ 2) / (1 - E.d * y ^ 2) := by
  rw [eq_div_iff (E.one_sub_mul_sq_ne_zero y), OnCurve]
  constructor <;> intro h <;> linear_combination h

theorem x_eq_or_eq_neg (h₁ : E.OnCurve x₁ y) (h₂ : E.OnCurve x₂ y) : x₁ = x₂ ∨ x₁ = -x₂ :=
  sq_eq_sq_iff_eq_or_eq_neg.1 ((onCurve_iff.1 h₁).trans (onCurve_iff.1 h₂).symm)

/-! ### The addition law -/

theorem onCurve_add (h₁ : E.OnCurve x₁ y₁) (h₂ : E.OnCurve x₂ y₂)
    (hx : x * (1 + E.d * x₁ * x₂ * y₁ * y₂) = x₁ * y₂ + y₁ * x₂)
    (hy : y * (1 - E.d * x₁ * x₂ * y₁ * y₂) = y₁ * y₂ - x₁ * x₂) : E.OnCurve x y := by
  have hdens := mul_ne_zero (one_add_ne_zero h₁ h₂) (one_sub_ne_zero h₁ h₂)
  unfold OnCurve at h₁ h₂ ⊢
  have hcleared : (x₁ * y₂ + y₁ * x₂) ^ 2 * (1 - E.d * x₁ * x₂ * y₁ * y₂) ^ 2 +
      (y₁ * y₂ - x₁ * x₂) ^ 2 * (1 + E.d * x₁ * x₂ * y₁ * y₂) ^ 2 =
      (1 + E.d * x₁ * x₂ * y₁ * y₂) ^ 2 * (1 - E.d * x₁ * x₂ * y₁ * y₂) ^ 2 +
        E.d * (x₁ * y₂ + y₁ * x₂) ^ 2 * (y₁ * y₂ - x₁ * x₂) ^ 2 := by
    linear_combination
      (E.d ^ 3 * x₁ ^ 2 * y₁ ^ 2 * x₂ ^ 4 * y₂ ^ 4 + E.d ^ 2 * (x₁ ^ 2 + y₁ ^ 2 - 1) * x₂ ^ 4 * y₂ ^ 4 -
        E.d * (x₁ ^ 2 + y₁ ^ 2) * x₂ ^ 2 * y₂ ^ 2 * (x₂ ^ 2 + y₂ ^ 2) + 2 * E.d * x₂ ^ 2 * y₂ ^ 2 * (x₂ ^ 2 * y₂ ^ 2 - 1) -
        2 * x₂ ^ 2 * y₂ ^ 2 * (x₂ ^ 2 + y₂ ^ 2) + x₂ ^ 4 + y₂ ^ 4 + 4 * x₂ ^ 2 * y₂ ^ 2) * h₁ +
      (E.d * x₂ ^ 2 * y₂ ^ 2 * (x₁ ^ 4 + y₁ ^ 4 + 1 - 2 * x₁ ^ 2 - 2 * y₁ ^ 2) +
        2 * x₂ ^ 2 * y₂ ^ 2 * (x₁ ^ 2 + y₁ ^ 2 - 1) - (x₁ ^ 2 + y₁ ^ 2 - 1) * (x₂ ^ 2 + y₂ ^ 2) + 1) * h₂
  refine mul_left_cancel₀ (pow_ne_zero 2 hdens) ?_
  rw [← hx, ← hy] at hcleared
  linear_combination hcleared

/-- The `x`-coordinates of the two ways to add three points are the same. -/
theorem add_assoc_x {x₁₂ y₁₂ x₂₃ y₂₃ : F} (h₁ : E.OnCurve x₁ y₁) (h₂ : E.OnCurve x₂ y₂) (h₃ : E.OnCurve x₃ y₃)
    (hx₁₂ : x₁₂ * (1 + E.d * x₁ * x₂ * y₁ * y₂) = x₁ * y₂ + y₁ * x₂)
    (hy₁₂ : y₁₂ * (1 - E.d * x₁ * x₂ * y₁ * y₂) = y₁ * y₂ - x₁ * x₂)
    (hx₂₃ : x₂₃ * (1 + E.d * x₂ * x₃ * y₂ * y₃) = x₂ * y₃ + y₂ * x₃)
    (hy₂₃ : y₂₃ * (1 - E.d * x₂ * x₃ * y₂ * y₃) = y₂ * y₃ - x₂ * x₃) :
    (x₁₂ * y₃ + y₁₂ * x₃) * (1 + E.d * x₁ * x₂₃ * y₁ * y₂₃) =
      (x₁ * y₂₃ + y₁ * x₂₃) * (1 + E.d * x₁₂ * x₃ * y₁₂ * y₃) := by
  have hdens₁₂ := mul_ne_zero (one_add_ne_zero h₁ h₂) (one_sub_ne_zero h₁ h₂)
  have hdens₂₃ := mul_ne_zero (one_add_ne_zero h₂ h₃) (one_sub_ne_zero h₂ h₃)
  unfold OnCurve at h₁ h₂ h₃
  generalize E.d = d at *
  have hcleared : ((x₁ * y₂ + y₁ * x₂) * (1 - d * x₁ * x₂ * y₁ * y₂) * y₃ +
        (y₁ * y₂ - x₁ * x₂) * (1 + d * x₁ * x₂ * y₁ * y₂) * x₃) *
      ((1 + d * x₂ * x₃ * y₂ * y₃) * (1 - d * x₂ * x₃ * y₂ * y₃) +
        d * x₁ * y₁ * (x₂ * y₃ + y₂ * x₃) * (y₂ * y₃ - x₂ * x₃)) =
      (x₁ * (y₂ * y₃ - x₂ * x₃) * (1 + d * x₂ * x₃ * y₂ * y₃) +
        y₁ * (x₂ * y₃ + y₂ * x₃) * (1 - d * x₂ * x₃ * y₂ * y₃)) *
      ((1 + d * x₁ * x₂ * y₁ * y₂) * (1 - d * x₁ * x₂ * y₁ * y₂) +
        d * x₃ * y₃ * (x₁ * y₂ + y₁ * x₂) * (y₁ * y₂ - x₁ * x₂)) := by
    -- the quotients of the division by the three curve equations
    linear_combination
      d * x₂ * y₂ *
        (x₁ * (d * x₂ ^ 3 * y₂ ^ 2 * x₃ ^ 2 * y₃ - d * x₂ ^ 2 * y₂ ^ 3 * x₃ * y₃ ^ 2 - x₂ ^ 3 * x₃ ^ 2 * y₃ +
            y₂ ^ 3 * x₃ * y₃ ^ 2 - x₂ ^ 2 * y₂ * x₃ ^ 3 + x₂ ^ 2 * y₂ * x₃ + x₂ * y₂ ^ 2 * y₃ ^ 3 - x₂ * y₂ ^ 2 * y₃) +
          y₁ * (d * x₂ ^ 3 * y₂ ^ 2 * x₃ * y₃ ^ 2 + d * x₂ ^ 2 * y₂ ^ 3 * x₃ ^ 2 * y₃ - x₂ ^ 3 * x₃ * y₃ ^ 2 -
            y₂ ^ 3 * x₃ ^ 2 * y₃ + x₂ ^ 2 * y₂ * y₃ ^ 3 - x₂ ^ 2 * y₂ * y₃ + x₂ * y₂ ^ 2 * x₃ ^ 3 - x₂ * y₂ ^ 2 * x₃)) * h₁ +
      d * x₂ * y₂ *
        (x₁ * (x₁ ^ 2 - 1) * x₃ * y₃ * (x₂ * x₃ - y₂ * y₃) + y₁ * (y₁ ^ 2 - 1) * x₃ * y₃ * (x₂ * y₃ + y₂ * x₃) -
          x₁ ^ 2 * y₁ * (x₂ * (x₃ ^ 3 - x₃) + y₂ * (y₃ ^ 3 - y₃)) -
          x₁ * y₁ ^ 2 * (x₂ * (y₃ ^ 3 - y₃) - y₂ * (x₃ ^ 3 - x₃))) * h₂ +
      d * x₂ * y₂ *
        (x₁ * (x₁ ^ 2 - 1) * x₂ * y₂ * (x₂ * x₃ - y₂ * y₃) - y₁ * (y₁ ^ 2 - 1) * x₂ * y₂ * (x₂ * y₃ + y₂ * x₃) +
          x₁ ^ 2 * y₁ * (x₂ ^ 3 * x₃ + y₂ ^ 3 * y₃ - d * x₂ ^ 2 * y₂ ^ 2 * (x₂ * x₃ + y₂ * y₃)) +
          x₁ * y₁ ^ 2 * (x₂ ^ 3 * y₃ - y₂ ^ 3 * x₃ - d * x₂ ^ 2 * y₂ ^ 2 * (x₂ * y₃ - y₂ * x₃))) * h₃
  refine mul_left_cancel₀ (mul_ne_zero hdens₁₂ hdens₂₃) ?_
  rw [← hx₁₂, ← hy₁₂, ← hx₂₃, ← hy₂₃] at hcleared
  linear_combination hcleared

/-- The `y`-coordinates: those of `x` for the third point turned by a quarter. -/
theorem add_assoc_y {x₁₂ y₁₂ x₂₃ y₂₃ : F} (h₁ : E.OnCurve x₁ y₁) (h₂ : E.OnCurve x₂ y₂) (h₃ : E.OnCurve x₃ y₃)
    (hx₁₂ : x₁₂ * (1 + E.d * x₁ * x₂ * y₁ * y₂) = x₁ * y₂ + y₁ * x₂)
    (hy₁₂ : y₁₂ * (1 - E.d * x₁ * x₂ * y₁ * y₂) = y₁ * y₂ - x₁ * x₂)
    (hx₂₃ : x₂₃ * (1 + E.d * x₂ * x₃ * y₂ * y₃) = x₂ * y₃ + y₂ * x₃)
    (hy₂₃ : y₂₃ * (1 - E.d * x₂ * x₃ * y₂ * y₃) = y₂ * y₃ - x₂ * x₃) :
    (y₁₂ * y₃ - x₁₂ * x₃) * (1 - E.d * x₁ * x₂₃ * y₁ * y₂₃) =
      (y₁ * y₂₃ - x₁ * x₂₃) * (1 - E.d * x₁₂ * x₃ * y₁₂ * y₃) := by
  have hturned : E.OnCurve y₃ (-x₃) := by
    unfold OnCurve at h₃ ⊢
    linear_combination h₃
  have hx : (x₁₂ * -x₃ + y₁₂ * y₃) * (1 + E.d * x₁ * y₂₃ * y₁ * -x₂₃) =
      (x₁ * -x₂₃ + y₁ * y₂₃) * (1 + E.d * x₁₂ * y₃ * y₁₂ * -x₃) :=
    add_assoc_x h₁ h₂ hturned hx₁₂ hy₁₂ (by linear_combination hy₂₃) (by linear_combination -hx₂₃)
  linear_combination hx

/-! ### The group of points -/

variable (E) in
@[ext] structure Point where
  x : F
  y : F
  onCurve : E.OnCurve x y

namespace Point

instance [DecidableEq F] : DecidableEq E.Point := fun P Q => decidable_of_iff (P.x = Q.x ∧ P.y = Q.y) Point.ext_iff.symm

instance : Zero E.Point := ⟨⟨0, 1, by unfold OnCurve; ring⟩⟩

instance : Neg E.Point := ⟨fun P => ⟨-P.x, P.y, by have h := P.onCurve; unfold OnCurve at h ⊢; linear_combination h⟩⟩

instance : Add E.Point := ⟨fun P Q =>
  ⟨(P.x * Q.y + P.y * Q.x) / (1 + E.d * P.x * Q.x * P.y * Q.y), (P.y * Q.y - P.x * Q.x) / (1 - E.d * P.x * Q.x * P.y * Q.y),
    onCurve_add P.onCurve Q.onCurve (div_mul_cancel₀ _ (one_add_ne_zero P.onCurve Q.onCurve))
      (div_mul_cancel₀ _ (one_sub_ne_zero P.onCurve Q.onCurve))⟩⟩

variable {P Q R : E.Point}

@[simp] theorem zero_x : (0 : E.Point).x = 0 := rfl
@[simp] theorem zero_y : (0 : E.Point).y = 1 := rfl
@[simp] theorem neg_x : (-P).x = -P.x := rfl
@[simp] theorem neg_y : (-P).y = P.y := rfl

theorem add_x_mul : (P + Q).x * (1 + E.d * P.x * Q.x * P.y * Q.y) = P.x * Q.y + P.y * Q.x :=
  div_mul_cancel₀ _ (one_add_ne_zero P.onCurve Q.onCurve)

theorem add_y_mul : (P + Q).y * (1 - E.d * P.x * Q.x * P.y * Q.y) = P.y * Q.y - P.x * Q.x :=
  div_mul_cancel₀ _ (one_sub_ne_zero P.onCurve Q.onCurve)

theorem add_eq (hx : R.x * (1 + E.d * P.x * Q.x * P.y * Q.y) = P.x * Q.y + P.y * Q.x)
    (hy : R.y * (1 - E.d * P.x * Q.x * P.y * Q.y) = P.y * Q.y - P.x * Q.x) : P + Q = R :=
  Point.ext (mul_right_cancel₀ (one_add_ne_zero P.onCurve Q.onCurve) (add_x_mul.trans hx.symm))
    (mul_right_cancel₀ (one_sub_ne_zero P.onCurve Q.onCurve) (add_y_mul.trans hy.symm))

theorem add_assoc' : P + Q + R = P + (Q + R) := by
  have hx := add_assoc_x P.onCurve Q.onCurve R.onCurve add_x_mul add_y_mul add_x_mul add_y_mul
  have hy := add_assoc_y P.onCurve Q.onCurve R.onCurve add_x_mul add_y_mul add_x_mul add_y_mul
  rw [← add_x_mul (P := P) (Q := Q + R)] at hx
  rw [← add_y_mul (P := P) (Q := Q + R)] at hy
  refine add_eq ?_ ?_
  · exact mul_right_cancel₀ (one_add_ne_zero P.onCurve (Q + R).onCurve) (by linear_combination -hx)
  · exact mul_right_cancel₀ (one_sub_ne_zero P.onCurve (Q + R).onCurve) (by linear_combination -hy)

instance : AddCommGroup E.Point where
  add_assoc _ _ _ := add_assoc'
  zero_add P := add_eq (by simp) (by simp)
  add_zero P := add_eq (by simp) (by simp)
  add_comm P Q := add_eq (by linear_combination add_x_mul (P := Q) (Q := P)) (by linear_combination add_y_mul (P := Q) (Q := P))
  neg_add_cancel P := by
    have h := P.onCurve
    unfold OnCurve at h
    refine add_eq ?_ ?_
    · simp only [zero_x, neg_x, neg_y]
      ring
    · simp only [zero_y, neg_x, neg_y]
      linear_combination -h
  nsmul := nsmulRec
  zsmul := zsmulRec

end Point

/-! ### Multiples without divisions -/

/-- The point `(X / Z, Y / Z)`. -/
structure Projective (F : Type*) where
  X : F
  Y : F
  Z : F

namespace Projective

def add (d : F) (T U : Projective F) : Projective F :=
  let A := T.Z * U.Z
  let B := A * A
  let C := T.X * U.X
  let D := T.Y * U.Y
  let G := d * C * D
  ⟨A * (B - G) * (T.X * U.Y + T.Y * U.X), A * (B + G) * (D - C), (B - G) * (B + G)⟩

/-- `n • T` by doubling, for a number of at most the given bits. -/
def smul (d : F) (T : Projective F) : (bits n : ℕ) → Projective F
  | 0, _ => ⟨0, 1, 1⟩
  | bits + 1, n =>
    let half := smul d T bits (n / 2)
    let even := half.add d half
    if n % 2 = 1 then even.add d T else even

structure Represents (T : Projective F) (P : E.Point) : Prop where
  z_ne_zero : T.Z ≠ 0
  x_mul : T.X = P.x * T.Z
  y_mul : T.Y = P.y * T.Z

variable {T U : Projective F} {P Q : E.Point}

theorem Represents.add (hT : T.Represents P) (hU : U.Represents Q) : (T.add E.d U).Represents (P + Q) := by
  have hplus : T.Z * U.Z * (T.Z * U.Z) + E.d * (T.X * U.X) * (T.Y * U.Y) =
      (T.Z * U.Z) ^ 2 * (1 + E.d * P.x * Q.x * P.y * Q.y) := by
    rw [hT.x_mul, hT.y_mul, hU.x_mul, hU.y_mul]
    ring
  have hminus : T.Z * U.Z * (T.Z * U.Z) - E.d * (T.X * U.X) * (T.Y * U.Y) =
      (T.Z * U.Z) ^ 2 * (1 - E.d * P.x * Q.x * P.y * Q.y) := by
    rw [hT.x_mul, hT.y_mul, hU.x_mul, hU.y_mul]
    ring
  have hz := pow_ne_zero 2 (mul_ne_zero hT.z_ne_zero hU.z_ne_zero)
  refine ⟨?_, ?_, ?_⟩
  · simp only [Projective.add, hplus, hminus]
    exact mul_ne_zero (mul_ne_zero hz (one_sub_ne_zero P.onCurve Q.onCurve)) (mul_ne_zero hz (one_add_ne_zero P.onCurve Q.onCurve))
  · simp only [Projective.add, hplus, hminus]
    rw [hT.x_mul, hT.y_mul, hU.x_mul, hU.y_mul]
    linear_combination -(T.Z * U.Z) ^ 4 * (1 - E.d * P.x * Q.x * P.y * Q.y) * Point.add_x_mul (P := P) (Q := Q)
  · simp only [Projective.add, hplus, hminus]
    rw [hT.x_mul, hT.y_mul, hU.x_mul, hU.y_mul]
    linear_combination -(T.Z * U.Z) ^ 4 * (1 + E.d * P.x * Q.x * P.y * Q.y) * Point.add_y_mul (P := P) (Q := Q)

theorem Represents.smul (hT : T.Represents P) {bits n : ℕ} (hn : n < 2 ^ bits) : (T.smul E.d bits n).Represents (n • P) := by
  induction bits generalizing n with
  | zero =>
    obtain rfl : n = 0 := by simpa using hn
    rw [zero_smul]
    exact ⟨one_ne_zero, by simp [Projective.smul], by simp [Projective.smul]⟩
  | succ bits ih =>
    have hhalf := ih (n := n / 2) (by rw [pow_succ] at hn; omega)
    have heven := hhalf.add hhalf
    rw [← two_nsmul, smul_smul] at heven
    rw [Projective.smul]
    split
    next hodd =>
      have hsucc : n • P = (2 * (n / 2)) • P + P := by
        rw [← succ_nsmul]
        congr 1
        omega
      rw [hsucc]
      exact heven.add hT
    next hn =>
      have htwice : 2 * (n / 2) = n := by omega
      rwa [htwice] at heven

theorem Represents.eq_zero_iff (hT : T.Represents P) : P = 0 ↔ T.X = 0 ∧ T.Y = T.Z := by
  rw [hT.x_mul, hT.y_mul, mul_eq_zero, or_iff_left hT.z_ne_zero, mul_eq_right₀ hT.z_ne_zero]
  exact Point.ext_iff

end Projective

end EdwardsCurve
