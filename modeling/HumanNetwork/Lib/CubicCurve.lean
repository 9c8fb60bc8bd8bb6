import Mathlib.AlgebraicGeometry.EllipticCurve.Affine.Point

/-!
# The curves `y² = x³ + b`

The group of points is Mathlib's. This file says which coordinates are points, and multiplies by a number with projective
coordinates, so that the kernel can run it (`Projective.smul`). The formulas have exceptions, and all of them lead to
`Z = 0`, which no later step leaves again: the result can be used if its last coordinate is not zero
(`Projective.represents_smul`).
-/

/-- The curve `y² = x³ + b`. -/
structure CubicCurve (F : Type*) [Field F] where
  b : F
  b_ne_zero : b ≠ 0
  two_ne_zero : (2 : F) ≠ 0
  three_ne_zero : (3 : F) ≠ 0

namespace CubicCurve
open WeierstrassCurve
variable {F : Type*} [Field F] {E : CubicCurve F} {x y x' y' : F}

def toAffine (E : CubicCurve F) : Affine F := ⟨0, 0, 0, 0, E.b⟩

abbrev Point (E : CubicCurve F) := E.toAffine.Point

def OnCurve (E : CubicCurve F) (x y : F) : Prop := y ^ 2 = x ^ 3 + E.b

instance [DecidableEq F] : Decidable (E.OnCurve x y) := inferInstanceAs (Decidable (_ = _))

theorem nonsingular_iff : E.toAffine.Nonsingular x y ↔ E.OnCurve x y := by
  rw [Affine.nonsingular_iff', Affine.equation_iff]
  simp only [toAffine, OnCurve, zero_mul, mul_zero, add_zero, zero_sub]
  refine and_iff_left_of_imp fun h => ?_
  -- a singular point would have `y = 0` and `x = 0`, and then `b = 0`
  by_contra! hzero
  have hy : y = 0 := by simpa [E.two_ne_zero] using hzero.2
  have hx : x = 0 := by simpa [E.three_ne_zero] using hzero.1
  exact E.b_ne_zero (by simpa [hx, hy, eq_comm] using h)

def point (h : E.OnCurve x y) : E.Point := .some x y (nonsingular_iff.2 h)

theorem point_inj {h : E.OnCurve x y} {h' : E.OnCurve x' y'} : point h = point h' ↔ x = x' ∧ y = y' := by
  simp [point]

theorem point_ne_zero (h : E.OnCurve x y) : point h ≠ 0 := Affine.Point.some_ne_zero _

theorem eq_zero_or_eq_point (P : E.Point) : P = 0 ∨ ∃ x y, ∃ h : E.OnCurve x y, P = point h := by
  cases P with
  | zero => exact .inl rfl
  | some x y h => exact .inr ⟨x, y, nonsingular_iff.1 h, rfl⟩

theorem onCurve_neg (h : E.OnCurve x y) : E.OnCurve x (-y) := by
  rwa [OnCurve, neg_sq]

theorem neg_point (h : E.OnCurve x y) : -point h = point (onCurve_neg h) := by
  rw [point, Affine.Point.neg_some, point, Affine.Point.some.injEq]
  exact ⟨rfl, by simp [Affine.negY, toAffine]⟩

section Group
variable [DecidableEq F]

theorem add_eq_point (h : E.OnCurve x y) (h' : E.OnCurve x' y') (hne : x ≠ x') {x₃ y₃ s : F} (hs : s * (x' - x) = y' - y)
    (hx : x₃ = s ^ 2 - x - x') (hy : y₃ = s * (x - x₃) - y) : ∃ h₃ : E.OnCurve x₃ y₃, point h + point h' = point h₃ := by
  have hslope : E.toAffine.slope x x' y y' = s := by
    rw [Affine.slope_of_X_ne hne, div_eq_iff (sub_ne_zero.2 hne)]
    linear_combination hs
  have hx₃ : E.toAffine.addX x x' s = x₃ := by
    simp only [Affine.addX, toAffine]
    linear_combination -hx
  have hy₃ : E.toAffine.addY x x' y s = y₃ := by
    rw [Affine.addY, Affine.negAddY, hx₃]
    simp only [Affine.negY, toAffine]
    linear_combination -hy
  have hns := Affine.nonsingular_add (nonsingular_iff.2 h) (nonsingular_iff.2 h') fun hxy => hne hxy.1
  have hadd : point h + point h' = .some _ _ hns := Affine.Point.add_of_X_ne hne
  simp only [hslope, hx₃, hy₃] at hns hadd
  exact ⟨nonsingular_iff.1 hns, hadd⟩

theorem double_eq_point (h : E.OnCurve x y) (hne : y ≠ 0) {x₃ y₃ s : F} (hs : s * (2 * y) = 3 * x ^ 2)
    (hx : x₃ = s ^ 2 - 2 * x) (hy : y₃ = s * (x - x₃) - y) : ∃ h₃ : E.OnCurve x₃ y₃, point h + point h = point h₃ := by
  have htwo : 2 * y ≠ 0 := mul_ne_zero E.two_ne_zero hne
  have hnegY : E.toAffine.negY x y = -y := by simp [Affine.negY, toAffine]
  have hYne : y ≠ E.toAffine.negY x y := by
    rw [hnegY]
    intro hy
    exact htwo (by linear_combination hy)
  have hslope : E.toAffine.slope x x y y = s := by
    rw [Affine.slope_of_Y_ne rfl hYne, hnegY, div_eq_iff (by rwa [sub_neg_eq_add, ← two_mul])]
    simp only [toAffine]
    linear_combination -hs
  have hx₃ : E.toAffine.addX x x s = x₃ := by
    simp only [Affine.addX, toAffine]
    linear_combination -hx
  have hy₃ : E.toAffine.addY x x y s = y₃ := by
    rw [Affine.addY, Affine.negAddY, hx₃]
    simp only [Affine.negY, toAffine]
    linear_combination -hy
  have hns := Affine.nonsingular_add (nonsingular_iff.2 h) (nonsingular_iff.2 h) fun hxy => hYne hxy.2
  have hadd : point h + point h = .some _ _ hns := Affine.Point.add_self_of_Y_ne hYne
  simp only [hslope, hx₃, hy₃] at hns hadd
  exact ⟨nonsingular_iff.1 hns, hadd⟩

end Group

/-! ### Multiples without divisions -/

/-- The point `(X / Z, Y / Z)`. -/
structure Projective (F : Type*) where
  X : F
  Y : F
  Z : F

namespace Projective

def double (T : Projective F) : Projective F :=
  let w := T.X * T.X + T.X * T.X + T.X * T.X
  let s := T.Y * T.Z + T.Y * T.Z
  let R := T.Y * s
  let B := T.X * R + T.X * R
  let h := w * w - (B + B)
  ⟨h * s, w * (B - h) - (R * R + R * R), s * (s * s)⟩

/-- The sum with a point that has `Z = 1`. -/
def addAffine (T : Projective F) (x y : F) : Projective F :=
  let u := y * T.Z - T.Y
  let v := x * T.Z - T.X
  let A := u * u * T.Z - v * v * (v + (T.X + T.X))
  ⟨v * A, u * (v * v * T.X - A) - v * (v * v) * T.Y, v * (v * v) * T.Z⟩

/-- `n • (x, y)` by doubling, for a number of one bit more than the given ones. -/
def smul (x y : F) : (bits n : ℕ) → Projective F
  | 0, _ => ⟨x, y, 1⟩
  | bits + 1, n =>
    let even := (smul x y bits (n / 2)).double
    if n % 2 = 1 then even.addAffine x y else even

def Represents (T : Projective F) (P : E.Point) : Prop :=
  ∃ x y, ∃ h : E.OnCurve x y, P = point h ∧ T.X = x * T.Z ∧ T.Y = y * T.Z

variable [DecidableEq F] {T : Projective F} {P : E.Point}

omit [DecidableEq F] in
theorem z_ne_zero_of_double (hz : T.double.Z ≠ 0) : T.Z ≠ 0 := by
  intro hZ
  simp [double, hZ] at hz

omit [DecidableEq F] in
theorem z_ne_zero_of_addAffine (hz : (T.addAffine x y).Z ≠ 0) : T.Z ≠ 0 := by
  intro hZ
  simp [addAffine, hZ] at hz

theorem Represents.double (hT : T.Represents P) (hz : T.double.Z ≠ 0) : T.double.Represents (P + P) := by
  obtain ⟨x, y, h, rfl, hX, hY⟩ := hT
  have hs : T.Y * T.Z + T.Y * T.Z ≠ 0 := by
    intro hs
    simp [Projective.double, hs] at hz
  have hZ := z_ne_zero_of_double hz
  have hy : y ≠ 0 := by
    rintro rfl
    simp [hY] at hs
  have htwo := E.two_ne_zero
  obtain ⟨h₃, hadd⟩ := double_eq_point (s := 3 * x ^ 2 / (2 * y)) h hy (div_mul_cancel₀ _ (mul_ne_zero htwo hy)) rfl rfl
  refine ⟨_, _, h₃, hadd, ?_, ?_⟩
  · simp only [Projective.double, hX, hY, ← two_mul]
    field_simp
    ring
  · simp only [Projective.double, hX, hY, ← two_mul]
    field_simp
    ring

theorem Represents.addAffine (hT : T.Represents P) (h : E.OnCurve x y) (hz : (T.addAffine x y).Z ≠ 0) :
    (T.addAffine x y).Represents (P + point h) := by
  obtain ⟨x₁, y₁, h₁, rfl, hX, hY⟩ := hT
  have hZ := z_ne_zero_of_addAffine hz
  have hne : x₁ ≠ x := by
    rintro rfl
    simp [Projective.addAffine, hX] at hz
  have hsub : x - x₁ ≠ 0 := sub_ne_zero.2 hne.symm
  obtain ⟨h₃, hadd⟩ := add_eq_point (s := (y - y₁) / (x - x₁)) h₁ h hne (div_mul_cancel₀ _ hsub) rfl rfl
  refine ⟨_, _, h₃, hadd, ?_, ?_⟩
  · simp only [Projective.addAffine, hX, hY]
    field_simp
    ring
  · simp only [Projective.addAffine, hX, hY]
    field_simp
    ring

/-- A result with `Z ≠ 0` had no exception on its way. -/
theorem represents_smul (h : E.OnCurve x y) {bits n : ℕ} (hlow : 2 ^ bits ≤ n) (hhigh : n < 2 ^ (bits + 1))
    (hz : (smul x y bits n).Z ≠ 0) : (smul x y bits n).Represents (n • point h) := by
  induction bits generalizing n with
  | zero =>
    obtain rfl : n = 1 := by omega
    exact ⟨x, y, h, one_nsmul _, (mul_one x).symm, (mul_one y).symm⟩
  | succ bits ih =>
    rw [pow_succ] at hlow hhigh
    have ih := ih (n := n / 2) (by omega) (by omega)
    have htwice : (n / 2) • point h + (n / 2) • point h = (2 * (n / 2)) • point h := by rw [← two_nsmul, smul_smul]
    rw [smul] at hz ⊢
    by_cases hodd : n % 2 = 1
    · rw [if_pos hodd] at hz ⊢
      have heven := z_ne_zero_of_addAffine hz
      have hsucc : n • point h = (2 * (n / 2)) • point h + point h := by
        rw [← succ_nsmul]
        congr 1
        omega
      rw [hsucc, ← htwice]
      exact ((ih (z_ne_zero_of_double heven)).double heven).addAffine h hz
    · rw [if_neg hodd] at hz ⊢
      have hn : 2 * (n / 2) = n := by omega
      rw [← hn, ← htwice, hn]
      exact (ih (z_ne_zero_of_double hz)).double hz

end Projective

end CubicCurve
