import HumanNetwork.Lib.Bytes
import Mathlib.Algebra.Field.ZMod
import Mathlib.Algebra.Ring.Equiv

/-!
# Field elements in Montgomery form

An element of a prime field is held as 256 bits, which stand for the number times `2⁻²⁵⁶`. Nothing keeps the number
below the prime, so that several of them stand for the same element; one of them is reduced (`eq_ofValue_iff`). The reduced
ones are the field, with operations that depend on the elements and return reduced numbers (`equivReduced`).
-/

/-- An odd prime that fits into 256 bits. -/
class MontgomeryModulus (p : ℕ) : Prop extends Fact p.Prime where
  lt : p < 256 ^ 32
  ne_two : p ≠ 2

structure Montgomery (p : ℕ) where
  limbs : ℕ
  lt : limbs < 256 ^ 32
deriving DecidableEq

namespace Montgomery
variable {p : ℕ} {a b : Montgomery p}

@[ext] theorem ext (h : a.limbs = b.limbs) : a = b := by
  cases a
  cases b
  congr

variable [hp : MontgomeryModulus p] {v : ZMod p}

def value (a : Montgomery p) : ZMod p := a.limbs * ((2 ^ 256 : ℕ) : ZMod p)⁻¹

theorem mul_two_pow_lt (v : ZMod p) : (v * ((2 ^ 256 : ℕ) : ZMod p)).val < 256 ^ 32 :=
  (ZMod.val_lt _).trans hp.lt

def ofValue (v : ZMod p) : Montgomery p := ⟨(v * ((2 ^ 256 : ℕ) : ZMod p)).val, mul_two_pow_lt v⟩

def Reduced (a : Montgomery p) : Prop := a.limbs < p

instance : Decidable a.Reduced := inferInstanceAs (Decidable (_ < _))

theorem two_pow_ne_zero : ((2 ^ 256 : ℕ) : ZMod p) ≠ 0 := by
  rw [Nat.cast_pow]
  refine pow_ne_zero _ fun h => ?_
  rw [ZMod.natCast_eq_zero_iff] at h
  exact hp.ne_two ((Nat.prime_dvd_prime_iff_eq hp.out Nat.prime_two).1 h)

theorem value_mul_two_pow (a : Montgomery p) : a.value * ((2 ^ 256 : ℕ) : ZMod p) = a.limbs :=
  inv_mul_cancel_right₀ two_pow_ne_zero _

@[simp] theorem value_ofValue (v : ZMod p) : (ofValue v).value = v := by
  rw [value, ofValue, ZMod.natCast_zmod_val, mul_inv_cancel_right₀ two_pow_ne_zero]

theorem reduced_ofValue (v : ZMod p) : (ofValue v).Reduced := ZMod.val_lt _

theorem eq_ofValue_iff : a = ofValue v ↔ a.Reduced ∧ a.value = v := by
  constructor
  · rintro rfl
    exact ⟨reduced_ofValue v, value_ofValue v⟩
  · rintro ⟨hred, rfl⟩
    ext
    show a.limbs = (a.value * ((2 ^ 256 : ℕ) : ZMod p)).val
    rw [value_mul_two_pow, ZMod.val_natCast_of_lt hred]

theorem ofValue_value_iff : ofValue a.value = a ↔ a.Reduced := by
  rw [eq_comm, eq_ofValue_iff, and_iff_left rfl]

/-- The product with a constant, which is reduced. -/
def scale (a : Montgomery p) (v : ZMod p) : Montgomery p := ofValue (a.value * v)

@[simp] theorem value_scale (a : Montgomery p) (v : ZMod p) : (a.scale v).value = a.value * v := by
  rw [scale, value_ofValue]

theorem scale_scale_of_mul_eq_one {w : ZMod p} (a : Montgomery p) (h : v * w = 1) :
    (a.scale v).scale w = ofValue a.value := by
  rw [scale, value_scale, mul_assoc, h, mul_one]

/-! ### Bytes and integers -/

def writeLe (a : Montgomery p) : Bytes := Bytes.toLe 32 a.limbs

theorem writeLe_ofValue (v : ZMod p) : (ofValue v).writeLe = Bytes.toLe 32 (v * 2 ^ 256).val := by
  show Bytes.toLe 32 (v * ((2 ^ 256 : ℕ) : ZMod p)).val = _
  rw [Nat.cast_pow, Nat.cast_ofNat]

omit hp in
theorem ofLe_take_lt {bytes : Bytes} (h : 32 ≤ bytes.length) : Bytes.ofLe (bytes.take 32) < 256 ^ 32 := by
  refine (Bytes.ofLe_lt _).trans_eq ?_
  rw [List.length_take_of_le h]

/-- The limbs are taken as they are, and bytes behind them are not read. -/
def readLe (bytes : Bytes) : Option (Montgomery p) :=
  if h : 32 ≤ bytes.length then some ⟨Bytes.ofLe (bytes.take 32), ofLe_take_lt h⟩ else none

omit hp in
theorem readLe_eq_some {bytes : Bytes} : readLe bytes = some a ↔ 32 ≤ bytes.length ∧ a.limbs = Bytes.ofLe (bytes.take 32) := by
  unfold readLe
  split
  next hlen => simp [hlen, Montgomery.ext_iff, eq_comm]
  next hlen => simp [hlen]

omit hp in
theorem readLe_writeLe (a : Montgomery p) : readLe a.writeLe = some a := by
  have hlen : a.writeLe.length = 32 := Bytes.length_toLe _ _
  rw [readLe_eq_some, hlen, List.take_of_length_le hlen.le, writeLe, Bytes.ofLe_toLe a.lt]
  exact ⟨le_rfl, rfl⟩

/-- Montgomery reduction without the last subtraction: it ends in the prime for a multiple of the prime other than zero. -/
def intoBigint (a : Montgomery p) : ℕ := if a.value = 0 ∧ a.limbs ≠ 0 then p else a.value.val

theorem intoBigint_le (a : Montgomery p) : a.intoBigint ≤ p := by
  unfold intoBigint
  split
  · exact le_rfl
  · exact (ZMod.val_lt _).le

theorem natCast_intoBigint (a : Montgomery p) : (a.intoBigint : ZMod p) = a.value := by
  unfold intoBigint
  split
  next h => rw [h.1, CharP.cast_eq_zero]
  next => exact ZMod.natCast_zmod_val _

theorem intoBigint_of_reduced (h : a.Reduced) : a.intoBigint = a.value.val := by
  refine if_neg ?_
  rintro ⟨hvalue, hlimbs⟩
  have hdvd : p ∣ a.limbs := by
    rw [← ZMod.natCast_eq_zero_iff, ← value_mul_two_pow, hvalue, zero_mul]
  exact hlimbs (Nat.eq_zero_of_dvd_of_lt hdvd h)

/-! ### The field of the reduced ones -/

variable (p) in
abbrev Canonical := { a : Montgomery p // a.Reduced }

instance : Add (Canonical p) := ⟨fun a b => ⟨ofValue (a.1.value + b.1.value), reduced_ofValue _⟩⟩

instance : Mul (Canonical p) := ⟨fun a b => ⟨ofValue (a.1.value * b.1.value), reduced_ofValue _⟩⟩

variable (p) in
def equivReduced : ZMod p ≃+* Canonical p where
  toFun v := ⟨ofValue v, reduced_ofValue v⟩
  invFun a := a.1.value
  left_inv := value_ofValue
  right_inv a := Subtype.ext (ofValue_value_iff.2 a.2)
  map_add' v w := Subtype.ext (congrArg ofValue (by rw [value_ofValue, value_ofValue]))
  map_mul' v w := Subtype.ext (congrArg ofValue (by rw [value_ofValue, value_ofValue]))

end Montgomery
