import Mathlib.Algebra.Order.Ring.Nat
import Mathlib.Data.Nat.Digits.Lemmas

/-!
# Numbers as byte strings

`toLe len n` and `toBe len n` write `n` with exactly `len` bytes, `ofLe` and `ofBe` read a number
back. `ofBe_toBe` is the round trip for the numbers that fit, and `toLe_inj`, `toBe_inj` are what a
reader of an encoded number can conclude. Strings of one length are numbers below a power of 256
(`ofLe_lt`, `ofLe_inj`), and the end of a string is the number modulo such a power (`toBe_eq_iff`).
The shortest form is brought to a length with zeros (`replicate_append_toBeMin`).
-/

abbrev Bytes := List UInt8

namespace Bytes

/-- The `len` lowest bytes of `n`, lowest first. -/
def toLe : (len n : ℕ) → Bytes
  | 0, _ => []
  | len + 1, n => UInt8.ofNat n :: toLe len (n / 256)

/-- The `len` lowest bytes of `n`, highest first. -/
def toBe (len n : ℕ) : Bytes := (toLe len n).reverse

def ofLe : Bytes → ℕ
  | [] => 0
  | b :: bs => b.toNat + 256 * ofLe bs

/-- `BigUint::from_bytes_be`. -/
def ofBe (bs : Bytes) : ℕ := ofLe bs.reverse

/-- `BigUint::to_bytes_be`: no leading zero byte, and one zero byte for zero. -/
def toBeMin (n : ℕ) : Bytes :=
  if n = 0 then [0] else ((Nat.digits 256 n).map UInt8.ofNat).reverse

theorem length_toLe (len n : ℕ) : (toLe len n).length = len := by
  induction len generalizing n with
  | zero => rfl
  | succ len ih => rw [toLe, List.length_cons, ih]

theorem length_toBe (len n : ℕ) : (toBe len n).length = len := by
  rw [toBe, List.length_reverse, length_toLe]

theorem ofLe_toLe_eq_mod (len n : ℕ) : ofLe (toLe len n) = n % 256 ^ len := by
  induction len generalizing n with
  | zero => rw [pow_zero, Nat.mod_one]; rfl
  | succ len ih => rw [toLe, ofLe, ih, UInt8.toNat_ofNat', pow_succ' 256, Nat.mod_mul]

theorem ofBe_toBe_eq_mod (len n : ℕ) : ofBe (toBe len n) = n % 256 ^ len := by
  rw [ofBe, toBe, List.reverse_reverse, ofLe_toLe_eq_mod]

theorem ofLe_toLe {len n : ℕ} (h : n < 256 ^ len) : ofLe (toLe len n) = n := by
  rw [ofLe_toLe_eq_mod, Nat.mod_eq_of_lt h]

theorem ofBe_toBe {len n : ℕ} (h : n < 256 ^ len) : ofBe (toBe len n) = n := by
  rw [ofBe_toBe_eq_mod, Nat.mod_eq_of_lt h]

theorem toLe_inj {len n m : ℕ} (hn : n < 256 ^ len) (hm : m < 256 ^ len) :
    toLe len n = toLe len m ↔ n = m := by
  refine ⟨fun h => ?_, congrArg _⟩
  rw [← ofLe_toLe hn, h, ofLe_toLe hm]

theorem toBe_inj {len n m : ℕ} (hn : n < 256 ^ len) (hm : m < 256 ^ len) :
    toBe len n = toBe len m ↔ n = m := by
  rw [toBe, toBe, List.reverse_inj, toLe_inj hn hm]

theorem ofLe_lt (bs : Bytes) : ofLe bs < 256 ^ bs.length := by
  induction bs with
  | nil => simp [ofLe]
  | cons b bs ih =>
    have hb : b.toNat < 256 := b.toNat_lt
    rw [ofLe, List.length_cons, pow_succ]
    omega

theorem toLe_ofLe (bs : Bytes) : toLe bs.length (ofLe bs) = bs := by
  induction bs with
  | nil => rfl
  | cons b bs ih =>
    have hb : b.toNat < 256 := b.toNat_lt
    have hhead : UInt8.ofNat (b.toNat + 256 * ofLe bs) = b := by
      rw [← UInt8.toNat_inj, UInt8.toNat_ofNat']
      omega
    have htail : (b.toNat + 256 * ofLe bs) / 256 = ofLe bs := by omega
    rw [ofLe, List.length_cons, toLe, hhead, htail, ih]

theorem ofLe_inj {bs bs' : Bytes} (hlen : bs.length = bs'.length) : ofLe bs = ofLe bs' ↔ bs = bs' := by
  refine ⟨fun h => ?_, congrArg _⟩
  rw [← toLe_ofLe bs, h, hlen, toLe_ofLe]

theorem ofBe_lt (bs : Bytes) : ofBe bs < 256 ^ bs.length := by
  simpa [ofBe] using ofLe_lt bs.reverse

theorem ofBe_inj {bs bs' : Bytes} (hlen : bs.length = bs'.length) : ofBe bs = ofBe bs' ↔ bs = bs' := by
  rw [ofBe, ofBe, ofLe_inj (by simpa using hlen), List.reverse_inj]

/-- A string is the last bytes of the numbers with its residue. -/
theorem toBe_eq_iff {len n : ℕ} {bs : Bytes} (hlen : bs.length = len) : toBe len n = bs ↔ n % 256 ^ len = ofBe bs := by
  rw [← ofBe_inj ((length_toBe len n).trans hlen.symm), ofBe_toBe_eq_mod]

theorem ofLe_append (bs bs' : Bytes) : ofLe (bs ++ bs') = ofLe bs + 256 ^ bs.length * ofLe bs' := by
  induction bs with
  | nil => rw [List.nil_append, ofLe, List.length_nil, pow_zero, one_mul, zero_add]
  | cons b bs ih => rw [List.cons_append, ofLe, ofLe, ih, List.length_cons, pow_succ', mul_add, add_assoc, mul_assoc]

theorem ofBe_append (bs bs' : Bytes) : ofBe (bs ++ bs') = ofBe bs' + 256 ^ bs'.length * ofBe bs := by
  rw [ofBe, List.reverse_append, ofLe_append, List.length_reverse, ofBe, ofBe]

theorem take_toLe {len m : ℕ} (h : m ≤ len) (n : ℕ) : (toLe len n).take m = toLe m n := by
  induction len generalizing m n with
  | zero => rw [Nat.le_zero.1 h]; rfl
  | succ len ih =>
    cases m with
    | zero => rfl
    | succ m => rw [toLe, toLe, List.take_succ_cons, ih (by omega)]

theorem drop_toBe (len m n : ℕ) : (toBe len n).drop m = toBe (len - m) n := by
  rw [toBe, List.drop_reverse, length_toLe, take_toLe (Nat.sub_le _ _), toBe]

/-! ### The shortest form -/

theorem toLe_zero (len : ℕ) : toLe len 0 = List.replicate len 0 := by
  induction len with
  | zero => rfl
  | succ len ih => rw [toLe, Nat.zero_div, ih]; rfl

theorem toLe_eq_digits {len n : ℕ} (h : n < 256 ^ len) :
    toLe len n = (Nat.digits 256 n).map UInt8.ofNat ++ List.replicate (len - (Nat.digits 256 n).length) 0 := by
  induction len generalizing n with
  | zero =>
    obtain rfl : n = 0 := by simpa using h
    rfl
  | succ len ih =>
    rcases Nat.eq_zero_or_pos n with rfl | hpos
    · rw [toLe_zero]
      simp
    · have hdiv : n / 256 < 256 ^ len := Nat.div_lt_of_lt_mul (by rwa [← pow_succ'])
      have hmod : UInt8.ofNat n = UInt8.ofNat (n % 256) := by simp [UInt8.ofNat_eq_iff_mod_eq_toNat]
      rw [toLe, ih hdiv, Nat.digits_of_two_le_of_pos (by norm_num) hpos, hmod]
      simp

theorem length_digits_le {len n : ℕ} (h : n < 256 ^ len) : (Nat.digits 256 n).length ≤ len :=
  (Nat.digits_length_le_iff (by norm_num) n).2 h

theorem length_toBeMin_le {len n : ℕ} (hlen : 0 < len) (h : n < 256 ^ len) : (toBeMin n).length ≤ len := by
  unfold toBeMin
  split
  · exact hlen
  · rw [List.length_reverse, List.length_map]
    exact length_digits_le h

theorem replicate_append_toBeMin {len n : ℕ} (hlen : 0 < len) (h : n < 256 ^ len) :
    List.replicate (len - (toBeMin n).length) 0 ++ toBeMin n = toBe len n := by
  unfold toBeMin
  split
  next hzero =>
    rw [toBe, hzero, toLe_zero, List.reverse_replicate, ← Nat.sub_add_cancel hlen]
    exact List.replicate_succ'.symm
  next =>
    rw [toBe, toLe_eq_digits h, List.reverse_append, List.reverse_replicate, List.length_reverse, List.length_map]

end Bytes
