import Mathlib.Data.Nat.Cast.Basic
import Mathlib.Tactic.IntervalCases

/-!
# Decimal numbers

`read` takes the digits of a text into a semiring, and `parse` refuses a text with leading zeros before. Both read a natural
number back from its decimal text, which is `Nat.toDigits 10` (`read_toDigits`, `parse_toDigits`).
-/

namespace Decimal
variable {R : Type} [CommSemiring R]

/-- `c.to_digit(10)`. -/
def digit (c : Char) : Option ℕ := if c.isDigit then some (c.toNat - '0'.toNat) else none

/-- The digits behind the number that has been read. -/
def read (res : R) (s : List Char) : Option R := s.foldlM (fun res c => (digit c).map fun d : ℕ => res * 10 + d) res

def parse (s : List Char) : Option R :=
  if s = [] then none
  else if s = ['0'] then some 0
  else if s.head? = some '0' then none
  else read 0 s

theorem read_natCast {s : List Char} (h : ∀ c ∈ s, c.isDigit = true) (n : ℕ) :
    read (n : R) s = some ((Nat.ofDigitChars 10 s n : ℕ) : R) := by
  induction s generalizing n with
  | nil => rfl
  | cons c s ih =>
    have hc : digit c = some (c.toNat - '0'.toNat) := if_pos (h c List.mem_cons_self)
    have hnext : (n : R) * 10 + ((c.toNat - '0'.toNat : ℕ) : R) = ((10 * n + (c.toNat - '0'.toNat) : ℕ) : R) := by
      rw [Nat.cast_add, Nat.cast_mul, Nat.cast_ofNat, mul_comm]
    rw [read, List.foldlM_cons, hc, Option.map_some, hnext]
    exact ih (fun c hc => h c (List.mem_cons_of_mem _ hc)) _

theorem read_toDigits (n : ℕ) : read (0 : R) (Nat.toDigits 10 n) = some (n : R) := by
  have hdigits : ∀ c ∈ Nat.toDigits 10 n, c.isDigit = true := fun c =>
    Nat.isDigit_of_mem_toDigits (by decide) (by decide)
  rw [← Nat.cast_zero, read_natCast hdigits, Nat.ofDigitChars_ten_toDigits]

theorem head?_toDigits {n : ℕ} (hn : 0 < n) : (Nat.toDigits 10 n).head? ≠ some '0' := by
  induction n using Nat.base_induction 10 (by decide) with
  | single m hm =>
    rw [Nat.toDigits_of_lt_base hm]
    interval_cases m <;> decide
  | digit m k hk hm ih =>
    obtain ⟨c, cs, hcs⟩ := List.exists_cons_of_ne_nil (Nat.toDigits_ne_nil (n := m) (b := 10))
    rw [← Nat.toDigits_append_toDigits (by decide) hm hk, hcs]
    rw [hcs] at ih
    exact ih hm

theorem parse_toDigits (n : ℕ) : parse (Nat.toDigits 10 n) = some (n : R) := by
  rcases Nat.eq_zero_or_pos n with rfl | hn
  · rw [Nat.toDigits_zero, Nat.cast_zero]
    rfl
  have hhead := head?_toDigits hn
  have hne : Nat.toDigits 10 n ≠ ['0'] := fun h => hhead (by rw [h]; rfl)
  rw [parse, if_neg Nat.toDigits_ne_nil, if_neg hne, if_neg hhead, read_toDigits]

end Decimal
