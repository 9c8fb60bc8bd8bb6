import Mathlib.Algebra.Order.BigOperators.Group.Finset
import Mathlib.Algebra.Order.Floor.Div
import Mathlib.Data.Int.CardIntervalMod

/-!
# How often each remainder occurs

Of the numbers below `N`, each remainder modulo `m` has `N / m`, and the first `N % m` remainders have one more. A second
reduction collects the remainders of the first (`card_filter_mod_mod_bounds`).
-/

namespace Nat
open Finset
variable {m j : ℕ}

theorem card_filter_mod_eq (N : ℕ) (h : j < m) :
    #{n ∈ range N | n % m = j} = N / m + if j < N % m then 1 else 0 := by
  have hm : 0 < m := by omega
  have hcount := Nat.count_modEq_card N hm j
  rw [Nat.count_eq_card_filter_range, Nat.mod_eq_of_lt h] at hcount
  rw [← hcount]
  congr! 2
  rw [Nat.ModEq, Nat.mod_eq_of_lt h]

theorem card_filter_mod_bounds (N : ℕ) (h : j < m) :
    N / m ≤ #{n ∈ range N | n % m = j} ∧ #{n ∈ range N | n % m = j} ≤ N ⌈/⌉ m := by
  have hm : 0 < m := by omega
  rw [card_filter_mod_eq N h]
  refine ⟨Nat.le_add_right .., ?_⟩
  rw [Nat.ceilDiv_eq_add_pred_div, Nat.le_div_iff_mul_le hm, Nat.mul_comm, Nat.mul_add]
  have hdiv := Nat.div_add_mod N m
  split
  · rw [Nat.mul_one]
    omega
  · rw [Nat.mul_zero]
    omega

/-- After a reduction modulo `m` and one modulo `q`, the remainder `j` has the numbers of those remainders of `m` that are
`j` modulo `q`. -/
theorem card_filter_mod_mod_bounds (N q : ℕ) (hm : 0 < m) :
    #{r ∈ range m | r % q = j} * (N / m) ≤ #{n ∈ range N | n % m % q = j} ∧
      #{n ∈ range N | n % m % q = j} ≤ #{r ∈ range m | r % q = j} * (N ⌈/⌉ m) := by
  have hmaps : ∀ n ∈ ({n ∈ range N | n % m % q = j} : Finset ℕ), n % m ∈ ({r ∈ range m | r % q = j} : Finset ℕ) :=
    fun n hn => mem_filter.2 ⟨mem_range.2 (Nat.mod_lt n hm), (mem_filter.1 hn).2⟩
  have hfiber : ∀ r ∈ ({r ∈ range m | r % q = j} : Finset ℕ),
      #{n ∈ ({n ∈ range N | n % m % q = j} : Finset ℕ) | n % m = r} = #{n ∈ range N | n % m = r} := by
    intro r hr
    rw [filter_filter]
    congr! 3 with n
    refine and_iff_right_of_imp fun h => ?_
    rw [h, (mem_filter.1 hr).2]
  have hbounds : ∀ r ∈ ({r ∈ range m | r % q = j} : Finset ℕ),
      N / m ≤ #{n ∈ range N | n % m = r} ∧ #{n ∈ range N | n % m = r} ≤ N ⌈/⌉ m :=
    fun r hr => card_filter_mod_bounds N (mem_range.1 (mem_filter.1 hr).1)
  rw [card_eq_sum_card_fiberwise hmaps, sum_congr rfl hfiber, ← smul_eq_mul, ← smul_eq_mul]
  exact ⟨card_nsmul_le_sum _ _ _ fun r hr => (hbounds r hr).1, sum_le_card_nsmul _ _ _ fun r hr => (hbounds r hr).2⟩

end Nat
