import Mathlib.Algebra.Field.ZMod
import Mathlib.Algebra.Module.Torsion.Basic
import Mathlib.Algebra.Module.ZMod
import Mathlib.GroupTheory.Perm.Cycle.Type
import Mathlib.LinearAlgebra.FiniteDimensional.Basic
import Mathlib.LinearAlgebra.Dimension.FreeAndStrongRankCondition
import Mathlib.FieldTheory.Finiteness

/-!
# Elements of prime order in a small group

A commutative group with fewer than `q²` elements has at most one subgroup of the prime order `q`, which any element of
that order generates. A group with fewer than `3 q` elements, none of them its own opposite, has order `q` if it has an
element of that order.
-/

namespace PrimeSubgroup
variable {A : Type*} [AddCommGroup A] [Finite A] {q : ℕ} [hq : Fact q.Prime] {g : A}

theorem exists_nsmul_eq (hcard : Nat.card A < q ^ 2) (hg : g ≠ 0) (hqg : q • g = 0) {p : A} (hqp : q • p = 0) :
    ∃ k < q, k • g = p := by
  -- the elements that `q` annihilates are a vector space of dimension at most one
  let T := AddSubgroup.torsionBy A (q : ℤ)
  let : Module (ZMod q) T := AddSubgroup.torsionBy.zmodModule
  let g' : T := ⟨g, AddSubgroup.torsionBy.nsmul_iff.2 hqg⟩
  let p' : T := ⟨p, AddSubgroup.torsionBy.nsmul_iff.2 hqp⟩
  have hg' : g' ≠ 0 := fun h => hg (congrArg Subtype.val h)
  have hle : q ^ Module.finrank (ZMod q) T < q ^ 2 := by
    have hT := Module.natCard_eq_pow_finrank (K := ZMod q) (V := T)
    rw [Nat.card_zmod] at hT
    exact (hT.symm.le.trans (Nat.card_le_card_of_injective _ Subtype.val_injective)).trans_lt hcard
  have hdim : Module.finrank (ZMod q) T = 1 := by
    have hlt := (Nat.pow_lt_pow_iff_right hq.out.one_lt).1 hle
    have hpos : 0 < Module.finrank (ZMod q) T := Module.finrank_pos_iff_exists_ne_zero.2 ⟨g', hg'⟩
    omega
  obtain ⟨c, hc⟩ := exists_smul_eq_of_finrank_eq_one hdim hg' p'
  refine ⟨c.val, ZMod.val_lt c, ?_⟩
  have hsmul : c.val • g' = c • g' := by rw [← Nat.cast_smul_eq_nsmul (ZMod q), ZMod.natCast_zmod_val]
  exact congrArg Subtype.val (hsmul.trans hc)

theorem card_eq (hcard : Nat.card A < 3 * q) (hg : g ≠ 0) (hqg : q • g = 0) (htwo : ∀ a : A, 2 • a = 0 → a = 0) :
    Nat.card A = q := by
  have horder : addOrderOf g = q := addOrderOf_eq_prime hqg hg
  obtain ⟨m, hm⟩ := horder ▸ addOrderOf_dvd_natCard g
  have hpos : 0 < Nat.card A := Nat.card_pos
  have hm3 : m < 3 := by
    rw [hm, mul_comm] at hcard
    exact lt_of_mul_lt_mul_right hcard (Nat.zero_le q)
  have hm2 : m ≠ 2 := by
    rintro rfl
    obtain ⟨a, ha⟩ := exists_prime_addOrderOf_dvd_card' 2 (hm ▸ dvd_mul_left 2 q)
    have h0 : a = 0 := htwo a (ha ▸ addOrderOf_nsmul_eq_zero a)
    rw [h0, addOrderOf_zero] at ha
    omega
  have hm0 : m ≠ 0 := by
    rintro rfl
    omega
  obtain rfl : m = 1 := by omega
  rw [hm, mul_one]

end PrimeSubgroup
