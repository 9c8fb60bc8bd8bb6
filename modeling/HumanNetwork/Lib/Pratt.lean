import Mathlib.NumberTheory.LucasPrimality
import Mathlib.Data.List.Prime

/-!
# Pratt certificates

A certificate is a list of steps, each of which names a number `p`, a base `a` and the prime
factors of `p - 1`; a step may use the numbers of earlier steps as primes. `prime_of_certified`
turns an accepted certificate into primality of every number it names (Lucas' criterion).
Everything the check computes is structurally recursive, so that the kernel can run it on numbers
of a few hundred bits.
-/

namespace Pratt

/-- One step: `base` has order `p - 1` modulo `p`, and `factors` multiply to `p - 1`. -/
structure Step where
  p : ℕ
  base : ℕ
  factors : List ℕ

/-- `acc * a ^ e` modulo `p`, by repeated squaring over the lowest `bits` bits of `e`. -/
def mulPowMod (p : ℕ) : (bits acc a e : ℕ) → ℕ
  | 0, acc, _, _ => acc % p
  | bits + 1, acc, a, e => mulPowMod p bits (if e % 2 = 1 then acc * a % p else acc) (a * a % p) (e / 2)

theorem mulPowMod_modEq (p : ℕ) {bits acc a e : ℕ} (he : e < 2 ^ bits) :
    mulPowMod p bits acc a e ≡ acc * a ^ e [MOD p] := by
  induction bits generalizing acc a e with
  | zero =>
    obtain rfl : e = 0 := by simpa using he
    simpa [mulPowMod] using Nat.mod_modEq acc p
  | succ bits ih =>
    have he' : e / 2 < 2 ^ bits := by rw [pow_succ] at he; omega
    refine (ih he').trans ?_
    have hsq : (a * a % p) ^ (e / 2) ≡ a ^ (2 * (e / 2)) [MOD p] := by
      rw [pow_mul, pow_two]; exact (Nat.mod_modEq (a * a) p).pow _
    split_ifs with hodd
    · calc acc * a % p * (a * a % p) ^ (e / 2)
          ≡ acc * a * a ^ (2 * (e / 2)) [MOD p] := (Nat.mod_modEq _ _).mul hsq
        _ = acc * a ^ e := by rw [mul_assoc, ← pow_succ']; congr 2; omega
    · calc acc * (a * a % p) ^ (e / 2) ≡ acc * a ^ (2 * (e / 2)) [MOD p] := hsq.mul_left _
        _ = acc * a ^ e := by congr 2; omega

/-- `a ^ e` is 1 modulo `p`, for an exponent below `p`. -/
def isOnePow (p a e : ℕ) : Bool := decide (mulPowMod p (p.log2 + 1) 1 a e % p = 1 % p)

theorem isOnePow_iff {p a e : ℕ} (he : e ≤ p) : isOnePow p a e = true ↔ (a : ZMod p) ^ e = 1 := by
  have h : mulPowMod p (p.log2 + 1) 1 a e ≡ 1 * a ^ e [MOD p] :=
    mulPowMod_modEq p (he.trans_lt Nat.lt_log2_self)
  have hcast : (a : ZMod p) ^ e = 1 ↔ a ^ e ≡ 1 [MOD p] := by
    rw [← ZMod.natCast_eq_natCast_iff]; simp
  rw [one_mul] at h
  rw [isOnePow, decide_eq_true_iff, hcast]
  exact ⟨fun h' => h.symm.trans h', h.trans⟩

/-- The check of one step, with `known` the primes it may use. -/
def Step.accepts (known : List ℕ) (s : Step) : Bool :=
  decide (s.factors.prod = s.p - 1) && isOnePow s.p s.base (s.p - 1) &&
    s.factors.all fun q => known.contains q && !isOnePow s.p s.base ((s.p - 1) / q)

theorem Step.prime_of_accepts {known : List ℕ} {s : Step} (hk : ∀ q ∈ known, q.Prime)
    (h : s.accepts known = true) : s.p.Prime := by
  simp only [accepts, Bool.and_eq_true, decide_eq_true_eq, List.all_eq_true, List.contains_iff_mem,
    Bool.not_eq_true'] at h
  obtain ⟨⟨hprod, hone⟩, hall⟩ := h
  refine lucas_primality s.p s.base ((isOnePow_iff (Nat.sub_le _ _)).1 hone) ?_
  intro q hq hdvd hpow
  -- a prime divisor of `p - 1` is one of the listed factors
  obtain ⟨r, hr, hqr⟩ := (Prime.dvd_prod_iff hq.prime).1 (hprod ▸ hdvd)
  obtain ⟨hrk, hrone⟩ := hall r hr
  obtain rfl : q = r := (Nat.prime_dvd_prime_iff_eq hq (hk r hrk)).1 hqr
  have hle : (s.p - 1) / q ≤ s.p := (Nat.div_le_self _ _).trans (Nat.sub_le _ _)
  rw [(isOnePow_iff hle).2 hpow] at hrone
  cases hrone

def certified : List ℕ → List Step → Bool
  | _, [] => true
  | known, s :: rest => s.accepts known && certified (s.p :: known) rest

theorem prime_of_certified {known : List ℕ} {cert : List Step} (hk : ∀ q ∈ known, q.Prime)
    (h : certified known cert = true) : ∀ s ∈ cert, s.p.Prime := by
  induction cert generalizing known with
  | nil => simp
  | cons s rest ih =>
    obtain ⟨hs, hrest⟩ := Bool.and_eq_true_iff.1 h
    have hp := s.prime_of_accepts hk hs
    have hk' : ∀ q ∈ s.p :: known, q.Prime := List.forall_mem_cons.2 ⟨hp, hk⟩
    exact List.forall_mem_cons.2 ⟨hp, ih hk' hrest⟩

end Pratt
