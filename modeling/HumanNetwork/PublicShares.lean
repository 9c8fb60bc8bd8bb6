import HumanNetwork.Dkg

/-!
# What round 3 says about the public shares

Round 3 interpolates the public shares of all nodes once and compares the result with the group key. Users
later interpolate any `threshold` of them. `round3_certifies_iff` says when these agree: the public shares have
to be the values of one polynomial of degree below the threshold, which a single interpolation does not test.
-/

namespace HumanNetwork
open Outcome Finset

variable {R : Rsa} {C : Curve}

/-- The public shares of the nodes `A`, combined with the Lagrange weights at zero. -/
noncomputable def interpolated (Kj : HMap ℕ C.Point) (A : Finset ℕ) : C.Point :=
  ∑ i ∈ A, C.scalarMul ((Kj.get? i).getD 0) (Shamir.weight A (fun j : ℕ => (j : C.FieldEl)) i)

/-- The public shares are those of a sharing with the group key `K`, of which `t` shares are enough. -/
def IsSharing (Kj : HMap ℕ C.Point) (t : ℕ) (K : C.Point) : Prop :=
  ∃ f : Polynomial C.FieldEl, f.degree < t ∧ C.scalarMul C.basePointOrGenerator (f.eval 0) = K ∧
    ∀ i Ki, Kj.get? i = some Ki → Ki = C.scalarMul C.basePointOrGenerator (f.eval (i : C.FieldEl))

theorem Node.dkgRound3_eq_ok {self : Node R C} {network : Network R} {Kj : HMap ℕ C.Point} {K : C.Point}
    (h : self.dkgRound3 network Kj = .ok K) : Kj.len = network.totalNodes ∧ K = self.networkPubkey := by
  simp only [dkgRound3, bind_eq_ok, check_eq_ok, pure_eq_ok, Except.ok.injEq] at h
  obtain ⟨-, hlen, res, -, -, hres, rfl⟩ := h
  exact ⟨hlen, hres⟩

section PrimeOrder
variable [C.PrimeOrder] {Kj : HMap ℕ C.Point} {A : Finset ℕ}

theorem interpolated_eq_smul {y : ℕ → C.FieldEl}
    (hy : ∀ i ∈ A, (Kj.get? i).getD 0 = y i • C.basePointOrGenerator) :
    interpolated Kj A =
      (∑ i ∈ A, Shamir.weight A (fun j : ℕ => (j : C.FieldEl)) i * y i) • C.basePointOrGenerator := by
  rw [interpolated, sum_smul]
  refine sum_congr rfl fun i hi => ?_
  rw [C.scalarMul_eq_smul, hy i hi, smul_smul]

theorem IsSharing.interpolated_eq {t : ℕ} {K : C.Point} (h : IsSharing Kj t K) (hA : ∀ i ∈ A, i ∈ Kj.keys)
    (hinj : Set.InjOn (fun j : ℕ => (j : C.FieldEl)) A) (hcard : A.card = t) : interpolated Kj A = K := by
  obtain ⟨f, hdeg, hK, hf⟩ := h
  have hy : ∀ i ∈ A, (Kj.get? i).getD 0 = f.eval (i : C.FieldEl) • C.basePointOrGenerator := by
    intro i hi
    obtain ⟨Ki, hKi⟩ := HMap.exists_get? (hA i hi)
    rw [hKi, Option.getD_some, hf i Ki hKi, C.scalarMul_eq_smul]
  rw [interpolated_eq_smul hy, Shamir.sum_weight_mul_eval hinj (by rwa [hcard]), ← hK, C.scalarMul_eq_smul]

theorem IsSharing.of_interpolated {t : ℕ} {K : C.Point} (hkeys : ∀ k ∈ Kj.keys, k < 2 ^ 128) (hpos : 0 < t)
    (ht : t < Kj.len) (h : ∀ A : Finset ℕ, (∀ i ∈ A, i ∈ Kj.keys) → A.card = t → interpolated Kj A = K) :
    IsSharing Kj t K := by
  choose y hy using fun i => C.exists_smul_eq ((Kj.get? i).getD 0)
  obtain ⟨k, rfl⟩ := C.exists_smul_eq K
  have hinj : Set.InjOn (fun j : ℕ => (j : C.FieldEl)) (Kj.keys.toFinset : Set ℕ) :=
    C.id.natCast_injOn fun j hj => hkeys j (List.mem_toFinset.1 hj)
  have hcard : Kj.keys.toFinset.card = Kj.len := by
    rw [List.toFinset_card_of_nodup Kj.nodup_keys, HMap.length_keys]
  obtain ⟨f, hdeg, hzero, hf⟩ := Shamir.exists_polynomial_of_subsets (y := y) (p := k) hinj hpos
    (hcard ▸ ht) fun A hA hAt => by
      have hA' := h A (fun i hi => List.mem_toFinset.1 (hA hi)) hAt
      rw [interpolated_eq_smul fun i _ => (hy i).symm] at hA'
      exact C.smul_generator_inj.1 hA'
  refine ⟨f, hdeg, ?_, fun i Ki hKi => ?_⟩
  · rw [C.scalarMul_eq_smul, hzero]
  · have hi : i ∈ Kj.keys := HMap.mem_keys_of_mem (HMap.get?_eq_some.1 hKi)
    rw [C.scalarMul_eq_smul, ← hf i (List.mem_toFinset.2 hi), hy, hKi, Option.getD_some]

end PrimeOrder

/-- Where round 3 returns, every `threshold` of the public shares interpolate to the group key exactly when all of
them are the values of one polynomial of degree below the threshold, whose value at zero belongs to that key. -/
theorem round3_certifies_iff [C.PrimeOrder] {self : Node R C} {network : Network R} {Kj : HMap ℕ C.Point} {K : C.Point}
    (hkeys : ∀ k ∈ Kj.keys, k < 2 ^ 128) (ht : network.threshold < network.totalNodes)
    (h : self.dkgRound3 network Kj = .ok K) :
    (∀ A : Finset ℕ, (∀ i ∈ A, i ∈ Kj.keys) → A.card = network.threshold → interpolated Kj A = self.networkPubkey) ↔
      IsSharing Kj network.threshold self.networkPubkey := by
  have hlen := (Node.dkgRound3_eq_ok h).1
  refine ⟨IsSharing.of_interpolated hkeys network.threshold_pos (hlen ▸ ht), fun hshare A hA hcard => ?_⟩
  exact hshare.interpolated_eq hA (C.id.natCast_injOn fun j hj => hkeys j (hA j hj)) hcard

/-- The public shares 0, 0 and 2 of the nodes 1, 2 and 3: they lie on `(X - 1)(X - 2)`. -/
def bentShares : HMap ℕ (scalarCurve .secp256k1).Point :=
  HMap.ofKeys [1, 2, 3] threeIds_nodup fun i => ((if i = 3 then 2 else 0 : ℕ) : CurveId.Scalar .secp256k1)

def bentNode : Node boxRsa (scalarCurve .secp256k1) :=
  { boxNode (scalarCurve .secp256k1) 1 with networkPubkey := ((2 : ℕ) : CurveId.Scalar .secp256k1) }

def bentNetwork : Network boxRsa := boxNetwork [1, 2, 3] threeIds_nodup 2 (by decide)

theorem bentShares_get? {k : ℕ} (hk : k ∈ [1, 2, 3]) :
    bentShares.get? k = some ((if k = 3 then 2 else 0 : ℕ) : CurveId.Scalar .secp256k1) := by
  rw [bentShares, HMap.get?_ofKeys, if_pos hk]

theorem interpolateKeys_bentShares {ε : Type} (st : Step ε) :
    interpolateKeys st bentNetwork bentShares = .ok bentNode.networkPubkey := by
  let f : Polynomial (CurveId.Scalar .secp256k1) := (Polynomial.X - 1) * (Polynomial.X - 2)
  have hdeg : f.degree < (3 : ℕ) := by
    have hf : f = Polynomial.X ^ 2 + Polynomial.C (-3) * Polynomial.X + Polynomial.C 2 := by
      simp only [f, map_neg, map_ofNat]; ring
    rw [hf]
    compute_degree!
  have hshare : ∀ k ∈ bentNetwork.publicKeys.keys, bentShares.get? k =
      some ((scalarCurve .secp256k1).scalarMul (scalarCurve .secp256k1).basePointOrGenerator
        (f.eval (k : CurveId.Scalar .secp256k1))) := by
    intro k hk
    have hk' : k ∈ [1, 2, 3] := hk
    rw [bentShares_get? hk', scalarCurve_scalarMul_generator]
    simp only [List.mem_cons, List.not_mem_nil, or_false] at hk'
    rcases hk' with rfl | rfl | rfl <;> norm_num [f]
  have hzero : f.eval 0 = bentNode.networkPubkey := by simp [f, bentNode]
  simp only [Curve.scalarMul_eq_smul] at hshare
  rw [interpolateKeys_eq_ok st (by decide) hdeg hshare, ← Curve.scalarMul_eq_smul, scalarCurve_scalarMul_generator,
    hzero]

theorem dkgRound3_bentShares : bentNode.dkgRound3 bentNetwork bentShares = .ok bentNode.networkPubkey := by
  have hlen : bentShares.len = bentNetwork.totalNodes := by decide
  unfold Node.dkgRound3
  rw [check_of hlen, bind_ok, interpolateKeys_bentShares, bind_ok, check_of rfl, bind_ok]
  rfl

theorem interpolated_bentShares : interpolated bentShares {1, 2} ≠ bentNode.networkPubkey := by
  have hzero : interpolated bentShares {1, 2} = (0 : CurveId.Scalar .secp256k1) := by
    refine sum_eq_zero fun i hi => ?_
    have hi' : i = 1 ∨ i = 2 := by simpa using hi
    rcases hi' with rfl | rfl
    · rw [bentShares_get? (by decide)]; simp [Curve.scalarMul]
    · rw [bentShares_get? (by decide)]; simp [Curve.scalarMul]
  rw [hzero]
  intro h
  have hkey : ((0 : ℕ) : CurveId.Scalar .secp256k1) = ((2 : ℕ) : CurveId.Scalar .secp256k1) := Nat.cast_zero.trans h
  have h' := (CurveId.secp256k1.natCast_inj (by decide) (by decide)).1 hkey
  omega

theorem round3_certifies_iff_bentShares : ¬ IsSharing bentShares bentNetwork.threshold bentNode.networkPubkey :=
  fun h => interpolated_bentShares ((round3_certifies_iff (by decide) (by decide) dkgRound3_bentShares).2 h {1, 2}
    (by decide) (by decide))

/-- Two of the three shares interpolate to 0, not to the key that round 3 has accepted. -/
theorem round3_accepts_bent_shares :
    bentNetwork.threshold < bentNetwork.totalNodes ∧
      bentNode.dkgRound3 bentNetwork bentShares = .ok bentNode.networkPubkey ∧
      (({1, 2} : Finset ℕ).card = bentNetwork.threshold ∧ ∀ i ∈ ({1, 2} : Finset ℕ), i ∈ bentShares.keys) ∧
      interpolated bentShares {1, 2} ≠ bentNode.networkPubkey :=
  ⟨by decide, dkgRound3_bentShares, by decide, interpolated_bentShares⟩

end HumanNetwork
