import HumanNetwork.Resharing
import HumanNetwork.PublicShares

/-!
# Panics of the rounds

What other nodes send reaches rounds 2 and 3 as maps of any size, with commitments of any length, any bytes as
ciphertexts and any points. The rounds return errors, but they also assert, index, multiply and encode.
`rounds_noPanic_iff` says for each of the four functions on which inputs none of this panics.
-/

namespace HumanNetwork
open Outcome

variable {R : Rsa} {C : Curve} {ε : Type} (st : Step ε)

/-! ### Shares and commitments -/

theorem noPanic_decryptShares (sk : R.SecretKey) (inputY : HMap ℕ Bytes) : NoPanic (decryptShares st C sk inputY) :=
  HMap.noPanic_mapValM fun _ _ => noPanic_bind.2 ⟨.okOr _ _, fun _ _ => .ok _⟩

theorem exists_verifyVss_release (index : ℕ) (share : C.FieldEl) {checks : List C.Point} (hne : checks ≠ []) :
    ∃ b, (verifyVss C .release index share checks : Outcome ε Bool) = .ok b := by
  cases checks with
  | nil => exact absurd rfl hne
  | cons v0 cop =>
    have hstep : ∀ acc : C.Point × ℕ, ∀ v ∈ cop, (verifyVssStep C .release index acc v : Outcome ε _) =
        .ok (acc.1 + C.scalarMul v ((acc.2 * index % 2 ^ 128 : ℕ) : C.FieldEl), acc.2 * index % 2 ^ 128) := by
      intro acc v _
      rw [verifyVssStep, mulU128_release, bind_ok, pure_eq_ok, C.addSelf_eq]
    simp only [verifyVss, foldlM_eq_ok hstep, bind_ok]
    exact ⟨_, rfl⟩

/-- The powers of the node's id that the verification computes, up to the exponent `t - 1`. -/
def PowersFit (prof : Profile) (id t : ℕ) : Prop := prof = .release ∨ id ^ (t - 1) < 2 ^ 128

theorem noPanic_verifyVss (prof : Profile) (index : ℕ) (share : C.FieldEl) {checks : List C.Point} (hne : checks ≠ []) :
    NoPanic (verifyVss C prof index share checks : Outcome ε Bool) ↔ PowersFit prof index checks.length := by
  obtain ⟨b, hb⟩ := exists_verifyVss_release (ε := ε) index share hne
  rw [(errorsIn_verifyVss C prof index share checks).noPanic_iff, PowersFit]
  cases prof with
  | release => exact iff_of_true ⟨b, hb⟩ (.inl rfl)
  | debug =>
    simp only [verifyVss_debug, reduceCtorEq, false_or]
    exact ⟨fun ⟨_, h⟩ => h.1, fun h => ⟨b, h, hb⟩⟩

def DealingsSized (size t : ℕ) (inputY : HMap ℕ Bytes) (inputV : HMap ℕ (List C.Point)) : Prop :=
  (inputV.len = size ∧ inputY.len = size) ∧ ∀ k v, inputV.get? k = some v → v.length = t

def verifyShare (prof : Profile) (id : ℕ) (y : HMap ℕ C.FieldEl) (inputV : HMap ℕ (List C.Point)) (k : ℕ) :
    Outcome ε PUnit := do
  let eval ← okOr (y.get? k) (st.other "Eval not found")
  match inputV.get? k with
  | some inputVValue =>
    let verified ← verifyVss C prof id eval inputVValue
    if verified then pure ⟨⟩ else fail (st.other "VSS not verified - step 9")
  | none => fail (st.other "Input VSS value not found")

section verifyShare
variable {prof : Profile} {id t : ℕ} {y : HMap ℕ C.FieldEl} {inputV : HMap ℕ (List C.Point)}

theorem verifyShares_eq : verifyShares st prof id y inputV = y.keys.forM (verifyShare st prof id y inputV) := by
  rw [HMap.keys, List.forM_eq_forM, List.forM_map]
  rfl

variable (ht : 0 < t) (hlen : ∀ k v, inputV.get? k = some v → v.length = t)
include ht hlen

theorem noPanic_verifyShare {k : ℕ} (hk : k ∈ y.keys) :
    NoPanic (verifyShare st prof id y inputV k) ↔ PowersFit prof id t ∨ inputV.get? k = none := by
  obtain ⟨share, hshare⟩ := HMap.exists_get? hk
  rw [verifyShare, hshare]
  cases hv : inputV.get? k with
  | none => exact iff_of_true (.fail _) (.inr rfl)
  | some checks =>
    have hne : checks ≠ [] := List.length_pos_iff.1 (hlen k checks hv ▸ ht)
    show NoPanic (verifyVss C prof id share checks >>= _) ↔ _
    rw [noPanic_bind, noPanic_verifyVss prof id share hne, hlen k checks hv]
    simp only [reduceCtorEq, or_false, and_iff_left_iff_imp]
    rintro - (- | -) -
    · exact .fail _
    · exact .ok _

/-- The loop over the shares stops at its first iteration when that one has no commitments. -/
theorem noPanic_verifyShares : NoPanic (verifyShares st prof id y inputV) ↔
    PowersFit prof id t ∨ ∀ k, y.keys.head? = some k → inputV.get? k = none := by
  by_cases hfit : PowersFit prof id t
  · refine iff_of_true ?_ (.inl hfit)
    rw [verifyShares_eq]
    exact .forM fun k hk => (noPanic_verifyShare st ht hlen hk).2 (.inl hfit)
  · rw [verifyShares_eq, or_iff_right hfit]
    cases hkeys : y.keys with
    | nil => exact iff_of_true (.ok _) fun k hk => by cases hk
    | cons k ks =>
      have hk : NoPanic (verifyShare st prof id y inputV k) ↔ PowersFit prof id t ∨ inputV.get? k = none :=
        noPanic_verifyShare st ht hlen (by simp [hkeys])
      rw [List.forM_eq_forM, List.forM_cons, noPanic_bind, hk, or_iff_right hfit]
      constructor
      · rintro ⟨hnone, -⟩ k' hk'
        obtain rfl : k = k' := by simpa using hk'
        exact hnone
      · intro h
        have hnone := h k rfl
        refine ⟨hnone, fun _ hok => ?_⟩
        simp only [verifyShare, hnone, bind_eq_ok] at hok
        obtain ⟨_, _, hok⟩ := hok
        cases hok

end verifyShare

def groupKey (inputV : HMap ℕ (List C.Point)) (init : C.Point) : C.Point :=
  init + (inputV.keys.map fun k => ((inputV.get? k).getD []).headD 0).sum

theorem sumFreeTerms_eq_groupKey {t : ℕ} {inputV : HMap ℕ (List C.Point)} (ht : 0 < t)
    (hlen : ∀ k v, inputV.get? k = some v → v.length = t) (init : C.Point) :
    (sumFreeTerms inputV init : Outcome ε C.Point) = .ok (groupKey inputV init) := by
  refine sumFreeTerms_eq_ok (fun k v hk => ?_) init
  cases v with
  | nil => exact absurd (hlen k [] hk) ht.ne
  | cons v0 v => rw [hk]; rfl

/-! ### Public shares -/

/-- The Lagrange weight that the code computes from a list of indices, which counts repetitions. -/
def lagrangeWeight (C : Curve) (indices : List ℕ) (i : ℕ) : C.FieldEl :=
  ((indices.filter (· ≠ i)).map fun j : ℕ => (j : C.FieldEl) * ((j : C.FieldEl) - i)⁻¹).prod

/-- What round 3 compares with the group key: the public shares of the members of the network, weighted by
their truncated indices. -/
def weightedKeys (network : Network R) (Kj : HMap ℕ C.Point) : C.Point :=
  (network.publicKeys.keys.map fun k => C.scalarMul ((Kj.get? k).getD 0)
    (lagrangeWeight C (network.publicKeys.keys.map (· % 2 ^ 32)) (k % 2 ^ 32))).sum

theorem lagrangeBasisAt0_truncated {ids : List ℕ} {k : ℕ} (hk : k % 2 ^ 32 ≠ 0) :
    (lagrangeBasisAt0 (k % 2 ^ 32) (ids.map (· % 2 ^ 32)) : Outcome ε C.FieldEl) =
      .ok (lagrangeWeight C (ids.map (· % 2 ^ 32)) (k % 2 ^ 32)) := by
  refine lagrangeBasisAt0_eq_prod (Nat.pos_of_ne_zero hk) fun j hj hjk h => hjk ?_
  obtain ⟨j, -, rfl⟩ := List.mem_map.1 hj
  have hj' := Nat.mod_lt j (show 0 < 2 ^ 32 by decide)
  have hk' := Nat.mod_lt k (show 0 < 2 ^ 32 by decide)
  exact (C.id.natCast_inj (by omega) (by omega)).1 h

section interpolateKeys
variable {network : Network R} {Kj : HMap ℕ C.Point}

theorem errorsIn_lagrangeBasisAt0 {p : ε → Prop} (i : ℕ) (indices : List ℕ) :
    ErrorsIn p (lagrangeBasisAt0 i indices : Outcome ε C.FieldEl) := by
  refine (ErrorsIn.check _).bind fun _ _ => .foldlM (fun acc j _ => ?_) 1
  split
  · exact (ErrorsIn.unwrap _ _).bind fun _ _ => .ok _
  · exact .ok _

/-- The weights of the members exist unless a truncated index is zero, which is asserted. -/
theorem noPanic_interpolateKeys : NoPanic (interpolateKeys st network Kj) ↔
    ∀ k ∈ network.publicKeys.keys, k % 2 ^ 32 ≠ 0 := by
  unfold interpolateKeys
  have hfold : ∀ lambda : HMap ℕ C.FieldEl, NoPanic (lambda.entries.foldlM (fun acc e => do
      let K_j ← okOr (Kj.get? e.1) (st.other "Key not found")
      let temp := C.scalarMul K_j e.2
      pure (C.addSelf acc temp)) 0 : Outcome ε C.Point) := fun lambda =>
    .foldlM (fun _ _ _ => noPanic_bind.2 ⟨.okOr _ _, fun _ _ => .ok _⟩) 0
  rw [noPanic_bind, and_iff_left fun lambda _ => hfold lambda,
    (HMap.errorsIn_mapValM fun _ _ => errorsIn_lagrangeBasisAt0 _ _).noPanic_iff]
  constructor
  · rintro ⟨lambda, hlambda⟩ k hk
    obtain ⟨pk, hpk⟩ := HMap.exists_get? hk
    obtain ⟨w, -, hw⟩ := HMap.exists_of_mapValM hlambda hpk
    rw [lagrangeBasisAt0, bind_eq_ok] at hw
    obtain ⟨_, hpos, -⟩ := hw
    exact (check_eq_ok.1 hpos).ne'
  · intro hkeys
    exact ⟨_, HMap.mapValM_of_ok fun k _ hk =>
      lagrangeBasisAt0_truncated (hkeys k (HMap.mem_keys_of_mem (HMap.get?_eq_some.1 hk)))⟩

theorem interpolateKeys_eq_ok_iff (hkeys : ∀ k ∈ network.publicKeys.keys, k % 2 ^ 32 ≠ 0) {res : C.Point} :
    interpolateKeys st network Kj = .ok res ↔
      (∀ k ∈ network.publicKeys.keys, k ∈ Kj.keys) ∧ res = weightedKeys network Kj :=
  interpolateKeys_of_weights st fun k hk => lagrangeBasisAt0_truncated (hkeys k hk)

end interpolateKeys

/-! ### The rounds -/

/-- Round 3 has the public shares of as many nodes as the network, no member's truncated index is zero, and unless
a member's public share is missing they combine to the node's group key. -/
def PublicSharesFit (network : Network R) (Kj : HMap ℕ C.Point) (networkPubkey : C.Point) : Prop :=
  Kj.len = network.totalNodes ∧ (∀ k ∈ network.publicKeys.keys, k % 2 ^ 32 ≠ 0) ∧
    ((∀ k ∈ network.publicKeys.keys, k ∈ Kj.keys) → weightedKeys network Kj = networkPubkey)

theorem noPanic_round3 {network : Network R} {Kj : HMap ℕ C.Point} {networkPubkey : C.Point} (msg msg' : String) :
    NoPanic (do
      check (Kj.len = network.totalNodes) msg
      let res ← interpolateKeys st network Kj
      check (res = networkPubkey) msg'
      pure res : Outcome ε C.Point) ↔ PublicSharesFit network Kj networkPubkey := by
  rw [noPanic_check_bind, PublicSharesFit, noPanic_bind, noPanic_interpolateKeys]
  refine and_congr_right fun _ => and_congr_right fun hkeys => ?_
  simp only [interpolateKeys_eq_ok_iff st hkeys, noPanic_check_bind]
  constructor
  · intro h hall
    exact (h _ ⟨hall, rfl⟩).1
  · rintro h res ⟨hall, rfl⟩
    exact ⟨h hall, .ok _⟩

theorem noPanic_round2 {α : Type} {prof : Profile} {id size t : ℕ} {sk : R.SecretKey} {inputY : HMap ℕ Bytes}
    {inputV : HMap ℕ (List C.Point)} {init : C.Point} (ht : 0 < t) (msg : String)
    (rest : HMap ℕ C.FieldEl → C.Point → Outcome ε α) :
    NoPanic (do
      check (inputV.len = size ∧ inputY.len = size) msg
      inputV.values.forM fun j => check (j.length = t) msg
      let y ← decryptShares st C sk inputY
      verifyShares st prof id y inputV
      let K ← sumFreeTerms inputV init
      rest y K : Outcome ε α) ↔
    DealingsSized size t inputY inputV ∧ ∀ y, decryptShares st C sk inputY = .ok y →
      (PowersFit prof id t ∨ ∀ k, inputY.keys.head? = some k → inputV.get? k = none) ∧
      (verifyShares st prof id y inputV = .ok ⟨⟩ → NoPanic (rest y (groupKey inputV init))) := by
  have hlens : (∃ u, (inputV.values.forM fun j => check (j.length = t) msg : Outcome ε PUnit) = .ok u) ↔
      ∀ k v, inputV.get? k = some v → v.length = t := by
    simp only [forM_eq_ok, check_eq_ok, exists_const]
    constructor
    · intro h k v hk
      exact h v (List.mem_map.2 ⟨(k, v), HMap.get?_eq_some.1 hk, rfl⟩)
    · intro h v hv
      obtain ⟨⟨k, v⟩, he, rfl⟩ := List.mem_map.1 hv
      exact h k v (HMap.get?_eq_some.2 he)
  have hforM : ErrorsIn (fun _ : ε => False) (inputV.values.forM fun j => check (j.length = t) msg) :=
    .forM fun _ _ => .check _
  rw [noPanic_check_bind, noPanic_bind, hforM.noPanic_iff, hlens, ← and_assoc]
  refine and_congr_right fun hsized => ?_
  have hlen := hsized.2
  obtain ⟨u, hu⟩ := hlens.2 hlen
  have hdecrypt := noPanic_decryptShares (C := C) st sk inputY
  simp only [hu, forall_const, noPanic_bind, hdecrypt, true_and, noPanic_verifyShares st ht hlen,
    sumFreeTerms_eq_groupKey ht hlen]
  refine forall_congr' fun y => imp_congr_right fun hy => ?_
  rw [keys_decryptShares st hy]
  refine and_congr_right fun _ => ⟨fun h hok => (h _ hok).2 _ rfl, fun h u hok => ⟨.ok _, fun K hK => ?_⟩⟩
  obtain rfl := Except.ok.inj hK
  exact h hok

namespace Node
variable (self : Node R C) (prof : Profile)

theorem noPanic_dkgRound2 (network : Network R) (inputY : HMap ℕ Bytes) (inputV : HMap ℕ (List C.Point)) :
    NoPanic (self.dkgRound2 prof network inputY inputV) ↔
      DealingsSized (network.totalNodes - 1) network.threshold inputY inputV ∧
        ∀ y, decryptShares dkgStep C self.rsaSeckey inputY = .ok y →
          (PowersFit prof self.id network.threshold ∨ ∀ k, inputY.keys.head? = some k → inputV.get? k = none) ∧
          (verifyShares dkgStep prof self.id y inputV = .ok ⟨⟩ →
            ∃ b, C.encode (groupKey inputV self.initPubShare) = some b) := by
  unfold dkgRound2
  rw [noPanic_round2 dkgStep network.threshold_pos]
  simp only [noPanic_unwrap_bind]
  refine and_congr_right fun _ => forall₂_congr fun y _ => and_congr_right fun _ => imp_congr_right fun _ => ?_
  constructor
  · rintro ⟨b, hb, -⟩
    exact ⟨b, hb⟩
  · rintro ⟨b, hb⟩
    exact ⟨b, hb, .ok _⟩

theorem noPanic_resharingRound2 (tStar newQuorum : Network R) (inputY : HMap ℕ Bytes)
    (inputV : HMap ℕ (List C.Point)) (K_dkg : C.Point) :
    NoPanic (self.resharingRound2 prof tStar newQuorum inputY inputV K_dkg) ↔
      DealingsSized tStar.totalNodes newQuorum.threshold inputY inputV ∧
        ∀ y, decryptShares resharingStep C self.rsaSeckey inputY = .ok y →
          (PowersFit prof self.id newQuorum.threshold ∨ ∀ k, inputY.keys.head? = some k → inputV.get? k = none) ∧
          (verifyShares resharingStep prof self.id y inputV = .ok ⟨⟩ →
            (∃ b, C.encode K_dkg = some b) ∧ ∃ b, C.encode (groupKey inputV 0) = some b) := by
  unfold resharingRound2
  rw [noPanic_round2 resharingStep newQuorum.threshold_pos]
  simp only [noPanic_unwrap_bind]
  refine and_congr_right fun _ => forall₂_congr fun y _ => and_congr_right fun _ => imp_congr_right fun _ => ?_
  constructor
  · rintro ⟨b, hb, b', hb', -⟩
    exact ⟨⟨b, hb⟩, b', hb'⟩
  · rintro ⟨⟨b, hb⟩, b', hb'⟩
    refine ⟨b, hb, b', hb', ?_⟩
    split
    · exact .fail _
    · exact .ok _

theorem noPanic_dkgRound3 (network : Network R) (Kj : HMap ℕ C.Point) :
    NoPanic (self.dkgRound3 network Kj) ↔ PublicSharesFit network Kj self.networkPubkey :=
  noPanic_round3 dkgStep _ _

theorem noPanic_resharingRound3 (network : Network R) (Kj : HMap ℕ C.Point) :
    NoPanic (self.resharingRound3 network Kj) ↔ PublicSharesFit network Kj self.networkPubkey :=
  noPanic_round3 resharingStep _ _

end Node

/-- On which inputs the rounds that take messages of other nodes return a result or an error. -/
theorem rounds_noPanic_iff (prof : Profile) (self : Node R C) :
    (∀ (network : Network R) (inputY : HMap ℕ Bytes) (inputV : HMap ℕ (List C.Point)),
      NoPanic (self.dkgRound2 prof network inputY inputV) ↔
        DealingsSized (network.totalNodes - 1) network.threshold inputY inputV ∧
          ∀ y, decryptShares dkgStep C self.rsaSeckey inputY = .ok y →
            (PowersFit prof self.id network.threshold ∨ ∀ k, inputY.keys.head? = some k → inputV.get? k = none) ∧
            (verifyShares dkgStep prof self.id y inputV = .ok ⟨⟩ →
              ∃ b, C.encode (groupKey inputV self.initPubShare) = some b)) ∧
    (∀ (tStar newQuorum : Network R) (inputY : HMap ℕ Bytes) (inputV : HMap ℕ (List C.Point)) (K_dkg : C.Point),
      NoPanic (self.resharingRound2 prof tStar newQuorum inputY inputV K_dkg) ↔
        DealingsSized tStar.totalNodes newQuorum.threshold inputY inputV ∧
          ∀ y, decryptShares resharingStep C self.rsaSeckey inputY = .ok y →
            (PowersFit prof self.id newQuorum.threshold ∨ ∀ k, inputY.keys.head? = some k → inputV.get? k = none) ∧
            (verifyShares resharingStep prof self.id y inputV = .ok ⟨⟩ →
              (∃ b, C.encode K_dkg = some b) ∧ ∃ b, C.encode (groupKey inputV 0) = some b)) ∧
    ∀ (network : Network R) (Kj : HMap ℕ C.Point),
      (NoPanic (self.dkgRound3 network Kj) ↔ PublicSharesFit network Kj self.networkPubkey) ∧
      (NoPanic (self.resharingRound3 network Kj) ↔ PublicSharesFit network Kj self.networkPubkey) :=
  ⟨self.noPanic_dkgRound2 prof, self.noPanic_resharingRound2 prof,
    fun network Kj => ⟨self.noPanic_dkgRound3 network Kj, self.noPanic_resharingRound3 network Kj⟩⟩

/-- The dealings of the nodes 2 and 3 at threshold 2, where node 3 has committed to a single coefficient. -/
def shortDealings : HMap ℕ (List (scalarCurve .secp256k1).Point) :=
  HMap.ofKeys [2, 3] (by decide) fun i => List.replicate (4 - i) (0 : CurveId.Scalar .secp256k1)

def shortCiphertexts : HMap ℕ Bytes := HMap.ofKeys [2, 3] (by decide) fun _ => []

/-- A dealing with too few commitments stops round 2 with a panic, and a public share that does not fit stops
round 3. -/
theorem rounds_panic_on_short_dealing :
    (boxNode (scalarCurve .secp256k1) 1).dkgRound2 .release bentNetwork shortCiphertexts shortDealings =
        crash "dkg round 2 inputs not correct" ∧
      (boxNode (scalarCurve .secp256k1) 1).dkgRound3 bentNetwork bentShares =
        crash "public keys not verified - step 16" := by
  refine ⟨rfl, ?_⟩
  have hlen : bentShares.len = bentNetwork.totalNodes := by decide
  have hne : bentNode.networkPubkey ≠ (boxNode (scalarCurve .secp256k1) 1).networkPubkey := fun h => by
    have h' := (CurveId.secp256k1.natCast_inj (i := 2) (j := 0) (by decide) (by decide)).1 (h.trans Nat.cast_zero.symm)
    omega
  unfold Node.dkgRound3
  rw [check_of hlen, bind_ok, interpolateKeys_bentShares, bind_ok, check, if_neg hne]
  rfl

end HumanNetwork
