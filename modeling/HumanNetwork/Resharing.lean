import HumanNetwork.Dkg

/-!
# Resharing (`resharing.rs`)

The rounds of a resharing: the members of `T*`, holders of shares of the old sharing, deal their
Lagrange-weighted shares to the new quorum, and a new node adds up what it verified.

Nothing is assumed of the dealers in `Node.resharingRound2_share`: the commitments that a node
accepted determine a polynomial (`Curve.committed`), the node's new share is its value at the node's
id, and its secret is the discrete logarithm of the group key. `resharing_preserves_secret` chains
this over any number of epochs, and adds that honest dealers pass the check of the group key.
-/

namespace HumanNetwork
open Outcome Finset

variable {R : Rsa} {C : Curve}

def resharingStep : Step ResharingError := ⟨.rsaError, .other⟩

namespace Node

def resharingRound1 (self : Node R C) (tStar newQuorum : Network R) (rng : ℕ → C.FieldEl) (coins : ℕ → R.Coin) :
    Outcome ResharingError (HMap ℕ Bytes × List C.Point) := do
  let indices := tStar.publicKeys.keys.map (· % 2 ^ 32)
  let lambda_i : C.FieldEl ← lagrangeBasisAt0 (self.id % 2 ^ 32) indices
  let ai0 := self.privateShare * lambda_i
  let fi := Poly.randomPolynomialsWithSecret rng (newQuorum.threshold - 1) ai0
  let (y, v) ← feldmanVss C fi newQuorum.publicKeys newQuorum.threshold
  let yCt ← encryptShares resharingStep y newQuorum.publicKeys coins
  pure (yCt, v)

def resharingRound2 (prof : Profile) (self : Node R C) (tStar newQuorum : Network R) (inputY : HMap ℕ Bytes)
    (inputV : HMap ℕ (List C.Point)) (K_dkg : C.Point) :
    Outcome ResharingError (C.FieldEl × C.Point × C.Point) := do
  check (inputV.len = tStar.totalNodes ∧ inputY.len = tStar.totalNodes) "resharing round 2 inputs not correct"
  inputV.values.forM fun j => check (j.length = newQuorum.threshold) "resharing round 2 inputs not correct"
  let y ← decryptShares resharingStep C self.rsaSeckey inputY
  verifyShares resharingStep prof self.id y inputV
  let K ← sumFreeTerms inputV 0
  let _logged ← unwrap (C.encode K_dkg) unwrapNone
  let _logged ← unwrap (C.encode K) unwrapNone
  if K ≠ K_dkg then fail (.other "Group public key not verified - step 10")
  else
    let ki := y.values.foldl (· + ·) 0
    let Ki := C.scalarMul C.basePointOrGenerator ki
    pure (ki, Ki, K)

def resharingRound3 (self : Node R C) (network : Network R) (Kj : HMap ℕ C.Point) :
    Outcome ResharingError C.Point := do
  check (Kj.len = network.totalNodes) "resharing round 3 inputs not correct"
  let res ← interpolateKeys resharingStep network Kj
  check (res = self.networkPubkey) "public keys not verified - step 16"
  pure res

end Node

/-! ### The committed polynomial -/

namespace Curve
variable (C : Curve) [C.PrimeOrder]

noncomputable def dlog (p : C.Point) : C.FieldEl := (C.exists_smul_eq p).choose

@[simp] theorem dlog_smul (p : C.Point) : C.dlog p • C.basePointOrGenerator = p := (C.exists_smul_eq p).choose_spec

noncomputable def committed (checks : List C.Point) : Polynomial C.FieldEl :=
  Shamir.ofCoeffs (checks.map C.dlog)

theorem degree_committed_lt (checks : List C.Point) : (C.committed checks).degree < checks.length := by
  have h := Shamir.degree_ofCoeffs_lt (checks.map C.dlog)
  rwa [List.length_map] at h

theorem feldmanCommitments_committed (checks : List C.Point) :
    feldmanCommitments C ⟨checks.map C.dlog⟩ = checks := by
  rw [feldmanCommitments, List.map_map]
  conv_rhs => rw [← List.map_id checks]
  exact List.map_congr_left fun p _ => by simp

theorem feldmanEquation_iff (index : ℕ) (share : C.FieldEl) (checks : List C.Point) :
    FeldmanEquation C index share checks ↔ share = (C.committed checks).eval (index : C.FieldEl) := by
  have hdealt := feldmanEquation_of_dealt C ⟨checks.map C.dlog⟩ index
  rw [feldmanCommitments_committed] at hdealt
  have hG : C.scalarMul C.basePointOrGenerator ((C.committed checks).eval (index : C.FieldEl)) = _ := hdealt
  rw [FeldmanEquation, ← hG, C.scalarMul_eq_smul, C.scalarMul_eq_smul, C.smul_generator_inj]

theorem getElem?_zero_committed {checks : List C.Point} (h : 0 < checks.length) :
    checks[0]? = some ((C.committed checks).eval 0 • C.basePointOrGenerator) := by
  have h0 : (feldmanCommitments C ⟨checks.map C.dlog⟩)[0]? = some _ :=
    getElem?_zero_feldmanCommitments C (by simpa using h)
  rwa [feldmanCommitments_committed] at h0

end Curve

/-! ### Round 2 against any dealers -/

noncomputable def committedSum [C.PrimeOrder] (inputV : HMap ℕ (List C.Point)) : Polynomial C.FieldEl :=
  ∑ j ∈ inputV.keys.toFinset, C.committed ((inputV.get? j).getD [])

theorem committedSum_congr [C.PrimeOrder] {inputV inputV' : HMap ℕ (List C.Point)}
    (h : ∀ j, inputV.get? j = inputV'.get? j) : committedSum inputV = committedSum inputV' := by
  have hkeys : inputV.keys.toFinset = inputV'.keys.toFinset := by
    refine HMap.toFinset_keys fun k => ?_
    rw [List.mem_toFinset, ← HMap.get?_isSome, ← HMap.get?_isSome, h]
  rw [committedSum, hkeys, committedSum]
  exact sum_congr rfl fun j _ => by rw [h]

theorem eval_committedSum [C.PrimeOrder] (inputV : HMap ℕ (List C.Point)) (x : C.FieldEl) :
    (committedSum inputV).eval x = ∑ j ∈ inputV.keys.toFinset, (C.committed ((inputV.get? j).getD [])).eval x :=
  Polynomial.eval_finsetSum _ _ _

theorem degree_committedSum_lt [C.PrimeOrder] {inputV : HMap ℕ (List C.Point)} {t : ℕ}
    (h : ∀ v ∈ inputV.values, v.length = t) : (committedSum inputV).degree < t := by
  refine Polynomial.mem_degreeLT.1 (Submodule.sum_mem _ fun j hj => Polynomial.mem_degreeLT.2 ?_)
  obtain ⟨v, hv⟩ := HMap.exists_get? (List.mem_toFinset.1 hj)
  have hlen := h v (List.mem_map.2 ⟨(j, v), HMap.get?_eq_some.1 hv, rfl⟩)
  rw [hv, Option.getD_some, ← hlen]
  exact C.degree_committed_lt v

/-- A node whose round 2 returned holds the value at its id of the polynomial that the commitments
determine, and the group key is the public key of that polynomial's secret. -/
theorem Node.resharingRound2_share [C.PrimeOrder] {self : Node R C} {tStar newQuorum : Network R}
    {inputY : HMap ℕ Bytes} {inputV : HMap ℕ (List C.Point)} {K_dkg : C.Point} {ki : C.FieldEl} {Ki K : C.Point}
    (h : self.resharingRound2 .debug tStar newQuorum inputY inputV K_dkg = .ok (ki, Ki, K)) :
    (committedSum inputV).degree < newQuorum.threshold ∧
      (committedSum inputV).eval 0 • C.basePointOrGenerator = K_dkg ∧ K = K_dkg ∧
      ki = (committedSum inputV).eval (self.id : C.FieldEl) := by
  simp only [resharingRound2, bind_eq_ok, check_eq_ok, forM_eq_ok] at h
  obtain ⟨_, hlens, _, hchecks, y, hdec, _, hverify, K', hK', _, -, _, -, h⟩ := h
  split at h
  next => cases h
  next hK =>
    obtain ⟨hki, -, rfl⟩ : _ ∧ _ ∧ _ := by simpa [pure_eq_ok] using h
    obtain rfl : K' = K_dkg := not_not.1 hK
    have hlen : ∀ k v, inputV.get? k = some v → v.length = newQuorum.threshold := fun k v hv =>
      hchecks v (List.mem_map.2 ⟨(k, v), HMap.get?_eq_some.1 hv, rfl⟩)
    -- every accepted share is a value of the polynomial its dealer committed to
    have hshare : ∀ k share, y.get? k = some share → k ∈ inputV.keys ∧
        share = (C.committed ((inputV.get? k).getD [])).eval (self.id : C.FieldEl) := by
      intro k share hk
      obtain ⟨checks, hv, hok⟩ := (verifyShares_ok _).1 hverify k share hk
      obtain ⟨hfits, hrel⟩ := (verifyVss_debug C).1 hok
      have hne : checks ≠ [] := List.length_pos_iff.1 (hlen k checks hv ▸ newQuorum.threshold_pos)
      rw [verifyVss_release_of_fits C hne hfits, C.feldmanEquation_iff] at hrel
      exact ⟨HMap.mem_keys_of_mem (HMap.get?_eq_some.1 hv), by rwa [hv, Option.getD_some]⟩
    -- as many shares as commitments, so the shares come from all dealers
    have hkeys : ∀ k, k ∈ y.keys ↔ k ∈ inputV.keys.toFinset := by
      intro k
      rw [List.mem_toFinset]
      refine HMap.mem_keys_iff_of_subset (fun k hk => ?_) (le_of_eq ?_) k
      · obtain ⟨share, hshare'⟩ := HMap.exists_get? hk
        exact (hshare k share hshare').1
      · rw [← HMap.length_keys y, keys_decryptShares _ hdec, HMap.length_keys, hlens.1, hlens.2]
    have hhead : ∀ k v, inputV.get? k = some v →
        v[0]? = some ((C.committed ((inputV.get? k).getD [])).eval 0 • C.basePointOrGenerator) := by
      intro k v hv
      rw [hv, Option.getD_some]
      exact C.getElem?_zero_committed (hlen k v hv ▸ newQuorum.threshold_pos)
    refine ⟨degree_committedSum_lt hchecks, ?_, rfl, ?_⟩
    · rw [sumFreeTerms_eq_ok hhead, zero_add, HMap.sum_map_keys (fun k => List.mem_toFinset.symm),
        Except.ok.injEq] at hK'
      rw [← hK', eval_committedSum, sum_smul]
    · rw [← hki, HMap.values_eq_map fun k share hk => (hshare k share hk).2, ← List.sum_eq_foldl,
        HMap.sum_map_keys hkeys, eval_committedSum]

/-! ### Epochs -/

/-- A resharing as the new nodes see it, with overflow of the power of an id a panic: `members` are
new nodes whose round 2 returned and which stored the same commitments, each in an order of its own.
The commitments and the ciphertexts may come from anybody. -/
structure ResharingEpoch (R : Rsa) (C : Curve) where
  tStar : Network R
  newQuorum : Network R
  newQuorum_valid : ∀ k ∈ newQuorum.publicKeys.keys, 0 < k ∧ k < 2 ^ 32
  K_dkg : C.Point
  inputV : HMap ℕ (List C.Point)
  members : Finset ℕ
  members_new : ∀ i ∈ members, i ∈ newQuorum.publicKeys.keys
  node : ℕ → Node R C
  node_id : ∀ i ∈ members, (node i).id = i
  inputY : ℕ → HMap ℕ Bytes
  storedV : ℕ → HMap ℕ (List C.Point)
  storedV_eq : ∀ i ∈ members, ∀ j, (storedV i).get? j = inputV.get? j
  ki : ℕ → C.FieldEl
  Ki : ℕ → C.Point
  K : ℕ → C.Point
  round2 : ∀ i ∈ members, (node i).resharingRound2 .debug tStar newQuorum (inputY i) (storedV i) K_dkg =
    .ok (ki i, Ki i, K i)

namespace ResharingEpoch

/-- The members share the secret `x`: their shares are values of one polynomial of degree below the
new threshold with value `x` at zero, and any `threshold` of them interpolate to `x`. -/
def Shares (e : ResharingEpoch R C) (x : C.FieldEl) : Prop :=
  ∃ F : Polynomial C.FieldEl, F.degree < e.newQuorum.threshold ∧ F.eval 0 = x ∧
    (∀ i ∈ e.members, e.ki i = F.eval (i : C.FieldEl)) ∧
    ∀ l : List ℕ, l.Nodup → (∀ i ∈ l, i ∈ e.members) → e.newQuorum.threshold ≤ l.length →
      (interpolateAt0 l e.ki : Outcome ResharingError C.FieldEl) = .ok x

def Next (e e' : ResharingEpoch R C) : Prop := ∃ i ∈ e.members, e'.K_dkg = e.K i

variable [C.PrimeOrder] (e : ResharingEpoch R C)

theorem exists_sharing {x : C.FieldEl} (hx : x • C.basePointOrGenerator = e.K_dkg) :
    ∃ F : Polynomial C.FieldEl, F.degree < e.newQuorum.threshold ∧ F.eval 0 = x ∧
      ∀ i ∈ e.members, e.ki i = F.eval (i : C.FieldEl) := by
  rcases e.members.eq_empty_or_nonempty with hempty | ⟨i, hi⟩
  · refine ⟨Polynomial.C x, Polynomial.degree_C_le.trans_lt ?_, Polynomial.eval_C, by simp [hempty]⟩
    exact_mod_cast e.newQuorum.threshold_pos
  · obtain ⟨hdeg, hkey, -, -⟩ := Node.resharingRound2_share (e.round2 i hi)
    rw [committedSum_congr (e.storedV_eq i hi)] at hdeg hkey
    refine ⟨committedSum e.inputV, hdeg, C.smul_generator_inj.1 (hkey.trans hx.symm), fun j hj => ?_⟩
    obtain ⟨-, -, -, hki⟩ := Node.resharingRound2_share (e.round2 j hj)
    rwa [committedSum_congr (e.storedV_eq j hj), e.node_id j hj] at hki

theorem shares {x : C.FieldEl} (hx : x • C.basePointOrGenerator = e.K_dkg) : e.Shares x := by
  obtain ⟨F, hdeg, h0, hki⟩ := e.exists_sharing hx
  refine ⟨F, hdeg, h0, hki, fun l hnd hl hlen => ?_⟩
  rw [interpolateAt0_eq_ok hnd (fun k hk => e.newQuorum_valid k (e.members_new k (hl k hk)))
    (hdeg.trans_le (by exact_mod_cast hlen)) fun k hk => hki k (hl k hk), h0]

theorem K_eq {i : ℕ} (hi : i ∈ e.members) : e.K i = e.K_dkg :=
  (Node.resharingRound2_share (e.round2 i hi)).2.2.1

theorem K_dkg_of_chain {K₀ : C.Point} : ∀ {epochs : List (ResharingEpoch R C)},
    (∀ e ∈ epochs.head?, e.K_dkg = K₀) → epochs.IsChain Next → ∀ e ∈ epochs, e.K_dkg = K₀
  | [], _, _ => by simp
  | [e], hhead, _ => by simpa using hhead
  | e :: e' :: es, hhead, hchain => by
    have he : e.K_dkg = K₀ := hhead e rfl
    obtain ⟨⟨i, hi, hnext⟩, htail⟩ := List.isChain_cons_cons.1 hchain
    have hhead' : ∀ d ∈ (e' :: es).head?, d.K_dkg = K₀ := by
      rintro d ⟨⟩
      rw [hnext, e.K_eq hi, he]
    exact List.forall_mem_cons.2 ⟨he, K_dkg_of_chain hhead' htail⟩

end ResharingEpoch

/-! ### Honest dealers -/

def resharingPoly (newQuorum : Network R) (rng : ℕ → C.FieldEl) (ai0 : C.FieldEl) : Poly C.FieldEl :=
  Poly.randomPolynomialsWithSecret rng (newQuorum.threshold - 1) ai0

theorem length_resharingPoly (newQuorum : Network R) (rng : ℕ → C.FieldEl) (ai0 : C.FieldEl) :
    (resharingPoly newQuorum rng ai0).coefficients.length = newQuorum.threshold := by
  have := newQuorum.threshold_pos
  rw [resharingPoly, Poly.length_randomPolynomialsWithSecret]
  omega

theorem eval_zero_resharingPoly (newQuorum : Network R) (rng : ℕ → C.FieldEl) (ai0 : C.FieldEl) :
    (resharingPoly newQuorum rng ai0).toPolynomial.eval 0 = ai0 :=
  Poly.eval_zero_randomPolynomialsWithSecret _ _ _

/-- The weight that a member of `T*` computes does not depend on the order in which its map lists them. -/
theorem lagrangeBasisAt0_tStar {ε : Type} {ids : Finset ℕ} (hvalid : ∀ j ∈ ids, 0 < j ∧ j < 2 ^ 32)
    {tStar : Network R} (hkeys : ∀ k, k ∈ tStar.publicKeys.keys ↔ k ∈ ids) {i : ℕ} (hi : i ∈ ids) :
    (lagrangeBasisAt0 (i % 2 ^ 32) (tStar.publicKeys.keys.map (· % 2 ^ 32)) : Outcome ε C.FieldEl) =
      .ok (Shamir.weight ids (fun j : ℕ => (j : C.FieldEl)) i) := by
  have hmod : tStar.publicKeys.keys.map (· % 2 ^ 32) = tStar.publicKeys.keys := by
    conv_rhs => rw [← List.map_id tStar.publicKeys.keys]
    exact List.map_congr_left fun k hk => Nat.mod_eq_of_lt (hvalid k ((hkeys k).1 hk)).2
  rw [Nat.mod_eq_of_lt (hvalid i hi).2, hmod, lagrangeBasisAt0_ids tStar.publicKeys.nodup_keys
    (fun k hk => hvalid k ((hkeys k).1 hk)) ((hkeys i).2 hi), HMap.toFinset_keys hkeys]

def Node.resharingFi (self : Node R C) (tStar newQuorum : Network R) (rng : ℕ → C.FieldEl) :
    Outcome ResharingError (Poly C.FieldEl) := do
  let lambda_i : C.FieldEl ← lagrangeBasisAt0 (self.id % 2 ^ 32) (tStar.publicKeys.keys.map (· % 2 ^ 32))
  pure (resharingPoly newQuorum rng (self.privateShare * lambda_i))

theorem Node.resharingRound1_eq_bind (self : Node R C) (tStar newQuorum : Network R) (rng : ℕ → C.FieldEl)
    (coins : ℕ → R.Coin) :
    self.resharingRound1 tStar newQuorum rng coins = self.resharingFi tStar newQuorum rng >>= fun fi =>
      encryptShares resharingStep (feldmanShares C fi newQuorum.publicKeys) newQuorum.publicKeys coins >>= fun yCt =>
        pure (yCt, feldmanCommitments C fi) := by
  cases hlambda : (lagrangeBasisAt0 (self.id % 2 ^ 32) (tStar.publicKeys.keys.map (· % 2 ^ 32)) :
    Outcome ResharingError C.FieldEl) with
  | error e => simp only [resharingRound1, resharingFi, hlambda, bind_error]
  | ok lambda_i =>
    have hdeal := feldmanVss_eq_ok (ε := ResharingError) C newQuorum.publicKeys
      (length_resharingPoly newQuorum rng (self.privateShare * lambda_i))
    simp only [resharingRound1, resharingFi, hlambda, bind_ok, pure_eq_ok]
    rw [show Poly.randomPolynomialsWithSecret rng (newQuorum.threshold - 1) (self.privateShare * lambda_i) =
      resharingPoly newQuorum rng (self.privateShare * lambda_i) from rfl, hdeal, bind_ok]

theorem Node.resharingFi_eq (self : Node R C) {tStar : Network R} {lambda_i : C.FieldEl}
    (hlambda : (lagrangeBasisAt0 (self.id % 2 ^ 32) (tStar.publicKeys.keys.map (· % 2 ^ 32)) :
      Outcome ResharingError C.FieldEl) = .ok lambda_i) (newQuorum : Network R) (rng : ℕ → C.FieldEl) :
    self.resharingFi tStar newQuorum rng = .ok (resharingPoly newQuorum rng (self.privateShare * lambda_i)) := by
  rw [resharingFi, hlambda, bind_ok, pure_eq_ok]

theorem Node.resharingRound1_ok {self : Node R C} {tStar newQuorum : Network R} {rng : ℕ → C.FieldEl}
    {coins : ℕ → R.Coin} {yCt : HMap ℕ Bytes} {v : List C.Point} {fi : Poly C.FieldEl}
    (hfi : self.resharingFi tStar newQuorum rng = .ok fi)
    (h : self.resharingRound1 tStar newQuorum rng coins = .ok (yCt, v)) :
    encryptShares resharingStep (feldmanShares C fi newQuorum.publicKeys) newQuorum.publicKeys coins = .ok yCt ∧
      v = feldmanCommitments C fi := by
  rw [resharingRound1_eq_bind, hfi, bind_ok] at h
  simp only [bind_eq_ok, pure_eq_ok, Except.ok.injEq, Prod.mk.injEq] at h
  obtain ⟨_, hct, rfl, rfl⟩ := h
  exact ⟨hct, rfl⟩

theorem Node.resharingRound1_eq {self : Node R C} {tStar newQuorum : Network R} {rng : ℕ → C.FieldEl}
    {coins : ℕ → R.Coin} {poly : Poly C.FieldEl} {enc : R.PublicKey → R.Coin → Bytes → Bytes}
    (henc : ∀ pk coin m, R.encrypt pk coin m = .ok (enc pk coin m))
    (hfi : self.resharingFi tStar newQuorum rng = .ok poly) :
    self.resharingRound1 tStar newQuorum rng coins =
      .ok (newQuorum.publicKeys.mapVal (fun k pk =>
          enc pk (coins k) (C.id.toRepr (poly.toPolynomial.eval (k : C.FieldEl)))),
        feldmanCommitments C poly) := by
  have hct : encryptShares resharingStep (feldmanShares C poly newQuorum.publicKeys) newQuorum.publicKeys coins =
      .ok (newQuorum.publicKeys.mapVal (fun k pk =>
        enc pk (coins k) (C.id.toRepr (poly.toPolynomial.eval (k : C.FieldEl))))) := by
    refine HMap.mapValM_of_ok fun k pk hk => ?_
    simp only [get?_feldmanShares, hk, Option.map_some, okOr, bind_ok, henc, mapErr]
  rw [resharingRound1_eq_bind, hfi, bind_ok, hct, bind_ok, pure_eq_ok]

/-- The members of `T*` hold shares of `f`, at least as many as it takes, and deal as round 1 says to
a new quorum with the public keys `newKeys`. Every dealer has its own copies of the two networks. -/
structure HonestDealers (R : Rsa) (C : Curve) where
  f : Polynomial C.FieldEl
  tOld : ℕ
  degree_lt : f.degree < tOld
  ids : Finset ℕ
  tOld_le : tOld ≤ ids.card
  ids_valid : ∀ j ∈ ids, 0 < j ∧ j < 2 ^ 32
  tStar : ℕ → Network R
  tStar_keys : ∀ j ∈ ids, ∀ k, k ∈ (tStar j).publicKeys.keys ↔ k ∈ ids
  threshold : ℕ
  newKeys : ℕ → Option R.PublicKey
  newQuorum : ℕ → Network R
  newQuorum_threshold : ∀ j ∈ ids, (newQuorum j).threshold = threshold
  newQuorum_keys : ∀ j ∈ ids, ∀ k, (newQuorum j).publicKeys.get? k = newKeys k
  dealer : ℕ → Node R C
  dealer_id : ∀ j ∈ ids, (dealer j).id = j
  dealer_share : ∀ j ∈ ids, (dealer j).privateShare = f.eval (j : C.FieldEl)
  rng : ℕ → ℕ → C.FieldEl
  coins : ℕ → ℕ → R.Coin
  yCt : ℕ → HMap ℕ Bytes
  v : ℕ → List C.Point
  round1 : ∀ j ∈ ids, (dealer j).resharingRound1 (tStar j) (newQuorum j) (rng j) (coins j) = .ok (yCt j, v j)

namespace HonestDealers
variable (d : HonestDealers R C) {j : ℕ}

noncomputable def weight (j : ℕ) : C.FieldEl := Shamir.weight d.ids (fun k : ℕ => (k : C.FieldEl)) j

def poly (j : ℕ) (w : C.FieldEl) : Poly C.FieldEl :=
  resharingPoly (d.newQuorum j) (d.rng j) ((d.dealer j).privateShare * w)

theorem round1_ok (hj : j ∈ d.ids) :
    encryptShares resharingStep (feldmanShares C (d.poly j (d.weight j)) (d.newQuorum j).publicKeys)
        (d.newQuorum j).publicKeys (d.coins j) = .ok (d.yCt j) ∧
      d.v j = feldmanCommitments C (d.poly j (d.weight j)) := by
  refine Node.resharingRound1_ok (Node.resharingFi_eq _ ?_ _ _) (d.round1 j hj)
  rw [d.dealer_id j hj]
  exact lagrangeBasisAt0_tStar d.ids_valid (d.tStar_keys j hj) hj

theorem length_poly (hj : j ∈ d.ids) (w : C.FieldEl) : (d.poly j w).coefficients.length = d.threshold := by
  rw [poly, length_resharingPoly, d.newQuorum_threshold j hj]

theorem eval_zero_poly (hj : j ∈ d.ids) (w : C.FieldEl) :
    (d.poly j w).toPolynomial.eval 0 = w * d.f.eval (j : C.FieldEl) := by
  rw [poly, eval_zero_resharingPoly, d.dealer_share j hj, mul_comm]

theorem threshold_pos (hj : j ∈ d.ids) : 0 < d.threshold :=
  d.newQuorum_threshold j hj ▸ (d.newQuorum j).threshold_pos

variable [C.PrimeOrder] {inputV : HMap ℕ (List C.Point)}
  (hinputV : ∀ j, inputV.get? j = if j ∈ d.ids then some (d.v j) else none)
include hinputV

omit [C.PrimeOrder] in
theorem mem_inputV (k : ℕ) : k ∈ inputV.keys ↔ k ∈ d.ids := by
  rw [← HMap.get?_isSome, hinputV]
  split <;> simp_all

omit [C.PrimeOrder] in
theorem eq_v {k : ℕ} {v : List C.Point} (hv : inputV.get? k = some v) : k ∈ d.ids ∧ v = d.v k := by
  rw [hinputV] at hv
  split at hv
  next hk => exact ⟨hk, (Option.some.inj hv).symm⟩
  next => cases hv

theorem sumFreeTerms_eq {ε : Type} :
    (sumFreeTerms inputV 0 : Outcome ε C.Point) = .ok (d.f.eval 0 • C.basePointOrGenerator) := by
  have hhead : ∀ k v, inputV.get? k = some v →
      v[0]? = some (d.weight k • d.f.eval (k : C.FieldEl) • C.basePointOrGenerator) := by
    intro k v hv
    obtain ⟨hk, rfl⟩ := d.eq_v hinputV hv
    have hpos : 0 < (d.poly k (d.weight k)).coefficients.length := by
      rw [d.length_poly hk]; exact d.threshold_pos hk
    rw [(d.round1_ok hk).2, getElem?_zero_feldmanCommitments C hpos, d.eval_zero_poly hk, mul_smul]
  have hinj : Set.InjOn (fun k : ℕ => (k : C.FieldEl)) (d.ids : Set ℕ) :=
    C.id.natCast_injOn fun k hk => (d.ids_valid k hk).2.trans (by decide)
  have hdeg : d.f.degree < d.ids.card := d.degree_lt.trans_le (by exact_mod_cast d.tOld_le)
  rw [sumFreeTerms_eq_ok hhead, zero_add, HMap.sum_map_keys (d.mem_inputV hinputV),
    ← Shamir.sum_weight_smul hinj hdeg]
  rfl

theorem round2_not_refused (prof : Profile) (self : Node R C) (tStar newQuorum : Network R) (inputY : HMap ℕ Bytes) :
    self.resharingRound2 prof tStar newQuorum inputY inputV (d.f.eval 0 • C.basePointOrGenerator) ≠
      fail (.other "Group public key not verified - step 10") := by
  have herrors : ErrorsIn (· ≠ .other "Group public key not verified - step 10")
      (self.resharingRound2 prof tStar newQuorum inputY inputV (d.f.eval 0 • C.basePointOrGenerator)) := by
    have hother : ∀ msg ≠ "Group public key not verified - step 10",
        resharingStep.other msg ≠ .other "Group public key not verified - step 10" := by
      rintro msg hmsg h
      exact hmsg (ResharingError.other.inj h)
    refine (ErrorsIn.check _).bind fun _ _ => (ErrorsIn.forM fun _ _ => .check _).bind fun _ _ => ?_
    refine (errorsIn_decryptShares _ (hother _ (by decide)) (fun h => by cases h) _ _).bind fun _ _ => ?_
    refine (errorsIn_verifyShares _ (fun msg hmsg => hother msg (by rintro rfl; revert hmsg; decide)) _ _ _ _).bind fun _ _ => ?_
    rw [d.sumFreeTerms_eq hinputV, bind_ok]
    refine (ErrorsIn.unwrap _ _).bind fun _ _ => (ErrorsIn.unwrap _ _).bind fun _ _ => ?_
    rw [if_neg (not_not.2 rfl)]
    exact .ok _
  intro h
  exact herrors _ h rfl

omit hinputV [C.PrimeOrder] in
theorem decryptShares_eq [R.Lossless] {self : Node R C} {inputY : HMap ℕ Bytes}
    (hkey : d.newKeys self.id = some (R.publicKey self.rsaSeckey))
    (hinputY : ∀ j, inputY.get? j = if j ∈ d.ids then (d.yCt j).get? self.id else none) :
    decryptShares resharingStep C self.rsaSeckey inputY =
      .ok (inputY.mapVal fun k _ => (d.poly k (d.weight k)).toPolynomial.eval (self.id : C.FieldEl)) := by
  refine decryptShares_honest _ fun k ct hk => ?_
  rw [hinputY] at hk
  split at hk
  next hmem =>
    obtain ⟨pk, yi, hpk, hyi, hct⟩ := encryptShares_ok _ (d.round1_ok hmem).1 hk
    rw [d.newQuorum_keys k hmem, hkey] at hpk
    obtain rfl := Option.some.inj hpk
    rw [get?_feldmanShares, d.newQuorum_keys k hmem, hkey] at hyi
    obtain rfl := Option.some.inj hyi
    exact Rsa.Lossless.decrypt_encrypt hct
  next => cases hk

omit hinputV [C.PrimeOrder] in
theorem mem_inputY {self : Node R C} {inputY : HMap ℕ Bytes}
    (hkey : d.newKeys self.id = some (R.publicKey self.rsaSeckey))
    (hinputY : ∀ j, inputY.get? j = if j ∈ d.ids then (d.yCt j).get? self.id else none) (k : ℕ) :
    k ∈ inputY.keys ↔ k ∈ d.ids := by
  rw [← HMap.get?_isSome, hinputY]
  by_cases hk : k ∈ d.ids
  · rw [if_pos hk, HMap.get?_isSome, keys_encryptShares _ (d.round1_ok hk).1, ← HMap.get?_isSome,
      d.newQuorum_keys k hk, hkey]
    simp [hk]
  · simp [hk]

/-- A new node whose id has powers that fit completes round 2 of an honest resharing. -/
theorem round2_of_fits [C.TotalEncodings] [R.Lossless] (prof : Profile) {self : Node R C} {tStar newQuorum : Network R}
    {inputY : HMap ℕ Bytes} (htotal : tStar.totalNodes = d.ids.card) (hthreshold : newQuorum.threshold = d.threshold)
    (hkey : d.newKeys self.id = some (R.publicKey self.rsaSeckey))
    (hinputY : ∀ j, inputY.get? j = if j ∈ d.ids then (d.yCt j).get? self.id else none)
    (hfits : self.id ^ (d.threshold - 1) < 2 ^ 128) :
    ∃ ki, self.resharingRound2 prof tStar newQuorum inputY inputV (d.f.eval 0 • C.basePointOrGenerator) =
      .ok (ki, ki • C.basePointOrGenerator, d.f.eval 0 • C.basePointOrGenerator) := by
  have hlens : inputV.len = tStar.totalNodes ∧ inputY.len = tStar.totalNodes := by
    rw [HMap.len_eq_card (d.mem_inputV hinputV), HMap.len_eq_card (d.mem_inputY hkey hinputY), htotal]
    exact ⟨rfl, rfl⟩
  have hlen : ∀ k ∈ d.ids, (d.v k).length = d.threshold := fun k hk => by
    rw [(d.round1_ok hk).2, length_feldmanCommitments, d.length_poly hk]
  have hchecks : (inputV.values.forM fun j =>
      check (j.length = newQuorum.threshold) "resharing round 2 inputs not correct" : Outcome ResharingError PUnit) =
      .ok ⟨⟩ := by
    rw [forM_eq_ok]
    intro v hv
    obtain ⟨⟨k, v⟩, he, rfl⟩ := List.mem_map.1 hv
    obtain ⟨hk, rfl⟩ := d.eq_v hinputV (HMap.get?_eq_some.2 he)
    rw [check_eq_ok, hlen k hk, hthreshold]
  have hverify : verifyShares resharingStep prof self.id
      (inputY.mapVal fun k _ => (d.poly k (d.weight k)).toPolynomial.eval (self.id : C.FieldEl)) inputV = .ok ⟨⟩ := by
    rw [verifyShares_ok]
    intro k share hk
    rw [HMap.get?_mapVal, Option.map_eq_some_iff] at hk
    obtain ⟨ct, hct, rfl⟩ := hk
    have hmem := (d.mem_inputY hkey hinputY k).1 (HMap.mem_keys_of_mem (HMap.get?_eq_some.1 hct))
    refine ⟨d.v k, by rw [hinputV, if_pos hmem], ?_⟩
    have hne : d.v k ≠ [] := List.length_pos_iff.1 (hlen k hmem ▸ d.threshold_pos hmem)
    rw [verifyVss_accepts_iff C prof hne (by rwa [hlen k hmem]), (d.round1_ok hmem).2]
    exact feldmanEquation_of_dealt C _ self.id
  obtain ⟨enc, henc, -⟩ := C.exists_encoder
  refine ⟨(inputY.mapVal fun k _ =>
    (d.poly k (d.weight k)).toPolynomial.eval (self.id : C.FieldEl)).values.foldl (· + ·) 0, ?_⟩
  unfold Node.resharingRound2
  rw [check_of hlens, bind_ok, hchecks, bind_ok, d.decryptShares_eq hkey hinputY, bind_ok, hverify, bind_ok,
    d.sumFreeTerms_eq hinputV, bind_ok, henc, unwrap, bind_ok, bind_ok, if_neg (not_not.2 rfl)]
  simp only [C.scalarMul_eq_smul]
  rfl

end HonestDealers

/-! ### The secret survives resharing -/

/-- Whatever the dealers do, the nodes that complete a resharing share the discrete logarithm of the
group key, and it is the same secret in every epoch of a chain of resharings. Honest dealers that hold
enough shares of the secret are never refused for the group key. -/
theorem resharing_preserves_secret [C.PrimeOrder] :
    (∀ (K₀ : C.Point) (epochs : List (ResharingEpoch R C)), (∀ e ∈ epochs.head?, e.K_dkg = K₀) →
      epochs.IsChain ResharingEpoch.Next →
        ∃ x : C.FieldEl, C.scalarMul C.basePointOrGenerator x = K₀ ∧ ∀ e ∈ epochs, e.K_dkg = K₀ ∧ e.Shares x) ∧
      ∀ (d : HonestDealers R C) (inputV : HMap ℕ (List C.Point)),
        (∀ j, inputV.get? j = if j ∈ d.ids then some (d.v j) else none) →
          ∀ K_dkg, K_dkg = C.scalarMul C.basePointOrGenerator (d.f.eval 0) →
            (sumFreeTerms inputV 0 : Outcome ResharingError C.Point) = .ok K_dkg ∧
              ∀ prof (self : Node R C) tStar newQuorum inputY,
                self.resharingRound2 prof tStar newQuorum inputY inputV K_dkg ≠
                  fail (.other "Group public key not verified - step 10") := by
  refine ⟨fun K₀ epochs hhead hchain => ?_, ?_⟩
  · obtain ⟨x, hx⟩ := C.exists_smul_eq K₀
    refine ⟨x, by rwa [C.scalarMul_eq_smul], fun e he => ?_⟩
    have hkey := ResharingEpoch.K_dkg_of_chain hhead hchain e he
    exact ⟨hkey, e.shares (hx.trans hkey.symm)⟩
  · rintro d inputV hinputV K_dkg rfl
    rw [C.scalarMul_eq_smul]
    exact ⟨d.sumFreeTerms_eq hinputV, fun prof self tStar newQuorum inputY =>
      d.round2_not_refused hinputV prof self tStar newQuorum inputY⟩

/-! ### Resharing with boxes -/

noncomputable def boxDealers (C : Curve) (f : Polynomial C.FieldEl) {tOld : ℕ} (hf : f.degree < tOld)
    (old : List ℕ) (hold : old.Nodup) (htOld : 0 < tOld ∧ tOld ≤ old.length) (hvalid : ∀ j ∈ old, 0 < j ∧ j < 2 ^ 32)
    (new : List ℕ) (hnew : new.Nodup) (t : ℕ) (ht : 0 < t ∧ t ≤ new.length) (rng : ℕ → ℕ → C.FieldEl) :
    HonestDealers boxRsa C :=
  let dealer (j : ℕ) : Node boxRsa C := { boxNode C j with privateShare := f.eval (j : C.FieldEl) }
  let w : ℕ → C.FieldEl := Shamir.weight old.toFinset (fun k : ℕ => (k : C.FieldEl))
  let poly (j : ℕ) := resharingPoly (boxNetwork new hnew t ht) (rng j) ((dealer j).privateShare * w j)
  have hvalid' : ∀ j ∈ old.toFinset, 0 < j ∧ j < 2 ^ 32 := fun j hj => hvalid j (List.mem_toFinset.1 hj)
  have hkeys : ∀ k, k ∈ (boxNetwork old hold tOld htOld).publicKeys.keys ↔ k ∈ old.toFinset := fun k => by
    rw [← HMap.get?_isSome, boxNetwork_get?, List.mem_toFinset]
    split <;> simp_all
  { f := f
    tOld := tOld
    degree_lt := hf
    ids := old.toFinset
    tOld_le := by rw [List.toFinset_card_of_nodup hold]; exact htOld.2
    ids_valid := hvalid'
    tStar := fun _ => boxNetwork old hold tOld htOld
    tStar_keys := fun _ _ => hkeys
    threshold := t
    newKeys := fun k => if k ∈ new then some k else none
    newQuorum := fun _ => boxNetwork new hnew t ht
    newQuorum_threshold := fun _ _ => rfl
    newQuorum_keys := fun _ _ k => boxNetwork_get? hnew ht k
    dealer := dealer
    dealer_id := fun _ _ => rfl
    dealer_share := fun _ _ => rfl
    rng := rng
    coins := fun _ _ => (0 : UInt8)
    yCt := fun j => (boxNetwork new hnew t ht).publicKeys.mapVal fun k pk => Bytes.toBe 16 pk ++ (0 : UInt8) ::
      C.id.toRepr ((poly j).toPolynomial.eval (k : C.FieldEl))
    v := fun j => feldmanCommitments C (poly j)
    round1 := fun j hj => Node.resharingRound1_eq (fun _ _ _ => rfl)
      (Node.resharingFi_eq _ (lagrangeBasisAt0_tStar hvalid' hkeys hj) _ _) }

section boxEpoch
variable [C.PrimeOrder] [C.TotalEncodings] {f : Polynomial C.FieldEl} (tOld : ℕ) (hf : f.degree < tOld)
  (old : List ℕ) (hold : old.Nodup) (htOld : 0 < tOld ∧ tOld ≤ old.length) (hvalid : ∀ j ∈ old, 0 < j ∧ j < 2 ^ 32)
  (new : List ℕ) (hnew : new.Nodup) (t : ℕ) (ht : 0 < t ∧ t ≤ new.length) (rng : ℕ → ℕ → C.FieldEl)

theorem boxDealers_round2 {i : ℕ} (hi : i ∈ new) (hfits : i ^ (t - 1) < 2 ^ 128) :
    ∃ ki, (boxNode C i).resharingRound2 .debug (boxNetwork old hold tOld htOld) (boxNetwork new hnew t ht)
        (HMap.ofKeys old hold fun j =>
          (((boxDealers C f hf old hold htOld hvalid new hnew t ht rng).yCt j).get? i).getD [])
        (HMap.ofKeys old hold (boxDealers C f hf old hold htOld hvalid new hnew t ht rng).v)
        (f.eval 0 • C.basePointOrGenerator) =
      .ok (ki, ki • C.basePointOrGenerator, f.eval 0 • C.basePointOrGenerator) := by
  set d := boxDealers C f hf old hold htOld hvalid new hnew t ht rng with hd
  have hids : ∀ j, j ∈ d.ids ↔ j ∈ old := fun j => List.mem_toFinset
  have hinputV : ∀ j, (HMap.ofKeys old hold d.v).get? j = if j ∈ d.ids then some (d.v j) else none := fun j => by
    simp only [HMap.get?_ofKeys, hids]
  have hsome : ∀ j, ((d.yCt j).get? i).isSome := fun j => by
    simp only [hd, boxDealers, HMap.get?_mapVal, Option.isSome_map]
    rw [boxNetwork_get?, if_pos hi]
    rfl
  have hinputY : ∀ j, (HMap.ofKeys old hold fun j => ((d.yCt j).get? i).getD []).get? j =
      if j ∈ d.ids then (d.yCt j).get? i else none := fun j => by
    simp only [HMap.get?_ofKeys, hids]
    obtain ⟨ct, hct⟩ := Option.isSome_iff_exists.1 (hsome j)
    rw [hct, Option.getD_some]
  exact d.round2_of_fits hinputV .debug (List.toFinset_card_of_nodup hold).symm rfl (if_pos hi) hinputY hfits

noncomputable def boxEpoch (hvalid' : ∀ k ∈ new, 0 < k ∧ k < 2 ^ 32) (hfits : ∀ i ∈ new, i ^ (t - 1) < 2 ^ 128) :
    ResharingEpoch boxRsa C where
  tStar := boxNetwork old hold tOld htOld
  newQuorum := boxNetwork new hnew t ht
  newQuorum_valid k hk := hvalid' k (by
    rw [← HMap.get?_isSome, boxNetwork_get?] at hk
    by_contra h
    simp [h] at hk)
  K_dkg := f.eval 0 • C.basePointOrGenerator
  inputV := HMap.ofKeys old hold (boxDealers C f hf old hold htOld hvalid new hnew t ht rng).v
  members := new.toFinset
  members_new i hi := by
    rw [← HMap.get?_isSome, boxNetwork_get?, if_pos (List.mem_toFinset.1 hi)]
    rfl
  node := boxNode C
  node_id := boxNode_id C new
  inputY i := HMap.ofKeys old hold fun j =>
    (((boxDealers C f hf old hold htOld hvalid new hnew t ht rng).yCt j).get? i).getD []
  storedV _ := HMap.ofKeys old hold (boxDealers C f hf old hold htOld hvalid new hnew t ht rng).v
  storedV_eq _ _ _ := rfl
  ki i := if hi : i ∈ new then
    (boxDealers_round2 tOld hf old hold htOld hvalid new hnew t ht rng hi (hfits i hi)).choose else 0
  Ki i := if hi : i ∈ new then
    (boxDealers_round2 tOld hf old hold htOld hvalid new hnew t ht rng hi (hfits i hi)).choose • C.basePointOrGenerator else 0
  K _ := f.eval 0 • C.basePointOrGenerator
  round2 i hi := by
    have hi' : i ∈ new := List.mem_toFinset.1 hi
    rw [dif_pos hi', dif_pos hi']
    exact (boxDealers_round2 tOld hf old hold htOld hvalid new hnew t ht rng hi' (hfits i hi')).choose_spec

end boxEpoch

theorem twoIds_nodup : [1, 2].Nodup := by decide

theorem twoIds_threshold : 0 < 2 ∧ 2 ≤ [1, 2].length := by decide

theorem threeIds_threshold : 0 < 2 ∧ 2 ≤ [1, 2, 3].length := by decide

noncomputable def threeEpoch : ResharingEpoch boxRsa (scalarCurve .secp256k1) :=
  boxEpoch 2 (Shamir.degree_ofCoeffs_lt [((5 : ℕ) : CurveId.Scalar .secp256k1), (3 : ℕ)]) [1, 2] twoIds_nodup
    twoIds_threshold (by decide) [1, 2, 3] threeIds_nodup 2 threeIds_threshold (fun _ _ => 1) threeIds_valid (by decide)

theorem resharing_preserves_secret_threeEpoch :
    ∃ x, (scalarCurve .secp256k1).scalarMul (scalarCurve .secp256k1).basePointOrGenerator x = threeEpoch.K_dkg ∧
      ∀ e ∈ [threeEpoch, threeEpoch], e.K_dkg = threeEpoch.K_dkg ∧ e.Shares x :=
  resharing_preserves_secret.1 threeEpoch.K_dkg [threeEpoch, threeEpoch] (by simp)
    (by simpa using ⟨1, by show 1 ∈ [1, 2, 3].toFinset; decide, rfl⟩)

end HumanNetwork
