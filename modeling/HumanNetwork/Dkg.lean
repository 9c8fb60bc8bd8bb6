import HumanNetwork.Node

/-!
# Distributed key generation (`dkg.rs`)

The three rounds of a node, and what they do in an honest session. A `DkgSession` is everything up
to the start of round 2: the nodes with their random draws, the outputs of `dkgRound1` at each of
them, and the maps in which the nodes stored what they received, each in an order of its own.
`DkgSession.round2_eq` computes round 2 there up to the verdict of the verification, and
`dkg_correct` is correctness of the whole run.
-/

namespace HumanNetwork
open Outcome Finset

variable {R : Rsa} {C : Curve}

def dkgStep : Step DKGError := ⟨.rsaError, .other⟩

namespace Node

def dkgRound1 (self : Node R C) (network : Network R) (rng : ℕ → C.FieldEl) (coins : ℕ → R.Coin) :
    Outcome DKGError (HMap ℕ Bytes × List C.Point × C.FieldEl) := do
  let ai0 := rng 0
  let fi := Poly.randomPolynomialsWithSecret (fun k => rng (k + 1)) (network.threshold - 1) ai0
  let (y, v) ← feldmanVss C fi network.publicKeys network.threshold
  let yCt ← encryptShares dkgStep y (network.publicKeys.remove self.id) coins
  let id := self.id
  let yii ← okOr (y.get? id) (.other s!"Computed Polynomial not found for {id}")
  pure (yCt, v, yii)

def dkgRound2 (prof : Profile) (self : Node R C) (network : Network R) (inputY : HMap ℕ Bytes)
    (inputV : HMap ℕ (List C.Point)) : Outcome DKGError (C.FieldEl × C.Point × C.Point) := do
  check (inputV.len = network.totalNodes - 1 ∧ inputY.len = network.totalNodes - 1)
    "dkg round 2 inputs not correct"
  inputV.values.forM fun j => check (j.length = network.threshold) "dkg round 2 inputs not correct"
  let y ← decryptShares dkgStep C self.rsaSeckey inputY
  verifyShares dkgStep prof self.id y inputV
  let K ← sumFreeTerms inputV self.initPubShare
  let _logged ← unwrap (C.encode K) unwrapNone
  let ki := y.values.foldl (· + ·) self.ownPartialShare
  let Ki := C.scalarMul C.basePointOrGenerator ki
  pure (ki, Ki, K)

def dkgRound3 (self : Node R C) (network : Network R) (Kj : HMap ℕ C.Point) : Outcome DKGError C.Point := do
  check (Kj.len = network.totalNodes) "dkg round 3 inputs not correct"
  let res ← interpolateKeys dkgStep network Kj
  check (res = self.networkPubkey) "public keys not verified - step 16"
  pure res

end Node

/-! ### Round 1 -/

def dkgPoly (network : Network R) (rng : ℕ → C.FieldEl) : Poly C.FieldEl :=
  Poly.randomPolynomialsWithSecret (fun k => rng (k + 1)) (network.threshold - 1) (rng 0)

theorem length_dkgPoly (network : Network R) (rng : ℕ → C.FieldEl) :
    (dkgPoly network rng).coefficients.length = network.threshold := by
  have := network.threshold_pos
  rw [dkgPoly, Poly.length_randomPolynomialsWithSecret]
  omega

theorem Node.dkgRound1_ok {self : Node R C} {network : Network R} {rng : ℕ → C.FieldEl} {coins : ℕ → R.Coin}
    {yCt : HMap ℕ Bytes} {v : List C.Point} {yii : C.FieldEl}
    (h : self.dkgRound1 network rng coins = .ok (yCt, v, yii)) :
    encryptShares dkgStep (feldmanShares C (dkgPoly network rng) network.publicKeys)
        (network.publicKeys.remove self.id) coins = .ok yCt ∧
      v = feldmanCommitments C (dkgPoly network rng) ∧
      yii = (dkgPoly network rng).toPolynomial.eval (self.id : C.FieldEl) := by
  have hdeal := feldmanVss_eq_ok (ε := DKGError) C network.publicKeys (length_dkgPoly network rng)
  simp only [dkgRound1] at h
  rw [show Poly.randomPolynomialsWithSecret (fun k => rng (k + 1)) (network.threshold - 1) (rng 0) =
    dkgPoly network rng from rfl, hdeal, bind_ok] at h
  simp only [bind_eq_ok, okOr_eq_ok, pure_eq_ok, Except.ok.injEq, Prod.mk.injEq] at h
  obtain ⟨_, hct, _, hyii, rfl, rfl, rfl⟩ := h
  rw [get?_feldmanShares, Option.map_eq_some_iff] at hyii
  obtain ⟨_, _, rfl⟩ := hyii
  exact ⟨hct, rfl, rfl⟩

theorem Node.dkgRound1_eq {self : Node R C} {network : Network R} {rng : ℕ → C.FieldEl} {coins : ℕ → R.Coin}
    {enc : R.PublicKey → R.Coin → Bytes → Bytes} (henc : ∀ pk coin m, R.encrypt pk coin m = .ok (enc pk coin m))
    (hself : self.id ∈ network.publicKeys.keys) :
    self.dkgRound1 network rng coins =
      .ok ((network.publicKeys.remove self.id).mapVal
          (fun k pk => enc pk (coins k) (C.id.toRepr ((dkgPoly network rng).toPolynomial.eval (k : C.FieldEl)))),
        feldmanCommitments C (dkgPoly network rng),
        (dkgPoly network rng).toPolynomial.eval (self.id : C.FieldEl)) := by
  have hdeal := feldmanVss_eq_ok (ε := DKGError) C network.publicKeys (length_dkgPoly network rng)
  have hct : encryptShares dkgStep (feldmanShares C (dkgPoly network rng) network.publicKeys)
      (network.publicKeys.remove self.id) coins =
      .ok ((network.publicKeys.remove self.id).mapVal
        (fun k pk => enc pk (coins k) (C.id.toRepr ((dkgPoly network rng).toPolynomial.eval (k : C.FieldEl))))) := by
    refine HMap.mapValM_of_ok fun k pk hk => ?_
    rw [HMap.get?_remove] at hk
    split at hk
    next => cases hk
    next => simp only [get?_feldmanShares, hk, Option.map_some, okOr, bind_ok, henc, mapErr]
  obtain ⟨pk, hpk⟩ := HMap.exists_get? hself
  simp only [dkgRound1]
  rw [show Poly.randomPolynomialsWithSecret (fun k => rng (k + 1)) (network.threshold - 1) (rng 0) =
    dkgPoly network rng from rfl, hdeal, bind_ok]
  simp only [hct, bind_ok, get?_feldmanShares, hpk, Option.map_some, okOr, pure_eq_ok]

/-! ### Honest sessions -/

/-- The nodes of one key generation, each with its own copy of the network map of exactly these nodes. -/
structure DkgSetup (R : Rsa) (C : Curve) where
  ids : Finset ℕ
  threshold : ℕ
  admitted : ∃ network, Network.new R threshold ids.card false = .ok network
  node : ℕ → Node R C
  node_id : ∀ i ∈ ids, (node i).id = i
  network : ℕ → Network R
  network_params : ∀ i ∈ ids, (network i).threshold = threshold ∧ (network i).totalNodes = ids.card
  network_keys : ∀ i ∈ ids, ∀ j, (network i).publicKeys.get? j =
    if j ∈ ids then some (R.publicKey (node j).rsaSeckey) else none

/-- Honest nodes between round 1 and round 2. Everything that the nodes keep is a map of their own,
so it may list its entries in any order. -/
structure DkgSession (R : Rsa) (C : Curve) extends DkgSetup R C where
  ids_valid : ∀ i ∈ ids, 0 < i ∧ i < 2 ^ 32
  rng : ℕ → ℕ → C.FieldEl
  coins : ℕ → ℕ → R.Coin
  yCt : ℕ → HMap ℕ Bytes
  v : ℕ → List C.Point
  yii : ℕ → C.FieldEl
  round1 : ∀ i ∈ ids, (node i).dkgRound1 (network i) (rng i) (coins i) = .ok (yCt i, v i, yii i)
  inputY : ℕ → HMap ℕ Bytes
  inputY_stored : ∀ i ∈ ids, ∀ j, (inputY i).get? j = if j ∈ ids.erase i then (yCt j).get? i else none
  inputV : ℕ → HMap ℕ (List C.Point)
  inputV_stored : ∀ i ∈ ids, ∀ j, (inputV i).get? j = if j ∈ ids.erase i then some (v j) else none

namespace DkgSetup
variable (s : DkgSetup R C) {i j k : ℕ}

theorem mem_publicKeys (hi : i ∈ s.ids) (k : ℕ) : k ∈ (s.network i).publicKeys.keys ↔ k ∈ s.ids := by
  rw [← HMap.get?_isSome, s.network_keys i hi]
  split <;> simp_all

theorem threshold_pos : 0 < s.threshold := (Network.new_dkg_eq_ok s.admitted.choose_spec).1

theorem threshold_lt : s.threshold < s.ids.card := (Network.new_dkg_eq_ok s.admitted.choose_spec).2.1

theorem yCt_get? (hk : k ∈ s.ids) (hi : i ∈ s.ids) {rng : ℕ → C.FieldEl} {coins : ℕ → R.Coin}
    {yCt : HMap ℕ Bytes} {v : List C.Point} {yii : C.FieldEl}
    (hround1 : (s.node k).dkgRound1 (s.network k) rng coins = .ok (yCt, v, yii)) {ct : Bytes}
    (h : yCt.get? i = some ct) :
    R.encrypt (R.publicKey (s.node i).rsaSeckey) (coins i)
      (C.id.toRepr ((dkgPoly (s.network k) rng).toPolynomial.eval (i : C.FieldEl))) = .ok ct := by
  obtain ⟨pk, yi, hpk, hyi, hct⟩ := encryptShares_ok _ (Node.dkgRound1_ok hround1).1 h
  have hpub : (s.network k).publicKeys.get? i = some (R.publicKey (s.node i).rsaSeckey) := by
    rw [s.network_keys k hk, if_pos hi]
  rw [get?_feldmanShares, hpub] at hyi
  obtain rfl := Option.some.inj hyi
  rw [HMap.get?_remove] at hpk
  split at hpk
  · cases hpk
  · obtain rfl := Option.some.inj (hpub.symm.trans hpk)
    exact hct

theorem mem_yCt (hk : k ∈ s.ids) {rng : ℕ → C.FieldEl} {coins : ℕ → R.Coin}
    {yCt : HMap ℕ Bytes} {v : List C.Point} {yii : C.FieldEl}
    (hround1 : (s.node k).dkgRound1 (s.network k) rng coins = .ok (yCt, v, yii)) (i : ℕ) :
    i ∈ yCt.keys ↔ i ∈ s.ids.erase k := by
  rw [keys_encryptShares _ (Node.dkgRound1_ok hround1).1, ← HMap.get?_isSome, HMap.get?_remove,
    s.network_keys k hk, s.node_id k hk, mem_erase]
  by_cases hik : i = k <;> by_cases hi : i ∈ s.ids <;> simp [hik, hi]

end DkgSetup

namespace DkgSession
variable (s : DkgSession R C) {i j k : ℕ}

def kept (i : ℕ) : Node R C := { s.node i with ownPartialShare := s.yii i, initPubShare := (s.v i).headD 0 }

noncomputable def poly (j : ℕ) : Polynomial C.FieldEl := (dkgPoly (s.network j) (s.rng j)).toPolynomial

noncomputable def sum : Polynomial C.FieldEl := ∑ j ∈ s.ids, s.poly j

theorem degree_poly_lt (hj : j ∈ s.ids) : (s.poly j).degree < s.threshold := by
  have h := Poly.degree_toPolynomial_lt (dkgPoly (s.network j) (s.rng j))
  rwa [length_dkgPoly, (s.network_params j hj).1] at h

theorem eval_zero_poly (j : ℕ) : (s.poly j).eval 0 = s.rng j 0 :=
  Poly.eval_zero_randomPolynomialsWithSecret _ _ _

theorem degree_sum_lt : s.sum.degree < s.threshold :=
  Polynomial.mem_degreeLT.1 (Submodule.sum_mem _ fun _ hj => Polynomial.mem_degreeLT.2 (s.degree_poly_lt hj))

theorem eval_sum (x : C.FieldEl) : s.sum.eval x = ∑ j ∈ s.ids, (s.poly j).eval x :=
  Polynomial.eval_finsetSum _ _ _

theorem eval_zero_sum : s.sum.eval 0 = ∑ j ∈ s.ids, s.rng j 0 := by
  rw [eval_sum]
  exact sum_congr rfl fun j _ => s.eval_zero_poly j

theorem yii_eq (hi : i ∈ s.ids) : s.yii i = (s.poly i).eval (i : C.FieldEl) := by
  have h := (Node.dkgRound1_ok (s.round1 i hi)).2.2
  rwa [s.node_id i hi] at h

theorem v_eq (hi : i ∈ s.ids) : s.v i = feldmanCommitments C (dkgPoly (s.network i) (s.rng i)) :=
  (Node.dkgRound1_ok (s.round1 i hi)).2.1

theorem length_v (hi : i ∈ s.ids) : (s.v i).length = s.threshold := by
  rw [s.v_eq hi, length_feldmanCommitments, length_dkgPoly, (s.network_params i hi).1]

theorem mem_inputV (hi : i ∈ s.ids) (k : ℕ) : k ∈ (s.inputV i).keys ↔ k ∈ s.ids.erase i := by
  rw [← HMap.get?_isSome, s.inputV_stored i hi]
  split <;> simp_all

theorem mem_inputY (hi : i ∈ s.ids) (k : ℕ) : k ∈ (s.inputY i).keys ↔ k ∈ s.ids.erase i := by
  rw [← HMap.get?_isSome, s.inputY_stored i hi]
  by_cases hk : k ∈ s.ids.erase i
  · rw [if_pos hk, HMap.get?_isSome, s.mem_yCt (mem_of_mem_erase hk) (s.round1 k (mem_of_mem_erase hk))]
    simp [hk, hi, (ne_of_mem_erase hk).symm]
  · simp [hk]

noncomputable def shares (i : ℕ) : HMap ℕ C.FieldEl := (s.inputY i).mapVal fun k _ => (s.poly k).eval (i : C.FieldEl)

theorem decryptShares_eq [R.Lossless] (hi : i ∈ s.ids) :
    decryptShares dkgStep C (s.node i).rsaSeckey (s.inputY i) = .ok (s.shares i) := by
  refine decryptShares_honest _ fun k ct hk => ?_
  rw [s.inputY_stored i hi] at hk
  split at hk
  next hmem =>
    have hkids := mem_of_mem_erase hmem
    exact Rsa.Lossless.decrypt_encrypt (s.yCt_get? hkids hi (s.round1 k hkids) hk)
  next => cases hk

theorem getElem?_zero_v [C.PrimeOrder] (hk : k ∈ s.ids) :
    (s.v k)[0]? = some (s.rng k 0 • C.basePointOrGenerator) := by
  have hpos : 0 < (dkgPoly (s.network k) (s.rng k)).coefficients.length := by
    rw [length_dkgPoly]; exact (s.network k).threshold_pos
  rw [s.v_eq hk, getElem?_zero_feldmanCommitments C hpos, ← s.eval_zero_poly k]
  rfl

theorem initPubShare_kept [C.PrimeOrder] (hi : i ∈ s.ids) :
    (s.kept i).initPubShare = s.rng i 0 • C.basePointOrGenerator := by
  show (s.v i).headD 0 = _
  rw [List.headD_eq_head?_getD, List.head?_eq_getElem?, s.getElem?_zero_v hi]
  rfl

theorem sumFreeTerms_eq [C.PrimeOrder] (hi : i ∈ s.ids) :
    (sumFreeTerms (s.inputV i) (s.kept i).initPubShare : Outcome DKGError C.Point) =
      .ok (s.sum.eval 0 • C.basePointOrGenerator) := by
  have hhead : ∀ k v, (s.inputV i).get? k = some v → v[0]? = some (s.rng k 0 • C.basePointOrGenerator) := by
    intro k v hk
    rw [s.inputV_stored i hi] at hk
    split at hk
    next hmem =>
      obtain rfl := Option.some.inj hk
      exact s.getElem?_zero_v (mem_of_mem_erase hmem)
    next => cases hk
  rw [sumFreeTerms_eq_ok hhead, HMap.sum_map_keys (s.mem_inputV hi), s.initPubShare_kept hi,
    add_sum_erase _ (fun k => s.rng k 0 • C.basePointOrGenerator) hi, eval_zero_sum, sum_smul]

theorem sum_shares (hi : i ∈ s.ids) :
    (s.shares i).values.foldl (· + ·) (s.kept i).ownPartialShare = s.sum.eval (i : C.FieldEl) := by
  have hfoldl : ∀ (l : List C.FieldEl) (a : C.FieldEl), l.foldl (· + ·) a = (a :: l).sum := by
    intro l a
    rw [List.sum_eq_foldl, List.foldl_cons, zero_add]
  rw [hfoldl, List.sum_cons, shares, HMap.values_mapVal_keys, HMap.sum_map_keys (s.mem_inputY hi)]
  show s.yii i + _ = _
  rw [s.yii_eq hi, add_sum_erase _ (fun k => (s.poly k).eval (i : C.FieldEl)) hi, eval_sum]

/-- Round 2 of an honest session is the verdict on the shares; the values it then returns do not
depend on the verdict, on the build or on the order of the stored maps. -/
theorem round2_eq [C.PrimeOrder] [C.TotalEncodings] [R.Lossless] (prof : Profile) (hi : i ∈ s.ids) :
    (s.kept i).dkgRound2 prof (s.network i) (s.inputY i) (s.inputV i) =
      (verifyShares dkgStep prof i (s.shares i) (s.inputV i) >>= fun _ =>
        .ok (s.sum.eval (i : C.FieldEl), s.sum.eval (i : C.FieldEl) • C.basePointOrGenerator,
          s.sum.eval 0 • C.basePointOrGenerator)) := by
  have hlens : (s.inputV i).len = (s.network i).totalNodes - 1 ∧ (s.inputY i).len = (s.network i).totalNodes - 1 := by
    rw [HMap.len_eq_card (s.mem_inputV hi), HMap.len_eq_card (s.mem_inputY hi), card_erase_of_mem hi,
      (s.network_params i hi).2]
    exact ⟨rfl, rfl⟩
  have hchecks : ((s.inputV i).values.forM fun j =>
      check (j.length = (s.network i).threshold) "dkg round 2 inputs not correct" : Outcome DKGError PUnit) =
      .ok ⟨⟩ := by
    rw [forM_eq_ok]
    intro v hv
    obtain ⟨⟨k, v⟩, he, rfl⟩ := List.mem_map.1 hv
    have hk := HMap.get?_eq_some.2 he
    rw [s.inputV_stored i hi] at hk
    split at hk
    next hmem =>
      obtain rfl := Option.some.inj hk
      rw [check_eq_ok, s.length_v (mem_of_mem_erase hmem), (s.network_params i hi).1]
    next => cases hk
  obtain ⟨b, hb, -⟩ := Curve.TotalEncodings.encodes (s.sum.eval 0 • C.basePointOrGenerator)
  have hid : (s.kept i).id = i := s.node_id i hi
  unfold Node.dkgRound2
  rw [check_of hlens, bind_ok, hchecks, bind_ok]
  show decryptShares dkgStep C (s.node i).rsaSeckey (s.inputY i) >>= _ = _
  rw [s.decryptShares_eq hi, bind_ok, hid]
  congr 1
  funext _
  simp only [s.sumFreeTerms_eq hi, bind_ok, hb, unwrap, s.sum_shares hi, C.scalarMul_eq_smul, pure_eq_ok]

/-- Small ids: as long as the powers of the ids fit in a `u128`, no honest share is refused. -/
theorem round2_of_fits [C.PrimeOrder] [C.TotalEncodings] [R.Lossless] (prof : Profile) (hi : i ∈ s.ids)
    (hfits : i ^ (s.threshold - 1) < 2 ^ 128) :
    (s.kept i).dkgRound2 prof (s.network i) (s.inputY i) (s.inputV i) =
      .ok (s.sum.eval (i : C.FieldEl), s.sum.eval (i : C.FieldEl) • C.basePointOrGenerator,
        s.sum.eval 0 • C.basePointOrGenerator) := by
  have hverify : verifyShares dkgStep prof i (s.shares i) (s.inputV i) = .ok ⟨⟩ := by
    rw [verifyShares_ok]
    intro k share hk
    have hmem : k ∈ s.ids.erase i := by
      rw [← s.mem_inputY hi, ← HMap.keys_mapVal (fun k _ => (s.poly k).eval (i : C.FieldEl))]
      exact HMap.mem_keys_of_mem (HMap.get?_eq_some.1 hk)
    have hkids := mem_of_mem_erase hmem
    rw [shares, HMap.get?_mapVal, Option.map_eq_some_iff] at hk
    obtain ⟨_, _, rfl⟩ := hk
    refine ⟨s.v k, by rw [s.inputV_stored i hi, if_pos hmem], ?_⟩
    have hne : s.v k ≠ [] := List.length_pos_iff.1 (s.length_v hkids ▸ s.threshold_pos)
    rw [verifyVss_accepts_iff C prof hne (by rwa [s.length_v hkids]), s.v_eq hkids]
    exact feldmanEquation_of_dealt C _ i
  rw [s.round2_eq prof hi, hverify, bind_ok]

theorem round3_ok [C.PrimeOrder] (hi : i ∈ s.ids) {self : Node R C} {Kj : HMap ℕ C.Point}
    (hself : self.networkPubkey = s.sum.eval 0 • C.basePointOrGenerator)
    (hKj : ∀ j, Kj.get? j =
      if j ∈ s.ids then some (s.sum.eval (j : C.FieldEl) • C.basePointOrGenerator) else none) :
    self.dkgRound3 (s.network i) Kj = .ok (s.sum.eval 0 • C.basePointOrGenerator) := by
  have hkeys : ∀ k, k ∈ Kj.keys ↔ k ∈ s.ids := by
    intro k
    rw [← HMap.get?_isSome, hKj]
    split <;> simp_all
  have hlen : Kj.len = (s.network i).totalNodes := by
    rw [HMap.len_eq_card hkeys, (s.network_params i hi).2]
  have hinterp : interpolateKeys dkgStep (s.network i) Kj = .ok (s.sum.eval 0 • C.basePointOrGenerator) := by
    refine interpolateKeys_eq_ok _ (fun k hk => s.ids_valid k ((s.mem_publicKeys hi k).1 hk)) ?_ fun k hk => ?_
    · rw [HMap.len_eq_card (s.mem_publicKeys hi)]
      exact s.degree_sum_lt.trans (by exact_mod_cast s.threshold_lt)
    · rw [hKj, if_pos ((s.mem_publicKeys hi k).1 hk)]
  unfold Node.dkgRound3
  rw [check_of hlen, bind_ok, hinterp, bind_ok, check_of hself.symm, bind_ok, pure_eq_ok]

end DkgSession

/-! ### A session with boxes -/

def boxNode (C : Curve) (i : ℕ) : Node boxRsa C where
  id := i
  rsaPubkey := i
  rsaSeckey := i
  initPubShare := 0
  privateShare := 0
  networkPubkey := 0
  ownPartialShare := 0

theorem boxNode_id (C : Curve) (ids : List ℕ) : ∀ i ∈ ids.toFinset, (boxNode C i).id = i := fun _ _ => rfl

def boxNetwork (ids : List ℕ) (hnd : ids.Nodup) (t : ℕ) (ht : 0 < t ∧ t ≤ ids.length) : Network boxRsa where
  threshold := t
  totalNodes := ids.length
  publicKeys := HMap.ofKeys ids hnd id
  threshold_pos := ht.1
  threshold_le := ht.2

theorem boxNetwork_get? {ids : List ℕ} (hnd : ids.Nodup) {t : ℕ} (ht : 0 < t ∧ t ≤ ids.length) (j : ℕ) :
    (boxNetwork ids hnd t ht).publicKeys.get? j = if j ∈ ids then some j else none :=
  HMap.get?_ofKeys hnd id j

theorem threeIds_nodup : [1, 2, 3].Nodup := by decide

theorem threeIds_admitted : 0 < 2 ∧ 2 < [1, 2, 3].length ∧ 2 < [1, 2, 3].length := by decide

theorem threeIds_valid : ∀ i ∈ [1, 2, 3], 0 < i ∧ i < 2 ^ 32 := by decide

def boxSetup (C : Curve) (ids : List ℕ) (hnd : ids.Nodup) (t : ℕ) (ht : 0 < t ∧ t < ids.length ∧ 2 < ids.length) :
    DkgSetup boxRsa C where
  ids := ids.toFinset
  threshold := t
  admitted := by
    rw [List.toFinset_card_of_nodup hnd]
    have hvalid : ¬ Network.invalid t ids.length false = true := by
      simp [Network.invalid]; omega
    exact ⟨_, dif_neg hvalid⟩
  node := boxNode C
  node_id := boxNode_id C ids
  network _ := boxNetwork ids hnd t ⟨ht.1, ht.2.1.le⟩
  network_params _ _ := ⟨rfl, (List.toFinset_card_of_nodup hnd).symm⟩
  network_keys _ _ j := by
    rw [boxNetwork_get?]
    simp [boxNode]

theorem boxSetup_round1 {C : Curve} {ids : List ℕ} (hnd : ids.Nodup) {t : ℕ}
    (ht : 0 < t ∧ t < ids.length ∧ 2 < ids.length) {j : ℕ} (hj : j ∈ ids) (rng : ℕ → C.FieldEl) (coins : ℕ → UInt8) :
    (boxNode C j).dkgRound1 ((boxSetup C ids hnd t ht).network j) rng coins =
      .ok ((((boxSetup C ids hnd t ht).network j).publicKeys.remove j).mapVal
          (fun i (pk : ℕ) => Bytes.toBe 16 pk ++ coins i ::
            C.id.toRepr ((dkgPoly ((boxSetup C ids hnd t ht).network j) rng).toPolynomial.eval (i : C.FieldEl))),
        feldmanCommitments C (dkgPoly ((boxSetup C ids hnd t ht).network j) rng),
        (dkgPoly ((boxSetup C ids hnd t ht).network j) rng).toPolynomial.eval (j : C.FieldEl)) := by
  have hself : (boxNode C j).id ∈ ((boxSetup C ids hnd t ht).network j).publicKeys.keys := by
    show j ∈ (boxNetwork ids hnd t ⟨ht.1, ht.2.1.le⟩).publicKeys.keys
    rw [← HMap.get?_isSome, boxNetwork_get?, if_pos hj]
    rfl
  exact Node.dkgRound1_eq (fun _ _ _ => rfl) hself

noncomputable def boxSession (C : Curve) (ids : List ℕ) (hnd : ids.Nodup) (t : ℕ)
    (ht : 0 < t ∧ t < ids.length ∧ 2 < ids.length) (hvalid : ∀ i ∈ ids, 0 < i ∧ i < 2 ^ 32)
    (rng : ℕ → ℕ → C.FieldEl) : DkgSession boxRsa C :=
  let network := boxNetwork ids hnd t ⟨ht.1, ht.2.1.le⟩
  let share (j i : ℕ) : C.FieldEl := (dkgPoly network (rng j)).toPolynomial.eval (i : C.FieldEl)
  { boxSetup C ids hnd t ht with
    ids_valid := fun i hi => hvalid i (List.mem_toFinset.1 hi)
    rng := rng
    coins := fun _ _ => (0 : UInt8)
    yCt := fun j => (network.publicKeys.remove j).mapVal fun i pk =>
      Bytes.toBe 16 pk ++ (0 : UInt8) :: C.id.toRepr (share j i)
    v := fun j => feldmanCommitments C (dkgPoly network (rng j))
    yii := fun j => share j j
    round1 := fun j hj => boxSetup_round1 hnd ht (List.mem_toFinset.1 hj) (rng j) fun _ => 0
    inputY := fun i => HMap.ofKeys (ids.erase i) (hnd.erase i) fun j =>
      Bytes.toBe 16 i ++ (0 : UInt8) :: C.id.toRepr (share j i)
    inputY_stored := fun i hi j => by
      have hi' : i ∈ ids := List.mem_toFinset.1 hi
      rw [HMap.get?_ofKeys, HMap.get?_mapVal, HMap.get?_remove, boxNetwork_get?, if_pos hi']
      by_cases hji : j = i
      · simp [boxSetup, hji, hnd.mem_erase_iff]
      · simp [boxSetup, hnd.mem_erase_iff, hji, Ne.symm hji]
    inputV := fun i => HMap.ofKeys (ids.erase i) (hnd.erase i) fun j => feldmanCommitments C (dkgPoly network (rng j))
    inputV_stored := fun i hi j => by
      rw [HMap.get?_ofKeys]
      simp [boxSetup, hnd.mem_erase_iff] }

/-! ### Correctness -/

/-- Honest key generation: whenever every node's round 2 returns, all nodes hold the group key of the
sum of the free terms, their shares are the values of one polynomial of degree below the threshold
with that secret, round 3 succeeds everywhere, and the shares of any `threshold` nodes interpolate to
the secret. -/
theorem dkg_correct [C.PrimeOrder] [C.TotalEncodings] [R.Lossless] (prof : Profile) (s : DkgSession R C)
    {ki : ℕ → C.FieldEl} {Ki K : ℕ → C.Point}
    (hround2 : ∀ i ∈ s.ids, (s.kept i).dkgRound2 prof (s.network i) (s.inputY i) (s.inputV i) =
      .ok (ki i, Ki i, K i)) :
    ∃ F : Polynomial C.FieldEl, F.degree < s.threshold ∧
      (∀ i ∈ s.ids, K i = C.scalarMul C.basePointOrGenerator (∑ j ∈ s.ids, s.rng j 0) ∧
        K i = C.scalarMul C.basePointOrGenerator (F.eval 0) ∧ ki i = F.eval (i : C.FieldEl)) ∧
      (∀ Kj : HMap ℕ C.Point, (∀ j, Kj.get? j = if j ∈ s.ids then some (Ki j) else none) → ∀ i ∈ s.ids,
        ({ s.kept i with privateShare := ki i, networkPubkey := K i } : Node R C).dkgRound3 (s.network i) Kj =
          .ok (K i)) ∧
      ∀ l : List ℕ, l.Nodup → (∀ i ∈ l, i ∈ s.ids) → s.threshold ≤ l.length →
        (interpolateAt0 l ki : Outcome DKGError C.FieldEl) = .ok (F.eval 0) := by
  have hvalues : ∀ i ∈ s.ids, ki i = s.sum.eval (i : C.FieldEl) ∧
      Ki i = s.sum.eval (i : C.FieldEl) • C.basePointOrGenerator ∧
      K i = s.sum.eval 0 • C.basePointOrGenerator := by
    intro i hi
    have h := hround2 i hi
    rw [s.round2_eq prof hi, bind_eq_ok] at h
    obtain ⟨_, _, h⟩ := h
    simp only [Except.ok.injEq, Prod.mk.injEq] at h
    exact ⟨h.1.symm, h.2.1.symm, h.2.2.symm⟩
  refine ⟨s.sum, s.degree_sum_lt, fun i hi => ⟨?_, ?_, (hvalues i hi).1⟩, fun Kj hKj i hi => ?_,
    fun l hnd hl hlen => ?_⟩
  · rw [C.scalarMul_eq_smul, ← s.eval_zero_sum, (hvalues i hi).2.2]
  · rw [C.scalarMul_eq_smul, (hvalues i hi).2.2]
  · rw [(hvalues i hi).2.2]
    refine s.round3_ok hi rfl fun j => ?_
    rw [hKj]
    split
    next hj => rw [(hvalues j hj).2.1]
    next => rfl
  · exact interpolateAt0_eq_ok hnd (fun k hk => s.ids_valid k (hl k hk))
      (s.degree_sum_lt.trans_le (by exact_mod_cast hlen)) fun k hk => (hvalues k (hl k hk)).1

noncomputable def threeNodes : DkgSession boxRsa (scalarCurve .secp256k1) :=
  boxSession _ [1, 2, 3] threeIds_nodup 2 threeIds_admitted threeIds_valid fun i k => ((i + k : ℕ) : CurveId.Scalar .secp256k1)

theorem dkg_correct_threeNodes :
    ∃ F : Polynomial (scalarCurve .secp256k1).FieldEl, F.degree < (2 : ℕ) ∧
      (interpolateAt0 [3, 1] (fun i => threeNodes.sum.eval (i : (scalarCurve .secp256k1).FieldEl)) :
        Outcome DKGError _) = .ok (F.eval 0) := by
  have hfits : ∀ i ∈ threeNodes.ids, i ^ (threeNodes.threshold - 1) < 2 ^ 128 := by
    show ∀ i ∈ [1, 2, 3].toFinset, i ^ (2 - 1) < 2 ^ 128
    decide
  obtain ⟨F, hdeg, -, -, hF⟩ := dkg_correct .release threeNodes
    fun i hi => threeNodes.round2_of_fits .release hi (hfits i hi)
  exact ⟨F, hdeg, hF [3, 1] (by decide) (by show ∀ i ∈ [3, 1], i ∈ [1, 2, 3].toFinset; decide) le_rfl⟩

end HumanNetwork
