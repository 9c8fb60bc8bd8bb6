import HumanNetwork.RelayIntegrity

/-!
# Results for subscribers

A client that asks for a multiplication waits on a channel, and its entry in `pubsub_cache` says so. The message of a
prover that completes the request publishes the reconstructed point there and removes the entry, so the publications
for a request id and the entry that waits are never more than the requests with this id (`publications_add_waiting_le`).
Requests with fresh ids get one result at most.
-/

namespace HumanNetwork
open Outcome Polynomial

variable {env : RelayEnv}

def Effect.publish? : Effect env → Option (String × NodeResponse env)
  | .publish requestId response => some (requestId, response)
  | _ => none

/-- The response for the bytes of a reconstructed point, by the curve of the collection. -/
inductive PointResponse (env : RelayEnv) (requestId : String) (b : Bytes) : CurveId → NodeResponse env → Prop
  | secp256k1 {P : (env.curve .secp256k1).Point} (read : (env.curve .secp256k1).fromEncoded b = .ok P) :
      PointResponse env requestId b .secp256k1 (.verifiedProofSecp256k1 requestId P)
  | babyJubJub {greatest : Bool} {y : Bytes} (read : CurveId.readCompressed .babyJubJub b = some (greatest, y)) :
      PointResponse env requestId b .babyJubJub (.verifiedProofBabyJubJub requestId greatest y)

/-- The request is verified, and the response is the point that has been interpolated from its collection, provided
that the collection is of a known curve. -/
structure Reconstructs (env : RelayEnv) (c : CurveId) (requestId : String) (s : Relay) (response : NodeResponse env) :
    Prop where
  status : ∃ data, s.reqCache.get? requestId = some data ∧ data.status = .verified
  point : ∃ r b, s.resCache.get? requestId = some r ∧ r.reconstructedPoint = some b ∧ Interpolates env c r b ∧
    ∀ curve : CurveId, r.curve = curve.name → PointResponse env requestId b curve response

/-- What a message of a prover publishes: nothing, or one response to a client that waits. -/
inductive Publishes (env : RelayEnv) (c : CurveId) (requestId : String) (s s' : Relay) (effects : List (Effect env)) : Prop
  | none (kept : s'.pubsubCache = s.pubsubCache) (published : effects.filterMap Effect.publish? = [])
  | result (response : NodeResponse env) (waits : s.pubsubCache.containsKey requestId = true)
      (removed : s'.pubsubCache = s.pubsubCache.remove requestId)
      (published : effects.filterMap Effect.publish? = [(requestId, response)])
      (reconstructs : Reconstructs env c requestId s' response)

/-! ### One message -/

theorem fetchReconstructedPointV2_point {data : RequestRecord} {r : StoredMultResult} {requestId : String} {b : Bytes}
    {response : NodeResponse env} (hstatus : data.status = .verified) (hb : r.reconstructedPoint = some b)
    (h : fetchReconstructedPointV2 env data r requestId = .ok response) {curve : CurveId} (hcurve : r.curve = curve.name) :
    PointResponse env requestId b curve response := by
  have hne : CurveId.name .babyJubJub ≠ CurveId.name .secp256k1 := by decide
  simp only [fetchReconstructedPointV2, hstatus, if_true, hb, hcurve] at h
  cases curve with
  | secp256k1 =>
    simp only [if_true, bind_eq_ok, unwrap_eq_ok, pure_eq_ok, Except.ok.injEq] at h
    obtain ⟨_, hread, P, rfl, rfl⟩ := h
    exact .secp256k1 (toOption_eq_some.1 hread)
  | babyJubJub =>
    simp only [hne, if_false, if_true, bind_eq_ok, unwrap_eq_ok, pure_eq_ok, Except.ok.injEq] at h
    obtain ⟨⟨greatest, y⟩, hread, rfl⟩ := h
    exact .babyJubJub hread

theorem fetchReconstructedPointV2_secp256k1 {data : RequestRecord} {r : StoredMultResult} {requestId : String} {b : Bytes}
    {P : (env.curve .secp256k1).Point} (hstatus : data.status = .verified) (hb : r.reconstructedPoint = some b)
    (hcurve : r.curve = CurveId.name .secp256k1) (hread : (env.curve .secp256k1).fromEncoded b = .ok P) :
    fetchReconstructedPointV2 env data r requestId = .ok (.verifiedProofSecp256k1 requestId P) := by
  simp only [fetchReconstructedPointV2, hstatus, if_true, hb, hcurve, toOption_eq_some.2 hread, bind_ok, unwrap, pure_eq_ok]

theorem initiateBatch_publishes_nothing (requestHash : String) (redis : RedisReply) (s : Relay) :
    (initiateBatch env requestHash redis s).2.filterMap Effect.publish? = [] := by
  unfold initiateBatch processBatch
  split
  · rfl
  · rw [List.filterMap_map]
    exact List.filterMap_eq_nil_iff.2 fun _ _ => rfl

theorem Publishes.of_pubsubCache_eq {c : CurveId} {requestId : String} {s mid s' : Relay} {effects : List (Effect env)}
    (h : Publishes env c requestId mid s' effects) (hmid : mid.pubsubCache = s.pubsubCache) :
    Publishes env c requestId s s' effects := by
  cases h with
  | none kept published => exact .none (kept.trans hmid) published
  | result response waits removed published reconstructs =>
    rw [hmid] at waits removed
    exact .result response waits removed published reconstructs

theorem processVerification_publishes {c : CurveId} {self : StoredMultResult} {data : RequestRecord}
    {requestId requestHash : String} {redis : RedisReply} {s s' : Relay} {effects : List (Effect env)}
    (h : self.processVerification env c data requestId requestHash redis s = .ok (s', effects)) :
    Publishes env c requestId s s' effects := by
  unfold StoredMultResult.processVerification at h
  split at h
  case isFalse =>
    obtain ⟨rfl, rfl⟩ := Prod.mk.inj (Except.ok.inj h)
    exact .none rfl rfl
  rw [bind_eq_ok] at h
  obtain ⟨points, hpoints, h⟩ := h
  cases points with
  | none =>
    obtain ⟨rfl, rfl⟩ := Prod.mk.inj (Except.ok.inj h)
    exact .none rfl rfl
  | some points =>
    rw [toOption_eq_some] at hpoints
    simp only [bind_eq_ok, unwrap_eq_ok] at h
    obtain ⟨point, hpoint, b, hb, ⟨mid, published⟩, hmid, h⟩ := h
    obtain ⟨rfl, rfl⟩ := Prod.mk.inj (Except.ok.inj h)
    obtain ⟨batchCache, entries, hbatch⟩ := initiateBatch_eq env requestHash redis mid
    dsimp only at hbatch ⊢
    rw [hbatch]
    unfold publishReconstructed at hmid
    split at hmid
    case isFalse =>
      obtain ⟨rfl, rfl⟩ := Prod.mk.inj (Except.ok.inj hmid)
      exact .none rfl (by rw [List.nil_append, initiateBatch_publishes_nothing])
    next hwaits =>
    obtain ⟨response, hresponse, hmid⟩ := bind_eq_ok.1 hmid
    obtain ⟨rfl, rfl⟩ := Prod.mk.inj (Except.ok.inj hmid)
    refine .result response hwaits rfl ?_ ⟨⟨_, HMap.get?_insert_self _ _ _, rfl⟩, _, b, HMap.get?_insert_self _ _ _, rfl, ?_, ?_⟩
    · rw [List.filterMap_append, initiateBatch_publishes_nothing, List.append_nil]
      rfl
    · exact ⟨points, point, hpoints, hpoint, hb⟩
    · intro curve hcurve
      exact fetchReconstructedPointV2_point rfl rfl hresponse hcurve

theorem storeProof_publishes {c : CurveId} {collection : StoredMultResult} {data : RequestRecord} {requestId : String}
    {proof : DLEQProof (env.curve c)} {K P : (env.curve c).Point} {peerId : PeerId} {redis : RedisReply} {s s' : Relay}
    {effects : List (Effect env)}
    (h : storeProof env c collection data requestId proof K P peerId redis s = .ok (s', effects)) :
    Publishes env c requestId s s' effects := by
  unfold storeProof at h
  split at h
  case h_2 =>
    obtain ⟨rfl, rfl⟩ := Prod.mk.inj (Except.ok.inj h)
    exact .none rfl rfl
  split at h
  case h_2 =>
    obtain ⟨rfl, rfl⟩ := Prod.mk.inj (Except.ok.inj h)
    exact .none rfl rfl
  dsimp only at h
  split at h
  · obtain ⟨rfl, rfl⟩ := Prod.mk.inj (Except.ok.inj h)
    exact .none rfl rfl
  split at h
  · obtain ⟨rfl, rfl⟩ := Prod.mk.inj (Except.ok.inj h)
    exact .none rfl rfl
  simp only [bind_eq_ok] at h
  obtain ⟨encodedKey, -, encodedPoint, -, h⟩ := h
  split at h
  · obtain ⟨rfl, rfl⟩ := Prod.mk.inj (Except.ok.inj h)
    exact .none rfl rfl
  · exact (processVerification_publishes h).of_pubsubCache_eq rfl

theorem processReceivedProof_publishes {c : CurveId} {s s' : Relay} {nodeIdx : ℕ} {peerId : PeerId} {requestId : String}
    {proof : DLEQProof (env.curve c)} {method : Method} {redis : RedisReply} {effects : List (Effect env)}
    (h : processReceivedProof env c s nodeIdx peerId requestId proof method redis = .ok (s', effects)) :
    Publishes env c requestId s s' effects := by
  have hignored : (Except.ok (s, []) : Outcome Empty (Relay × List (Effect env))) = .ok (s', effects) →
      Publishes env c requestId s s' effects := by
    intro h
    obtain ⟨rfl, rfl⟩ := Prod.mk.inj (Except.ok.inj h)
    exact .none rfl rfl
  unfold processReceivedProof at h
  split at h
  case h_2 => exact hignored h
  split at h
  case h_2 => exact hignored h
  split at h
  case h_2 => exact hignored h
  obtain ⟨_, -, h⟩ := bind_eq_ok.1 h
  split at h
  case h_2 => exact hignored h
  obtain ⟨_, -, h⟩ := bind_eq_ok.1 h
  split at h
  case h_2 => exact hignored h
  obtain ⟨_, -, h⟩ := bind_eq_ok.1 h
  split at h
  case h_2 => exact hignored h
  obtain ⟨b, -, h⟩ := bind_eq_ok.1 h
  exact (storeProof_publishes h).of_pubsubCache_eq rfl

/-! ### Runs -/

abbrev Traced (env : RelayEnv) := Event env × List (Effect env)

def Relay.TracedStep (env : RelayEnv) (s : Relay) (e : Traced env) (s' : Relay) : Prop := handle env s e.1 = .ok (s', e.2)

def Event.requestId? : Event env → Option String
  | .mulRequest _ requestId _ => some requestId
  | _ => none

def Event.isProof : Event env → Bool
  | .processReceivedProof .. => true
  | _ => false

def requestIds (trace : List (Traced env)) : List String := trace.filterMap fun e => e.1.requestId?

def proofPublications (trace : List (Traced env)) : List (String × NodeResponse env) :=
  trace.flatMap fun e => if e.1.isProof then e.2.filterMap Effect.publish? else []

def publishedTo (id : String) (trace : List (Traced env)) : ℕ := (proofPublications trace).countP fun p => p.1 = id

def Relay.waiting (s : Relay) (id : String) : ℕ := if s.pubsubCache.containsKey id then 1 else 0

theorem waiting_insert_le (s : Relay) (requestId id : String) :
    (if (s.pubsubCache.insert requestId ()).containsKey id then 1 else 0) ≤
      s.waiting id + [requestId].count id := by
  unfold Relay.waiting
  by_cases hid : id = requestId
  · subst hid
    rw [List.count_singleton_self]
    split <;> omega
  · have : (s.pubsubCache.insert requestId ()).containsKey id = s.pubsubCache.containsKey id := by
      rw [HMap.containsKey, HMap.get?_insert_of_ne _ _ hid, HMap.containsKey]
    rw [this]
    omega

theorem waiting_remove (s : Relay) (requestId id : String) :
    (if (s.pubsubCache.remove requestId).containsKey id then 1 else 0) =
      if id = requestId then 0 else s.waiting id := by
  unfold Relay.waiting
  rw [HMap.containsKey, HMap.get?_remove]
  split <;> rfl

theorem publishedTo_append (id : String) (trace trace' : List (Traced env)) :
    publishedTo id (trace ++ trace') = publishedTo id trace + publishedTo id trace' := by
  rw [publishedTo, proofPublications, List.flatMap_append, List.countP_append]
  rfl

theorem publishedTo_singleton_proof (id : String) {e : Event env} {effects : List (Effect env)} (he : e.isProof = true) :
    publishedTo id [(e, effects)] = (effects.filterMap Effect.publish?).countP fun p => p.1 = id := by
  rw [publishedTo, proofPublications, List.flatMap_singleton, if_pos he]

theorem publishedTo_singleton_other (id : String) {e : Event env} {effects : List (Effect env)} (he : e.isProof = false) :
    publishedTo id [(e, effects)] = 0 := by
  rw [publishedTo, proofPublications, List.flatMap_singleton, he]
  rfl

/-- The messages that are neither requests nor proofs, and expiry apart, leave the channels alone. -/
theorem pubsubCache_of_handle {s s' : Relay} {e : Event env} {effects : List (Effect env)}
    (h : handle env s e = .ok (s', effects)) (hproof : e.isProof = false) (hrequest : e.requestId? = none) :
    s'.pubsubCache = s.pubsubCache ∨ ∃ key, s'.pubsubCache = s.pubsubCache.remove key := by
  cases e with
  | processReceivedProof c nodeIdx peerId requestId proof method redis => cases hproof
  | mulRequest request requestId reply => cases hrequest
  | expire cache key =>
    obtain ⟨rfl, -⟩ := Prod.mk.inj (Except.ok.inj h)
    cases cache with
    | pubsub => exact .inr ⟨key, rfl⟩
    | _ => exact .inl rfl
  | storeKSet peerId shares idx keys =>
    obtain ⟨rfl, -⟩ := Prod.mk.inj (Except.ok.inj h)
    rw [storeKset_eq]
    split <;> exact .inl rfl
  | resharingStoreKSet peerId shares idx =>
    obtain ⟨rfl, -⟩ := Prod.mk.inj (Except.ok.inj h)
    rw [storeResharingKset_eq]
    split <;> exact .inl rfl
  | updateElectedProvers provers isCacheProver =>
    obtain ⟨rfl, -⟩ := Prod.mk.inj (Except.ok.inj h)
    obtain ⟨cached, active, heq⟩ := updateElectedProvers_eq s provers isCacheProver
    rw [heq]
    exact .inl rfl
  | _ =>
    obtain ⟨rfl, -⟩ := Prod.mk.inj (Except.ok.inj h)
    exact .inl rfl

/-- A message publishes to a client that waits and makes it wait no longer, and only a request makes one wait. -/
theorem Relay.TracedStep.balance {s s' : Relay} {e : Traced env} (h : Relay.TracedStep env s e s') (id : String) :
    publishedTo id [e] + s'.waiting id ≤ s.waiting id + (requestIds [e]).count id := by
  obtain ⟨e, effects⟩ := e
  change handle env s e = .ok (s', effects) at h
  by_cases hproof : e.isProof = true
  · rw [publishedTo_singleton_proof id hproof]
    cases e with
    | processReceivedProof c nodeIdx peerId requestId proof method redis =>
      cases processReceivedProof_publishes h with
      | none kept published =>
        rw [published, Relay.waiting, kept]
        exact Nat.le_add_right_of_le (Nat.zero_add _).le
      | result response waits removed published _ =>
        rw [published, Relay.waiting, removed, waiting_remove]
        by_cases hid : id = requestId
        · subst hid
          rw [if_pos rfl, List.countP_singleton, if_pos (decide_eq_true rfl), Relay.waiting, if_pos waits]
          exact Nat.le_add_right _ _
        · rw [if_neg hid, List.countP_singleton, if_neg (by simpa using Ne.symm hid), Nat.zero_add]
          exact Nat.le_add_right _ _
    | _ => cases hproof
  rw [Bool.not_eq_true] at hproof
  rw [publishedTo_singleton_other id hproof, Nat.zero_add]
  cases hrequest : e.requestId? with
  | none =>
    rcases pubsubCache_of_handle h hproof hrequest with hsame | ⟨key, hremoved⟩
    · rw [Relay.waiting, hsame]
      exact Nat.le_add_right _ _
    · rw [Relay.waiting, hremoved, waiting_remove]
      split <;> omega
  | some requestId =>
    cases e with
    | mulRequest request requestId' reply =>
      obtain rfl : requestId' = requestId := Option.some.inj hrequest
      obtain ⟨reqCache, effect, -, -, heq⟩ := handleMultiplicationRequest_cases env s request requestId' reply
      obtain ⟨rfl, -⟩ := Prod.mk.inj (heq.symm.trans (Except.ok.inj h))
      exact waiting_insert_le s requestId' id
    | _ => cases hrequest

/-- The results published for an id and the client that waits for it are at most the requests with this id. -/
theorem publications_add_waiting_le {s s' : Relay} {trace : List (Traced env)} (h : Run (Relay.TracedStep env) s trace s')
    (id : String) : publishedTo id trace + s'.waiting id ≤ s.waiting id + (requestIds trace).count id := by
  induction trace generalizing s with
  | nil =>
    obtain rfl := h
    exact (Nat.zero_add _).le
  | cons e trace ih =>
    obtain ⟨mid, hstep, hrun⟩ := h
    have hfirst := hstep.balance id
    have hrest := ih hrun
    have hids : requestIds (e :: trace) = requestIds [e] ++ requestIds trace := List.filterMap_append (l := [e])
    rw [← List.singleton_append, publishedTo_append, List.singleton_append, hids, List.count_append]
    omega

/-! ### The curves of collections -/

def Relay.CurvesKnown (s : Relay) : Prop := ∀ id r, s.resCache.get? id = some r → ∃ c : CurveId, r.curve = c.name

theorem Relay.CurvesKnown.step {s s' : Relay} {e : Event env} (h : s.CurvesKnown) (hstep : Relay.Step env s e s') :
    s'.CurvesKnown := by
  rcases hstep.cases with ⟨c, nodeIdx, peerId, requestId, proof, method, redis, -, -, P, out, b, res, -, -, hres, hcache⟩ | ⟨hcache, -⟩
  · intro id r hr
    rw [hcache] at hr
    split at hr
    · obtain rfl := Option.some.inj hr
      have hcurve : res.curve = (s.collection c requestId).curve := by
        rcases hres with rfl | ⟨-, _, _, _, -, -, -, rfl⟩ <;> rfl
      rw [hcurve, Relay.collection]
      cases hold : s.resCache.get? requestId with
      | none => exact ⟨c, rfl⟩
      | some r => exact h requestId r hold
    · exact h id r hr
  · exact fun id r hr => h id r (hcache id r hr)

theorem Relay.CurvesKnown.run {s s' : Relay} {trace : List (Traced env)} (h : s.CurvesKnown)
    (hrun : Run (Relay.TracedStep env) s trace s') : s'.CurvesKnown :=
  hrun.invariant h fun hs hstep => hs.step ⟨_, hstep⟩

/-- Provers' messages publish one result at most for a request with a fresh id, and what they publish is the point
that the message has reconstructed for the request, which is verified by it. -/
theorem published_at_most_once (env : RelayEnv) (s₀ s : Relay) (trace : List (Traced env))
    (hpubsub : s₀.pubsubCache = ∅) (hres : s₀.resCache = ∅) (hrun : Run (Relay.TracedStep env) s₀ trace s)
    (hfresh : (requestIds trace).Nodup) :
    (∀ id, publishedTo id trace ≤ 1) ∧
      ∀ c nodeIdx peerId requestId proof method redis effects s',
        Relay.TracedStep env s (.processReceivedProof c nodeIdx peerId requestId proof method redis, effects) s' →
        ∀ id response, .publish id response ∈ effects → id = requestId ∧
          (∃ data, s'.reqCache.get? id = some data ∧ data.status = .verified) ∧
          ∃ r b curve, s'.resCache.get? id = some r ∧ r.reconstructedPoint = some b ∧ Interpolates env c r b ∧
            r.curve = CurveId.name curve ∧ PointResponse env id b curve response := by
  have hcurves : s₀.CurvesKnown := by
    intro id r hr
    rw [hres, HMap.get?_empty] at hr
    cases hr
  constructor
  · intro id
    have hbalance := publications_add_waiting_le hrun id
    have hstart : s₀.waiting id = 0 := by rw [Relay.waiting, hpubsub]; rfl
    have := List.nodup_iff_count_le_one.1 hfresh id
    omega
  · intro c nodeIdx peerId requestId proof method redis effects s' hstep id response hmem
    have hmem' : (id, response) ∈ effects.filterMap Effect.publish? := List.mem_filterMap.2 ⟨_, hmem, rfl⟩
    cases processReceivedProof_publishes hstep with
    | none _ published =>
      rw [published] at hmem'
      cases hmem'
    | result response' _ _ published reconstructs =>
      rw [published, List.mem_singleton] at hmem'
      obtain ⟨rfl, rfl⟩ := Prod.mk.inj hmem'
      obtain ⟨r, b, hr, hb, hinterpolates, hresponse⟩ := reconstructs.point
      obtain ⟨curve, hcurve⟩ := (hcurves.run hrun).step ⟨effects, hstep⟩ id r hr
      exact ⟨rfl, reconstructs.status, r, b, curve, hr, hb, hinterpolates, hcurve, hresponse curve hcurve⟩

/-! ### A client that waits -/

theorem processVerification_result {c : CurveId} {self : StoredMultResult} {data : RequestRecord}
    {requestId requestHash : String} {redis : RedisReply} {s : Relay} {points : List (env.curve c).Point}
    {point : (env.curve c).Point} {b : Bytes} {response : NodeResponse env} (ht : s.t ≤ self.numNodes)
    (hpoints : (self.mulResults.mapM fun e => (env.curve c).fromEncoded e.2) = .ok points)
    (hpoint : (thresholdUnchecked points (self.mulResults.map Prod.fst) : Outcome Empty _) = .ok point)
    (hb : (env.curve c).encode point = some b) (hwaits : s.pubsubCache.containsKey requestId = true)
    (hresponse : fetchReconstructedPointV2 env { data with status := .verified }
      { self with reconstructedPoint := some b } requestId = .ok response) :
    ∃ s' effects, self.processVerification env c data requestId requestHash redis s = .ok (s', effects) ∧
      .publish requestId response ∈ effects := by
  unfold StoredMultResult.processVerification publishReconstructed
  rw [if_pos ht, toOption_eq_some.2 hpoints, bind_ok]
  dsimp only
  rw [hpoint, bind_ok, hb, unwrap, bind_ok, if_pos hwaits, hresponse, bind_ok]
  exact ⟨_, _, rfl, List.mem_append_left _ List.mem_cons_self⟩

/-- The relay of three provers, where one product is enough and nobody has asked yet. -/
def idleRelay : Relay := { lineRelay with t := 1, reqCache := ∅ }

def waitingRelay : Relay :=
  { idleRelay with
    pubsubCache := HMap.insert ∅ "request" ()
    reqCache := HMap.orInsert ∅ "request" ⟨lineRequest, .submitted⟩ }

theorem idleRelay_request : Relay.TracedStep scalarRelay idleRelay
    (.mulRequest lineRequest "request" ⟨none, none⟩, [.forward "request" lineRequest]) waitingRelay := rfl

theorem waitingRelay_result : ∃ proof effects s' response,
    Relay.TracedStep scalarRelay waitingRelay
      (.processReceivedProof .secp256k1 1 "prover1" "request" proof .oprfSecp256k1 .ok, effects) s' ∧
    .publish "request" response ∈ effects := by
  obtain ⟨proof, draw, hproof⟩ := exists_answers secpDraw 8
  have hrequest : waitingRelay.requestOf "request" = some lineRequest := rfl
  have hacc : Accepted scalarRelay waitingRelay .secp256k1 "prover1" "request" proof .oprfSecp256k1 _ _ :=
    accepted_new hrequest (scalarCurve_fromEncoded_bytes _ 1) (order_nsmul_scalar _) lineRelay_prover1
      (fromEncoded_key 8) hproof
  obtain ⟨mid, data, hash, hkeeps, ⟨-, hpubsub⟩, -, heq⟩ :=
    processReceivedProof_eq_verification rfl hacc (encode_generator 8) 1
  have hwaits : mid.pubsubCache.containsKey "request" = true := by rw [hpubsub]; rfl
  -- one product fixes a constant polynomial
  have hcol : Collected (scalarCurve .secp256k1) (scalarCurve .secp256k1).basePointOrGenerator (C 8)
      ((waitingRelay.collection .secp256k1 "request").push 1 (scalarBytes .secp256k1 8)) := by
    refine (Collected.new .secp256k1).push (by decide) List.not_mem_nil ?_
    rw [eval_C]
    exact encode_generator 8
  have hdegree : (C (8 : CurveId.Scalar .secp256k1)).degree < (1 : ℕ) := degree_C_lt
  obtain ⟨points, hpoints, hpoint⟩ := hcol.interpolates (order_nsmul_scalar _) hdegree
  rw [eval_C] at hpoint
  have hresponse : fetchReconstructedPointV2 scalarRelay { data with status := .verified }
      { (waitingRelay.collection .secp256k1 "request").push 1 (scalarBytes .secp256k1 8) with
        reconstructedPoint := some (scalarBytes .secp256k1 8) } "request" = .ok (.verifiedProofSecp256k1 "request" 8) :=
    fetchReconstructedPointV2_secp256k1 rfl rfl rfl (scalarCurve_fromEncoded_bytes .secp256k1 8)
  obtain ⟨s', effects, hstep, hpublish⟩ := processVerification_result (hkeeps.t.trans_le le_rfl) hpoints hpoint
    (encode_generator 8) hwaits hresponse
  exact ⟨proof, effects, s', _, heq.trans hstep, hpublish⟩

theorem published_at_most_once_waitingRelay : ∃ trace s,
    Run (Relay.TracedStep scalarRelay) idleRelay trace s ∧ (requestIds trace).Nodup ∧ publishedTo "request" trace = 1 ∧
      ∀ id, publishedTo id trace ≤ 1 := by
  obtain ⟨proof, effects, s, response, hstep, hpublish⟩ := waitingRelay_result
  have hrun := show Run (Relay.TracedStep scalarRelay) idleRelay [_, _] s from
    ⟨waitingRelay, idleRelay_request, s, hstep, rfl⟩
  have honce := (published_at_most_once scalarRelay idleRelay s _ rfl rfl hrun (List.nodup_singleton "request")).1
  refine ⟨_, s, hrun, List.nodup_singleton "request", (honce "request").antisymm ?_, honce⟩
  rw [← List.singleton_append, publishedTo_append, publishedTo_singleton_other "request" rfl, Nat.zero_add,
    publishedTo_singleton_proof "request" rfl]
  exact List.one_le_countP_iff.2 ⟨_, List.mem_filterMap.2 ⟨_, hpublish, rfl⟩, decide_eq_true rfl⟩

end HumanNetwork
