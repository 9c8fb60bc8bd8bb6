import HumanNetwork.Publications

/-!
# The relay answers

`relay_answers` is about the runs in which the provers of one quorum give their own answers: the relay handles each
of these without a panic, and as soon as `t` different provers have answered a request for which a client waits, the
client has got the product with the secret, once. The messages for other requests may come in between in any order.

What it takes is in `Undisturbed`: Redis stores the proofs, no cache entry of the request expires before, and no other
request has the same bytes. Such a request would share its hash, and with it the entry in `batch_cache` that keeps the
relay from interpolating again.
-/

namespace HumanNetwork
open Outcome Polynomial

variable {env : RelayEnv}

/-! ### The message of a prover that is accepted -/

theorem PointResponse.fetch {data : RequestRecord} {r : StoredMultResult} {requestId : String} {b : Bytes}
    {curve : CurveId} {response : NodeResponse env} (h : PointResponse env requestId b curve response)
    (hstatus : data.status = .verified) (hb : r.reconstructedPoint = some b) (hcurve : r.curve = curve.name) :
    fetchReconstructedPointV2 env data r requestId = .ok response := by
  cases h with
  | secp256k1 read => exact fetchReconstructedPointV2_secp256k1 hstatus hb hcurve read
  | babyJubJub read =>
    have hne : CurveId.name .babyJubJub ≠ CurveId.name .secp256k1 := by decide
    simp only [fetchReconstructedPointV2, hstatus, if_true, hb, hcurve, hne, if_false, read, unwrap, bind_ok, pure_eq_ok]

section accepted
variable {s s' : Relay} {id : String} {c : CurveId} {peerId : PeerId} {method : Method} {proof : DLEQProof (env.curve c)}
  {P out : (env.curve c).Point} {request : RequestToNetwork} {hash : String} {redis : RedisReply} {i : ℕ}
  {effects : List (Effect env)}

theorem processReceivedProof_of_accepted
    (h : processReceivedProof env c s i peerId id proof method redis = .ok (s', effects))
    (hacc : Accepted env s c peerId id proof method P out) (hredis : redis.get = true ∧ redis.set = true)
    (hproof : (env.serializeProof c proof).isSome) (hrequest : s.requestOf id = some request)
    (hhash : requestHash env request = some hash) (hunbatched : s.batchCache.containsKey hash = false) :
    ∃ b mid data, (env.curve c).encode out = some b ∧ Keeps s mid ∧
      (mid.batchCache = s.batchCache ∧ mid.pubsubCache = s.pubsubCache) ∧
      mid.resCache = s.resCache.insert id ((s.collection c id).push i b) ∧
      ((s.collection c id).push i b).processVerification env c data id hash redis mid = .ok (s', effects) := by
  obtain ⟨data, hdata, rfl⟩ := Option.map_eq_some_iff.1 hrequest
  obtain ⟨r, hr, hP⟩ := hacc.request
  obtain rfl := Option.some.inj (hrequest.symm.trans hr)
  obtain ⟨key, K, hkey, hK, hout⟩ := hacc.verifies
  obtain ⟨shares, hshares, hkey⟩ := Option.bind_eq_some_iff.1 hkey
  obtain ⟨sp, hsp⟩ := Option.isSome_iff_exists.1 hproof
  obtain ⟨bytes, hbytes, rfl⟩ := Option.map_eq_some_iff.1 hhash
  simp only [processReceivedProof, storeProof, hdata, hshares, hkey, toOption_eq_some.2 hP, toOption_eq_some.2 hK,
    toOption_eq_some.2 hout, hsp, hbytes, hunbatched, hredis.1, hredis.2, bind_ok, bind_eq_ok, unwrap_eq_ok,
    Bool.false_eq_true, not_true_eq_false, if_false] at h
  obtain ⟨b, hb, encodedKey, -, encodedPoint, -, h⟩ := h
  refine ⟨b, _, _, hb, ?_, ?_, ?_, h⟩
  · exact keeps_of_insert hdata rfl rfl rfl
  · exact ⟨rfl, rfl⟩
  · rfl

theorem ProofStep.eq_of_rejected (h : ProofStep env s c i peerId id proof method redis s' effects)
    (hrejected : ¬ ∃ P out, Accepted env s c peerId id proof method P out) : s' = s ∧ effects = [] := by
  cases h with
  | ignored => exact ⟨rfl, rfl⟩
  | unserialized counts | batched counts | constructed counts | verified counts =>
    obtain ⟨P, out, _, hacc, -⟩ := counts.product
    exact absurd ⟨P, out, hacc⟩ hrejected

theorem StoredMultResult.exists_processVerification {self : StoredMultResult} {data : RequestRecord}
    (h : s.t ≤ self.numNodes → ∃ b response, Interpolates env c self b ∧
      fetchReconstructedPointV2 env { data with status := .verified } { self with reconstructedPoint := some b } id =
        .ok response) :
    ∃ result, self.processVerification env c data id hash redis s = .ok result := by
  unfold processVerification publishReconstructed
  split
  next ht =>
    obtain ⟨b, response, ⟨points, point, hpoints, hpoint, hb⟩, hresponse⟩ := h ht
    rw [toOption_eq_some.2 hpoints, bind_ok]
    dsimp only
    rw [hpoint, bind_ok, hb, unwrap, bind_ok]
    split
    · rw [hresponse, bind_ok]
      exact ⟨_, rfl⟩
    · exact ⟨_, rfl⟩
  next => exact ⟨_, rfl⟩

theorem exists_processReceivedProof (hacc : Accepted env s c peerId id proof method P out) {b : Bytes}
    (hb : (env.curve c).encode out = some b) (hP : ((env.curve c).encode P).isSome)
    (hK : ((env.curve c).encode proof.pubkey).isSome)
    (hverify : s.t ≤ (s.collection c id).numNodes + 1 → ∃ b' response,
      Interpolates env c ((s.collection c id).push i b) b' ∧ ∀ data : RequestRecord, data.status = .verified →
        fetchReconstructedPointV2 env data { (s.collection c id).push i b with reconstructedPoint := some b' } id =
          .ok response) :
    ∃ result, processReceivedProof env c s i peerId id proof method redis = .ok result := by
  obtain ⟨r, hr, hread⟩ := hacc.request
  obtain ⟨data, hdata, rfl⟩ := Option.map_eq_some_iff.1 hr
  obtain ⟨key, K, hkey, hreadK, hout⟩ := hacc.verifies
  obtain ⟨shares, hshares, hkey⟩ := Option.bind_eq_some_iff.1 hkey
  obtain ⟨-, rfl, -⟩ := DLEQProof.verifyAndGetOutput_eq_ok hout
  obtain ⟨bK, hbK⟩ := Option.isSome_iff_exists.1 hK
  obtain ⟨bP, hbP⟩ := Option.isSome_iff_exists.1 hP
  simp only [processReceivedProof, storeProof, hdata, hshares, hkey, toOption_eq_some.2 hread, toOption_eq_some.2 hreadK,
    toOption_eq_some.2 hout, hb, hbK, hbP, bind_ok, unwrap]
  -- whatever the serializers, the batches and Redis say, only the verification is left to succeed
  split
  case h_2 => exact ⟨_, rfl⟩
  split
  case h_2 => exact ⟨_, rfl⟩
  split
  · exact ⟨_, rfl⟩
  split
  · exact ⟨_, rfl⟩
  split
  · exact ⟨_, rfl⟩
  apply StoredMultResult.exists_processVerification
  intro ht
  obtain ⟨b', response, hinterpolates, hfetch⟩ := hverify ht
  exact ⟨b', response, hinterpolates, hfetch _ rfl⟩

end accepted

theorem handleMultiplicationRequest_forward {s s' : Relay} {r : RequestToNetwork} {id : String} {reply : MulRequestReply}
    (h : handleMultiplicationRequest env s r id reply = (s', [.forward id r])) :
    ∃ readyNodes, s' = { s with
      readyNodes := readyNodes, pubsubCache := s.pubsubCache.insert id ()
      reqCache := s.reqCache.orInsert id ⟨r, .submitted⟩ } := by
  obtain ⟨readyNodes, hping⟩ := pingIfShort_eq s reply.ping
  unfold handleMultiplicationRequest at h
  rw [hping] at h
  dsimp only at h
  split at h
  · simp at h
  split at h
  · simp at h
  split at h
  · simp at h
  · exact ⟨readyNodes, (Prod.mk.inj h).1.symm⟩

/-! ### A quorum that gives its own answers -/

def publicationsTo (id : String) (trace : List (Traced env)) : List (String × NodeResponse env) :=
  (proofPublications trace).filter fun p => p.1 = id

theorem publicationsTo_append (id : String) (trace trace' : List (Traced env)) :
    publicationsTo id (trace ++ trace') = publicationsTo id trace ++ publicationsTo id trace' := by
  rw [publicationsTo, proofPublications, List.flatMap_append, List.filter_append]
  rfl

theorem publicationsTo_eq_nil {id : String} {trace : List (Traced env)} (h : publishedTo id trace = 0) :
    publicationsTo id trace = [] := by
  rw [publishedTo, List.countP_eq_length_filter] at h
  exact List.length_eq_zero_iff.1 h

theorem publicationsTo_singleton (id : String) {e : Event env} {effects : List (Effect env)} (he : e.isProof = true) :
    publicationsTo id [(e, effects)] = (effects.filterMap Effect.publish?).filter fun p => p.1 = id := by
  rw [publicationsTo, proofPublications, List.flatMap_singleton, if_pos he]

namespace Quorum
variable (q : Quorum env) (request : String → RequestToNetwork)

/-- The relay has the keys of the quorum and has collected its products, on the curves of the requests. -/
structure Orderly (s : Relay) : Prop where
  stored : q.Stored s
  collects : s.Collects request fun id => q.sharing (request id).method
  curves : ∀ id r, s.resCache.get? id = some r → r.curve = (request id).method.curve.name

def IsAnswer (id : String) (P : (env.curve (request id).method.curve).Point) (peerId : PeerId) (e : Event env) : Prop :=
  ∃ draw proof redis, DLEQProof.new env.hs draw P (q.share (request id).method peerId) = .ok proof ∧
    e = .processReceivedProof (request id).method.curve (q.idx peerId) peerId id proof (request id).method redis

def IsResult (id : String) (P : (env.curve (request id).method.curve).Point) (response : NodeResponse env) : Prop :=
  ∃ b, (env.curve (request id).method.curve).encode
      ((env.curve (request id).method.curve).scalarMul P (q.secret (request id).method)) = some b ∧
    PointResponse env id b (request id).method.curve response

/-- What does not get in the way of a request: its proofs are stored in Redis, its entries stay in the caches, and the
other requests have other hashes. -/
def Undisturbed (id : String) : Event env → Prop
  | .processReceivedProof _ _ _ requestId _ _ redis =>
    if requestId = id then redis.get = true ∧ redis.set = true
    else requestHash env (request requestId) ≠ requestHash env (request id)
  | .mulRequest _ requestId _ => requestId ≠ id
  | .expire cache key => key = id → cache = .batch
  | _ => True

structure ServingStep (id : String) (s : Relay) (e : Traced env) (s' : Relay) : Prop where
  step : Relay.TracedStep env s e s'
  fixed : Fixed request e.1
  own : q.OwnAnswers request s e.1
  undisturbed : Undisturbed request id e.1

/-- The relay has the request and the keys of the provers that are to answer it. -/
structure Serves (id : String) (provers : Finset PeerId) (s : Relay) : Prop where
  orderly : q.Orderly request s
  cached : s.requestOf id = some (request id)
  keys : ∀ peerId ∈ provers, (s.keyOf peerId (request id).method).isSome

/-- A client waits for the request, and not enough products are collected. -/
structure Awaits (id : String) (s : Relay) : Prop where
  waits : s.pubsubCache.containsKey id = true
  unbatched : ∀ hash, requestHash env (request id) = some hash → s.batchCache.containsKey hash = false
  few : (s.indices id).length < q.t

variable (env) in
structure Untouched (id : String) (s s' : Relay) : Prop where
  requestOf : s'.requestOf id = s.requestOf id
  waits : s'.pubsubCache.containsKey id = s.pubsubCache.containsKey id
  indices : s'.indices id = s.indices id
  unbatched : ∀ hash, requestHash env (request id) = some hash → s.batchCache.containsKey hash = false →
    s'.batchCache.containsKey hash = false

variable {q request} {s s' : Relay} {id : String}

theorem Orderly.step [∀ c, (env.curve c).FaithfulEncodings] {e : Event env} (h : q.Orderly request s)
    (hfixed : Fixed request e) (hown : q.OwnAnswers request s e) (hstep : Relay.Step env s e s') :
    q.Orderly request s' := by
  refine ⟨h.stored.step hfixed.fixesQuorum hstep, h.collects.step (h.stored.fits hfixed hown) hstep, ?_⟩
  intro id r hr
  rcases hstep.cases with
    ⟨c, nodeIdx, peerId, requestId, proof, method, redis, rfl, -, P, out, b, res, hacc, -, hver, hget⟩ | ⟨hres, -⟩
  · rw [hget] at hr
    split at hr
    next hid =>
      subst hid
      obtain rfl := Option.some.inj hr
      have hcurve : res.curve = (s.collection c id).curve := by
        rcases hver with rfl | ⟨-, _, _, _, -, -, -, rfl⟩ <;> rfl
      rw [hcurve, Relay.collection]
      cases hold : s.resCache.get? id with
      | none =>
        obtain ⟨-, -, rfl, rfl, -⟩ := hown P out hacc
        rfl
      | some r => exact h.curves id r hold
    next => exact h.curves id r hr
  · exact h.curves id r (hres id r hr)

theorem Orderly.curve_collection (h : q.Orderly request s) (id : String) :
    (s.collection (request id).method.curve id).curve = (request id).method.curve.name := by
  unfold Relay.collection
  cases hres : s.resCache.get? id with
  | none => rfl
  | some r => exact h.curves id r hres

theorem IsAnswer.accepted [∀ c, (env.curve c).PrimeSubgroup] {P : (env.curve (request id).method.curve).Point}
    (h : q.Stored s) (hrequest : s.requestOf id = some (request id))
    (hP : (env.curve (request id).method.curve).fromEncoded (request id).point = .ok P)
    (horder : (env.curve (request id).method.curve).id.order • P = 0) {peerId : PeerId}
    (hkey : (s.keyOf peerId (request id).method).isSome) {draw : (env.curve (request id).method.curve).id.RandSpace}
    {proof : DLEQProof (env.curve (request id).method.curve)}
    (hproof : DLEQProof.new env.hs draw P (q.share (request id).method peerId) = .ok proof) :
    Accepted env s (request id).method.curve peerId id proof (request id).method P
      ((env.curve (request id).method.curve).scalarMul P (q.share (request id).method peerId)) := by
  obtain ⟨key, hkey⟩ := Option.isSome_iff_exists.1 hkey
  exact accepted_new hrequest hP horder hkey (h.key hkey).2 hproof

theorem Serves.answer_handled [∀ c, (env.curve c).PrimeSubgroup] [∀ c, (env.curve c).FaithfulEncodings]
    {provers : Finset PeerId} (h : q.Serves request id provers s) {P : (env.curve (request id).method.curve).Point}
    (hP : (env.curve (request id).method.curve).fromEncoded (request id).point = .ok P)
    (horder : (env.curve (request id).method.curve).id.order • P = 0) {response : NodeResponse env}
    (hresult : q.IsResult request id P response) {peerId : PeerId} (hmem : peerId ∈ provers)
    (hfresh : q.idx peerId ∉ s.indices id) {e : Event env} (he : q.IsAnswer request id P peerId e) :
    ∃ result, handle env s e = .ok result := by
  obtain ⟨draw, proof, redis, hproof, rfl⟩ := he
  obtain ⟨b', hb', hresponse⟩ := hresult
  have hacc := IsAnswer.accepted h.orderly.stored h.cached hP horder (h.keys peerId hmem) hproof
  obtain ⟨key, hkey⟩ := Option.isSome_iff_exists.1 (h.keys peerId hmem)
  -- a proof that could be made hashes the encodings of all the points
  have hencodes := DLEQProof.exists_new_iff.1 ⟨proof, hproof⟩
  obtain ⟨b, hb⟩ := hencodes ((env.curve (request id).method.curve).scalarMul P (q.share (request id).method peerId))
    (by simp)
  obtain ⟨-, -, hpubkey, -⟩ := DLEQProof.new_eq_ok hproof
  have hfresh' : q.idx peerId ∉ (s.collection (request id).method.curve id).mulResults.map Prod.fst := by
    rwa [s.indices_collection]
  have hcol := (h.orderly.collects.collection hP (request id).method.curve).push (h.orderly.stored.key hkey).1 hfresh' hb
  refine exists_processReceivedProof hacc hb ?_ ?_ fun ht => ?_
  · exact Option.isSome_iff_exists.2 (hencodes P (by simp))
  · rw [hpubkey]
    exact Option.isSome_iff_exists.2 (hencodes _ (by simp))
  · have hdegree : (q.sharing (request id).method).degree < ((s.collection (request id).method.curve id).push
        (q.idx peerId) b).numNodes := by
      refine (q.degree_lt _).trans_le ?_
      rw [← h.orderly.stored.t]
      exact_mod_cast ht
    obtain ⟨points, hpoints, hpoint⟩ := hcol.interpolates horder hdegree (ε := Empty)
    refine ⟨b', response, ⟨points, _, hpoints, hpoint, hb'⟩, fun data hstatus => ?_⟩
    exact hresponse.fetch hstatus rfl (h.orderly.curve_collection id)

/-! ### The other messages -/

theorem Untouched.of_caches (hreq : s'.reqCache = s.reqCache) (hres : s'.resCache = s.resCache)
    (hpubsub : s'.pubsubCache = s.pubsubCache) (hbatch : s'.batchCache = s.batchCache) :
    Untouched env request id s s' := by
  refine ⟨?_, by rw [hpubsub], ?_, fun _ _ h => by rwa [hbatch]⟩
  · rw [Relay.requestOf, hreq, Relay.requestOf]
  · rw [Relay.indices, hres, Relay.indices]

theorem Untouched.of_expire {cache : Cache} {key : String} (h : key = id → cache = .batch) :
    Untouched env request id s (expire cache key s) := by
  cases cache with
  | batch =>
    refine ⟨rfl, rfl, rfl, fun hash _ hunbatched => ?_⟩
    show (s.batchCache.remove key).containsKey hash = false
    rw [HMap.containsKey, HMap.get?_remove]
    split
    · rfl
    · exact hunbatched
  | req | res | pubsub =>
    have hne : id ≠ key := fun heq => by cases h heq.symm
    refine ⟨?_, ?_, ?_, fun _ _ h => h⟩
    all_goals simp [expire, Relay.requestOf, Relay.indices, HMap.containsKey, HMap.get?_remove, hne]

theorem Untouched.of_mulRequest {r : RequestToNetwork} {requestId : String} {reply : MulRequestReply}
    (hne : requestId ≠ id) : Untouched env request id s (handleMultiplicationRequest env s r requestId reply).1 := by
  obtain ⟨reqCache, effect, hreq, -, heq⟩ := handleMultiplicationRequest_cases env s r requestId reply
  rw [heq]
  refine ⟨?_, ?_, rfl, fun _ _ h => h⟩
  · rcases hreq with rfl | rfl
    · rfl
    · simp only [Relay.requestOf, HMap.get?_orInsert, if_neg hne.symm]
  · simp only [HMap.containsKey, HMap.get?_insert_of_ne _ _ hne.symm]

theorem Untouched.of_proof {c : CurveId} {i : ℕ} {peerId : PeerId} {requestId : String} {proof : DLEQProof (env.curve c)}
    {method : Method} {redis : RedisReply} {effects : List (Effect env)} (hne : requestId ≠ id)
    (hrequests : ∀ id r, s.requestOf id = some r → r = request id)
    (hhash : requestHash env (request requestId) ≠ requestHash env (request id))
    (h : processReceivedProof env c s i peerId requestId proof method redis = .ok (s', effects)) :
    Untouched env request id s s' := by
  have hstep := processReceivedProof_step h
  refine ⟨hstep.keeps.requestOf id, ?_, ?_, fun hash hid hunbatched => ?_⟩
  · cases processReceivedProof_publishes h with
    | none kept => rw [kept]
    | result _ _ removed => rw [removed, HMap.containsKey, HMap.get?_remove, if_neg hne.symm, HMap.containsKey]
  · rcases hstep.adds with hres | ⟨_, _, _, _, -, -, -, hget⟩
    · rw [Relay.indices, hres, Relay.indices]
    · rw [Relay.indices, hget, if_neg hne.symm, Relay.indices]
  · cases hstep with
    | verified counts _ hashed =>
      have hrequest := hrequests requestId _ (by rw [Relay.requestOf, counts.request, Option.map_some])
      rw [hrequest] at hashed
      show (s.batchCache.insert _ ()).containsKey hash = false
      rw [HMap.containsKey, HMap.get?_insert_of_ne]
      · exact hunbatched
      · rintro rfl
        exact hhash (hashed.trans hid.symm)
    | _ => exact hunbatched

def Answering (id : String) : Event env → Prop
  | .processReceivedProof _ _ _ requestId _ _ _ => requestId = id
  | _ => False

def Sends (id : String) (i : ℕ) : Event env → Prop
  | .processReceivedProof _ nodeIdx _ requestId _ _ _ => requestId = id ∧ nodeIdx = i
  | _ => False

theorem ServingStep.untouched {e : Event env} {effects : List (Effect env)}
    (h : q.ServingStep request id s (e, effects) s') (hrequests : ∀ id r, s.requestOf id = some r → r = request id)
    (hother : ¬ Answering id e) : Untouched env request id s s' := by
  obtain ⟨hstep, hfixed, -, hundisturbed⟩ := h
  change handle env s e = .ok (s', effects) at hstep
  cases e with
  | processReceivedProof c i peerId requestId proof method redis =>
    change ¬ requestId = id at hother
    change if _ then _ else _ at hundisturbed
    rw [if_neg hother] at hundisturbed
    exact .of_proof hother hrequests hundisturbed hstep
  | mulRequest r requestId reply =>
    obtain rfl := congrArg Prod.fst (Except.ok.inj hstep)
    exact .of_mulRequest hundisturbed
  | expire cache key =>
    obtain rfl := congrArg Prod.fst (Except.ok.inj hstep)
    exact .of_expire hundisturbed
  | updateElectedProvers provers isCacheProver =>
    obtain rfl := congrArg Prod.fst (Except.ok.inj hstep)
    obtain ⟨cached, active, heq⟩ := updateElectedProvers_eq s provers isCacheProver
    rw [heq]
    exact .of_caches rfl rfl rfl rfl
  | storeQuorumMap | updateCachedProversMap | saveCurrentState | backupState =>
    obtain rfl := congrArg Prod.fst (Except.ok.inj hstep)
    exact .of_caches rfl rfl rfl rfl
  | _ => cases hfixed.fixesQuorum

theorem IsAnswer.answering {P : (env.curve (request id).method.curve).Point} {peerId : PeerId} {e : Event env}
    (h : q.IsAnswer request id P peerId e) : Answering id e := by
  obtain ⟨draw, proof, redis, -, rfl⟩ := h
  rfl

/-! ### Runs -/

theorem ServingStep.balance {e : Traced env} (h : q.ServingStep request id s e s') :
    publishedTo id [e] + s'.waiting id ≤ s.waiting id := by
  have hids : (requestIds [e]).count id = 0 := by
    obtain ⟨e, effects⟩ := e
    cases e with
    | mulRequest r requestId reply => exact List.count_eq_zero.2 fun hmem => h.undisturbed (List.mem_singleton.1 hmem).symm
    | _ => rfl
  exact (h.step.balance id).trans_eq (by rw [hids, Nat.add_zero])

theorem Serves.step [∀ c, (env.curve c).FaithfulEncodings] {provers : Finset PeerId} {e : Traced env}
    (h : q.Serves request id provers s) (hstep : q.ServingStep request id s e s') : q.Serves request id provers s' := by
  obtain ⟨e, effects⟩ := e
  refine ⟨h.orderly.step hstep.fixed hstep.own ⟨effects, hstep.step⟩, ?_, fun peerId hmem => ?_⟩
  · by_cases hanswering : Answering id e
    · cases e with
      | processReceivedProof => exact ((processReceivedProof_step hstep.step).keeps.requestOf id).trans h.cached
      | _ => exact hanswering.elim
    · exact (hstep.untouched h.orderly.collects.requests hanswering).requestOf.trans h.cached
  · rw [Relay.keyOf, (Relay.Step.quorum ⟨effects, hstep.step⟩ hstep.fixed.fixesQuorum).1]
    exact h.keys peerId hmem

theorem Untouched.awaits (h : Untouched env request id s s') (hawaits : q.Awaits request id s) :
    q.Awaits request id s' where
  waits := h.waits.trans hawaits.waits
  unbatched hash hhash := h.unbatched hash hhash (hawaits.unbatched hash hhash)
  few := by
    rw [h.indices]
    exact hawaits.few

section progress
variable {provers : Finset PeerId} {P : (env.curve (request id).method.curve).Point} {response : NodeResponse env}

variable (q request id provers P response) in
/-- Where a request stands after the messages `trace`. -/
inductive Progress (trace : List (Traced env)) (s : Relay) : Prop
  | awaits (waits : q.Awaits request id s) (unpublished : publicationsTo id trace = [])
      (counted : ∀ e ∈ trace, ∀ peerId ∈ provers, q.IsAnswer request id P peerId e.1 → q.idx peerId ∈ s.indices id)
      (sent : ∀ i ∈ s.indices id, ∃ e ∈ trace, Sends id i e.1)
  | answered (gone : s.waiting id = 0) (published : publicationsTo id trace = [(id, response)])
      (enough : ∃ indices : Finset ℕ, q.t ≤ indices.card ∧ ∀ i ∈ indices, ∃ e ∈ trace, Sends id i e.1)

theorem Progress.published {trace : List (Traced env)} (h : q.Progress request id provers P response trace s)
    (hcard : q.t ≤ (provers.image q.idx).card)
    (hanswered : ∀ peerId ∈ provers, ∃ e ∈ trace, q.IsAnswer request id P peerId e.1) :
    publicationsTo id trace = [(id, response)] := by
  cases h with
  | answered _ published => exact published
  | awaits waits _ counted _ =>
    -- then the indices of all these provers are collected, which are not fewer than `t`
    have hsubset : provers.image q.idx ⊆ (s.indices id).toFinset := by
      intro i hi
      obtain ⟨peerId, hmem, rfl⟩ := Finset.mem_image.1 hi
      obtain ⟨e, he, hanswer⟩ := hanswered peerId hmem
      exact List.mem_toFinset.2 (counted e he peerId hmem hanswer)
    have hle := (Finset.card_le_card hsubset).trans (List.toFinset_card_le _)
    exact absurd waits.few (Nat.not_lt.2 (hcard.trans hle))

theorem Progress.enough {trace : List (Traced env)} (h : q.Progress request id provers P response trace s)
    (hpublished : publicationsTo id trace ≠ []) :
    ∃ indices : Finset ℕ, q.t ≤ indices.card ∧ ∀ i ∈ indices, ∃ e ∈ trace, Sends id i e.1 := by
  cases h with
  | awaits _ unpublished => exact absurd unpublished hpublished
  | answered _ _ enough => exact enough

theorem sent_append {trace : List (Traced env)} {e : Traced env} {i : ℕ} (h : ∃ e ∈ trace, Sends id i e.1) :
    ∃ e' ∈ trace ++ [e], Sends id i e'.1 := by
  obtain ⟨e', he', hsends⟩ := h
  exact ⟨e', List.mem_append_left _ he', hsends⟩

theorem counted_append {trace : List (Traced env)} {e : Traced env}
    (h : ∀ e ∈ trace, ∀ peerId ∈ provers, q.IsAnswer request id P peerId e.1 → q.idx peerId ∈ s.indices id)
    (hsubset : s.indices id ⊆ s'.indices id)
    (hlast : ∀ peerId ∈ provers, q.IsAnswer request id P peerId e.1 → q.idx peerId ∈ s'.indices id) :
    ∀ e' ∈ trace ++ [e], ∀ peerId ∈ provers, q.IsAnswer request id P peerId e'.1 → q.idx peerId ∈ s'.indices id := by
  intro e' he' peerId hmem hanswer
  rcases List.mem_append.1 he' with he' | he'
  · exact hsubset (h e' he' peerId hmem hanswer)
  · obtain rfl := List.mem_singleton.1 he'
    exact hlast peerId hmem hanswer

theorem Serves.progress_other (h : q.Serves request id provers s) {trace : List (Traced env)} {e : Traced env}
    (hawaits : q.Awaits request id s) (unpublished : publicationsTo id trace = [])
    (counted : ∀ e ∈ trace, ∀ peerId ∈ provers, q.IsAnswer request id P peerId e.1 → q.idx peerId ∈ s.indices id)
    (sent : ∀ i ∈ s.indices id, ∃ e ∈ trace, Sends id i e.1)
    (hstep : q.ServingStep request id s e s') (hother : ¬ Answering id e.1) :
    q.Progress request id provers P response (trace ++ [e]) s' := by
  have huntouched := hstep.untouched h.orderly.collects.requests hother
  have hquiet : publishedTo id [e] = 0 := by
    have hbalance := hstep.balance
    rw [Relay.waiting, Relay.waiting, huntouched.waits] at hbalance
    omega
  refine .awaits (huntouched.awaits hawaits) ?_
    (counted_append counted ?_ fun peerId _ hanswer => absurd hanswer.answering hother) fun i hi => ?_
  · rw [publicationsTo_append, unpublished, publicationsTo_eq_nil hquiet, List.append_nil]
  · rw [huntouched.indices]
    exact List.Subset.refl _
  · rw [huntouched.indices] at hi
    exact sent_append (sent i hi)

variable [∀ c, (env.curve c).FaithfulEncodings]
  (hP : (env.curve (request id).method.curve).fromEncoded (request id).point = .ok P)
  (horder : (env.curve (request id).method.curve).id.order • P = 0) (hresult : q.IsResult request id P response)
  (hproofs : ∀ c proof, (env.serializeProof c proof).isSome) (hrequest : (env.serializeRequest (request id)).isSome)
include hP horder hresult hproofs hrequest

theorem Serves.counts (h : q.Serves request id provers s) (hawaits : q.Awaits request id s) {c : CurveId} {i : ℕ}
    {peerId : PeerId} {proof : DLEQProof (env.curve c)} {method : Method} {redis : RedisReply}
    {effects : List (Effect env)}
    (hstep : q.ServingStep request id s (.processReceivedProof c i peerId id proof method redis, effects) s')
    {P' out : (env.curve c).Point} (hacc : Accepted env s c peerId id proof method P' out) :
    s'.indices id = s.indices id ++ [i] ∧ (s.indices id).length + 1 < q.t ∧ s'.pubsubCache = s.pubsubCache ∧
        s'.batchCache = s.batchCache ∧ effects = [] ∨
      s'.waiting id = 0 ∧ effects.filterMap Effect.publish? = [(id, response)] ∧
        q.t ≤ (insert i (s.indices id).toFinset).card := by
  obtain ⟨rfl, hfresh, rfl, rfl, -⟩ := hstep.own P' out hacc
  obtain ⟨r, hr, hP'⟩ := hacc.request
  obtain rfl := Option.some.inj (h.cached.symm.trans hr)
  obtain rfl := Except.ok.inj (hP.symm.trans hP')
  obtain ⟨hash, hhash⟩ : ∃ hash, requestHash env (request id) = some hash := by
    rw [← Option.isSome_iff_exists, requestHash, Option.isSome_map]
    exact hrequest
  have hredis : redis.get = true ∧ redis.set = true := by
    have := hstep.undisturbed
    change if _ then _ else _ at this
    rwa [if_pos rfl] at this
  obtain ⟨b, mid, data, hb, hkeeps, ⟨hbatch, hpubsub⟩, hres, hverify⟩ := processReceivedProof_of_accepted hstep.step hacc
    hredis (hproofs _ proof) h.cached hhash (hawaits.unbatched _ hhash)
  have hcol := h.orderly.collects.collection hP (request id).method.curve
  have hlength : (s.collection (request id).method.curve id).numNodes = (s.indices id).length := by
    rw [hcol.numNodes, ← s.indices_collection (request id).method.curve, List.length_map]
  by_cases ht : mid.t ≤ ((s.collection (request id).method.curve id).push (q.idx peerId) b).numNodes
  case neg =>
    left
    obtain ⟨rfl, rfl⟩ := Prod.mk.inj (Except.ok.inj
      ((StoredMultResult.processVerification_below (Nat.not_le.1 ht)).symm.trans hverify))
    refine ⟨?_, ?_, hpubsub, hbatch, rfl⟩
    · rw [Relay.indices, hres, HMap.get?_insert_self, ← s.indices_collection (request id).method.curve]
      exact List.map_append
    · rw [← h.orderly.stored.t, ← hkeeps.t, ← hlength]
      exact Nat.not_le.1 ht
  case pos =>
    right
    obtain ⟨b', hb', hresponse⟩ := hresult
    obtain ⟨key, K, hkey, hK, hout⟩ := hacc.verifies
    have hproduct := hstep.fixed _ _ _ ((Except.ok.inj (hK.symm.trans (h.orderly.stored.key hkey).2)) ▸ hout)
    rw [hproduct] at hb
    rw [← s.indices_collection (request id).method.curve] at hfresh
    have hdegree : (q.sharing (request id).method).degree < ((s.collection (request id).method.curve id).push
        (q.idx peerId) b).numNodes := by
      refine (q.degree_lt _).trans_le ?_
      rw [← h.orderly.stored.t, ← hkeeps.t]
      exact_mod_cast ht
    obtain ⟨points, hpoints, hpoint⟩ :=
      (hcol.push (h.orderly.stored.key hkey).1 hfresh hb).interpolates horder hdegree (ε := Empty)
    have hreaches : ∃ s'' effects', ((s.collection (request id).method.curve id).push (q.idx peerId) b).processVerification
        env _ data id hash redis mid = .ok (s'', effects') ∧ .publish id response ∈ effects' :=
      processVerification_result ht hpoints hpoint hb' ((congrArg (HMap.containsKey · id) hpubsub).trans hawaits.waits)
        (hresponse.fetch rfl rfl (h.orderly.curve_collection id))
    obtain ⟨s'', effects', hverify', hpublish⟩ := hreaches
    obtain ⟨rfl, rfl⟩ := Prod.mk.inj (Except.ok.inj (hverify'.symm.trans hverify))
    have hmem : (id, response) ∈ effects'.filterMap Effect.publish? := List.mem_filterMap.2 ⟨_, hpublish, rfl⟩
    cases processReceivedProof_publishes hstep.step with
    | none _ published =>
      rw [published] at hmem
      cases hmem
    | result response' _ removed published _ =>
      rw [published, List.mem_singleton] at hmem
      rw [published, hmem, Relay.waiting, removed, HMap.containsKey, HMap.get?_remove, if_pos rfl]
      refine ⟨rfl, rfl, ?_⟩
      rw [← s.indices_collection (request id).method.curve, Finset.card_insert_of_notMem (List.mem_toFinset.not.2 hfresh),
        List.toFinset_card_of_nodup hcol.nodup, List.length_map, ← hcol.numNodes, ← h.orderly.stored.t, ← hkeeps.t]
      exact ht

variable [∀ c, (env.curve c).PrimeSubgroup]

theorem Serves.progress_answer (h : q.Serves request id provers s) {trace : List (Traced env)} {c : CurveId} {i : ℕ}
    {peerId : PeerId} {proof : DLEQProof (env.curve c)} {method : Method} {redis : RedisReply}
    {effects : List (Effect env)} (hawaits : q.Awaits request id s) (unpublished : publicationsTo id trace = [])
    (counted : ∀ e ∈ trace, ∀ peerId ∈ provers, q.IsAnswer request id P peerId e.1 → q.idx peerId ∈ s.indices id)
    (sent : ∀ i ∈ s.indices id, ∃ e ∈ trace, Sends id i e.1)
    (hstep : q.ServingStep request id s (.processReceivedProof c i peerId id proof method redis, effects) s') :
    q.Progress request id provers P response
      (trace ++ [(.processReceivedProof c i peerId id proof method redis, effects)]) s' := by
  have hlast : ∃ e ∈ trace ++ [(.processReceivedProof c i peerId id proof method redis, effects)], Sends id i e.1 :=
    ⟨_, List.mem_append_right _ (List.mem_singleton_self _), rfl, rfl⟩
  by_cases haccepted : ∃ P' out, Accepted env s c peerId id proof method P' out
  case neg =>
    obtain ⟨rfl, rfl⟩ := (processReceivedProof_step hstep.step).eq_of_rejected haccepted
    refine .awaits hawaits ?_ (counted_append counted (List.Subset.refl _) fun peerId' hmem hanswer => ?_)
      fun i hi => sent_append (sent i hi)
    · rw [publicationsTo_append, unpublished]
      rfl
    · obtain ⟨draw, proof', redis', hproof, heq⟩ := hanswer
      cases heq
      exact absurd ⟨_, _, IsAnswer.accepted h.orderly.stored h.cached hP horder (h.keys _ hmem) hproof⟩ haccepted
  case pos =>
    obtain ⟨P', out, hacc⟩ := haccepted
    rcases h.counts hP horder hresult hproofs hrequest hawaits hstep hacc with
      ⟨hindices, hfew, hpubsub, hbatch, rfl⟩ | ⟨gone, published, enough⟩
    · refine .awaits ⟨?_, ?_, ?_⟩ ?_ (counted_append counted ?_ fun peerId' _ hanswer => ?_) fun j hj => ?_
      · rw [hpubsub]
        exact hawaits.waits
      · rw [hbatch]
        exact hawaits.unbatched
      · rw [hindices, List.length_append]
        exact hfew
      · rw [publicationsTo_append, unpublished]
        rfl
      · rw [hindices]
        exact List.subset_append_left _ _
      · obtain ⟨_, _, _, -, heq⟩ := hanswer
        rw [hindices, (Event.processReceivedProof.inj heq).2.1]
        exact List.mem_append_right _ (List.mem_singleton_self _)
      · rw [hindices] at hj
        rcases List.mem_append.1 hj with hj | hj
        · exact sent_append (sent j hj)
        · obtain rfl := List.mem_singleton.1 hj
          exact hlast
    · refine .answered gone ?_ ⟨_, enough, fun j hj => ?_⟩
      · rw [publicationsTo_append, unpublished, List.nil_append, publicationsTo_singleton id rfl, published]
        simp
      · rcases Finset.mem_insert.1 hj with rfl | hj
        · exact hlast
        · exact sent_append (sent j (List.mem_toFinset.1 hj))

theorem Serves.progress (h : q.Serves request id provers s) {trace : List (Traced env)} {e : Traced env}
    (hprogress : q.Progress request id provers P response trace s) (hstep : q.ServingStep request id s e s') :
    q.Progress request id provers P response (trace ++ [e]) s' := by
  cases hprogress with
  | answered gone published enough =>
    have hbalance := hstep.balance
    obtain ⟨indices, hcard, hsent⟩ := enough
    refine .answered (by omega) ?_ ⟨indices, hcard, fun i hi => sent_append (hsent i hi)⟩
    rw [publicationsTo_append, published, publicationsTo_eq_nil (by omega), List.append_nil]
  | awaits hawaits unpublished counted sent =>
    by_cases hanswering : Answering id e.1
    · obtain ⟨e, effects⟩ := e
      cases e with
      | processReceivedProof c i peerId requestId proof method redis =>
        obtain rfl : requestId = id := hanswering
        exact h.progress_answer hP horder hresult hproofs hrequest hawaits unpublished counted sent hstep
      | _ => exact hanswering.elim
    · exact h.progress_other hawaits unpublished counted sent hstep hanswering

theorem Serves.run {s₀ : Relay} (h : q.Serves request id provers s₀) (hawaits : q.Awaits request id s₀)
    (hnone : s₀.indices id = []) {trace : List (Traced env)} (hrun : Run (q.ServingStep request id) s₀ trace s) :
    q.Serves request id provers s ∧ q.Progress request id provers P response trace s := by
  induction trace using List.reverseRecOn generalizing s with
  | nil =>
    obtain rfl := hrun
    refine ⟨h, .awaits hawaits rfl (fun _ he => absurd he List.not_mem_nil) fun i hi => ?_⟩
    rw [hnone] at hi
    cases hi
  | append_singleton trace e ih =>
    obtain ⟨mid, hrun, last, hlast, rfl⟩ := Run.append_iff.1 hrun
    obtain ⟨hserves, hprogress⟩ := ih hrun
    exact ⟨hserves.step hlast, hserves.progress hP horder hresult hproofs hrequest hprogress hlast⟩

end progress

theorem Orderly.forward [∀ c, (env.curve c).FaithfulEncodings] {provers : Finset PeerId} {reply : MulRequestReply}
    (h : q.Orderly request s)
    (hstep : Relay.TracedStep env s (.mulRequest (request id) id reply, [.forward id (request id)]) s')
    (hnew : s.requestOf id = none ∧ s.indices id = [])
    (hunbatched : ∀ hash, requestHash env (request id) = some hash → s.batchCache.containsKey hash = false)
    (hkeys : ∀ peerId ∈ provers, (s.keyOf peerId (request id).method).isSome) (ht : 0 < q.t) :
    q.Serves request id provers s' ∧ q.Awaits request id s' ∧ s'.indices id = [] := by
  have horderly : q.Orderly request s' := h.step (e := .mulRequest (request id) id reply) rfl trivial ⟨_, hstep⟩
  obtain ⟨readyNodes, rfl⟩ := handleMultiplicationRequest_forward (Except.ok.inj hstep)
  refine ⟨⟨horderly, ?_, hkeys⟩, ⟨?_, hunbatched, ?_⟩, hnew.2⟩
  · have hnone : s.reqCache.get? id = none := Option.map_eq_none_iff.1 hnew.1
    simp only [Relay.requestOf, HMap.get?_orInsert, if_true, hnone, Option.getD_none, Option.map_some]
  · simp only [HMap.containsKey, HMap.get?_insert_self, Option.isSome_some]
  · show (s.indices id).length < q.t
    rw [hnew.2]
    exact ht

/-- Whatever else the relay is told, a request that it forwards is answered by the product with the secret, once,
when `t` provers have answered it and not before `t` proofs have come, and an answer that has not come yet is handled
without a panic. -/
theorem relay_answers [∀ c, (env.curve c).PrimeSubgroup] [∀ c, (env.curve c).FaithfulEncodings] (q : Quorum env)
    (request : String → RequestToNetwork) (id : String) (provers : Finset PeerId)
    {P : (env.curve (request id).method.curve).Point} {response : NodeResponse env} {reply : MulRequestReply}
    {s₀ s₁ s : Relay} {trace : List (Traced env)}
    (hP : (env.curve (request id).method.curve).fromEncoded (request id).point = .ok P)
    (horder : (env.curve (request id).method.curve).id.order • P = 0) (hresult : q.IsResult request id P response)
    (hproofs : ∀ c proof, (env.serializeProof c proof).isSome) (hrequest : (env.serializeRequest (request id)).isSome)
    (horderly : q.Orderly request s₀) (hnew : s₀.requestOf id = none ∧ s₀.indices id = [])
    (hunbatched : ∀ hash, requestHash env (request id) = some hash → s₀.batchCache.containsKey hash = false)
    (hkeys : ∀ peerId ∈ provers, (s₀.keyOf peerId (request id).method).isSome) (ht : 0 < q.t)
    (hforward : Relay.TracedStep env s₀ (.mulRequest (request id) id reply, [.forward id (request id)]) s₁)
    (hrun : Run (q.ServingStep request id) s₁ trace s) :
    (∀ peerId ∈ provers, q.idx peerId ∉ s.indices id → ∀ e, q.IsAnswer request id P peerId e →
        ∃ effects s', Relay.TracedStep env s (e, effects) s') ∧
      (q.t ≤ (provers.image q.idx).card → (∀ peerId ∈ provers, ∃ e ∈ trace, q.IsAnswer request id P peerId e.1) →
        publicationsTo id trace = [(id, response)]) ∧
      (publicationsTo id trace ≠ [] →
        ∃ indices : Finset ℕ, q.t ≤ indices.card ∧ ∀ i ∈ indices, ∃ e ∈ trace, Sends id i e.1) := by
  obtain ⟨hserves, hawaits, hnone⟩ := horderly.forward hforward hnew hunbatched hkeys ht
  obtain ⟨hserves, hprogress⟩ := hserves.run hP horder hresult hproofs hrequest hawaits hnone hrun
  refine ⟨fun peerId hmem hfresh e he => ?_, hprogress.published, hprogress.enough⟩
  obtain ⟨⟨s', effects⟩, hhandled⟩ := hserves.answer_handled hP horder hresult hmem hfresh he
  exact ⟨effects, s', hhandled⟩

end Quorum

/-! ### Two provers of three -/

def quietRelay : Relay := { lineRelay with reqCache := ∅ }

def askedRelay : Relay :=
  { quietRelay with
    pubsubCache := HMap.insert ∅ "request" ()
    reqCache := HMap.orInsert ∅ "request" ⟨lineRequest, .submitted⟩ }

theorem quietRelay_request : Relay.TracedStep scalarRelay quietRelay
    (.mulRequest lineRequest "request" ⟨none, none⟩, [.forward "request" lineRequest]) askedRelay := rfl

theorem quietRelay_orderly : lineQuorum.Orderly (fun _ => lineRequest) quietRelay where
  stored := ⟨rfl, fun {_ _ _} h => lineQuorum_stored.key h⟩
  collects := Relay.collects_of_empty (fun _ _ h => by cases h) rfl
  curves _ _ h := by cases h

theorem lineQuorum_isResult : lineQuorum.IsResult (fun _ => lineRequest) "request"
    (scalarCurve .secp256k1).basePointOrGenerator (.verifiedProofSecp256k1 "request" 5) := by
  refine ⟨scalarBytes .secp256k1 5, ?_, .secp256k1 (scalarCurve_fromEncoded_bytes .secp256k1 5)⟩
  rw [lineQuorum_secret]
  exact encode_generator 5

theorem exists_lineAnswer {s : Relay} {provers : Finset PeerId} {peerId : PeerId}
    (h : lineQuorum.Serves (fun _ => lineRequest) "request" provers s) (hmem : peerId ∈ provers)
    (hfresh : proverIdx peerId ∉ s.indices "request") : ∃ e effects s',
      lineQuorum.IsAnswer (fun _ => lineRequest) "request" (scalarCurve .secp256k1).basePointOrGenerator peerId e ∧
      lineQuorum.ServingStep (fun _ => lineRequest) "request" s (e, effects) s' ∧
      ∀ i ∈ s'.indices "request", i ∈ s.indices "request" ∨ i = proverIdx peerId := by
  obtain ⟨proof, draw, hproof⟩ := exists_answers secpDraw (lineQuorum.share .oprfSecp256k1 peerId)
  have hanswer : lineQuorum.IsAnswer (fun _ => lineRequest) "request" (scalarCurve .secp256k1).basePointOrGenerator peerId
      (.processReceivedProof .secp256k1 (proverIdx peerId) peerId "request" proof .oprfSecp256k1 .ok) :=
    ⟨draw, proof, .ok, hproof, rfl⟩
  obtain ⟨⟨s', effects⟩, hstep⟩ := h.answer_handled (scalarCurve_fromEncoded_bytes _ 1) (order_nsmul_scalar _)
    lineQuorum_isResult hmem hfresh hanswer
  refine ⟨_, effects, s', hanswer, ⟨hstep, DLEQProof.sound_new hproof, fun P out _ => ?_, ?_⟩, fun i hi => ?_⟩
  · exact ⟨rfl, hfresh, rfl, rfl, order_nsmul_scalar P⟩
  · simp [Quorum.Undisturbed]
  · rcases Relay.Step.mem_indices ⟨effects, hstep⟩ hi with hi | ⟨_, _, _, _, _, _, _, heq, -⟩
    · exact .inl hi
    · exact .inr (Event.processReceivedProof.inj heq).2.1.symm

/-- Another client asks while two provers answer, and the first client gets the product. -/
theorem relay_answers_two_provers : ∃ trace s,
    Run (lineQuorum.ServingStep (fun _ => lineRequest) "request") askedRelay trace s ∧
      publicationsTo "request" trace = [("request", .verifiedProofSecp256k1 "request" 5)] := by
  have hkeys : ∀ peerId ∈ ({"prover1", "prover2"} : Finset PeerId),
      (quietRelay.keyOf peerId lineRequest.method).isSome := by
    intro peerId hmem
    rcases Finset.mem_insert.1 hmem with rfl | hmem
    · exact Option.isSome_iff_exists.2 ⟨_, lineRelay_prover1⟩
    · obtain rfl := Finset.mem_singleton.1 hmem
      exact Option.isSome_iff_exists.2 ⟨_, lineRelay_prover2⟩
  have hserves₁ := (quietRelay_orderly.forward quietRelay_request ⟨rfl, rfl⟩ (fun _ _ => rfl) hkeys Nat.two_pos).1
  obtain ⟨e₁, effects₁, s₂, hanswer₁, hstep₁, hindices₁⟩ := exists_lineAnswer hserves₁ (Finset.mem_insert_self _ _)
    List.not_mem_nil
  -- the other client does not come into it
  have hne : "other" ≠ "request" := by decide
  obtain ⟨s₃, effects₂, hstep₂, hindices₂⟩ : ∃ s₃ effects₂, lineQuorum.ServingStep (fun _ => lineRequest) "request" s₂
      (.mulRequest lineRequest "other" ⟨none, none⟩, effects₂) s₃ ∧ s₃.indices "request" = s₂.indices "request" :=
    ⟨_, _, ⟨rfl, rfl, trivial, hne⟩,
      (show Quorum.Untouched scalarRelay (fun _ => lineRequest) "request" s₂ _ from .of_mulRequest hne).indices⟩
  have hfresh : proverIdx "prover2" ∉ s₃.indices "request" := by
    rw [hindices₂]
    intro hmem
    rcases hindices₁ _ hmem with hmem | hidx
    · cases hmem
    · exact absurd hidx (by decide)
  obtain ⟨e₂, effects₃, s₄, hanswer₂, hstep₃, -⟩ := exists_lineAnswer ((hserves₁.step hstep₁).step hstep₂)
    (Finset.mem_insert_of_mem (Finset.mem_singleton_self _)) hfresh
  have hrun := show Run (lineQuorum.ServingStep (fun _ => lineRequest) "request") _ [_, _, _] s₄ from
    ⟨s₂, hstep₁, s₃, hstep₂, s₄, hstep₃, rfl⟩
  refine ⟨_, s₄, hrun, ?_⟩
  refine (Quorum.relay_answers lineQuorum (fun _ => lineRequest) "request" {"prover1", "prover2"}
    (P := (scalarCurve .secp256k1).basePointOrGenerator) (scalarCurve_fromEncoded_bytes _ 1) (order_nsmul_scalar _)
    lineQuorum_isResult (fun _ _ => rfl) rfl quietRelay_orderly ⟨rfl, rfl⟩ (fun _ _ => rfl) hkeys Nat.two_pos
    quietRelay_request hrun).2.1 (by decide) fun peerId hmem => ?_
  rcases Finset.mem_insert.1 hmem with rfl | hmem
  · exact ⟨(e₁, effects₁), by simp, hanswer₁⟩
  · obtain rfl := Finset.mem_singleton.1 hmem
    exact ⟨(e₂, effects₃), by simp, hanswer₂⟩

end HumanNetwork
