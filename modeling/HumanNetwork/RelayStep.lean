import HumanNetwork.Relay

/-!
# What a message does to the relay

`processReceivedProof_cases` says once what the message of a prover can do: nothing that matters, or it
adds the product of an accepted proof to the collection of the request (`Adds`), which may be interpolated
then (`Verifies`). `Relay.Step.cases` is the same for all messages: no other one touches a collection, except
that it may expire. `Relay.Step.setup` says what the messages of clients and provers leave alone.
-/

namespace HumanNetwork
open Outcome

variable {env : RelayEnv}

def Relay.requestOf (s : Relay) (id : String) : Option RequestToNetwork :=
  (s.reqCache.get? id).map RequestRecord.request

def Relay.keyOf (s : Relay) (peerId : PeerId) (method : Method) : Option Bytes :=
  (s.pubkeyShares.get? peerId).bind fun shares => shares.get? method.keyName

def Relay.collection (s : Relay) (c : CurveId) (id : String) : StoredMultResult := (s.resCache.get? id).getD (.new c)

structure Keeps (s s' : Relay) : Prop where
  pubkeyShares : s'.pubkeyShares = s.pubkeyShares
  t : s'.t = s.t
  requestOf : ∀ id, s'.requestOf id = s.requestOf id

theorem Keeps.refl (s : Relay) : Keeps s s := ⟨rfl, rfl, fun _ => rfl⟩

theorem Keeps.keyOf {s s' : Relay} (h : Keeps s s') (peerId : PeerId) (method : Method) :
    s'.keyOf peerId method = s.keyOf peerId method := by
  rw [Relay.keyOf, Relay.keyOf, h.pubkeyShares]

theorem keeps_of_insert {s s' : Relay} {requestId : String} {data : RequestRecord} {status : TxState}
    (hdata : s.reqCache.get? requestId = some data) (hkeys : s'.pubkeyShares = s.pubkeyShares) (ht : s'.t = s.t)
    (h : s'.reqCache = s.reqCache.insert requestId { data with status := status }) : Keeps s s' := by
  refine ⟨hkeys, ht, fun id => ?_⟩
  rw [Relay.requestOf, Relay.requestOf, h, HMap.get?_insert]
  split
  next hid => rw [hid, hdata, Option.map_some, Option.map_some]
  next => rfl

/-! ### Verification -/

theorem publishReconstructed_eq {data : RequestRecord} {r : StoredMultResult} {requestId : String} {indices : List ℕ}
    {s s' : Relay} {effects : List (Effect env)}
    (h : publishReconstructed env data r requestId indices s = .ok (s', effects)) :
    (∃ pubsubCache, s' = { s with pubsubCache := pubsubCache }) ∧ ∀ request, .batch request ∉ effects := by
  unfold publishReconstructed at h
  split at h
  next =>
    rw [bind_eq_ok] at h
    obtain ⟨response, -, h⟩ := h
    obtain ⟨rfl, rfl⟩ := Prod.mk.inj (Except.ok.inj h)
    exact ⟨⟨_, rfl⟩, by simp⟩
  next =>
    obtain ⟨rfl, rfl⟩ := Prod.mk.inj (Except.ok.inj h)
    exact ⟨⟨s.pubsubCache, rfl⟩, by simp⟩

theorem publishReconstructed_of_not_mem {data : RequestRecord} {r : StoredMultResult} {requestId : String}
    {indices : List ℕ} {s : Relay} (h : s.pubsubCache.containsKey requestId = false) :
    publishReconstructed env data r requestId indices s = .ok (s, []) := by
  rw [publishReconstructed, h]
  rfl

variable (env) in
theorem initiateBatch_eq (requestHash : String) (redis : RedisReply) (s : Relay) :
    ∃ batchCache entries, (initiateBatch env requestHash redis s).1 =
      { s with batchCache := batchCache, redis := entries } := by
  unfold initiateBatch processBatch
  split
  · exact ⟨s.batchCache, s.redis, rfl⟩
  · dsimp only
    split
    · exact ⟨_, _, rfl⟩
    · exact ⟨_, s.redis, rfl⟩

variable (env) in
theorem initiateBatch_of_not_mem {requestHash : String} (redis : RedisReply) {s : Relay}
    {entry : RequestToNetworkWithProofs} (h : s.batchCache.containsKey requestHash = false)
    (hentry : s.redis.get? requestHash = some entry) :
    initiateBatch env requestHash redis s = ({ s with
      batchCache := s.batchCache.insert requestHash ()
      redis := if redis.del then s.redis.remove requestHash else s.redis },
      if redis.rpush then [.batch entry] else []) := by
  unfold initiateBatch processBatch
  rw [h, hentry]
  cases redis.del <;> cases redis.rpush <;> rfl

/-- What a collection becomes when it is verified: the same, or with a reconstructed point. -/
def Verifies (env : RelayEnv) (c : CurveId) (t : ℕ) (self res : StoredMultResult) : Prop :=
  res = self ∨ t ≤ self.numNodes ∧ ∃ points point b,
    (self.mulResults.mapM fun e => (env.curve c).fromEncoded e.2) = .ok points ∧
    (thresholdUnchecked points (self.mulResults.map Prod.fst) : Outcome Empty (env.curve c).Point) = .ok point ∧
    (env.curve c).encode point = some b ∧ res = { self with reconstructedPoint := some b }

theorem Verifies.mulResults {c : CurveId} {t : ℕ} {self res : StoredMultResult} (h : Verifies env c t self res) :
    res.mulResults = self.mulResults := by
  rcases h with rfl | ⟨-, -, -, -, -, -, -, rfl⟩ <;> rfl

def Interpolates (env : RelayEnv) (c : CurveId) (self : StoredMultResult) (b : Bytes) : Prop :=
  ∃ points point, (self.mulResults.mapM fun e => (env.curve c).fromEncoded e.2) = .ok points ∧
    (thresholdUnchecked points (self.mulResults.map Prod.fst) : Outcome Empty (env.curve c).Point) = .ok point ∧
    (env.curve c).encode point = some b

theorem Interpolates.verifies {c : CurveId} {t : ℕ} {self : StoredMultResult} {b : Bytes} (h : Interpolates env c self b)
    (ht : t ≤ self.numNodes) : Verifies env c t self { self with reconstructedPoint := some b } := by
  obtain ⟨points, point, hpoints, hpoint, hb⟩ := h
  exact .inr ⟨ht, points, point, b, hpoints, hpoint, hb, rfl⟩

theorem StoredMultResult.processVerification_eq_ok {c : CurveId} {self : StoredMultResult} {data : RequestRecord}
    {requestId requestHash : String} {redis : RedisReply} {s s' : Relay} {effects : List (Effect env)}
    (h : self.processVerification env c data requestId requestHash redis s = .ok (s', effects)) :
    s' = s ∧ effects = [] ∧ ¬ (s.t ≤ self.numNodes ∧ ∃ b, Interpolates env c self b) ∨
      s.t ≤ self.numNodes ∧ ∃ b pubsubCache published, Interpolates env c self b ∧
      (∀ request, .batch request ∉ published) ∧
      s' = (initiateBatch env requestHash redis { s with
        resCache := s.resCache.insert requestId { self with reconstructedPoint := some b }
        reqCache := s.reqCache.insert requestId { data with status := .verified }
        pubsubCache := pubsubCache }).1 ∧
      effects = published ++ (initiateBatch env requestHash redis { s with
        resCache := s.resCache.insert requestId { self with reconstructedPoint := some b }
        reqCache := s.reqCache.insert requestId { data with status := .verified }
        pubsubCache := pubsubCache }).2 := by
  unfold processVerification at h
  split at h
  next ht =>
    rw [bind_eq_ok] at h
    obtain ⟨points, hpoints, h⟩ := h
    cases points with
    | none =>
      obtain ⟨rfl, rfl⟩ := Prod.mk.inj (Except.ok.inj h)
      refine .inl ⟨rfl, rfl, fun ⟨_, b, points, point, hpoints', _⟩ => ?_⟩
      rw [toOption_eq_some.2 hpoints'] at hpoints
      cases hpoints
    | some points =>
      rw [toOption_eq_some] at hpoints
      simp only [bind_eq_ok, unwrap_eq_ok] at h
      obtain ⟨point, hpoint, b, hb, ⟨mid, published⟩, hmid, h⟩ := h
      obtain ⟨⟨pubsubCache, rfl⟩, hpublished⟩ := publishReconstructed_eq hmid
      obtain ⟨rfl, rfl⟩ := Prod.mk.inj (Except.ok.inj h)
      exact .inr ⟨ht, b, pubsubCache, published, ⟨points, point, hpoints, hpoint, hb⟩, hpublished, rfl, rfl⟩
  next ht =>
    obtain ⟨rfl, rfl⟩ := Prod.mk.inj (Except.ok.inj h)
    exact .inl ⟨rfl, rfl, fun h => ht h.1⟩

theorem StoredMultResult.processVerification_below {c : CurveId} {self : StoredMultResult} {data : RequestRecord}
    {requestId requestHash : String} {redis : RedisReply} {s : Relay} (h : self.numNodes < s.t) :
    self.processVerification env c data requestId requestHash redis s = .ok (s, []) :=
  if_neg (Nat.not_le.2 h)

theorem StoredMultResult.processVerification_reaches {c : CurveId} {self : StoredMultResult} {data : RequestRecord}
    {requestId requestHash : String} {redis : RedisReply} {s : Relay} {points : List (env.curve c).Point}
    {point : (env.curve c).Point} {b : Bytes} (ht : s.t ≤ self.numNodes)
    (hpoints : (self.mulResults.mapM fun e => (env.curve c).fromEncoded e.2) = .ok points)
    (hpoint : (thresholdUnchecked points (self.mulResults.map Prod.fst) : Outcome Empty _) = .ok point)
    (hb : (env.curve c).encode point = some b) (hpubsub : s.pubsubCache.containsKey requestId = false) :
    ∃ s' effects, self.processVerification env c data requestId requestHash redis s = .ok (s', effects) ∧
      s'.resCache.get? requestId = some { self with reconstructedPoint := some b } := by
  unfold processVerification
  rw [if_pos ht, toOption_eq_some.2 hpoints, bind_ok]
  dsimp only
  rw [hpoint, bind_ok, hb, unwrap, bind_ok, publishReconstructed_of_not_mem, bind_ok]
  swap
  · exact hpubsub
  refine ⟨_, _, rfl, ?_⟩
  obtain ⟨batchCache, entries, hbatch⟩ := initiateBatch_eq env requestHash redis { s with
    resCache := s.resCache.insert requestId { self with reconstructedPoint := some b }
    reqCache := s.reqCache.insert requestId { data with status := .verified } }
  rw [hbatch]
  exact HMap.get?_insert_self _ _ _

/-! ### The message of a prover -/

/-- The proof of a message verifies: the relay has the request, and a key of the sender for the method that
the message names. -/
structure Accepted (env : RelayEnv) (s : Relay) (c : CurveId) (peerId : PeerId) (requestId : String)
    (proof : DLEQProof (env.curve c)) (method : Method) (P out : (env.curve c).Point) : Prop where
  request : ∃ r, s.requestOf requestId = some r ∧ (env.curve c).fromEncoded r.point = .ok P
  verifies : ∃ key K, s.keyOf peerId method = some key ∧ (env.curve c).fromEncoded key = .ok K ∧
    proof.verifyAndGetOutput env.hs K P = .ok out

def Adds (env : RelayEnv) (s : Relay) (c : CurveId) (nodeIdx : ℕ) (peerId : PeerId) (requestId : String)
    (proof : DLEQProof (env.curve c)) (method : Method) (s' : Relay) : Prop :=
  ∃ P out b res, Accepted env s c peerId requestId proof method P out ∧ (env.curve c).encode out = some b ∧
    Verifies env c s.t ((s.collection c requestId).push nodeIdx b) res ∧
    ∀ id, s'.resCache.get? id = if id = requestId then some res else s.resCache.get? id

/-- The hash under which a request has its entry in Redis, and is batched. -/
def requestHash (env : RelayEnv) (request : RequestToNetwork) : Option String :=
  (env.serializeRequest request).map fun bytes => hexEncode (env.hs.hash256 bytes)

def Relay.entryWith (s : Relay) (hash : String) (request : RequestToNetwork) (proof : String × String × String × String) :
    RequestToNetworkWithProofs :=
  match s.redis.get? hash with
  | some existing => { existing with proofs := existing.proofs ++ [proof] }
  | none => { base := request, proofs := [proof] }

section ProofStep
variable (env) (s : Relay) (c : CurveId) (nodeIdx : ℕ) (peerId : PeerId) (requestId : String)
  (proof : DLEQProof (env.curve c)) (method : Method)

structure Counts (data : RequestRecord) (collection : StoredMultResult) : Prop where
  request : s.reqCache.get? requestId = some data
  product : ∃ P out b, Accepted env s c peerId requestId proof method P out ∧ (env.curve c).encode out = some b ∧
    collection = (s.collection c requestId).push nodeIdx b

def Completes (redis : RedisReply) (collection : StoredMultResult) : Prop :=
  (redis.get = true ∧ redis.set = true) ∧ s.t ≤ collection.numNodes ∧ ∃ b, Interpolates env c collection b

/-- What the message of a prover does. -/
inductive ProofStep (redis : RedisReply) : Relay → List (Effect env) → Prop
  | ignored (rejected : ∀ P out, ¬ Accepted env s c peerId requestId proof method P out) : ProofStep redis s []
  | unserialized {data : RequestRecord} {collection : StoredMultResult}
      (counts : Counts env s c nodeIdx peerId requestId proof method data collection)
      (unserialized : env.serializeProof c proof = none ∨ requestHash env data.request = none) :
      ProofStep redis { s with resCache := s.resCache.insert requestId collection } []
  | batched {data : RequestRecord} {collection : StoredMultResult} {hash : String}
      (counts : Counts env s c nodeIdx peerId requestId proof method data collection)
      (serialized : env.serializeProof c proof ≠ none) (hashed : requestHash env data.request = some hash)
      (batched : s.batchCache.containsKey hash = true) :
      ProofStep redis { s with
        resCache := s.resCache.insert requestId collection
        reqCache := s.reqCache.insert requestId { data with status := .verified } } []
  | constructed {data : RequestRecord} {collection : StoredMultResult} {hash : String}
      {entries : HMap String RequestToNetworkWithProofs}
      (counts : Counts env s c nodeIdx peerId requestId proof method data collection)
      (serialized : env.serializeProof c proof ≠ none) (hashed : requestHash env data.request = some hash)
      (unbatched : s.batchCache.containsKey hash = false) (incomplete : ¬ Completes env s c redis collection)
      (stored : entries = s.redis ∨ ∃ p, entries = s.redis.insert hash (s.entryWith hash data.request p)) :
      ProofStep redis { s with
        resCache := s.resCache.insert requestId collection
        reqCache := s.reqCache.insert requestId { data with status := .constructedProof }
        redis := entries } []
  | verified {data : RequestRecord} {collection : StoredMultResult} {hash : String} {b : Bytes}
      {p : String × String × String × String} {pubsubCache : HMap String Unit} {published : List (Effect env)}
      (counts : Counts env s c nodeIdx peerId requestId proof method data collection)
      (serialized : env.serializeProof c proof ≠ none) (hashed : requestHash env data.request = some hash)
      (unbatched : s.batchCache.containsKey hash = false) (replies : redis.get = true ∧ redis.set = true)
      (enough : s.t ≤ collection.numNodes) (interpolates : Interpolates env c collection b)
      (published_not_batch : ∀ request, .batch request ∉ published) :
      ProofStep redis { s with
          resCache := s.resCache.insert requestId { collection with reconstructedPoint := some b }
          reqCache := s.reqCache.insert requestId { data with status := .verified }
          pubsubCache := pubsubCache
          batchCache := s.batchCache.insert hash ()
          redis := if redis.del then (s.redis.insert hash (s.entryWith hash data.request p)).remove hash
            else s.redis.insert hash (s.entryWith hash data.request p) }
        (published ++ if redis.rpush then [.batch (s.entryWith hash data.request p)] else [])

end ProofStep

section inversion
variable {c : CurveId} {s s' : Relay} {nodeIdx : ℕ} {peerId : PeerId} {requestId : String}
  {proof : DLEQProof (env.curve c)} {method : Method} {redis : RedisReply} {effects : List (Effect env)}

theorem storeProof_step {data : RequestRecord} {collection : StoredMultResult} {K P : (env.curve c).Point}
    (hcounts : Counts env s c nodeIdx peerId requestId proof method data collection)
    (h : storeProof env c collection data requestId proof K P peerId redis
      { s with resCache := s.resCache.insert requestId collection } = .ok (s', effects)) :
    ProofStep env s c nodeIdx peerId requestId proof method redis s' effects := by
  unfold storeProof at h
  split at h
  case h_2 hproof =>
    obtain ⟨rfl, rfl⟩ := Prod.mk.inj (Except.ok.inj h)
    exact .unserialized hcounts (.inl (Option.eq_none_iff_forall_ne_some.2 hproof))
  next serializedProof hproof =>
  have hserialized : env.serializeProof c proof ≠ none := by rw [hproof]; simp
  split at h
  case h_2 hrequest =>
    obtain ⟨rfl, rfl⟩ := Prod.mk.inj (Except.ok.inj h)
    exact .unserialized hcounts (.inr (Option.map_eq_none_iff.2 (Option.eq_none_iff_forall_ne_some.2 hrequest)))
  next bytes hbytes =>
  have hhash : requestHash env data.request = some (hexEncode (env.hs.hash256 bytes)) := by
    rw [requestHash, hbytes]; rfl
  dsimp only at h
  split at h
  next hbatched =>
    obtain ⟨rfl, rfl⟩ := Prod.mk.inj (Except.ok.inj h)
    exact .batched hcounts hserialized hhash hbatched
  next hunbatched =>
  rw [Bool.not_eq_true] at hunbatched
  split at h
  next hget =>
    obtain ⟨rfl, rfl⟩ := Prod.mk.inj (Except.ok.inj h)
    exact .constructed hcounts hserialized hhash hunbatched (fun hc => hget hc.1.1) (.inl rfl)
  next hget =>
  simp only [bind_eq_ok] at h
  obtain ⟨encodedKey, -, encodedPoint, -, h⟩ := h
  split at h
  next hset =>
    obtain ⟨rfl, rfl⟩ := Prod.mk.inj (Except.ok.inj h)
    exact .constructed hcounts hserialized hhash hunbatched (fun hc => hset hc.1.2) (.inl rfl)
  next hset =>
  rw [not_not] at hget hset
  rcases StoredMultResult.processVerification_eq_ok h with
    ⟨rfl, rfl, hincomplete⟩ | ⟨ht, b, pubsubCache, published, hb, hpub, rfl, rfl⟩
  · exact .constructed hcounts hserialized hhash hunbatched (fun hc => hincomplete hc.2) (.inr ⟨_, rfl⟩)
  · rw [HMap.insert_insert, HMap.insert_insert, initiateBatch_of_not_mem env redis ?unbatched ?entry]
    case unbatched => exact hunbatched
    case entry => exact HMap.get?_insert_self _ _ _
    exact @ProofStep.verified env s c nodeIdx peerId requestId proof method redis data collection _ b _ pubsubCache
      published hcounts hserialized hhash hunbatched ⟨hget, hset⟩ ht hb hpub

theorem accepted_iff {request : RequestToNetwork} {key : Bytes} {P out : (env.curve c).Point}
    (hrequest : s.requestOf requestId = some request) (hkey : s.keyOf peerId method = some key) :
    Accepted env s c peerId requestId proof method P out ↔ (env.curve c).fromEncoded request.point = .ok P ∧
      ∃ K, (env.curve c).fromEncoded key = .ok K ∧ proof.verifyAndGetOutput env.hs K P = .ok out := by
  constructor
  · rintro ⟨⟨r, hr, hP⟩, key', K, hkey', hK, hout⟩
    obtain rfl := Option.some.inj (hrequest.symm.trans hr)
    obtain rfl := Option.some.inj (hkey.symm.trans hkey')
    exact ⟨hP, K, hK, hout⟩
  · rintro ⟨hP, K, hK, hout⟩
    exact ⟨⟨request, hrequest, hP⟩, key, K, hkey, hK, hout⟩

theorem processReceivedProof_step
    (h : processReceivedProof env c s nodeIdx peerId requestId proof method redis = .ok (s', effects)) :
    ProofStep env s c nodeIdx peerId requestId proof method redis s' effects := by
  have hignored : (∀ P out, ¬ Accepted env s c peerId requestId proof method P out) →
      (Except.ok (s, []) : Outcome Empty (Relay × List (Effect env))) = .ok (s', effects) →
      ProofStep env s c nodeIdx peerId requestId proof method redis s' effects := by
    intro hrejected h
    obtain ⟨rfl, rfl⟩ := Prod.mk.inj (Except.ok.inj h)
    exact .ignored hrejected
  unfold processReceivedProof at h
  split at h
  case h_2 hdata =>
    refine hignored (fun P out hacc => ?_) h
    obtain ⟨r, hr, -⟩ := hacc.request
    obtain ⟨data, hdata', -⟩ := Option.map_eq_some_iff.1 hr
    exact hdata data hdata'
  next data hdata =>
  split at h
  case h_2 hshares =>
    refine hignored (fun P out hacc => ?_) h
    obtain ⟨key, K, hkey, -⟩ := hacc.verifies
    obtain ⟨shares, hshares', -⟩ := Option.bind_eq_some_iff.1 hkey
    exact hshares shares hshares'
  next shares hshares =>
  have hrequest : s.requestOf requestId = some data.request := by rw [Relay.requestOf, hdata, Option.map_some]
  have hkeyOf : s.keyOf peerId method = shares.get? method.keyName := by rw [Relay.keyOf, hshares, Option.bind_some]
  split at h
  case h_2 hkey =>
    refine hignored (fun P out hacc => ?_) h
    obtain ⟨key, K, hkey', -⟩ := hacc.verifies
    exact hkey key (hkeyOf.symm.trans hkey')
  next key hkey =>
  rw [hkey] at hkeyOf
  rw [bind_eq_ok] at h
  obtain ⟨P?, hP, h⟩ := h
  split at h
  case h_2 hnone => exact hignored (fun P out hacc => ne_ok_of_toOption hP hnone P ((accepted_iff hrequest hkeyOf).1 hacc).1) h
  next P =>
  rw [bind_eq_ok] at h
  obtain ⟨K?, hK, h⟩ := h
  split at h
  case h_2 hnone =>
    refine hignored (fun P out hacc => ?_) h
    obtain ⟨-, K, hK', -⟩ := (accepted_iff hrequest hkeyOf).1 hacc
    exact ne_ok_of_toOption hK hnone K hK'
  next K =>
  rw [bind_eq_ok] at h
  obtain ⟨out?, hout, h⟩ := h
  rw [toOption_eq_some] at hP hK
  split at h
  case h_2 hnone =>
    refine hignored (fun P' out hacc => ?_) h
    obtain ⟨hP', K', hK', hout'⟩ := (accepted_iff hrequest hkeyOf).1 hacc
    obtain rfl := Except.ok.inj (hP.symm.trans hP')
    obtain rfl := Except.ok.inj (hK.symm.trans hK')
    exact ne_ok_of_toOption hout hnone out hout'
  next out =>
  simp only [bind_eq_ok, unwrap_eq_ok] at h
  obtain ⟨b, hb, h⟩ := h
  rw [toOption_eq_some] at hout
  exact storeProof_step ⟨hdata, P, out, b, (accepted_iff hrequest hkeyOf).2 ⟨hP, K, hK, hout⟩, hb, rfl⟩ h

end inversion

/-! ### What follows for the collections and the requests -/

namespace ProofStep
variable {c : CurveId} {s s' : Relay} {nodeIdx : ℕ} {peerId : PeerId} {requestId : String}
  {proof : DLEQProof (env.curve c)} {method : Method} {redis : RedisReply} {effects : List (Effect env)}
  (h : ProofStep env s c nodeIdx peerId requestId proof method redis s' effects)
include h

theorem keeps : Keeps s s' := by
  cases h with
  | ignored => exact .refl s
  | unserialized => exact ⟨rfl, rfl, fun _ => rfl⟩
  | batched counts | constructed counts | verified counts => exact keeps_of_insert counts.request rfl rfl rfl

theorem adds : s'.resCache = s.resCache ∨ Adds env s c nodeIdx peerId requestId proof method s' := by
  have hadds : ∀ {data collection res}, Counts env s c nodeIdx peerId requestId proof method data collection →
      Verifies env c s.t collection res → s'.resCache = s.resCache.insert requestId res →
      Adds env s c nodeIdx peerId requestId proof method s' := by
    rintro data collection res ⟨-, P, out, b, hacc, hb, rfl⟩ hres heq
    exact ⟨P, out, b, res, hacc, hb, hres, fun id => by rw [heq, HMap.get?_insert]⟩
  cases h with
  | ignored => exact .inl rfl
  | unserialized counts | batched counts | constructed counts => exact .inr (hadds counts (.inl rfl) rfl)
  | verified counts _ _ _ _ enough interpolates => exact .inr (hadds counts (interpolates.verifies enough) rfl)

end ProofStep

theorem processReceivedProof_cases {c : CurveId} {s s' : Relay} {nodeIdx : ℕ} {peerId : PeerId} {requestId : String}
    {proof : DLEQProof (env.curve c)} {method : Method} {redis : RedisReply} {effects : List (Effect env)}
    (h : processReceivedProof env c s nodeIdx peerId requestId proof method redis = .ok (s', effects)) :
    Keeps s s' ∧ ((∀ id, s'.resCache.get? id = s.resCache.get? id) ∨
      Adds env s c nodeIdx peerId requestId proof method s') := by
  have hstep := processReceivedProof_step h
  exact ⟨hstep.keeps, hstep.adds.imp_left fun hres id => by rw [hres]⟩

/-! ### What the message of a prover leaves alone -/

def Relay.withoutCaches (s : Relay) : Relay :=
  { s with reqCache := ∅, resCache := ∅, batchCache := ∅, pubsubCache := ∅, redis := ∅ }

theorem withoutCaches_of_processReceivedProof {c : CurveId} {s s' : Relay} {nodeIdx : ℕ} {peerId : PeerId}
    {requestId : String} {proof : DLEQProof (env.curve c)} {method : Method} {redis : RedisReply}
    {effects : List (Effect env)}
    (h : processReceivedProof env c s nodeIdx peerId requestId proof method redis = .ok (s', effects)) :
    s'.withoutCaches = s.withoutCaches := by
  cases processReceivedProof_step h <;> rfl

/-! ### One step -/

def Relay.Step (env : RelayEnv) (s : Relay) (e : Event env) (s' : Relay) : Prop :=
  ∃ effects, handle env s e = .ok (s', effects)

theorem Relay.Step.eq {s s' after : Relay} {e : Event env} {effects : List (Effect env)} (h : Relay.Step env s e s')
    (hafter : handle env s e = .ok (after, effects)) : s' = after := by
  obtain ⟨effects', h⟩ := h
  exact (Prod.mk.inj (Except.ok.inj (h.symm.trans hafter))).1

/-! ### The messages about ksets -/

def proverIds (provers : List ProverInfo) : Finset PeerId := (provers.map ProverInfo.peerId).toFinset

theorem any_peerId_iff {provers : List ProverInfo} {peerId : PeerId} :
    (provers.any fun prover => prover.peerId = peerId) = true ↔ peerId ∈ proverIds provers := by
  simp [proverIds]

namespace Relay
variable (s : Relay) (peerId : PeerId) (shares : PubkeyShares) (idx : ℕ) (keys : HMap String Bytes)

def acceptsKset : Bool :=
  (s.activeProvers.any fun prover => prover.peerId = peerId) && checkMemoryUsage shares 100 && checkMemoryUsage keys 200

def acceptsResharingKset : Bool :=
  checkMemoryUsage shares 100 && s.newCachedElectedProvers.any fun prover => prover.peerId = peerId

/-- The kset makes the newly elected provers the active ones. -/
def switches : Bool := s.acceptsResharingKset peerId shares && (insert idx s.readyNodes).card % 2 ^ 32 = s.n

variable {s peerId shares idx keys}

theorem mem_of_acceptsKset (h : s.acceptsKset peerId shares keys = true) : peerId ∈ proverIds s.activeProvers := by
  simp only [acceptsKset, Bool.and_eq_true] at h
  exact any_peerId_iff.1 h.1.1

theorem mem_of_acceptsResharingKset (h : s.acceptsResharingKset peerId shares = true) :
    peerId ∈ proverIds s.newCachedElectedProvers := by
  rw [acceptsResharingKset, Bool.and_eq_true] at h
  exact any_peerId_iff.1 h.2

end Relay

section handlers
variable (s : Relay) (peerId : PeerId) (shares : PubkeyShares) (idx : ℕ) (keys : HMap String Bytes)

theorem storeKset_eq : storeKset peerId shares idx keys s =
    if s.acceptsKset peerId shares keys then
      { s with pubkeyShares := s.pubkeyShares.insert peerId shares, readyNodes := insert idx s.readyNodes }
    else s := by
  unfold storeKset Relay.acceptsKset
  cases s.activeProvers.any fun prover => prover.peerId = peerId
  · rfl
  cases checkMemoryUsage shares 100
  · rfl
  cases checkMemoryUsage keys 200 <;> rfl

theorem storeResharingKset_eq : storeResharingKset peerId shares idx s =
    if s.acceptsResharingKset peerId shares then
      { s with
        pubkeyShares := s.pubkeyShares.insert peerId shares
        readyNodes := insert idx s.readyNodes
        activeProvers := if s.switches peerId shares idx then s.newCachedElectedProvers else s.activeProvers }
    else s := by
  unfold storeResharingKset Relay.switches Relay.acceptsResharingKset
  cases checkMemoryUsage shares 100
  · rfl
  cases s.newCachedElectedProvers.any fun prover => prover.peerId = peerId
  · rfl
  by_cases hcard : (insert idx s.readyNodes).card % 2 ^ 32 = s.n
  · rw [decide_eq_true hcard]
    exact if_pos hcard
  · rw [decide_eq_false hcard]
    exact if_neg hcard

end handlers

/-! ### What a message leaves alone -/

section frames
variable (s : Relay)

theorem storeKset_caches (peerId : PeerId) (shares : PubkeyShares) (idx : ℕ) (keys : HMap String Bytes) :
    (storeKset peerId shares idx keys s).resCache = s.resCache ∧
      (storeKset peerId shares idx keys s).reqCache = s.reqCache := by
  rw [storeKset_eq]
  split <;> exact ⟨rfl, rfl⟩

theorem storeResharingKset_caches (peerId : PeerId) (shares : PubkeyShares) (idx : ℕ) :
    (storeResharingKset peerId shares idx s).resCache = s.resCache ∧
      (storeResharingKset peerId shares idx s).reqCache = s.reqCache := by
  rw [storeResharingKset_eq]
  split <;> exact ⟨rfl, rfl⟩

theorem storeResharingKset_of_elected (peerId : PeerId) {shares : PubkeyShares} (idx : ℕ)
    (hmemory : checkMemoryUsage shares 100 = true)
    (helected : (s.newCachedElectedProvers.any fun prover => prover.peerId = peerId) = true) :
    ∃ activeProvers, storeResharingKset peerId shares idx s = { s with
      pubkeyShares := s.pubkeyShares.insert peerId shares, readyNodes := insert idx s.readyNodes
      activeProvers := activeProvers } := by
  have haccepts : s.acceptsResharingKset peerId shares = true := by
    rw [Relay.acceptsResharingKset, hmemory, helected]
    rfl
  rw [storeResharingKset_eq, if_pos haccepts]
  exact ⟨_, rfl⟩

theorem updateElectedProvers_eq (provers : List ProverInfo) (isCacheProver : Bool) :
    ∃ cached active, updateElectedProvers provers isCacheProver s =
      { s with newCachedElectedProvers := cached, activeProvers := active } := by
  unfold updateElectedProvers
  split
  · exact ⟨_, s.activeProvers, rfl⟩
  · exact ⟨s.newCachedElectedProvers, _, rfl⟩

theorem pingIfShort_eq (ping : Option (Finset ℕ)) :
    ∃ readyNodes, pingIfShort s ping = { s with readyNodes := readyNodes } := by
  unfold pingIfShort
  split
  · exact ⟨_, rfl⟩
  · exact ⟨s.readyNodes, rfl⟩

variable (env) in
theorem handleMultiplicationRequest_cases (request : RequestToNetwork) (requestId : String) (reply : MulRequestReply) :
    ∃ reqCache effect,
      (reqCache = s.reqCache ∨ reqCache = s.reqCache.orInsert requestId ⟨request, .submitted⟩) ∧
      ((∃ response, effect = .publish requestId response) ∨ effect = .forward requestId request) ∧
      handleMultiplicationRequest env s request requestId reply = ({ s with
        readyNodes := (pingIfShort s reply.ping).readyNodes, pubsubCache := s.pubsubCache.insert requestId (),
        reqCache := reqCache }, [effect]) := by
  obtain ⟨readyNodes, hping⟩ := pingIfShort_eq s reply.ping
  unfold handleMultiplicationRequest
  rw [hping]
  dsimp only
  split
  · exact ⟨_, _, .inl rfl, .inl ⟨_, rfl⟩, rfl⟩
  split
  · exact ⟨_, _, .inl rfl, .inl ⟨_, rfl⟩, rfl⟩
  split
  · exact ⟨_, _, .inl rfl, .inl ⟨_, rfl⟩, rfl⟩
  · exact ⟨_, _, .inr rfl, .inr rfl, rfl⟩

variable {s}

theorem requestOf_orInsert {s' : Relay} {requestId id : String} {request r : RequestToNetwork} {status : TxState}
    (h : s'.reqCache = s.reqCache.orInsert requestId ⟨request, status⟩) (hr : s'.requestOf id = some r) :
    s.requestOf id = some r ∨ id = requestId ∧ r = request := by
  rw [Relay.requestOf, h, HMap.get?_orInsert] at hr
  split at hr
  next hid =>
    subst hid
    cases hold : s.reqCache.get? id with
    | none =>
      rw [hold] at hr
      exact .inr ⟨rfl, (Option.some.inj hr).symm⟩
    | some data =>
      rw [hold] at hr
      exact .inl (by rw [Relay.requestOf, hold]; exact hr)
  next => exact .inl hr

theorem resCache_of_expire {cache : Cache} {key id : String} {res : StoredMultResult}
    (h : (expire cache key s).resCache.get? id = some res) : s.resCache.get? id = some res := by
  cases cache with
  | res => exact HMap.get?_of_remove h
  | _ => exact h

theorem requestOf_of_expire {cache : Cache} {key id : String} {r : RequestToNetwork}
    (h : (expire cache key s).requestOf id = some r) : s.requestOf id = some r := by
  cases cache with
  | req =>
    obtain ⟨data, hdata, hr⟩ := Option.map_eq_some_iff.1 h
    exact Option.map_eq_some_iff.2 ⟨data, HMap.get?_of_remove hdata, hr⟩
  | _ => exact h

end frames

def Event.isTraffic : Event env → Bool
  | .processReceivedProof .. | .mulRequest .. | .storeKSet .. | .resharingStoreKSet .. | .expire .. => true
  | _ => false

/-- What these messages leave alone. -/
def Relay.setup (s : Relay) : Relay := { s.withoutCaches with pubkeyShares := ∅, readyNodes := ∅, activeProvers := [] }

theorem Relay.Step.setup {s s' : Relay} {e : Event env} (h : Relay.Step env s e s') (he : e.isTraffic) :
    s'.setup = s.setup := by
  cases e with
  | processReceivedProof c nodeIdx peerId requestId proof method redis =>
    obtain ⟨effects, h⟩ := h
    rw [Relay.setup, withoutCaches_of_processReceivedProof h]
    rfl
  | mulRequest request requestId reply =>
    obtain ⟨reqCache, effect, -, -, heq⟩ := handleMultiplicationRequest_cases env s request requestId reply
    obtain rfl := (h.eq rfl).trans (congrArg Prod.fst heq)
    rfl
  | storeKSet peerId shares idx keys =>
    obtain rfl := h.eq rfl
    rw [storeKset_eq]
    split <;> rfl
  | resharingStoreKSet peerId shares idx =>
    obtain rfl := h.eq rfl
    rw [storeResharingKset_eq]
    split <;> rfl
  | expire cache key =>
    obtain rfl := h.eq rfl
    cases cache <;> rfl
  | _ => cases he

/-- The messages that leave the provers' keys and the threshold alone. -/
def Event.fixesQuorum : Event env → Bool
  | .updatedThreshold _ | .storeKSet .. | .resharingStoreKSet .. | .clearShares | .rollbackToPreviousState .. => false
  | _ => true

theorem Relay.Step.quorum {s s' : Relay} {e : Event env} (h : Relay.Step env s e s') (he : e.fixesQuorum) :
    s'.pubkeyShares = s.pubkeyShares ∧ s'.t = s.t := by
  obtain ⟨effects, h⟩ := h
  cases e with
  | processReceivedProof c nodeIdx peerId requestId proof method redis =>
    have hkeeps := (processReceivedProof_cases h).1
    exact ⟨hkeeps.pubkeyShares, hkeeps.t⟩
  | mulRequest request requestId reply =>
    obtain ⟨reqCache, effect, -, -, heq⟩ := handleMultiplicationRequest_cases env s request requestId reply
    obtain ⟨rfl, -⟩ := Prod.mk.inj (heq.symm.trans (Except.ok.inj h))
    exact ⟨rfl, rfl⟩
  | updateElectedProvers provers isCacheProver =>
    obtain ⟨cached, active, heq⟩ := updateElectedProvers_eq s provers isCacheProver
    obtain rfl := heq.symm.trans (congrArg Prod.fst (Except.ok.inj h))
    exact ⟨rfl, rfl⟩
  | expire cache key =>
    obtain ⟨rfl, -⟩ := Prod.mk.inj (Except.ok.inj h)
    cases cache <;> exact ⟨rfl, rfl⟩
  | storeQuorumMap _ _ | updateCachedProversMap _ | saveCurrentState _ | backupState _ =>
    obtain ⟨rfl, -⟩ := Prod.mk.inj (Except.ok.inj h)
    exact ⟨rfl, rfl⟩
  | _ => cases he

/-- What a step can do to the collections: a message of a prover adds to one. Else they stay, or expire,
and a request is one that was there or the one of the message. -/
theorem Relay.Step.cases {s s' : Relay} {e : Event env} (h : Relay.Step env s e s') :
    (∃ c nodeIdx peerId requestId proof method redis,
      e = .processReceivedProof c nodeIdx peerId requestId proof method redis ∧ Keeps s s' ∧
        Adds env s c nodeIdx peerId requestId proof method s') ∨
    (∀ id res, s'.resCache.get? id = some res → s.resCache.get? id = some res) ∧
      ∀ id r, s'.requestOf id = some r → s.requestOf id = some r ∨ ∃ reply, e = .mulRequest r id reply := by
  obtain ⟨effects, h⟩ := h
  have hcaches : ∀ {s' : Relay}, s'.resCache = s.resCache ∧ s'.reqCache = s.reqCache →
      (∀ id res, s'.resCache.get? id = some res → s.resCache.get? id = some res) ∧
      ∀ id r, s'.requestOf id = some r → s.requestOf id = some r ∨ ∃ reply, e = .mulRequest r id reply := by
    rintro s' ⟨hres, hreq⟩
    refine ⟨fun id res h => ?_, fun id r h => .inl ?_⟩
    · rwa [hres] at h
    · rwa [requestOf, hreq] at h
  cases e with
  | processReceivedProof c nodeIdx peerId requestId proof method redis =>
    obtain ⟨hkeeps, hsame | hadds⟩ := processReceivedProof_cases h
    · refine .inr ⟨fun id res h => ?_, fun id r h => .inl ?_⟩
      · rwa [hsame] at h
      · rwa [hkeeps.requestOf] at h
    · exact .inl ⟨c, nodeIdx, peerId, requestId, proof, method, redis, rfl, hkeeps, hadds⟩
  | mulRequest request requestId reply =>
    obtain ⟨reqCache, effect, hreq, -, heq⟩ := handleMultiplicationRequest_cases env s request requestId reply
    obtain ⟨rfl, -⟩ := Prod.mk.inj (heq.symm.trans (Except.ok.inj h))
    rcases hreq with rfl | rfl
    · exact .inr (hcaches ⟨rfl, rfl⟩)
    refine .inr ⟨fun id res h => h, fun id r hr => ?_⟩
    rcases requestOf_orInsert rfl hr with hold | ⟨rfl, rfl⟩
    · exact .inl hold
    · exact .inr ⟨reply, rfl⟩
  | expire cache key =>
    obtain ⟨rfl, -⟩ := Prod.mk.inj (Except.ok.inj h)
    exact .inr ⟨fun _ _ => resCache_of_expire, fun _ _ hr => .inl (requestOf_of_expire hr)⟩
  | storeKSet peerId shares idx keys =>
    obtain ⟨rfl, -⟩ := Prod.mk.inj (Except.ok.inj h)
    exact .inr (hcaches (storeKset_caches s peerId shares idx keys))
  | resharingStoreKSet peerId shares idx =>
    obtain ⟨rfl, -⟩ := Prod.mk.inj (Except.ok.inj h)
    exact .inr (hcaches (storeResharingKset_caches s peerId shares idx))
  | updateElectedProvers provers isCacheProver =>
    obtain ⟨rfl, -⟩ := Prod.mk.inj (Except.ok.inj h)
    obtain ⟨cached, active, heq⟩ := updateElectedProvers_eq s provers isCacheProver
    exact .inr (hcaches (by rw [heq]; exact ⟨rfl, rfl⟩))
  | _ =>
    obtain ⟨rfl, -⟩ := Prod.mk.inj (Except.ok.inj h)
    exact .inr (hcaches ⟨rfl, rfl⟩)

end HumanNetwork
