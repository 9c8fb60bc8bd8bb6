import HumanNetwork.RelayIntegrity
import HumanNetwork.Accounting

/-!
# Requests with the status `Verified`

A request becomes `Verified` when its products are interpolated, and then its result is stored. It also becomes
`Verified` with the first accepted proof when its hash is in the batch cache already, whatever is stored under its id.
And when the hash has expired there, the next accepted proof takes a `Verified` request back to `ConstructedProof`.
`Relay.Harmless` excludes the two, and that the result of a `Verified` request expires; `verified_answerable_iff` says
that these are the only ways to a `Verified` request without a result or to an earlier status. While nothing expires,
what remains is `Premature`: a request with the same bytes as one that is verified, under another id.
-/

namespace HumanNetwork
open Outcome

variable {env : RelayEnv}

/-! ### Answers -/

/-- The response of `fetch_reconstructed_point`. -/
def fetchReconstructedPoint (env : RelayEnv) (state : Relay) (requestId : String) : Outcome Empty (NodeResponse env) :=
  match state.reqCache.get? requestId with
  | some status =>
    if status.status = .verified then
      match state.resCache.get? requestId with
      | some r =>
        match r.reconstructedPoint with
        | some point =>
          if r.curve = CurveId.name .secp256k1 then do
            let decoded ← toOption ((env.curve .secp256k1).fromEncoded point)
            let decoded ← unwrap decoded "Invalid point encoding"
            pure (.verifiedProofSecp256k1 requestId decoded)
          else if r.curve = CurveId.name .babyJubJub then do
            let (greatest, y) ← unwrap (CurveId.readCompressed .babyJubJub point) "Invalid point encoding"
            pure (.verifiedProofBabyJubJub requestId greatest y)
          else
            let curve := r.curve
            pure (.error requestId s!"Error: Curve '{curve}' not recognized")
        | none => pure (.error requestId "Error: Point is not reconstructed")
      | none => pure (.error requestId "Internal server error")
    else pure (.error requestId "Not yet verified")
  | none => pure (.error requestId "Request ID not found")

namespace Relay

def IsVerified (s : Relay) (id : String) : Prop := ∃ data, s.reqCache.get? id = some data ∧ data.status = .verified

def pointOf (s : Relay) (id : String) : Option Bytes := (s.resCache.get? id).bind StoredMultResult.reconstructedPoint

def hashOf (env : RelayEnv) (s : Relay) (id : String) : Option String := (s.requestOf id).bind (requestHash env)

def Answerable (s : Relay) : Prop := ∀ id, s.IsVerified id → ∃ b, s.pointOf id = some b

end Relay

/-! ### What a step does to the statuses and the points -/

section insert
variable {s s' : Relay} {id : String} {data : RequestRecord} {status : TxState}

theorem isVerified_insert (h : s'.reqCache = s.reqCache.insert id { data with status := status }) (id' : String) :
    s'.IsVerified id' ↔ if id' = id then status = .verified else s.IsVerified id' := by
  rw [Relay.IsVerified, h, HMap.get?_insert]
  split
  next => simp
  next => exact Iff.rfl

theorem Relay.IsVerified.insert {id' : String} (hid : s.IsVerified id')
    (h : s'.reqCache = s.reqCache.insert id { data with status := .verified }) : s'.IsVerified id' := by
  rw [isVerified_insert h]
  split
  · rfl
  · exact hid

theorem isVerified_orInsert {request : RequestToNetwork} (h : s'.reqCache = s.reqCache.orInsert id ⟨request, .submitted⟩)
    (id' : String) : s'.IsVerified id' ↔ s.IsVerified id' := by
  rw [Relay.IsVerified, Relay.IsVerified, h, HMap.get?_orInsert]
  split
  next hid =>
    subst hid
    cases s.reqCache.get? id' with
    | none => simp
    | some data => exact Iff.rfl
  next => exact Iff.rfl

theorem pointOf_insert {r : StoredMultResult} (h : s'.resCache = s.resCache.insert id r) (id' : String) :
    s'.pointOf id' = if id' = id then r.reconstructedPoint else s.pointOf id' := by
  rw [Relay.pointOf, h, HMap.get?_insert]
  split
  next => rfl
  next => rfl

end insert

def Event.quiet : Event env → Bool
  | .processReceivedProof .. | .expire .. => false
  | _ => true

/-- A message other than the proof of a prover leaves the results and the batched requests alone, and adds at most
a request that nobody has verified. -/
theorem Relay.Step.caches {s s' : Relay} {e : Event env} (h : Relay.Step env s e s') (hquiet : e.quiet = true) :
    s'.resCache = s.resCache ∧ s'.batchCache = s.batchCache ∧ s'.redis = s.redis ∧
      (s'.reqCache = s.reqCache ∨ ∃ id request, s'.reqCache = s.reqCache.orInsert id ⟨request, .submitted⟩) := by
  cases e with
  | processReceivedProof c nodeIdx peerId requestId proof method redis => cases hquiet
  | expire cache key => cases hquiet
  | mulRequest request requestId reply =>
    obtain ⟨reqCache, effect, hreq, -, heq⟩ := handleMultiplicationRequest_cases env s request requestId reply
    obtain rfl := (h.eq rfl).trans (congrArg Prod.fst heq)
    exact ⟨rfl, rfl, rfl, hreq.imp_right fun hreq => ⟨requestId, request, hreq⟩⟩
  | storeKSet peerId shares idx keys =>
    obtain rfl := h.eq rfl
    rw [storeKset_eq]
    split <;> exact ⟨rfl, rfl, rfl, .inl rfl⟩
  | resharingStoreKSet peerId shares idx =>
    obtain rfl := h.eq rfl
    rw [storeResharingKset_eq]
    split <;> exact ⟨rfl, rfl, rfl, .inl rfl⟩
  | updateElectedProvers provers isCacheProver =>
    obtain ⟨cached, active, heq⟩ := updateElectedProvers_eq s provers isCacheProver
    obtain rfl := (h.eq rfl).trans heq
    exact ⟨rfl, rfl, rfl, .inl rfl⟩
  | _ =>
    obtain rfl := h.eq rfl
    exact ⟨rfl, rfl, rfl, .inl rfl⟩

theorem Counts.reconstructedPoint {s : Relay} {c : CurveId} {nodeIdx : ℕ} {peerId : PeerId} {requestId : String}
    {proof : DLEQProof (env.curve c)} {method : Method} {data : RequestRecord} {collection : StoredMultResult}
    (h : Counts env s c nodeIdx peerId requestId proof method data collection) :
    collection.reconstructedPoint = s.pointOf requestId := by
  obtain ⟨P, out, b, -, -, rfl⟩ := h.product
  rw [Relay.pointOf, Relay.collection]
  cases s.resCache.get? requestId <;> rfl

theorem Counts.hashOf {s : Relay} {c : CurveId} {nodeIdx : ℕ} {peerId : PeerId} {requestId : String}
    {proof : DLEQProof (env.curve c)} {method : Method} {data : RequestRecord} {collection : StoredMultResult}
    (h : Counts env s c nodeIdx peerId requestId proof method data collection) :
    s.hashOf env requestId = requestHash env data.request := by
  rw [Relay.hashOf, Relay.requestOf, h.request]
  rfl

theorem Accepted.unique {s : Relay} {c : CurveId} {peerId : PeerId} {requestId : String}
    {proof : DLEQProof (env.curve c)} {method : Method} {P P' out out' : (env.curve c).Point}
    (h : Accepted env s c peerId requestId proof method P out)
    (h' : Accepted env s c peerId requestId proof method P' out') : out = out' := by
  obtain ⟨r, hr, hP⟩ := h.request
  obtain ⟨r', hr', hP'⟩ := h'.request
  obtain ⟨key, K, hkey, hK, hout⟩ := h.verifies
  obtain ⟨key', K', hkey', hK', hout'⟩ := h'.verifies
  obtain rfl := Option.some.inj (hr.symm.trans hr')
  obtain rfl := Except.ok.inj (hP.symm.trans hP')
  obtain rfl := Option.some.inj (hkey.symm.trans hkey')
  obtain rfl := Except.ok.inj (hK.symm.trans hK')
  exact Except.ok.inj (hout.symm.trans hout')

theorem Counts.unique {s : Relay} {c : CurveId} {nodeIdx : ℕ} {peerId : PeerId} {requestId : String}
    {proof : DLEQProof (env.curve c)} {method : Method} {data data' : RequestRecord}
    {collection collection' : StoredMultResult}
    (h : Counts env s c nodeIdx peerId requestId proof method data collection)
    (h' : Counts env s c nodeIdx peerId requestId proof method data' collection') :
    data = data' ∧ collection = collection' := by
  obtain ⟨P, out, b, hacc, hb, rfl⟩ := h.product
  obtain ⟨P', out', b', hacc', hb', rfl⟩ := h'.product
  obtain rfl := hacc.unique hacc'
  obtain rfl := Option.some.inj (hb.symm.trans hb')
  exact ⟨Option.some.inj (h.request.symm.trans h'.request), rfl⟩

theorem Relay.Step.counts {s s' : Relay} {c : CurveId} {nodeIdx : ℕ} {peerId : PeerId} {requestId : String}
    {proof : DLEQProof (env.curve c)} {method : Method} {redis : RedisReply} {P out : (env.curve c).Point}
    (h : Relay.Step env s (.processReceivedProof c nodeIdx peerId requestId proof method redis) s')
    (hacc : Accepted env s c peerId requestId proof method P out) :
    ∃ data collection, Counts env s c nodeIdx peerId requestId proof method data collection := by
  obtain ⟨effects, h⟩ := h
  cases processReceivedProof_step h with
  | ignored rejected => exact absurd hacc (rejected P out)
  | unserialized counts | batched counts | constructed counts | verified counts => exact ⟨_, _, counts⟩

/-! ### What makes a verified request stay one with a result -/

namespace Relay

def StaysVerified (s s' : Relay) : Prop :=
  ∀ id data, s.IsVerified id → s'.reqCache.get? id = some data → data.status = .verified

/-- The message of a prover for a request whose hash is batched finds a result, and for a verified request whose
hash is not, interpolates it anew; and no result of a verified request expires. -/
def Harmless (env : RelayEnv) (s : Relay) : Event env → Prop
  | .processReceivedProof c nodeIdx peerId requestId proof method redis =>
    ∀ data collection hash, Counts env s c nodeIdx peerId requestId proof method data collection →
      env.serializeProof c proof ≠ none → requestHash env data.request = some hash →
      if s.batchCache.containsKey hash then s.pointOf requestId ≠ none
      else s.IsVerified requestId → Completes env s c redis collection
  | .expire .res id => ¬ s.IsVerified id
  | _ => True

variable {s s' : Relay}

theorem staysVerified_of_imp (h : ∀ id, s.IsVerified id → s'.IsVerified id) : s.StaysVerified s' := by
  intro id data hid hdata
  obtain ⟨data', hdata', hstatus⟩ := h id hid
  obtain rfl := Option.some.inj (hdata.symm.trans hdata')
  exact hstatus

theorem Answerable.congr (hs : s.Answerable) (hver : ∀ id, s'.IsVerified id ↔ s.IsVerified id)
    (hpoint : ∀ id, s'.pointOf id = s.pointOf id) : s'.Answerable ∧ s.StaysVerified s' := by
  refine ⟨fun id hid => ?_, staysVerified_of_imp fun id => (hver id).2⟩
  rw [hpoint]
  exact hs id ((hver id).1 hid)

end Relay

section harmless
variable {c : CurveId} {s s' : Relay} {nodeIdx : ℕ} {peerId : PeerId} {requestId : String}
  {proof : DLEQProof (env.curve c)} {method : Method} {redis : RedisReply} {effects : List (Effect env)}
  {data : RequestRecord} {collection : StoredMultResult} {hash : String}

theorem Counts.harmless_iff (counts : Counts env s c nodeIdx peerId requestId proof method data collection)
    (serialized : env.serializeProof c proof ≠ none) (hashed : requestHash env data.request = some hash) :
    s.Harmless env (.processReceivedProof c nodeIdx peerId requestId proof method redis) ↔
      if s.batchCache.containsKey hash then s.pointOf requestId ≠ none
      else s.IsVerified requestId → Completes env s c redis collection := by
  refine ⟨fun h => h data collection hash counts serialized hashed, fun h => ?_⟩
  intro data' collection' hash' counts' _ hashed'
  obtain ⟨rfl, rfl⟩ := counts.unique counts'
  obtain rfl := Option.some.inj (hashed.symm.trans hashed')
  exact h

theorem Counts.pointOf_insert (counts : Counts env s c nodeIdx peerId requestId proof method data collection)
    (h : s'.resCache = s.resCache.insert requestId collection) (id : String) : s'.pointOf id = s.pointOf id := by
  rw [HumanNetwork.pointOf_insert h, counts.reconstructedPoint]
  split
  next hid => rw [hid]
  next => rfl

section steps
variable (hs : s.Answerable) (counts : Counts env s c nodeIdx peerId requestId proof method data collection)
  (hres : s'.resCache = s.resCache.insert requestId collection)
include hs counts hres

theorem upholds_of_batched_iff (hreq : s'.reqCache = s.reqCache.insert requestId { data with status := .verified }) :
    (s'.Answerable ∧ s.StaysVerified s') ↔ s.pointOf requestId ≠ none := by
  have hver := isVerified_insert hreq
  have hpoint := counts.pointOf_insert hres
  constructor
  · rintro ⟨hanswerable, -⟩ hnone
    obtain ⟨b, hb⟩ := hanswerable requestId ((hver requestId).2 (by rw [if_pos rfl]))
    rw [hpoint, hnone] at hb
    cases hb
  · intro hsome
    refine ⟨fun id hid => ?_, Relay.staysVerified_of_imp fun id hid => hid.insert hreq⟩
    rw [hpoint]
    by_cases hid' : id = requestId
    · rw [hid']
      exact Option.ne_none_iff_exists'.1 hsome
    · exact hs id (by rwa [hver, if_neg hid'] at hid)

theorem upholds_of_constructed_iff
    (hreq : s'.reqCache = s.reqCache.insert requestId { data with status := .constructedProof }) :
    (s'.Answerable ∧ s.StaysVerified s') ↔ ¬ s.IsVerified requestId := by
  constructor
  · rintro ⟨-, hstays⟩ hid
    have hget := congrArg (fun cache => cache.get? requestId) hreq
    cases hstays requestId _ hid (hget.trans (HMap.get?_insert_self _ _ _))
  · intro hnot
    refine hs.congr (fun id => ?_) (counts.pointOf_insert hres)
    rw [isVerified_insert hreq]
    split
    next hid => exact iff_of_false (by simp) (by rwa [hid])
    next => exact Iff.rfl

end steps

theorem upholds_of_verified {res : StoredMultResult} {b : Bytes} (hs : s.Answerable)
    (hres : s'.resCache = s.resCache.insert requestId { res with reconstructedPoint := some b })
    (hreq : s'.reqCache = s.reqCache.insert requestId { data with status := .verified }) :
    s'.Answerable ∧ s.StaysVerified s' := by
  refine ⟨fun id hid => ?_, Relay.staysVerified_of_imp fun id hid => hid.insert hreq⟩
  rw [HumanNetwork.pointOf_insert hres]
  split
  next => exact ⟨b, rfl⟩
  next hid' => exact hs id (by rwa [isVerified_insert hreq, if_neg hid'] at hid)

theorem ProofStep.harmless_iff (h : ProofStep env s c nodeIdx peerId requestId proof method redis s' effects)
    (hs : s.Answerable) :
    (s'.Answerable ∧ s.StaysVerified s') ↔
      s.Harmless env (.processReceivedProof c nodeIdx peerId requestId proof method redis) := by
  cases h with
  | ignored rejected =>
    refine iff_of_true (hs.congr (fun _ => Iff.rfl) fun _ => rfl) fun data collection hash counts => ?_
    obtain ⟨P, out, b, hacc, -⟩ := counts.product
    exact absurd hacc (rejected P out)
  | unserialized counts unserialized =>
    refine iff_of_true (hs.congr (fun _ => Iff.rfl) (counts.pointOf_insert rfl)) ?_
    intro data' collection' hash counts' hserialized hhashed
    obtain ⟨rfl, rfl⟩ := counts.unique counts'
    rcases unserialized with hnone | hnone
    · exact absurd hnone hserialized
    · rw [hnone] at hhashed
      cases hhashed
  | batched counts serialized hashed batched =>
    rw [counts.harmless_iff serialized hashed, if_pos batched]
    exact upholds_of_batched_iff hs counts rfl rfl
  | constructed counts serialized hashed unbatched incomplete =>
    rw [counts.harmless_iff serialized hashed, unbatched, if_neg Bool.false_ne_true,
      upholds_of_constructed_iff hs counts rfl rfl]
    exact ⟨fun hnot hid => absurd hid hnot, fun hcompletes hid => incomplete (hcompletes hid)⟩
  | @verified data collection hash b p pubsub published counts serialized hashed unbatched replies enough interpolates =>
    rw [counts.harmless_iff serialized hashed, unbatched, if_neg Bool.false_ne_true]
    exact iff_of_true (upholds_of_verified hs rfl rfl) fun _ => ⟨replies, enough, b, interpolates⟩

end harmless

theorem Relay.Step.isVerified_and_pointOf {s s' : Relay} {e : Event env} (h : Relay.Step env s e s')
    (hquiet : e.quiet = true) (id : String) :
    (s'.IsVerified id ↔ s.IsVerified id) ∧ s'.pointOf id = s.pointOf id := by
  obtain ⟨hres, -, -, hreq⟩ := h.caches hquiet
  constructor
  · rcases hreq with hreq | ⟨id', request, hreq⟩
    · rw [IsVerified, IsVerified, hreq]
    · exact isVerified_orInsert hreq id
  · rw [pointOf, pointOf, hres]

theorem expire_harmless_iff {s : Relay} (hs : s.Answerable) (cache : Cache) (key : String) :
    ((expire cache key s).Answerable ∧ s.StaysVerified (expire cache key s)) ↔ s.Harmless env (.expire cache key) := by
  cases cache with
  | req =>
    have hback : ∀ id, (expire .req key s).IsVerified id → s.IsVerified id := fun id ⟨data, hdata, hstatus⟩ =>
      ⟨data, HMap.get?_of_remove hdata, hstatus⟩
    refine iff_of_true ⟨fun id hid => hs id (hback id hid), fun id data ⟨data', hdata', hstatus⟩ hdata => ?_⟩ trivial
    obtain rfl := Option.some.inj ((HMap.get?_of_remove hdata).symm.trans hdata')
    exact hstatus
  | res =>
    constructor
    · rintro ⟨hanswerable, -⟩ hid
      obtain ⟨b, hb⟩ := hanswerable key hid
      rw [Relay.pointOf, expire, HMap.get?_remove, if_pos rfl] at hb
      cases hb
    · intro hnot
      refine ⟨fun id hid => ?_, Relay.staysVerified_of_imp fun _ => id⟩
      have hne : id ≠ key := by
        rintro rfl
        exact hnot hid
      rw [Relay.pointOf, expire, HMap.get?_remove, if_neg hne]
      exact hs id hid
  | batch | pubsub => exact iff_of_true (hs.congr (fun _ => Iff.rfl) fun _ => rfl) trivial

theorem hashOf_of_isVerified {s s' : Relay} {id : String}
    (hreq : s'.reqCache = s.reqCache ∨ ∃ id request, s'.reqCache = s.reqCache.orInsert id ⟨request, .submitted⟩)
    (hid : s.IsVerified id) : s'.hashOf env id = s.hashOf env id := by
  obtain ⟨data, hdata, -⟩ := hid
  have hget : s'.reqCache.get? id = some data := by
    rcases hreq with hreq | ⟨id', request, hreq⟩
    · rw [hreq, hdata]
    · rw [hreq, HMap.get?_orInsert]
      split
      next hid' => rw [← hid', hdata, Option.getD_some]
      next => exact hdata
  rw [Relay.hashOf, Relay.hashOf, Relay.requestOf, Relay.requestOf, hget, hdata]

/-- What has to be asked of a step, exactly. -/
theorem Relay.Step.harmless_iff {s s' : Relay} {e : Event env} (h : Relay.Step env s e s') (hs : s.Answerable) :
    (s'.Answerable ∧ s.StaysVerified s') ↔ s.Harmless env e := by
  cases e with
  | processReceivedProof c nodeIdx peerId requestId proof method redis =>
    obtain ⟨effects, h⟩ := h
    exact (processReceivedProof_step h).harmless_iff hs
  | expire cache key =>
    obtain rfl := h.eq rfl
    exact expire_harmless_iff hs cache key
  | _ =>
    have hsame := h.isVerified_and_pointOf rfl
    exact iff_of_true (hs.congr (fun id => (hsame id).1) fun id => (hsame id).2) trivial

/-! ### While nothing expires -/

def Event.expires : Event env → Bool
  | .expire .. => true
  | _ => false

/-- A proof is accepted for a request that is not verified, but has the hash of one that is. -/
def Premature (env : RelayEnv) (s : Relay) : Event env → Prop
  | .processReceivedProof c _ peerId requestId proof method _ =>
    (∃ P out, Accepted env s c peerId requestId proof method P out) ∧ env.serializeProof c proof ≠ none ∧
      ¬ s.IsVerified requestId ∧ ∃ id hash, s.IsVerified id ∧ s.hashOf env id = some hash ∧
        s.hashOf env requestId = some hash
  | _ => False

/-- The batch cache has the hashes of the verified requests, and only these have a point. -/
structure Relay.Batched (env : RelayEnv) (s : Relay) : Prop where
  batched : ∀ id, s.IsVerified id → ∃ hash, s.hashOf env id = some hash ∧ s.batchCache.containsKey hash = true
  verified : ∀ hash, s.batchCache.containsKey hash = true → ∃ id, s.IsVerified id ∧ s.hashOf env id = some hash
  pointed : ∀ id b, s.pointOf id = some b → s.IsVerified id

namespace Relay.Batched
variable {s s' : Relay} {e : Event env} (h : s.Batched env)
include h

theorem harmless_iff (hs : s.Answerable) (hstep : Relay.Step env s e s') (he : e.expires = false) :
    s.Harmless env e ↔ ¬ Premature env s e := by
  cases e with
  | processReceivedProof c nodeIdx peerId requestId proof method redis =>
    constructor
    · rintro hharmless ⟨⟨P, out, hacc⟩, hserialized, hnot, id, hash, hid, hhash, hhash'⟩
      obtain ⟨hash', hhash'', hbatched⟩ := h.batched id hid
      obtain rfl := Option.some.inj (hhash.symm.trans hhash'')
      obtain ⟨data, collection, counts⟩ := hstep.counts hacc
      have hpoint := (counts.harmless_iff hserialized (counts.hashOf.symm.trans hhash')).1 hharmless
      rw [if_pos hbatched] at hpoint
      obtain ⟨b, hb⟩ := Option.ne_none_iff_exists'.1 hpoint
      exact hnot (h.pointed requestId b hb)
    · intro hnot data collection hash counts hserialized hhashed
      split
      next hbatched =>
        intro hnone
        obtain ⟨id, hid, hhash⟩ := h.verified hash hbatched
        obtain ⟨P, out, b, hacc, -⟩ := counts.product
        refine hnot ⟨⟨P, out, hacc⟩, hserialized, fun hver => ?_, id, hash, hid, hhash, counts.hashOf.trans hhashed⟩
        obtain ⟨b, hb⟩ := hs requestId hver
        rw [hnone] at hb
        cases hb
      next hunbatched =>
        intro hver
        obtain ⟨hash', hhash', hbatched⟩ := h.batched requestId hver
        obtain rfl := Option.some.inj (hhashed.symm.trans (counts.hashOf.symm.trans hhash'))
        exact absurd hbatched hunbatched
  | expire => cases he
  | _ => exact iff_of_true trivial id

theorem grow (hhash : ∀ id, s'.IsVerified id → s'.hashOf env id = s.hashOf env id)
    (hbatch : s'.batchCache = s.batchCache) (hpoint : ∀ id, s'.pointOf id = s.pointOf id)
    (hver : ∀ id, s.IsVerified id → s'.IsVerified id)
    (hnew : ∀ id, s'.IsVerified id → s.IsVerified id ∨
      ∃ hash, s.hashOf env id = some hash ∧ s.batchCache.containsKey hash = true) : s'.Batched env where
  batched id hid := by
    rw [hhash id hid, hbatch]
    exact (hnew id hid).elim (h.batched id) fun hnew => hnew
  verified hash hbatched := by
    rw [hbatch] at hbatched
    obtain ⟨id, hid, hhash'⟩ := h.verified hash hbatched
    exact ⟨id, hver id hid, (hhash id (hver id hid)).trans hhash'⟩
  pointed id b hb := hver id (h.pointed id b (by rwa [hpoint] at hb))

theorem of_caches (hcaches : s'.resCache = s.resCache ∧ s'.batchCache = s.batchCache ∧ s'.redis = s.redis ∧
    (s'.reqCache = s.reqCache ∨ ∃ id request, s'.reqCache = s.reqCache.orInsert id ⟨request, .submitted⟩))
    (hsame : ∀ id, (s'.IsVerified id ↔ s.IsVerified id) ∧ s'.pointOf id = s.pointOf id) : s'.Batched env := by
  refine h.grow (fun id hid => ?_) hcaches.2.1 (fun id => (hsame id).2) (fun id => (hsame id).1.2)
    fun id hid => .inl ((hsame id).1.1 hid)
  exact hashOf_of_isVerified hcaches.2.2.2 ((hsame id).1.1 hid)

theorem proofStep {c : CurveId} {nodeIdx : ℕ} {peerId : PeerId} {requestId : String} {proof : DLEQProof (env.curve c)}
    {method : Method} {redis : RedisReply} {effects : List (Effect env)}
    (hstep : ProofStep env s c nodeIdx peerId requestId proof method redis s' effects) : s'.Batched env := by
  have hhash : ∀ id, s'.hashOf env id = s.hashOf env id := fun id => by
    rw [hashOf, hashOf, hstep.keeps.requestOf]
  cases hstep with
  | ignored => exact h
  | unserialized counts =>
    exact h.grow (fun id _ => hhash id) rfl (counts.pointOf_insert rfl) (fun _ hid => hid) fun _ hid => .inl hid
  | @batched data collection hash counts serialized hashed batched =>
    refine h.grow (fun id _ => hhash id) rfl (counts.pointOf_insert rfl) (fun id hid => hid.insert rfl) fun id hid => ?_
    rw [isVerified_insert rfl] at hid
    split at hid
    next hid' => exact .inr ⟨hash, by rw [hid', counts.hashOf, hashed], batched⟩
    next => exact .inl hid
  | constructed counts serialized hashed unbatched =>
    -- a verified request has its hash in the cache
    have hnot : ¬ s.IsVerified requestId := fun hid => by
      obtain ⟨hash, hhash', hbatched⟩ := h.batched requestId hid
      obtain rfl := Option.some.inj (hashed.symm.trans (counts.hashOf.symm.trans hhash'))
      exact Bool.false_ne_true (unbatched.symm.trans hbatched)
    refine h.grow (fun id _ => hhash id) rfl (counts.pointOf_insert rfl) (fun id hid => ?_) fun id hid => ?_
    · have hne : id ≠ requestId := by
        rintro rfl
        exact hnot hid
      rwa [isVerified_insert rfl, if_neg hne]
    · rw [isVerified_insert rfl] at hid
      split at hid
      · cases hid
      · exact .inl hid
  | @verified data collection hash b p pubsubCache published counts serialized hashed unbatched =>
    have hhash' := (hhash requestId).trans (counts.hashOf.trans hashed)
    refine ⟨fun id hid => ?_, fun hash' hbatched => ?_, fun id b' hb => ?_⟩
    · rw [hhash]
      rw [isVerified_insert rfl] at hid
      by_cases hid' : id = requestId
      · exact ⟨hash, by rw [hid', counts.hashOf, hashed], HMap.containsKey_insert.2 (.inl rfl)⟩
      · rw [if_neg hid'] at hid
        obtain ⟨hash', hhash', hbatched⟩ := h.batched id hid
        exact ⟨hash', hhash', HMap.containsKey_insert.2 (.inr hbatched)⟩
    · rcases HMap.containsKey_insert.1 hbatched with rfl | hbatched
      · exact ⟨requestId, by rw [isVerified_insert rfl, if_pos rfl], hhash'⟩
      · obtain ⟨id, hid, hhash'⟩ := h.verified hash' hbatched
        exact ⟨id, hid.insert rfl, (hhash id).trans hhash'⟩
    · rw [isVerified_insert rfl]
      rw [HumanNetwork.pointOf_insert rfl] at hb
      split at hb
      next hid' => rw [if_pos hid']
      next hid' =>
        rw [if_neg hid']
        exact h.pointed id b' hb

theorem step (hstep : Relay.Step env s e s') (he : e.expires = false) : s'.Batched env := by
  cases e with
  | processReceivedProof c nodeIdx peerId requestId proof method redis =>
    obtain ⟨effects, hstep⟩ := hstep
    exact h.proofStep (processReceivedProof_step hstep)
  | expire => cases he
  | _ =>
    exact h.of_caches (hstep.caches rfl) (hstep.isVerified_and_pointOf rfl)

end Relay.Batched

structure Relay.IsFresh (s : Relay) : Prop where
  reqCache : s.reqCache = ∅
  resCache : s.resCache = ∅
  batchCache : s.batchCache = ∅

theorem Relay.IsFresh.not_isVerified {s : Relay} (h : s.IsFresh) (id : String) : ¬ s.IsVerified id := by
  rintro ⟨data, hdata, -⟩
  rw [h.reqCache] at hdata
  cases hdata

theorem Relay.IsFresh.batched {s : Relay} (h : s.IsFresh) : s.Batched env where
  batched id hid := absurd hid (h.not_isVerified id)
  verified hash hbatched := by
    rw [h.batchCache] at hbatched
    cases hbatched
  pointed id b hb := by
    rw [pointOf, h.resCache] at hb
    cases hb

/-- Along every run, the verified requests have a result and stay verified exactly if each message is harmless in
the state it finds; while nothing expires, exactly if no proof is premature. -/
theorem verified_answerable_iff {s₀ s : Relay} (es : List (Event env)) (hfresh : s₀.IsFresh) :
    (Run (fun s e s' => Relay.Step env s e s' ∧ s'.Answerable ∧ s.StaysVerified s') s₀ es s ↔
      Run (fun s e s' => Relay.Step env s e s' ∧ s.Harmless env e) s₀ es s) ∧
    (Run (fun s e s' => (Relay.Step env s e s' ∧ e.expires = false) ∧ s'.Answerable ∧ s.StaysVerified s') s₀ es s ↔
      Run (fun s e s' => (Relay.Step env s e s' ∧ e.expires = false) ∧ ¬ Premature env s e) s₀ es s) := by
  have hanswerable : s₀.Answerable := fun id hid => absurd hid (hfresh.not_isVerified id)
  constructor
  · refine Run.congr (I := Relay.Answerable)
      (fun {s e s'} hs => ⟨and_congr_right fun hstep => ?_, fun h => h.2.1⟩) hanswerable
    exact hstep.harmless_iff hs
  · refine Run.congr (I := fun s => s.Answerable ∧ s.Batched env)
      (fun {s e s'} ⟨hs, hbatched⟩ => ⟨and_congr_right fun ⟨hstep, he⟩ => ?_, fun h => ?_⟩) ⟨hanswerable, hfresh.batched⟩
    · exact (hstep.harmless_iff hs).trans (hbatched.harmless_iff hs hstep he)
    · exact ⟨h.2.1, hbatched.step h.1.1 h.1.2⟩

def twinRelay : Relay := { lineRelay with
  t := 1, reqCache := ∅, pubkeyShares := HMap.insert ∅ "prover1" (secpKeys 1) }

def twinRequest (id : String) : Event scalarRelay := .mulRequest lineRequest id ⟨none, none⟩

def twinProof (id : String) : Event scalarRelay :=
  .processReceivedProof .secp256k1 1 "prover1" id (zeroProof .secp256k1 1) .oprfSecp256k1 .ok

theorem twinRelay_isFresh : twinRelay.IsFresh := ⟨rfl, rfl, rfl⟩

set_option maxRecDepth 20000 in
theorem verified_answerable_iff_twinRelay : twinRelay.IsFresh ∧ ∃ s, s.IsVerified "first" ∧
    Run (fun s e s' => (Relay.Step scalarRelay s e s' ∧ e.expires = false) ∧ s'.Answerable ∧ s.StaysVerified s')
      twinRelay [twinRequest "first", twinProof "first"] s := by
  refine ⟨twinRelay_isFresh, _, ?verified, (verified_answerable_iff _ twinRelay_isFresh).2.2
    ⟨_, ⟨⟨⟨_, rfl⟩, rfl⟩, id⟩, _, ⟨⟨⟨_, rfl⟩, rfl⟩, ?first⟩, rfl⟩⟩
  case verified => exact ⟨_, rfl, rfl⟩
  case first =>
    rintro ⟨-, -, -, id, hash, ⟨data, hdata, hstatus⟩, -⟩
    obtain rfl | hid := eq_or_ne id "first"
    · obtain rfl := Option.some.inj hdata
      cases hstatus
    · have hnone := HMap.get?_insert_of_ne (∅ : HMap String RequestRecord) ⟨lineRequest, .submitted⟩ hid
      cases hdata.symm.trans hnone

set_option maxRecDepth 20000 in
/-- The same request comes twice. The first proof for the second one makes it verified, and there is no result. -/
theorem verified_without_result : twinRelay.IsFresh ∧ ∃ s,
    Run (Relay.Step scalarRelay) twinRelay
      [twinRequest "first", twinRequest "second", twinProof "first", twinProof "second"] s ∧
    s.IsVerified "second" ∧ s.pointOf "second" = none ∧ ¬ s.Answerable ∧
    fetchReconstructedPoint scalarRelay s "second" = .ok (.error "second" "Error: Point is not reconstructed") := by
  refine ⟨twinRelay_isFresh, _, ⟨_, ⟨_, rfl⟩, _, ⟨_, rfl⟩, _, ⟨_, rfl⟩, _, ⟨_, rfl⟩, rfl⟩,
    ⟨_, rfl, rfl⟩, rfl, ?_, rfl⟩
  intro hanswerable
  obtain ⟨b, hb⟩ := hanswerable "second" ⟨_, rfl, rfl⟩
  cases hb

end HumanNetwork
