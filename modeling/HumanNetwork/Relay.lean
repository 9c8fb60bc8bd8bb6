import HumanNetwork.Reconstruct

/-!
# The relay (`app_state_actor.rs`)

The state that the relay keeps between messages, and what each message does to it. A message that
panics ends the run, so a step returns the next state or a panic. What comes from outside (answers of
Redis and of pinged nodes, whether a database write succeeds, entries of a cache that expire) is part of
the message. Results that leave the relay are returned as `Effect`s.

`processReceivedProof` is the message of a prover with its product and proof. It stores the product, and
when enough are there `StoredMultResult.processVerification` interpolates them.
-/

namespace HumanNetwork
open Outcome

inductive Method where
  | oprfSecp256k1
  | oprfBabyJubJub
  | decryptBabyJubJub
  | jwtprfSecp256k1
deriving DecidableEq, Repr

namespace Method

def keyName : Method → String
  | oprfSecp256k1 => "OPRFSecp256k1"
  | oprfBabyJubJub => "OPRFBabyJubJub"
  | jwtprfSecp256k1 => "JWTPRFSecp256k1"
  | decryptBabyJubJub => "DecryptBabyJubjub"

def curve : Method → CurveId
  | oprfSecp256k1 | jwtprfSecp256k1 => .secp256k1
  | oprfBabyJubJub | decryptBabyJubJub => .babyJubJub

end Method

structure RequestToNetwork where
  method : Method
  point : Bytes
  epoch : ℕ
  requestPerUser : ℕ
  signature : Option Bytes
  extraData : Option Bytes
deriving DecidableEq, Repr

inductive TxState where
  | submitted
  | constructedProof
  | verified
deriving DecidableEq, Repr

def TxState.debug : TxState → String
  | submitted => "Submitted"
  | constructedProof => "ConstructedProof"
  | verified => "Verified"

structure RequestRecord where
  request : RequestToNetwork
  status : TxState

structure StoredMultResult where
  numNodes : ℕ
  mulResults : List (ℕ × Bytes)
  reconstructedPoint : Option Bytes
  curve : String

abbrev PeerId := String
abbrev PubkeyShares := HMap String Bytes

structure ProverInfo where
  peerId : PeerId
  idx : ℕ
deriving DecidableEq, Repr

structure RequestToNetworkWithProofs where
  base : RequestToNetwork
  proofs : List (String × String × String × String)

structure ElectionInfo where
  threshold : ℕ
  epsilon : ℕ
  totalProvers : ℕ

structure SavedState where
  n : Option ℕ
  t : Option ℕ
  epsilon : Option ℕ
  pubkeyShares : Option (HMap PeerId PubkeyShares)
  newProvers : Option (HMap PeerId (ProverInfo × ℕ))
  tstarProvers : Option (HMap PeerId (ProverInfo × ℕ))

inductive SavedKey where
  | n | t | epsilon | pubkeyShares | newProvers | tstarProvers
deriving DecidableEq, Repr

structure Relay where
  currentEpoch : ℕ
  activeProvers : List ProverInfo
  n : ℕ
  t : ℕ
  epsilon : ℕ
  reqCache : HMap String RequestRecord
  resCache : HMap String StoredMultResult
  pubkeyShares : HMap PeerId PubkeyShares
  ready : Bool
  readyNodes : Finset ℕ
  newCachedElectedProvers : List ProverInfo
  tstarProvers : HMap PeerId (ProverInfo × ℕ)
  newProvers : HMap PeerId (ProverInfo × ℕ)
  batchCache : HMap String Unit
  pubsubCache : HMap String Unit
  redis : HMap String RequestToNetworkWithProofs
  saved : SavedState

structure RelayEnv where
  hs : Hashes
  curve : CurveId → Curve
  curve_id : ∀ c, (curve c).id = c
  serializeRequest : RequestToNetwork → Option Bytes
  serializeProof : ∀ c, DLEQProof (curve c) → Option Bytes

inductive NodeResponse (env : RelayEnv) where
  | verifiedProofSecp256k1 (requestId : String) (reconstructedPoint : (env.curve .secp256k1).Point)
  | verifiedProofBabyJubJub (requestId : String) (greatest : Bool) (y : Bytes)
  | error (requestId message : String)

inductive Effect (env : RelayEnv) where
  | publish (requestId : String) (response : NodeResponse env)
  | kafka (requestId : String) (method : Method) (servedByMultipliers : List PeerId)
  | batch (request : RequestToNetworkWithProofs)
  | forward (requestId : String) (request : RequestToNetwork)

/-- `hex::encode`. -/
def hexEncode (bytes : Bytes) : String :=
  String.ofList (bytes.flatMap fun b => [Nat.digitChar (b.toNat / 16), Nat.digitChar (b.toNat % 16)])

variable (env : RelayEnv)

/-- The response of `fetch_reconstructed_point_v2`, which goes by the stored name of the curve. -/
def fetchReconstructedPointV2 (data : RequestRecord) (r : StoredMultResult) (requestId : String) :
    Outcome Empty (NodeResponse env) :=
  if data.status = .verified then
    match r.reconstructedPoint with
    | some point =>
      if r.curve = CurveId.name .secp256k1 then do
        let decoded ← toOption ((env.curve .secp256k1).fromEncoded point)
        let decoded ← unwrap decoded "Invalid point encoding"
        pure (.verifiedProofSecp256k1 requestId decoded)
      else if r.curve = CurveId.name .babyJubJub then do
        let (greatest, y) ← unwrap (CurveId.readCompressed .babyJubJub point) "Invalid point encoding"
        pure (.verifiedProofBabyJubJub requestId greatest y)
      else
        let curve := r.curve
        pure (.error requestId s!"Unsupported curve type: {curve}")
    | none => pure (.error requestId "Point reconstruction not available")
  else
    let status := data.status.debug
    pure (.error requestId s!"Request not yet verified (status: {status})")

/-- A subscriber that waits for the request gets the response, once. -/
def publishReconstructed (data : RequestRecord) (r : StoredMultResult) (requestId : String) (indices : List ℕ)
    (state : Relay) : Outcome Empty (Relay × List (Effect env)) :=
  if state.pubsubCache.containsKey requestId then do
    let response ← fetchReconstructedPointV2 env data r requestId
    let servedByMultipliers := indices.filterMap fun i =>
      (state.activeProvers.find? fun p => p.idx = i).map ProverInfo.peerId
    pure ({ state with pubsubCache := state.pubsubCache.remove requestId },
      [.publish requestId response, .kafka requestId data.request.method servedByMultipliers])
  else pure (state, [])

/-- Whether the commands of a message to Redis succeed. -/
structure RedisReply where
  get : Bool
  set : Bool
  rpush : Bool
  del : Bool

/-- The first two steps of `process_batch`: the entry of the request moves to the list `request_batch`. -/
def processBatch (requestHash : String) (redis : RedisReply) (state : Relay) : Relay × List (Effect env) :=
  let pushed := if redis.rpush then (state.redis.get? requestHash).toList else []
  let state := if redis.del then { state with redis := state.redis.remove requestHash } else state
  (state, pushed.map .batch)

def initiateBatch (requestHash : String) (redis : RedisReply) (state : Relay) : Relay × List (Effect env) :=
  if state.batchCache.containsKey requestHash then (state, [])
  else processBatch env requestHash redis { state with batchCache := state.batchCache.insert requestHash () }

namespace StoredMultResult

def new (c : CurveId) : StoredMultResult := ⟨0, [], none, c.name⟩

def push (self : StoredMultResult) (nodeIdx : ℕ) (result : Bytes) : StoredMultResult :=
  { self with numNodes := self.numNodes + 1, mulResults := self.mulResults ++ [(nodeIdx, result)] }

def processVerification (c : CurveId) (self : StoredMultResult) (data : RequestRecord) (requestId : String)
    (requestHash : String) (redis : RedisReply) (state : Relay) : Outcome Empty (Relay × List (Effect env)) :=
  if self.numNodes ≥ state.t then do
    let some points ← toOption (self.mulResults.mapM fun e => (env.curve c).fromEncoded e.2) | pure (state, [])
    let indices := self.mulResults.map Prod.fst
    let point ← thresholdUnchecked points indices
    let encoded ← unwrap ((env.curve c).encode point) unwrapNone
    let self := { self with reconstructedPoint := some encoded }
    let data := { data with status := .verified }
    let state := { state with
      resCache := state.resCache.insert requestId self
      reqCache := state.reqCache.insert requestId data }
    let (state, published) ← publishReconstructed env data self requestId indices state
    let (state, batched) := initiateBatch env requestHash redis state
    pure (state, published ++ batched)
  else pure (state, [])

end StoredMultResult

/-- The second half of `process_received_proof`, when the product is in the collection: the proof is appended
to the request's entry in Redis and the collection is verified, unless the request has been batched. -/
def storeProof (c : CurveId) (collection : StoredMultResult) (data : RequestRecord) (requestId : String)
    (proof : DLEQProof (env.curve c)) (pubKeySharePoint maskedPoint : (env.curve c).Point) (peerId : PeerId)
    (redis : RedisReply) (state : Relay) : Outcome Empty (Relay × List (Effect env)) := do
  let some serializedProof := env.serializeProof c proof | pure (state, [])
  let some serdeRequestSlice := env.serializeRequest data.request | pure (state, [])
  let requestHash := hexEncode (env.hs.hash256 serdeRequestSlice)
  if state.batchCache.containsKey requestHash then
    pure ({ state with reqCache := state.reqCache.insert requestId { data with status := .verified } }, [])
  else
    let data := { data with status := .constructedProof }
    let state := { state with reqCache := state.reqCache.insert requestId data }
    if ¬ redis.get then pure (state, [])
    else
      let encodedKey ← unwrap ((env.curve c).encode pubKeySharePoint) unwrapNone
      let encodedPoint ← unwrap ((env.curve c).encode maskedPoint) unwrapNone
      let entry := (hexEncode serializedProof, hexEncode encodedKey, hexEncode encodedPoint, peerId)
      let stored := match state.redis.get? requestHash with
        | some existing => { existing with proofs := existing.proofs ++ [entry] }
        | none => { base := data.request, proofs := [entry] }
      if ¬ redis.set then pure (state, [])
      else
        let state := { state with redis := state.redis.insert requestHash stored }
        collection.processVerification env c data requestId requestHash redis state

def processReceivedProof (c : CurveId) (state : Relay) (nodeIdx : ℕ) (peerId : PeerId) (requestId : String)
    (proof : DLEQProof (env.curve c)) (method : Method) (redis : RedisReply) :
    Outcome Empty (Relay × List (Effect env)) := do
  let some data := state.reqCache.get? requestId | pure (state, [])
  let some pubkeySharesForPeer := state.pubkeyShares.get? peerId | pure (state, [])
  let some pubKeyShare := pubkeySharesForPeer.get? method.keyName | pure (state, [])
  let some maskedPoint ← toOption ((env.curve c).fromEncoded data.request.point) | pure (state, [])
  let some pubKeySharePoint ← toOption ((env.curve c).fromEncoded pubKeyShare) | pure (state, [])
  let some result ← toOption (proof.verifyAndGetOutput env.hs pubKeySharePoint maskedPoint) | pure (state, [])
  let collection := (state.resCache.get? requestId).getD (.new c)
  let encoded ← unwrap ((env.curve c).encode result) unwrapNone
  let collection := collection.push nodeIdx encoded
  let state := { state with resCache := state.resCache.insert requestId collection }
  storeProof env c collection data requestId proof pubKeySharePoint maskedPoint peerId redis state

/-! ### The other messages -/

/-- What a multiplication request finds outside: the nodes that answer a ping, and the user of a signed
request with the verdict of the accounting. -/
structure MulRequestReply where
  ping : Option (Finset ℕ)
  recovered : Option (String × Except String ℕ)

/-- A ping that reaches nobody leaves no node ready. -/
def pingIfShort (state : Relay) (ping : Option (Finset ℕ)) : Relay :=
  if state.readyNodes.card < state.t ∧ state.newProvers.len ≠ 0 then { state with readyNodes := ping.getD ∅ }
  else state

def handleMultiplicationRequest (state : Relay) (request : RequestToNetwork) (requestId : String)
    (reply : MulRequestReply) : Relay × List (Effect env) :=
  let state := pingIfShort state reply.ping
  let state := { state with pubsubCache := state.pubsubCache.insert requestId () }
  let count := state.readyNodes.card
  if count < state.t then
    (state, [.publish requestId (.error requestId s!"Network is not ready. Total ready nodes {count}")])
  else if request.epoch ≠ state.currentEpoch then
    (state, [.publish requestId (.error requestId "Invalid Epoch")])
  else
    match reply.recovered with
    | some (usr, .error err) => (state, [.publish requestId (.error requestId s!"Usr: {usr} Error: {err}")])
    | _ => ({ state with reqCache := state.reqCache.orInsert requestId ⟨request, .submitted⟩ },
        [.forward requestId request])

/-- The checks after the assignments only log. -/
def updateThreshold (electionInfo : ElectionInfo) (state : Relay) : Relay :=
  { state with n := electionInfo.totalProvers, t := electionInfo.threshold, epsilon := electionInfo.epsilon }

def updateElectedProvers (request : List ProverInfo) (isCacheProver : Bool) (state : Relay) : Relay :=
  if isCacheProver then { state with newCachedElectedProvers := request } else { state with activeProvers := request }

def checkMemoryUsage (data : HMap String Bytes) (maxMemoryUsage : ℕ) : Bool :=
  data.values.all fun value => value.length ≤ maxMemoryUsage

def storeKset (peerId : PeerId) (pubkeySharesToStore : PubkeyShares) (idx : ℕ) (groupPublicKeys : HMap String Bytes)
    (state : Relay) : Relay :=
  if ¬ state.activeProvers.any (fun prover => prover.peerId = peerId) then state
  else if ¬ checkMemoryUsage pubkeySharesToStore 100 then state
  else if ¬ checkMemoryUsage groupPublicKeys 200 then state
  else
    { state with
      pubkeyShares := state.pubkeyShares.insert peerId pubkeySharesToStore
      readyNodes := insert idx state.readyNodes }

def storeQuorumMap (receivedTstarProversMap receivedNewProversMap : HMap PeerId (ProverInfo × ℕ)) (state : Relay) :
    Relay :=
  { state with tstarProvers := receivedTstarProversMap, newProvers := receivedNewProversMap }

def updateCachedProversMap (newProversMap : HMap PeerId (ProverInfo × ℕ)) (state : Relay) : Relay :=
  { state with newProvers := newProversMap }

def storeResharingKset (peerId : PeerId) (pubkeySharesToStore : PubkeyShares) (idx : ℕ) (state : Relay) : Relay :=
  if ¬ checkMemoryUsage pubkeySharesToStore 100 then state
  else if state.newCachedElectedProvers.any fun prover => prover.peerId = peerId then
    let state := { state with
      pubkeyShares := state.pubkeyShares.insert peerId pubkeySharesToStore
      readyNodes := insert idx state.readyNodes }
    if state.readyNodes.card % 2 ^ 32 = state.n then { state with activeProvers := state.newCachedElectedProvers } else state
  else state

def clearShares (state : Relay) : Relay := { state with pubkeyShares := ∅, ready := false, readyNodes := ∅ }

/-- A write that fails leaves the old entry. -/
def saveState {α : Type} (written : Bool) (old : Option α) (value : α) : Option α :=
  if written then some value else old

def saveCurrentState (written : SavedKey → Bool) (state : Relay) : Relay :=
  { state with saved :=
    { n := saveState (written .n) state.saved.n state.n
      t := saveState (written .t) state.saved.t state.t
      epsilon := saveState (written .epsilon) state.saved.epsilon state.epsilon
      pubkeyShares := saveState (written .pubkeyShares) state.saved.pubkeyShares state.pubkeyShares
      newProvers := saveState (written .newProvers) state.saved.newProvers state.newProvers
      tstarProvers := saveState (written .tstarProvers) state.saved.tstarProvers state.tstarProvers } }

/-- Like `saveCurrentState`, but without the provers of `T*`. -/
def backupState (written : SavedKey → Bool) (state : Relay) : Relay :=
  let saved := (saveCurrentState written state).saved
  { state with saved := { saved with tstarProvers := state.saved.tstarProvers } }

/-- `get_state(..).unwrap_or_default()`. -/
def getState {α : Type} (readable : Bool) (entry : Option α) (default : α) : α :=
  if readable then entry.getD default else default

def rollbackToPreviousState (readable : SavedKey → Bool) (ping : Option (Finset ℕ)) (state : Relay) : Relay :=
  let savedNewProvers := getState (readable .newProvers) state.saved.newProvers ∅
  let savedT := getState (readable .t) state.saved.t 0
  let reached := if savedNewProvers.len ≠ 0 then ping else none
  { state with
    n := getState (readable .n) state.saved.n 0
    t := savedT
    epsilon := getState (readable .epsilon) state.saved.epsilon 0
    newProvers := savedNewProvers
    tstarProvers := getState (readable .tstarProvers) state.saved.tstarProvers ∅
    pubkeyShares := getState (readable .pubkeyShares) state.saved.pubkeyShares ∅
    activeProvers := savedNewProvers.values.map Prod.fst
    readyNodes := reached.getD ∅
    -- the nodes counted are those that were ready before
    ready := reached.isSome && decide (savedT ≤ state.readyNodes.card) }

/-! ### Messages and steps -/

inductive Cache where
  | req | res | batch | pubsub
deriving DecidableEq, Repr

/-- The messages of the actor that touch the relay's state, and `expire`: an entry of a cache is gone. -/
inductive Event where
  | processReceivedProof (c : CurveId) (nodeIdx : ℕ) (peerId : PeerId) (requestId : String)
      (proof : DLEQProof (env.curve c)) (method : Method) (redis : RedisReply)
  | mulRequest (request : RequestToNetwork) (requestId : String) (reply : MulRequestReply)
  | updatedThreshold (electionInfo : ElectionInfo)
  | updateElectedProvers (provers : List ProverInfo) (isCacheProver : Bool)
  | storeKSet (peerId : PeerId) (pubkeyShares : PubkeyShares) (idx : ℕ) (groupPublicKeys : HMap String Bytes)
  | storeQuorumMap (tstarProvers newQuorumProvers : HMap PeerId (ProverInfo × ℕ))
  | updateCachedProversMap (newProvers : HMap PeerId (ProverInfo × ℕ))
  | resharingStoreKSet (peerId : PeerId) (pubkeyShares : PubkeyShares) (idx : ℕ)
  | clearShares
  | saveCurrentState (written : SavedKey → Bool)
  | backupState (written : SavedKey → Bool)
  | rollbackToPreviousState (readable : SavedKey → Bool) (ping : Option (Finset ℕ))
  | expire (cache : Cache) (key : String)

def expire (cache : Cache) (key : String) (state : Relay) : Relay :=
  match cache with
  | .req => { state with reqCache := state.reqCache.remove key }
  | .res => { state with resCache := state.resCache.remove key }
  | .batch => { state with batchCache := state.batchCache.remove key }
  | .pubsub => { state with pubsubCache := state.pubsubCache.remove key }

def handle (state : Relay) : Event env → Outcome Empty (Relay × List (Effect env))
  | .processReceivedProof c nodeIdx peerId requestId proof method redis =>
    processReceivedProof env c state nodeIdx peerId requestId proof method redis
  | .mulRequest request requestId reply => .ok (handleMultiplicationRequest env state request requestId reply)
  | .updatedThreshold electionInfo => .ok (updateThreshold electionInfo state, [])
  | .updateElectedProvers provers isCacheProver => .ok (updateElectedProvers provers isCacheProver state, [])
  | .storeKSet peerId pubkeyShares idx groupPublicKeys =>
    .ok (storeKset peerId pubkeyShares idx groupPublicKeys state, [])
  | .storeQuorumMap tstarProvers newQuorumProvers => .ok (storeQuorumMap tstarProvers newQuorumProvers state, [])
  | .updateCachedProversMap newProvers => .ok (updateCachedProversMap newProvers state, [])
  | .resharingStoreKSet peerId pubkeyShares idx => .ok (storeResharingKset peerId pubkeyShares idx state, [])
  | .clearShares => .ok (clearShares state, [])
  | .saveCurrentState written => .ok (saveCurrentState written state, [])
  | .backupState written => .ok (backupState written state, [])
  | .rollbackToPreviousState readable ping => .ok (rollbackToPreviousState readable ping state, [])
  | .expire cache key => .ok (expire cache key state, [])

end HumanNetwork
