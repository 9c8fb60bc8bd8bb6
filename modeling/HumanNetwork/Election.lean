import HumanNetwork.Jwt
import HumanNetwork.Relay

/-!
# Elections (`election_actor.rs`, `network/src/utils.rs`)

The relay elects a quorum from the registry of peers. `fetchProversV2` reads the registry: the index of a
prover is its position there. The first election takes the first reachable provers, a re-election samples
the new quorum by stake and keeps the reachable provers of the old one as `T*`. What an election does to the
other actors of its node is the list of messages it casts.

The answers of the registry, of pings and of the randomness beacon are part of a message, and so are the rounds
of a loop that waits: a list of answers that ends before the loop does leaves the handler waiting (`none`).
Third-party code is a parameter (`ElectionEnv`), and so is the arithmetic of `f64`.
-/

namespace HumanNetwork
open Outcome

/-- The operations of `f64` that `calculate_threshold` uses. -/
structure F64 where
  Val : Type
  ofNat : ℕ → Val
  lt : Val → Val → Bool
  mul : Val → Val → Val
  div : Val → Val → Val
  ceilU32 : Val → ℕ

def calculateThreshold (f64 : F64) (n : ℕ) (thresholdPercentage : f64.Val) : ℕ :=
  if f64.lt thresholdPercentage (f64.ofNat 0) || f64.lt (f64.ofNat 100) thresholdPercentage then 0
  else if n = 0 then 0
  else
    let intermediate := f64.div (f64.mul (f64.ofNat n) thresholdPercentage) (f64.ofNat 100)
    -- a zero result of a positive number is logged and returned all the same
    f64.ceilU32 intermediate

/-! ### The registry -/

structure Peer where
  addr : Address
  peerId : String
  multiaddr : String
  libp2pPubkey : String
  rsaPubkey : String
deriving DecidableEq, Repr

structure ProverInfoWithoutStake extends ProverInfo where
  evmAddress : Address
  rsaPubKey : String
deriving DecidableEq, Repr

structure ProverRecord extends ProverInfoWithoutStake where
  votingPower : ℕ
deriving DecidableEq, Repr

structure DrandResponse where
  round : ℕ
  randomness : String
  signature : String
  previousSignature : String
deriving DecidableEq, Repr, Inhabited

structure ElectionEnv where
  f64 : F64
  parsePeerId : String → Option PeerId
  parseMultiaddr : String → Bool
  decodePublicKey : String → Bool
  hexDecode : String → Except String Bytes
  verifyDrand : ℕ → Bytes → Bytes → Bool
  /-- `weighted_sample_with_sqrt` on the generator of a seed, in the given iteration. -/
  weightedSample : Bytes → ℕ → List ProverRecord → Option ℕ

/-- What the chain answers: the peers of the registry and their stakes. -/
structure Registry where
  peers : List Peer
  votingPower : Address → Option ℕ

variable (env : ElectionEnv)

def parseProverInfo (idx : ℕ) (prover : Peer) : Option ProverInfoWithoutStake := do
  let peerId ← env.parsePeerId prover.peerId
  guard (env.parseMultiaddr prover.multiaddr)
  guard (env.decodePublicKey prover.libp2pPubkey)
  -- the RSA key is kept as the string it is
  return ⟨⟨peerId, idx⟩, prover.addr, prover.rsaPubkey⟩

def getProverStake (registry : Registry) (prover : ProverInfoWithoutStake) : Outcome String ProverRecord := do
  let votingPower ← unwrap (registry.votingPower prover.evmAddress) "called `Result::unwrap()` on an `Err` value"
  return ⟨prover, votingPower⟩

def fetchProver (registry : Registry) (idx : ℕ) (prover : Peer) : Outcome String (Option ProverRecord) :=
  match parseProverInfo env idx prover with
  | some info => toOption (getProverStake registry info)
  | none => .ok none

def fetchLoop (registry : Registry) : List Peer → ℕ → Outcome String (List ProverRecord)
  | [], _ => .ok []
  | prover :: peers, idx => do
    let info ← fetchProver env registry idx prover
    let rest ← fetchLoop registry peers (idx + 1)
    return info.toList ++ rest

def fetchProversV2 (registry : Registry) : Outcome String (List ProverRecord) := do
  let proverInfo ← fetchLoop env registry registry.peers 0
  check (proverInfo ≠ []) "No valid prover information was found. Prover info: []"
  return proverInfo

/-- `provers[2..]`: the first two are the bootstrap and the relay node. -/
def skipBootstrap (provers : List ProverRecord) : Outcome String (List ProverRecord) := do
  let len := provers.length
  check (2 ≤ len) s!"range start index 2 out of range for slice of length {len}"
  return provers.drop 2

def pingPeers (newSet : List ProverRecord) (answers : ProverRecord → Bool) : Except String (List ProverRecord) :=
  if newSet = [] then .error "No peers provided"
  else if newSet.filter answers = [] then .error "No reachable peers found"
  else .ok (newSet.filter answers)

/-! ### Sampling -/

/-- An iteration that samples nothing goes on with the next one when enough are there: the value
`Some(result.clone())` is dropped. -/
def sampleLoop {α : Type} (sample : ℕ → List α → Option ℕ) (minNodes : ℕ) :
    List ℕ → List α → List α → Outcome String (Option (List α))
  | [], _, result => .ok (some result)
  | i :: is, theNodes, result =>
    match sample i theNodes with
    | some idx => do
      let node ← unwrap theNodes[idx]? "removal index should be < len"
      sampleLoop sample minNodes is (theNodes.eraseIdx idx) (result ++ [node])
    | none => if minNodes ≤ result.length then sampleLoop sample minNodes is theNodes result else .ok none

def weightedSampleNNoReplace {α : Type} (sample : ℕ → List α → Option ℕ) (minNodes : ℕ) (nodes : List α) (n : ℕ) :
    Outcome String (Option (List α)) :=
  if nodes.length = 0 ∨ n = 0 ∨ n > nodes.length then .ok none
  else sampleLoop sample minNodes (List.range n) nodes []

/-- The seed for the sampling, and the beacon's answer that is gossiped with the result. -/
def drandSeed (fallback : Bytes) (fetched : Option DrandResponse) : Outcome String (Bytes × DrandResponse) :=
  match fetched with
  | none => .ok (fallback, default)
  | some data =>
    match env.hexDecode data.previousSignature, env.hexDecode data.signature with
    | .error e, _ => fail s!"Invalid DRAND previous signature: {e}"
    | .ok _, .error e => fail s!"Invalid DRAND signature: {e}"
    | .ok prevSig, .ok sig =>
      if env.verifyDrand data.round prevSig sig then
        match env.hexDecode data.randomness with
        | .ok randomness => .ok (if 32 ≤ randomness.length then randomness.take 32 else fallback, data)
        | .error _ => .ok (fallback, data)
      else .ok (fallback, default)

/-! ### The actor -/

inductive ElectionState where
  | collectingProposals
  | collectedProposals
  | triggerElection
  | quorumElected
deriving DecidableEq, Repr

inductive RelectionStatus where
  | reElected
  | resharingInit
  | resharingRound1
  | resharingRound2
  | resharingRound3
deriving DecidableEq, Repr

inductive MonitorEvent where
  | dkg
  | resharing
deriving DecidableEq, Repr

abbrev QuorumMap := HMap PeerId (ProverRecord × ℕ)

/-- The message that sets parameters: an absent field stays. -/
structure ElectionParams (f64 : F64) where
  threshold : Option f64.Val
  epsilon : Option ℕ
  minNodes : Option ℕ

structure ElectionGlobals (f64 : F64) where
  threshold : f64.Val
  epsilon : ℕ
  minNodes : ℕ

def ElectionGlobals.default (f64 : F64) : ElectionGlobals f64 := ⟨f64.ofNat 60, 1, 3⟩

structure SavedElection (f64 : F64) where
  exclusionList : Option (Finset PeerId)
  params : ElectionParams f64

structure ReElectionCheckContext where
  tstarProvers : QuorumMap
  newProvers : QuorumMap
  groupKeys : HMap String Bytes
  electionInfo : ElectionInfo

structure ElectionEngine (f64 : F64) where
  peerId : PeerId
  relayNode : PeerId
  globals : ElectionGlobals f64
  saved : SavedElection f64
  exclusionList : Finset PeerId
  currentState : ElectionState
  electedProvers : List ProverRecord
  tstarProvers : List ProverRecord
  currentThreshold : ℕ
  reElectionCheckContext : Option ReElectionCheckContext
  electionStatus : Finset PeerId
  reElectionStatus : HMap PeerId RelectionStatus
  dkgInitStatus : Finset PeerId
  reSharingInitStatus : HMap PeerId RelectionStatus
  dkgRound1Status : Finset PeerId
  reSharingRound1Status : HMap PeerId RelectionStatus
  dkgRound2Status : Finset PeerId
  reSharingRound2Status : HMap PeerId RelectionStatus

inductive ElectionCast where
  | clearShares
  | updateElectedProvers (provers : List ProverRecord) (isCacheProver : Bool)
  | updateCachedProversMap (newProvers : QuorumMap)
  | storeQuorumMap (tstarProvers newProvers : QuorumMap)
  | updatedThreshold (electionInfo : ElectionInfo)
  | updateNodeIdx (idx : ℕ)
  | forwardReElectedProvers (electionInfo : ElectionInfo) (tstarProvers newProvers : QuorumMap) (drand : DrandResponse)
  | monitorQuorumFormation (event : MonitorEvent)
  | dkgClearShares
  | dkgInit (idx : ℕ) (peerId : PeerId) (provers : QuorumMap) (threshold : ℕ)
  | resharingInit (idx : ℕ) (tstarProvers newProvers : QuorumMap) (electionInfo : ElectionInfo) (peerId : PeerId)
      (groupKeys : HMap String Bytes)
  | gossipElectedProvers (electionInfo : ElectionInfo) (provers : List ProverRecord)
  | reportElectionNodeStatus (peerId : PeerId)
  | reportReElectionNodeStatus (peerId : PeerId)

def quorumMap (provers : List ProverRecord) : QuorumMap :=
  .collect (fun prover => prover.peerId) (fun prover => (prover, prover.idx)) provers

def indexedProversMap (provers : List ProverRecord) : HMap ProverRecord ℕ :=
  .collect id (fun prover => prover.idx) provers

def indexedQuorumMap (indexed : HMap ProverRecord ℕ) (provers : List ProverRecord) : Outcome String QuorumMap :=
  provers.foldlM (fun m prover => do
    let idx ← unwrap (indexed.get? prover) unwrapNone
    return m.insert prover.peerId (prover, idx)) ∅

structure FirstElectionReply where
  registry : Registry
  pings : List (ProverRecord → Bool)

/-- What a re-election meets: the registry each time it is read, who answers the ping, the beacon and a random
seed in its place. -/
structure ReElectionReply where
  registries : List Registry
  ping : ProverRecord → Bool
  drand : Option DrandResponse
  randNum : Bytes

def waitReachable (minNodes : ℕ) (provers : List ProverRecord) : List (ProverRecord → Bool) → Option (List ProverRecord)
  | [] => none
  | ping :: pings =>
    match pingPeers provers ping with
    | .ok reachable => if reachable.length < minNodes then waitReachable minNodes provers pings else some reachable
    | .error _ => waitReachable minNodes provers pings

def waitParticipating : List Registry → Outcome String (Option (List ProverRecord))
  | [] => .ok none
  | registry :: registries => do
    let provers ← fetchProversV2 env registry
    if provers.length ≤ 2 then waitParticipating registries else return some provers

namespace ElectionEngine
variable {env}

/-- `pre_start` of the actor, with the globals of the new process. -/
def preStart (f64 : F64) (peerId relayNode : PeerId) (saved : SavedElection f64) : ElectionEngine f64 where
  peerId := peerId
  relayNode := relayNode
  globals :=
    let initial := ElectionGlobals.default f64
    { threshold := saved.params.threshold.getD initial.threshold
      epsilon := saved.params.epsilon.getD initial.epsilon
      minNodes := saved.params.minNodes.getD initial.minNodes }
  saved := saved
  exclusionList := saved.exclusionList.getD ∅
  currentState := .collectingProposals
  electedProvers := []
  tstarProvers := []
  currentThreshold := 0
  reElectionCheckContext := none
  electionStatus := ∅
  reElectionStatus := ∅
  dkgInitStatus := ∅
  reSharingInitStatus := ∅
  dkgRound1Status := ∅
  reSharingRound1Status := ∅
  dkgRound2Status := ∅
  reSharingRound2Status := ∅

/-- Nothing is checked, and only the relay has parameters to set. -/
def updateElectionParams {f64 : F64} (self : ElectionEngine f64) (params : ElectionParams f64)
    (written : Bool × Bool × Bool) : Outcome String (ElectionEngine f64) :=
  if self.peerId = self.relayNode then
    let globals : ElectionGlobals f64 :=
      { threshold := params.threshold.getD self.globals.threshold
        epsilon := params.epsilon.getD self.globals.epsilon
        minNodes := params.minNodes.getD self.globals.minNodes }
    let saved := self.saved.params
    .ok { self with
      globals := globals
      saved := { self.saved with params :=
        { threshold := saveState written.1 saved.threshold globals.threshold
          epsilon := saveState written.2.1 saved.epsilon globals.epsilon
          minNodes := saveState written.2.2 saved.minNodes globals.minNodes } } }
  else fail "Not a relay node"

variable (env)

def conductElection (self : ElectionEngine env.f64) (registry : Registry) : Outcome String (ElectionEngine env.f64) := do
  let provers ← fetchProversV2 env registry
  let electedProvers ← skipBootstrap provers
  return { self with electedProvers := electedProvers, currentState := .quorumElected }

def handleTriggerElection (self : ElectionEngine env.f64) (reply : FirstElectionReply) :
    Outcome String (Option (ElectionEngine env.f64 × List ElectionCast)) := do
  let self ← self.conductElection env reply.registry
  let self := { self with dkgInitStatus := ∅, dkgRound1Status := ∅, dkgRound2Status := ∅ }
  let some reachable := waitReachable self.globals.minNodes self.electedProvers reply.pings | return none
  let electedProvers := reachable.take self.globals.minNodes
  let newQuorumMap ← indexedQuorumMap (indexedProversMap reachable) electedProvers
  let threshold := calculateThreshold env.f64 electedProvers.length self.globals.threshold
  let electionInfo : ElectionInfo := ⟨threshold, self.globals.epsilon, electedProvers.length % 2 ^ 32⟩
  return some ({ self with electedProvers := electedProvers, currentThreshold := threshold },
    [.updateCachedProversMap newQuorumMap, .updateElectedProvers electedProvers false,
      .updatedThreshold electionInfo, .gossipElectedProvers electionInfo electedProvers, .monitorQuorumFormation .dkg])

def clearStatuses {f64 : F64} (self : ElectionEngine f64) : ElectionEngine f64 :=
  { self with
    electionStatus := ∅
    reElectionStatus := ∅
    reSharingInitStatus := ∅
    reSharingRound1Status := ∅
    reSharingRound2Status := ∅
    dkgInitStatus := ∅
    dkgRound1Status := ∅
    dkgRound2Status := ∅ }

def participating (self : ElectionEngine env.f64) (provers : List ProverRecord) : List ProverRecord :=
  (provers.drop 2).filter fun p => p.peerId ∉ self.exclusionList

def tstarQuorum (prevElectedProvers : List ProverInfo) (reachable : List ProverRecord) : List ProverRecord :=
  reachable.filter fun p => p.peerId ∈ prevElectedProvers.map ProverInfo.peerId

/-- The end of a re-election, when the new quorum has been sampled. `current_threshold` stays. -/
def announce (self : ElectionEngine env.f64) (prevElectedProvers : List ProverInfo)
    (participating reachable newSet : List ProverRecord) (drand : DrandResponse) :
    Outcome String (ElectionEngine env.f64 × List ElectionCast) :=
  let tstar := tstarQuorum prevElectedProvers reachable
  if tstar.length ≥ self.currentThreshold then do
    let indexed := indexedProversMap participating
    let tstarQuorumMap ← indexedQuorumMap indexed tstar
    let newQuorum := newSet.take self.globals.minNodes
    let newQuorumMap ← indexedQuorumMap indexed newQuorum
    let threshold := calculateThreshold env.f64 newQuorum.length self.globals.threshold
    let electionInfo : ElectionInfo := ⟨threshold, self.globals.epsilon, newQuorum.length % 2 ^ 32⟩
    return ({ self with tstarProvers := tstar, electedProvers := newQuorum },
      [.clearShares, .updateElectedProvers newQuorum true, .storeQuorumMap tstarQuorumMap newQuorumMap,
        .updatedThreshold electionInfo, .forwardReElectedProvers electionInfo tstarQuorumMap newQuorumMap drand,
        .monitorQuorumFormation .resharing])
  else .ok (self, [])

def triggerReElection (self : ElectionEngine env.f64) (prevElectedProvers : List ProverInfo) (reply : ReElectionReply) :
    Outcome String (Option (ElectionEngine env.f64 × List ElectionCast)) := do
  let self := self.clearStatuses
  let some provers ← waitParticipating env reply.registries | return none
  let participatingProvers := self.participating env provers
  ensure (participatingProvers ≠ []) "No valid participating provers"
  match pingPeers participatingProvers reply.ping with
  | .error e => fail s!"Peer ping failed: \"{e}\""
  | .ok reachable =>
    let minNodes := self.globals.minNodes
    if reachable.length < minNodes then return some (self, [])
    let (randNum, drand) ← drandSeed env reply.randNum reply.drand
    match ← weightedSampleNNoReplace (env.weightedSample randNum) minNodes reachable minNodes with
    | none => return some (self, [.monitorQuorumFormation .resharing])
    | some newSet => return some (← self.announce env prevElectedProvers participatingProvers reachable newSet drand)

/-! The handlers of a prover. -/

variable {env} {f64 : F64}

def handleCheckElectedStatus (self : ElectionEngine f64) (peerIds : List ProverRecord) :
    ElectionEngine f64 × List ElectionCast :=
  match peerIds.find? fun prover => prover.peerId = self.peerId with
  | some prover =>
    ({ self with electedProvers := peerIds },
      [.updateNodeIdx (prover.idx % 2 ^ 32), .updateCachedProversMap (quorumMap peerIds),
        .reportElectionNodeStatus self.peerId])
  | none => (self, [])

def handleCheckReElectedStatus (self : ElectionEngine f64) (electionInfo : ElectionInfo)
    (tstarProvers newProvers : QuorumMap) (groupKeys : HMap String Bytes) : ElectionEngine f64 × List ElectionCast :=
  let report := match tstarProvers.get? self.peerId, newProvers.get? self.peerId with
    | some _, _ => [.reportReElectionNodeStatus self.peerId]
    | none, some (_, idx) => [.reportReElectionNodeStatus self.peerId, .updateNodeIdx (idx % 2 ^ 32)]
    | none, none => []
  ({ self with reElectionCheckContext := some ⟨tstarProvers, newProvers, groupKeys, electionInfo⟩ },
    [.clearShares, .dkgClearShares] ++ report ++ [.updateCachedProversMap newProvers])

/-- A prover computes the threshold of the key generation from its own percentage. -/
def handleTriggerInitDkg (self : ElectionEngine f64) : List ElectionCast :=
  match self.electedProvers.find? fun prover => prover.peerId = self.peerId with
  | some prover =>
    let threshold := calculateThreshold f64 self.electedProvers.length self.globals.threshold
    [.dkgInit prover.idx self.peerId (quorumMap self.electedProvers) threshold]
  | none => []

def handleTriggerInitResharing (self : ElectionEngine f64) : List ElectionCast :=
  match self.reElectionCheckContext with
  | none => []
  | some ctx =>
    match ctx.tstarProvers.get? self.peerId, ctx.newProvers.get? self.peerId with
    | some (_, idx), _ =>
      [.resharingInit idx ctx.tstarProvers ctx.newProvers ctx.electionInfo self.peerId ctx.groupKeys]
    | none, some (_, idx) =>
      [.resharingInit idx ctx.tstarProvers ctx.newProvers ctx.electionInfo self.peerId ctx.groupKeys,
        .updateNodeIdx (idx % 2 ^ 32)]
    | none, none => []

end ElectionEngine

/-! ### What the registry gives -/

variable {env}

def Registry.Lists (env : ElectionEnv) (registry : Registry) (p : PeerId) (i : ℕ) : Prop :=
  ∃ peer, registry.peers[i]? = some peer ∧ env.parsePeerId peer.peerId = some p

def Registry.peerIds (env : ElectionEnv) (registry : Registry) : List PeerId :=
  registry.peers.filterMap fun peer => env.parsePeerId peer.peerId

section registry
variable {registry : Registry} {provers : List ProverRecord}

theorem parseProverInfo_eq_some {idx : ℕ} {peer : Peer} {info : ProverInfoWithoutStake}
    (h : parseProverInfo env idx peer = some info) :
    env.parsePeerId peer.peerId = some info.peerId ∧ info.idx = idx := by
  simp only [parseProverInfo, Option.bind_eq_bind, Option.bind_eq_some_iff] at h
  obtain ⟨peerId, hpeer, _, -, _, -, h⟩ := h
  obtain rfl := Option.some.inj h
  exact ⟨hpeer, rfl⟩

theorem getProverStake_eq_ok {info : ProverInfoWithoutStake} {p : ProverRecord}
    (h : getProverStake registry info = .ok p) : p.toProverInfoWithoutStake = info := by
  simp only [getProverStake, bind_eq_ok, pure_eq_ok, Except.ok.injEq] at h
  obtain ⟨_, -, rfl⟩ := h
  rfl

theorem fetchLoop_cons {peer : Peer} {peers : List Peer} {idx : ℕ}
    (h : fetchLoop env registry (peer :: peers) idx = .ok provers) :
    ∃ kept rest, fetchLoop env registry peers (idx + 1) = .ok rest ∧ provers = Option.toList kept ++ rest ∧
      ∀ p ∈ kept, env.parsePeerId peer.peerId = some p.peerId ∧ p.idx = idx := by
  simp only [fetchLoop, bind_eq_ok, pure_eq_ok, Except.ok.injEq] at h
  obtain ⟨kept, hkept, rest, hrest, rfl⟩ := h
  refine ⟨kept, rest, hrest, rfl, ?_⟩
  rintro p rfl
  unfold fetchProver at hkept
  cases hparse : parseProverInfo env idx peer with
  | none => simp [hparse] at hkept
  | some info =>
    rw [hparse] at hkept
    have hinfo := getProverStake_eq_ok (toOption_eq_some.1 hkept)
    obtain ⟨hid, hidx⟩ := parseProverInfo_eq_some hparse
    rw [hinfo]
    exact ⟨hid, hidx⟩

theorem mem_fetchLoop {peers : List Peer} {idx : ℕ} (h : fetchLoop env registry peers idx = .ok provers)
    {p : ProverRecord} (hp : p ∈ provers) :
    ∃ k peer, peers[k]? = some peer ∧ env.parsePeerId peer.peerId = some p.peerId ∧ p.idx = idx + k := by
  induction peers generalizing idx provers with
  | nil =>
    obtain rfl := Except.ok.inj h
    cases hp
  | cons peer peers ih =>
    obtain ⟨kept, rest, hrest, rfl, hkept⟩ := fetchLoop_cons h
    rcases List.mem_append.1 hp with hp | hp
    · obtain ⟨hid, hidx⟩ := hkept p (by simpa using hp)
      exact ⟨0, peer, rfl, hid, hidx⟩
    · obtain ⟨k, peer', hpeer', hid, hidx⟩ := ih hrest hp
      exact ⟨k + 1, peer', hpeer', hid, by omega⟩

theorem sublist_fetchLoop {peers : List Peer} {idx : ℕ} (h : fetchLoop env registry peers idx = .ok provers) :
    (provers.map fun p => p.peerId).Sublist (peers.filterMap fun peer => env.parsePeerId peer.peerId) := by
  induction peers generalizing idx provers with
  | nil =>
    obtain rfl := Except.ok.inj h
    exact List.Sublist.refl _
  | cons peer peers ih =>
    obtain ⟨kept, rest, hrest, rfl, hkept⟩ := fetchLoop_cons h
    cases kept with
    | none =>
      rw [List.filterMap_cons]
      split
      · exact ih hrest
      · exact (ih hrest).cons _
    | some p =>
      rw [List.filterMap_cons, (hkept p rfl).1]
      exact (ih hrest).cons_cons _

theorem fetchProversV2_eq_ok (h : fetchProversV2 env registry = .ok provers) :
    fetchLoop env registry registry.peers 0 = .ok provers := by
  simp only [fetchProversV2, bind_eq_ok, pure_eq_ok, Except.ok.injEq] at h
  obtain ⟨_, hloop, _, -, rfl⟩ := h
  exact hloop

theorem fetchProversV2_lists (h : fetchProversV2 env registry = .ok provers) {p : ProverRecord} (hp : p ∈ provers) :
    registry.Lists env p.peerId p.idx := by
  obtain ⟨k, peer, hpeer, hid, hidx⟩ := mem_fetchLoop (fetchProversV2_eq_ok h) hp
  rw [Nat.zero_add] at hidx
  exact ⟨peer, hidx ▸ hpeer, hid⟩

theorem fetchProversV2_nodup (h : fetchProversV2 env registry = .ok provers) (hnodup : (registry.peerIds env).Nodup) :
    (provers.map fun p => p.peerId).Nodup :=
  hnodup.sublist (sublist_fetchLoop (fetchProversV2_eq_ok h))

end registry

/-! ### Quorums -/

section quorum
variable {provers source : List ProverRecord} {m : QuorumMap}

theorem get?_quorumMap (provers : List ProverRecord) (p : PeerId) : (quorumMap provers).get? p =
    (provers.reverse.find? fun prover => prover.peerId = p).map fun prover => (prover, prover.idx) :=
  HMap.get?_collect _ _ _ _

theorem mem_of_get?_quorumMap {p : PeerId} {r : ProverRecord} {i : ℕ} (h : (quorumMap provers).get? p = some (r, i)) :
    r ∈ provers ∧ r.peerId = p ∧ i = r.idx := by
  rw [get?_quorumMap, Option.map_eq_some_iff] at h
  obtain ⟨r', hfind, h⟩ := h
  obtain ⟨rfl, rfl⟩ := Prod.mk.inj h
  refine ⟨List.mem_reverse.1 (List.mem_of_find?_eq_some hfind), ?_, rfl⟩
  simpa using List.find?_some hfind

theorem get?_indexedProversMap {p : ProverRecord} {i : ℕ} :
    (indexedProversMap source).get? p = some i ↔ p ∈ source ∧ i = p.idx := by
  rw [indexedProversMap, HMap.get?_collect, Option.map_eq_some_iff]
  constructor
  · rintro ⟨q, hfind, rfl⟩
    have hq : q = p := by simpa using List.find?_some hfind
    subst hq
    exact ⟨List.mem_reverse.1 (List.mem_of_find?_eq_some hfind), rfl⟩
  · rintro ⟨hp, rfl⟩
    cases hfind : source.reverse.find? fun a => id a = p with
    | none => simpa using List.find?_eq_none.1 hfind p (List.mem_reverse.2 hp)
    | some q =>
      have hq : q = p := by simpa using List.find?_some hfind
      exact ⟨q, rfl, by rw [hq]⟩

theorem indexedQuorumMap_eq_ok : indexedQuorumMap (indexedProversMap source) provers = .ok m ↔
    (∀ p ∈ provers, p ∈ source) ∧ m = quorumMap provers := by
  have hbody : ∀ (m : QuorumMap) (p : ProverRecord), p ∈ source →
      (unwrap ((indexedProversMap source).get? p) unwrapNone >>= fun idx => pure (m.insert p.peerId (p, idx)) :
        Outcome String QuorumMap) = .ok (m.insert p.peerId (p, p.idx)) := by
    intro m p hp
    rw [get?_indexedProversMap.2 ⟨hp, rfl⟩]
    rfl
  constructor
  · intro h
    have hmem : ∀ p ∈ provers, p ∈ source := by
      intro p hp
      obtain ⟨_, _, hp⟩ := exists_of_foldlM h hp
      obtain ⟨i, hi, -⟩ := bind_eq_ok.1 hp
      exact (get?_indexedProversMap.1 (unwrap_eq_ok.1 hi)).1
    rw [indexedQuorumMap, foldlM_eq_ok fun m p hp => hbody m p (hmem p hp)] at h
    exact ⟨hmem, (Except.ok.inj h).symm⟩
  · rintro ⟨hmem, rfl⟩
    exact foldlM_eq_ok (fun m p hp => hbody m p (hmem p hp)) ∅

end quorum

/-! ### What an election has done -/

theorem pingPeers_eq_ok {newSet reachable : List ProverRecord} {answers : ProverRecord → Bool}
    (h : pingPeers newSet answers = .ok reachable) : reachable = newSet.filter answers := by
  unfold pingPeers at h
  split at h
  · cases h
  · split at h
    · cases h
    · exact (Except.ok.inj h).symm

theorem waitReachable_eq_some {minNodes : ℕ} {provers reachable : List ProverRecord}
    {pings : List (ProverRecord → Bool)} (h : waitReachable minNodes provers pings = some reachable) :
    (∀ p ∈ reachable, p ∈ provers) ∧ minNodes ≤ reachable.length := by
  induction pings with
  | nil => cases h
  | cons ping pings ih =>
    unfold waitReachable at h
    split at h
    next answered hping =>
      split at h
      · exact ih h
      next hlen =>
        obtain rfl := Option.some.inj h
        rw [pingPeers_eq_ok hping] at hlen ⊢
        exact ⟨fun p hp => List.mem_of_mem_filter hp, Nat.not_lt.1 hlen⟩
    next => exact ih h

theorem waitParticipating_eq_some {registries : List Registry} {provers : List ProverRecord}
    (h : waitParticipating env registries = .ok (some provers)) :
    ∃ registry ∈ registries, fetchProversV2 env registry = .ok provers := by
  induction registries with
  | nil => cases h
  | cons registry registries ih =>
    simp only [waitParticipating, bind_eq_ok] at h
    obtain ⟨fetched, hfetched, h⟩ := h
    split at h
    · obtain ⟨r, hr, hprovers⟩ := ih h
      exact ⟨r, List.mem_cons_of_mem _ hr, hprovers⟩
    · obtain rfl := Option.some.inj (Except.ok.inj h)
      exact ⟨registry, List.mem_cons_self, hfetched⟩

namespace ElectionEngine
variable {self self' : ElectionEngine env.f64} {casts : List ElectionCast}

def electionInfo (self : ElectionEngine env.f64) (len : ℕ) : ElectionInfo :=
  ⟨calculateThreshold env.f64 len self.globals.threshold, self.globals.epsilon, len % 2 ^ 32⟩

theorem updateElectionParams_eq_ok {f64 : F64} {self self' : ElectionEngine f64} {params : ElectionParams f64}
    {written : Bool × Bool × Bool} (h : self.updateElectionParams params written = .ok self') :
    self.peerId = self.relayNode ∧ ∃ globals saved, self' = { self with globals := globals, saved := saved } := by
  unfold updateElectionParams at h
  split at h
  next hrelay => exact ⟨hrelay, _, _, (Except.ok.inj h).symm⟩
  next => cases h

theorem handleTriggerElection_eq_ok {reply : FirstElectionReply}
    (h : self.handleTriggerElection env reply = .ok (some (self', casts))) :
    ∃ provers elected info, fetchProversV2 env reply.registry = .ok provers ∧ (∀ p ∈ elected, p ∈ provers) ∧
      elected.length = self.globals.minNodes ∧ info = self.electionInfo self.globals.minNodes ∧
      self' = { self with
        currentState := .quorumElected, dkgInitStatus := ∅, dkgRound1Status := ∅, dkgRound2Status := ∅
        electedProvers := elected, currentThreshold := info.threshold } ∧
      casts = [.updateCachedProversMap (quorumMap elected), .updateElectedProvers elected false,
        .updatedThreshold info, .gossipElectedProvers info elected, .monitorQuorumFormation .dkg] := by
  simp only [handleTriggerElection, conductElection, skipBootstrap, bind_eq_ok, pure_eq_ok, Except.ok.injEq] at h
  obtain ⟨_, ⟨provers, hprovers, _, ⟨_, -, rfl⟩, rfl⟩, h⟩ := h
  split at h
  next reachable hreachable =>
    simp only [bind_eq_ok, Except.ok.injEq, Option.some.injEq, Prod.mk.injEq] at h
    obtain ⟨m, hm, rfl, rfl⟩ := h
    obtain ⟨hmem, hlen⟩ : (∀ p ∈ reachable, p ∈ provers.drop 2) ∧ self.globals.minNodes ≤ reachable.length :=
      waitReachable_eq_some hreachable
    obtain ⟨-, rfl⟩ := indexedQuorumMap_eq_ok.1 hm
    have htake : (reachable.take self.globals.minNodes).length = self.globals.minNodes := by
      rw [List.length_take]; omega
    refine ⟨provers, _, _, hprovers, ?_, htake, rfl, ?_, ?_⟩
    · exact fun p hp => List.mem_of_mem_drop (hmem p (List.mem_of_mem_take hp))
    · rw [electionInfo, htake]
    · rw [electionInfo, htake]
  next => cases h

structure Announces (before after : ElectionEngine env.f64) (prevElectedProvers : List ProverInfo)
    (reply : ReElectionReply) (casts : List ElectionCast) (provers newQuorum : List ProverRecord) (drand : DrandResponse) :
    Prop where
  fetched : waitParticipating env reply.registries = .ok (some provers)
  enough : before.currentThreshold ≤
    (tstarQuorum prevElectedProvers ((before.participating env provers).filter reply.ping)).length
  elected : ∀ p ∈ newQuorum, p ∈ before.participating env provers
  engine : after = { before.clearStatuses with
    tstarProvers := tstarQuorum prevElectedProvers ((before.participating env provers).filter reply.ping)
    electedProvers := newQuorum }
  sent : casts = [.clearShares, .updateElectedProvers newQuorum true,
    .storeQuorumMap (quorumMap after.tstarProvers) (quorumMap newQuorum),
    .updatedThreshold (before.electionInfo newQuorum.length),
    .forwardReElectedProvers (before.electionInfo newQuorum.length) (quorumMap after.tstarProvers)
      (quorumMap newQuorum) drand,
    .monitorQuorumFormation .resharing]

/-- What a re-election that returns has done. The new quorum is what was sampled from the reachable provers. -/
theorem triggerReElection_eq_ok {prevElectedProvers : List ProverInfo} {reply : ReElectionReply}
    (h : self.triggerReElection env prevElectedProvers reply = .ok (some (self', casts))) :
    (self' = self.clearStatuses ∧ (casts = [] ∨ casts = [.monitorQuorumFormation .resharing])) ∨
      ∃ provers newSet seed drand,
        weightedSampleNNoReplace (env.weightedSample seed) self.globals.minNodes
          ((self.participating env provers).filter reply.ping) self.globals.minNodes = .ok (some newSet) ∧
        Announces self self' prevElectedProvers reply casts provers (newSet.take self.globals.minNodes) drand := by
  simp only [triggerReElection, bind_eq_ok] at h
  obtain ⟨fetched, hfetched, h⟩ := h
  split at h
  next provers =>
    simp only [bind_eq_ok] at h
    obtain ⟨_, -, h⟩ := h
    split at h
    next => cases h
    next reachable hping =>
      obtain rfl := pingPeers_eq_ok hping
      split at h
      · obtain ⟨rfl, rfl⟩ := Prod.mk.inj (Option.some.inj (Except.ok.inj h))
        exact .inl ⟨rfl, .inl rfl⟩
      simp only [bind_eq_ok] at h
      obtain ⟨⟨seed, drand⟩, -, sampled, hsampled, h⟩ := h
      split at h
      · obtain ⟨rfl, rfl⟩ := Prod.mk.inj (Option.some.inj (Except.ok.inj h))
        exact .inl ⟨rfl, .inr rfl⟩
      next newSet =>
        obtain ⟨⟨_, _⟩, hann, h⟩ := bind_eq_ok.1 h
        obtain ⟨rfl, rfl⟩ := Prod.mk.inj (Option.some.inj (Except.ok.inj h))
        simp only [announce] at hann
        split at hann
        next henough =>
          simp only [bind_eq_ok, pure_eq_ok, Except.ok.injEq, Prod.mk.injEq] at hann
          obtain ⟨_, htstar, _, hnew, rfl, rfl⟩ := hann
          obtain ⟨-, rfl⟩ := indexedQuorumMap_eq_ok.1 htstar
          obtain ⟨helected, rfl⟩ := indexedQuorumMap_eq_ok.1 hnew
          exact .inr ⟨provers, newSet, seed, drand, hsampled, hfetched, henough, helected, rfl, rfl⟩
        next =>
          obtain ⟨rfl, rfl⟩ := Prod.mk.inj (Except.ok.inj hann)
          exact .inl ⟨rfl, .inl rfl⟩
  next => cases h

theorem triggerReElection_cases {prevElectedProvers : List ProverInfo} {reply : ReElectionReply}
    (h : self.triggerReElection env prevElectedProvers reply = .ok (some (self', casts))) :
    (self' = self.clearStatuses ∧ (casts = [] ∨ casts = [.monitorQuorumFormation .resharing])) ∨
      ∃ provers newQuorum drand, Announces self self' prevElectedProvers reply casts provers newQuorum drand := by
  rcases triggerReElection_eq_ok h with hnone | ⟨provers, newSet, seed, drand, -, hann⟩
  · exact .inl hnone
  · exact .inr ⟨provers, _, drand, hann⟩

theorem sampled_of_mem {prevElectedProvers : List ProverInfo} {reply : ReElectionReply} {info : ElectionInfo}
    {tstar new : QuorumMap} {drand : DrandResponse}
    (h : self.triggerReElection env prevElectedProvers reply = .ok (some (self', casts)))
    (hann : .forwardReElectedProvers info tstar new drand ∈ casts) :
    ∃ provers newSet seed,
      weightedSampleNNoReplace (env.weightedSample seed) self.globals.minNodes
        ((self.participating env provers).filter reply.ping) self.globals.minNodes = .ok (some newSet) ∧
      Announces self self' prevElectedProvers reply casts provers (newSet.take self.globals.minNodes) drand ∧
      info = self.electionInfo (newSet.take self.globals.minNodes).length ∧ tstar = quorumMap self'.tstarProvers ∧
      new = quorumMap (newSet.take self.globals.minNodes) := by
  rcases triggerReElection_eq_ok h with ⟨-, rfl | rfl⟩ | ⟨provers, newSet, seed, drand', hsampled, hannounces⟩
  · cases hann
  · simp at hann
  · rw [hannounces.sent] at hann
    obtain ⟨rfl, rfl, rfl, rfl⟩ : _ ∧ _ ∧ _ ∧ _ := by simpa using hann
    exact ⟨provers, newSet, seed, hsampled, hannounces, by rw [List.length_take], rfl, rfl⟩

theorem announces_of_mem {prevElectedProvers : List ProverInfo} {reply : ReElectionReply} {info : ElectionInfo}
    {tstar new : QuorumMap} {drand : DrandResponse}
    (h : self.triggerReElection env prevElectedProvers reply = .ok (some (self', casts)))
    (hann : .forwardReElectedProvers info tstar new drand ∈ casts) :
    ∃ provers newQuorum, Announces self self' prevElectedProvers reply casts provers newQuorum drand ∧
      info = self.electionInfo newQuorum.length ∧ tstar = quorumMap self'.tstarProvers ∧ new = quorumMap newQuorum := by
  obtain ⟨provers, newSet, seed, -, hannounces, hinfo, htstar, hnew⟩ := sampled_of_mem h hann
  exact ⟨provers, _, hannounces, hinfo, htstar, hnew⟩

theorem handleCheckElectedStatus_cases {f64 : F64} (prover : ElectionEngine f64) (provers : List ProverRecord) :
    (∃ r ∈ provers, r.peerId = prover.peerId ∧ prover.handleCheckElectedStatus provers =
      ({ prover with electedProvers := provers },
        [.updateNodeIdx (r.idx % 2 ^ 32), .updateCachedProversMap (quorumMap provers),
          .reportElectionNodeStatus prover.peerId])) ∨
      (∀ r ∈ provers, r.peerId ≠ prover.peerId) ∧ prover.handleCheckElectedStatus provers = (prover, []) := by
  unfold handleCheckElectedStatus
  split
  next r hfind => exact .inl ⟨r, List.mem_of_find?_eq_some hfind, by simpa using List.find?_some hfind, rfl⟩
  next hnone => exact .inr ⟨by simpa using hnone, rfl⟩

theorem mem_handleTriggerInitDkg {f64 : F64} {prover : ElectionEngine f64} {idx threshold : ℕ} {p : PeerId}
    {provers : QuorumMap} (h : .dkgInit idx p provers threshold ∈ prover.handleTriggerInitDkg) :
    p = prover.peerId ∧ (∃ r ∈ prover.electedProvers, r.peerId = p ∧ r.idx = idx) ∧
      threshold = calculateThreshold f64 prover.electedProvers.length prover.globals.threshold := by
  unfold handleTriggerInitDkg at h
  split at h
  next r hfind =>
    obtain ⟨rfl, rfl, -, rfl⟩ : _ ∧ _ ∧ _ ∧ _ := by simpa using h
    have hr : r.peerId = prover.peerId := by simpa using List.find?_some hfind
    exact ⟨rfl, ⟨r, List.mem_of_find?_eq_some hfind, hr, rfl⟩, rfl⟩
  next => cases h

end ElectionEngine

/-! ### A small registry -/

def exactF64 : F64 where
  Val := ℚ
  ofNat n := n
  lt a b := decide (a < b)
  mul := (· * ·)
  div := (· / ·)
  ceilU32 q := min q.ceil.toNat (2 ^ 32 - 1)

/-- Every entry of the registry parses, there is no beacon, and the sampling takes the first prover left. -/
def openElection : ElectionEnv where
  f64 := exactF64
  parsePeerId := some
  parseMultiaddr _ := true
  decodePublicKey _ := true
  hexDecode _ := .error "OddLength"
  verifyDrand _ _ _ := false
  weightedSample _ _ nodes := if nodes.isEmpty then none else some 0

def registryOf (names : List PeerId) : Registry :=
  ⟨names.map fun p => ⟨[], p, "", "", p⟩, fun _ => some 1⟩

def recordOf (p : PeerId) (i : ℕ) : ProverRecord := ⟨⟨⟨p, i⟩, [], p⟩, 1⟩

def threeProvers : List ProverRecord := [recordOf "a" 2, recordOf "b" 3, recordOf "c" 4]

def freshEngine (p : PeerId) : ElectionEngine exactF64 := .preStart exactF64 p "relay" ⟨none, ⟨none, none, none⟩⟩

def allAnswer (names : List PeerId) : ReElectionReply := ⟨[registryOf names], fun _ => true, none, []⟩

theorem firstElection_threeProvers {engine : ElectionEngine openElection.f64} {percentage : ℚ} {t : ℕ}
    (hglobals : engine.globals = ⟨percentage, 1, 3⟩) (ht : calculateThreshold exactF64 3 percentage = t) :
    engine.handleTriggerElection openElection ⟨registryOf ["boot", "relay", "a", "b", "c"], [fun _ => true]⟩ =
      .ok (some ({ engine with
        currentState := .quorumElected, dkgInitStatus := ∅, dkgRound1Status := ∅, dkgRound2Status := ∅,
        electedProvers := threeProvers, currentThreshold := t },
        [.updateCachedProversMap (quorumMap threeProvers), .updateElectedProvers threeProvers false,
          .updatedThreshold ⟨t, 1, 3⟩, .gossipElectedProvers ⟨t, 1, 3⟩ threeProvers, .monitorQuorumFormation .dkg])) := by
  subst ht
  obtain ⟨peerId, relayNode, globals, _⟩ := engine
  obtain rfl : globals = _ := hglobals
  rfl

end HumanNetwork
