import HumanNetwork.DkgEngine
import HumanNetwork.Election
import HumanNetwork.Resharing

/-!
# Resharing in the engine (`dkg_engine_actor.rs`)

The engine of a prover holds one node for each key. `handleResharingInit` prepares it for a resharing: an engine that
exists keeps its nodes, one of `T*` that has none is restored from the saved shares, and a new prover starts afresh.
`DkgEngineState.resharingRound1` and `handleResharingRound2` build the networks of `T*` and of the new quorum and run
the rounds of `Node`; between them, `handleResharingRound1Output` takes what is dealt to the engine's index.

The networks of `T*` are built with the threshold of the new quorum, so the resharing needs a `T*` of that size
(`resharing_networks_iff`).
-/

namespace HumanNetwork
open Outcome

def CurveId.fromBytes : (c : CurveId) → Bytes → Outcome Error c.Scalar
  | secp256k1, bytes => do
    check (bytes.length = 32) "assertion `left == right` failed"
    if Bytes.ofBe bytes < order secp256k1 then return (Bytes.ofBe bytes : ZMod _) else fail .invalidInput
  | babyJubJub, bytes => do
    check (32 ≤ bytes.length) shortLimbs
    -- the limbs are taken as they are
    return (Bytes.ofLe (bytes.take 32) : ZMod _) * ((2 ^ 256 : ℕ) : ZMod _)⁻¹

theorem CurveId.fromBytes_toBytes (c : CurveId) (s : c.Scalar) : c.fromBytes (c.toBytes s) = .ok s := by
  cases c with
  | secp256k1 =>
    have hs : Bytes.ofBe (Bytes.toBe 32 (ZMod.val s)) = ZMod.val s := Bytes.ofBe_toBe (val_lt_pow _ s)
    simp only [toBytes, fromBytes, Bytes.length_toBe, hs, check_of, bind_ok]
    rw [if_pos (ZMod.val_lt s), ZMod.natCast_zmod_val]
    rfl
  | babyJubJub =>
    have hlen : (toBytes babyJubJub s).length = 32 := Bytes.length_toLe 32 _
    have hs : Bytes.ofLe ((toBytes babyJubJub s).take 32) = ZMod.val (s * 2 ^ 256) := by
      rw [List.take_of_length_le hlen.le]
      exact Bytes.ofLe_toLe (val_lt_pow _ _)
    rw [fromBytes, check_of hlen.ge, bind_ok, hs, ZMod.natCast_zmod_val, Nat.cast_pow, Nat.cast_ofNat,
      mul_inv_cancel_right₀ (pow_ne_zero _ two_ne_zero_babyJubJub)]
    rfl

structure EngineEnv where
  R : Rsa
  curve : CurveId → Curve
  fromPkcs1Pem : String → Except String R.PublicKey

/-- All of them are texts in the source. The constructor says which step fails. -/
inductive EngineError where
  | network (msg : String)
  | rsaKey (msg : String)
  | missing (msg : String)
  | restore (msg : String)
  | round (e : ResharingError)

structure NodeData (R : Rsa) (C : Curve) where
  inputY : HMap ℕ Bytes
  inputV : HMap ℕ (List C.Point)
  otherPubshares : HMap ℕ C.Point
  node : Node R C

structure NodeDataVariant (env : EngineEnv) where
  c : CurveId
  data : NodeData env.R (env.curve c)

structure ResharingInitContext (env : EngineEnv) where
  rsaPrivateKey : env.R.SecretKey
  electionInfo : ElectionInfo
  nodePeerId : PeerId
  groupKeys : HMap String Bytes

structure DkgEngineState (env : EngineEnv) where
  idx : ℕ
  peerId : PeerId
  network : Network env.R
  dkgNodes : HMap String (NodeDataVariant env)
  tstarProvers : QuorumMap
  newProvers : QuorumMap
  electionInfo : ElectionInfo
  finalizedGroupPublicKeys : HMap String Bytes
  resharingRound2Triggered : Bool
  resharingRound1Context : Option (ResharingInitContext env)

def engineMethods : List Method := [.oprfSecp256k1, .oprfBabyJubJub, .jwtprfSecp256k1, .decryptBabyJubJub]

variable (env : EngineEnv)

abbrev NodeCoins := (m : Method) → (env.curve m.curve).FieldEl × (env.curve m.curve).FieldEl

namespace NodeDataVariant
variable {env}

def id (self : NodeDataVariant env) : ℕ := self.data.node.id

def clearInputs (self : NodeDataVariant env) : NodeDataVariant env :=
  ⟨self.c, { self.data with inputY := ∅, inputV := ∅, otherPubshares := ∅ }⟩

variable (env)

/-- `new_node!`. -/
def fresh (m : Method) (rsaPrivateKey : env.R.SecretKey) (idx : ℕ) (coins : NodeCoins env) : NodeDataVariant env :=
  ⟨m.curve, ⟨∅, ∅, ∅, ⟨idx, env.R.publicKey rsaPrivateKey, rsaPrivateKey, 0, (coins m).1, 0, (coins m).2⟩⟩⟩

/-- `restore_node_with_share!`. -/
def restored (m : Method) (rsaPrivateKey : env.R.SecretKey) (idx : ℕ) (keyshare networkPubkey : Bytes)
    (coins : NodeCoins env) : Outcome EngineError (NodeDataVariant env) := do
  let share ← toOption ((env.curve m.curve).id.fromBytes keyshare)
  let share ← unwrap share "called `Result::unwrap()` on an `Err` value: InvalidInput"
  let networkPubkey ← mapErr (fun e => .restore ("Error initializing node for resharing: " ++
    (Error.other ("Failed to restore network_pub key " ++ e.display)).debug)) ((env.curve m.curve).fromEncoded networkPubkey)
  return ⟨m.curve, ⟨∅, ∅, ∅,
    ⟨idx, env.R.publicKey rsaPrivateKey, rsaPrivateKey, 0, share, networkPubkey, (coins m).2⟩⟩⟩

end NodeDataVariant

def parseRsaKey (e : PeerId × ProverRecord × ℕ) : Outcome EngineError (ℕ × env.R.PublicKey) :=
  match env.fromPkcs1Pem (e.2.1.rsaPubKey.replace "\\r" "\n") with
  | .ok key => .ok (e.2.2, key)
  | .error err =>
    let peer := e.1
    fail (.rsaKey s!"Failed to parse RSA public key for peer {peer}: {err}")

def parseRsaKeys (electedPeers : QuorumMap) : Outcome EngineError (HMap ℕ env.R.PublicKey) := do
  let keys ← electedPeers.entries.mapM (parseRsaKey env)
  return .collect Prod.fst Prod.snd keys

def newNetwork (text : String) (threshold n : ℕ) (isTstar : Bool) : Outcome EngineError (Network env.R) :=
  mapErr (fun e => .network (text ++ e.debug)) (Network.new env.R threshold n isTstar)

def EngineError.addText (text : String) : EngineError → EngineError
  | .rsaKey msg => .rsaKey (text ++ msg)
  | e => e

def keyedNetwork (text keyText : String) (threshold : ℕ) (provers : QuorumMap) (isTstar : Bool) :
    Outcome EngineError (Network env.R) := do
  let network ← newNetwork env text threshold provers.len isTstar
  let rsaKeysMap ← mapErr (EngineError.addText keyText) (parseRsaKeys env provers)
  return { network with publicKeys := rsaKeysMap }

def quorumNetwork (threshold : ℕ) (provers : QuorumMap) (isTstar : Bool) : Outcome EngineError (Network env.R) :=
  keyedNetwork env "Error initializing network for Resharing: "
    "Error occurred while parsing pub keys for resharing, details: Error occurred in election engine: "
    threshold provers isTstar

namespace DkgEngineState

def dkgInit (peerId : PeerId) (idx : ℕ) (rsaPrivateKey : env.R.SecretKey) (electedPeers : QuorumMap) (threshold : ℕ)
    (coins : NodeCoins env) : Outcome EngineError (DkgEngineState env) := do
  let network ← keyedNetwork env "Error initializing network for DKG: " "" threshold electedPeers false
  return {
    idx, peerId, network
    dkgNodes := .collect Method.keyName (fun m => .fresh env m rsaPrivateKey idx coins) engineMethods
    tstarProvers := ∅
    newProvers := electedPeers
    electionInfo := ⟨0, 0, 0⟩
    finalizedGroupPublicKeys := ∅
    resharingRound2Triggered := false
    resharingRound1Context := none }

def lookupAll (what : String) (m : HMap String Bytes) : Outcome EngineError (List (Method × Bytes)) :=
  engineMethods.mapM fun method => do
    let entry ← okOr (m.get? method.keyName) (.missing (what ++ method.keyName))
    return (method, entry)

def restoreOldResharingState (peerId : PeerId) (idx : ℕ) (rsaPrivateKey : env.R.SecretKey) (electedPeers : QuorumMap)
    (threshold : ℕ) (privateKeyshares : HMap String Bytes) (tstarProvers : QuorumMap) (groupKeys : HMap String Bytes)
    (coins : NodeCoins env) : Outcome EngineError (DkgEngineState env) := do
  let shares ← lookupAll "Missing private key share for " privateKeyshares
  let pubkeys ← lookupAll "Missing group key for " groupKeys
  let nodes ← (shares.zip pubkeys).mapM fun (share, pubkey) => do
    let node ← NodeDataVariant.restored env share.1 rsaPrivateKey idx share.2 pubkey.2 coins
    return (share.1.keyName, node)
  let network ← keyedNetwork env "Failed to initialize network for DKG: " "" threshold electedPeers false
  return {
    idx, peerId, network, tstarProvers
    dkgNodes := .collect Prod.fst Prod.snd nodes
    newProvers := electedPeers
    electionInfo := ⟨threshold, electedPeers.len % 2 ^ 32, 1⟩
    finalizedGroupPublicKeys := groupKeys
    resharingRound2Triggered := false
    resharingRound1Context := none }

variable {env}

def clearInputs (self : DkgEngineState env) : DkgEngineState env :=
  { self with dkgNodes := self.dkgNodes.mapVal fun _ node => node.clearInputs }

def setResharing (self : DkgEngineState env) (tstarProvers newProvers : QuorumMap) (ctx : ResharingInitContext env) :
    DkgEngineState env :=
  { self with
    tstarProvers := tstarProvers
    newProvers := newProvers
    electionInfo := ctx.electionInfo
    finalizedGroupPublicKeys := ctx.groupKeys }

variable (env)

/-- An engine that exists: its nodes stay as they are, without their inputs. -/
def resume (self : DkgEngineState env) (ctx : ResharingInitContext env) (network : Network env.R)
    (tstarProvers newProvers : QuorumMap) : Outcome EngineError (DkgEngineState env × List PeerId) := do
  let self := { self.clearInputs with resharingRound2Triggered := false, resharingRound1Context := none }
  if tstarProvers.containsKey self.peerId then
    let rsaKeysMap ← parseRsaKeys env tstarProvers
    let self := { self with
      network := { network with publicKeys := rsaKeysMap }, resharingRound1Context := some ctx }
    return (self.setResharing tstarProvers newProvers ctx, [self.peerId])
  else
    let report := if newProvers.containsKey self.peerId then [self.peerId] else []
    return (self.setResharing tstarProvers newProvers ctx, report)

def join (ctx : ResharingInitContext env) (idx : ℕ) (tstarProvers newProvers : QuorumMap) (coins : NodeCoins env) :
    Outcome EngineError (DkgEngineState env × List PeerId) := do
  let self ← dkgInit env ctx.nodePeerId idx ctx.rsaPrivateKey newProvers ctx.electionInfo.threshold coins
  let network ← newNetwork env "Failed to initialize network for resharing: " ctx.electionInfo.threshold newProvers.len false
  let self := { (self.setResharing tstarProvers newProvers ctx).clearInputs with network := network }
  return (self, [ctx.nodePeerId])

end DkgEngineState

open DkgEngineState

/-- The second component is who reports `ResharingInitCompleted`. -/
def handleResharingInit (ctx : ResharingInitContext env) (state : Option (DkgEngineState env)) (idx : ℕ)
    (tstarProvers newProvers : QuorumMap) (privateKeyshares : HMap String Bytes) (coins : NodeCoins env) :
    Outcome EngineError (Option (DkgEngineState env) × List PeerId) := do
  let network ← newNetwork env "Failed to initialize network for resharing: " ctx.electionInfo.threshold tstarProvers.len true
  match state with
  | some self =>
    let (self, report) ← self.resume env ctx network tstarProvers newProvers
    return (some self, report)
  | none =>
    if tstarProvers.containsKey ctx.nodePeerId then
      let self ← restoreOldResharingState env ctx.nodePeerId idx ctx.rsaPrivateKey newProvers ctx.electionInfo.threshold
        privateKeyshares tstarProvers ctx.groupKeys coins
      let (self, report) ← self.resume env ctx network tstarProvers newProvers
      return (some self, report)
    else if newProvers.containsKey ctx.nodePeerId then
      let (self, report) ← join env ctx idx tstarProvers newProvers coins
      return (some self, report)
    else return (none, [])

abbrev ResharingRound1Output := HMap ℕ Bytes × List Bytes

namespace NodeDataVariant

def resharingRound1 (self : NodeDataVariant env) (threshold : ℕ) (network : Network env.R) (newProvers : QuorumMap)
    (rng : (c : CurveId) → ℕ → (env.curve c).FieldEl) (coins : ℕ → env.R.Coin) :
    Outcome EngineError ResharingRound1Output := do
  let newNetwork ← quorumNetwork env threshold newProvers false
  let (encryptedYValues, vValues) ←
    mapErr .round (self.data.node.resharingRound1 network newNetwork (rng self.c) coins)
  let encoded ← encodeVValues (env.curve self.c) vValues
  return (encryptedYValues, encoded)

def resharingRound2 (prof : Profile) (self : NodeDataVariant env) (tstarNetwork newNetwork : Network env.R)
    (kDkg : Bytes) : Outcome EngineError (NodeDataVariant env × Bytes) := do
  let form := match self.c with
    | .secp256k1 => "affine"
    | .babyJubJub => "edwards affine"
  let kDkg ← mapErr (fun e => .restore (s!"Error encoding group public key to {form} point: " ++ e.display))
    ((env.curve self.c).fromEncoded kDkg)
  let (privShare, pubShare, networkPubkey) ←
    mapErr .round (self.data.node.resharingRound2 prof tstarNetwork newNetwork self.data.inputY self.data.inputV kDkg)
  let encoded ← unwrap ((env.curve self.c).encode pubShare) unwrapNone
  return (⟨self.c, { self.data with
    node := { self.data.node with privateShare := privShare, networkPubkey := networkPubkey }
    otherPubshares := self.data.otherPubshares.insert self.data.node.id pubShare }⟩, encoded)

/-- What both rounds keep of the output of a dealer: the value for `myNodeId` and the commitments. -/
def registerOutput (self : NodeDataVariant env) (missing : String) (myNodeId otherNodeIdx : ℕ) (yValues : HMap ℕ Bytes)
    (vValues : List Bytes) : Outcome String (NodeDataVariant env) := do
  let vValues ← vValues.mapM fun x => mapErr (fun _ => "Error decoding points") ((env.curve self.c).fromEncoded x)
  let yValue ← okOr (yValues.get? myNodeId) missing
  return ⟨self.c, { self.data with
    inputY := self.data.inputY.insert otherNodeIdx yValue
    inputV := self.data.inputV.insert otherNodeIdx vValues }⟩

def registerRound1ResultFromOtherNode (self : NodeDataVariant env) (myNodeId otherNodeIdx : ℕ) (output : Round1Output) :
    Outcome String (NodeDataVariant env) :=
  self.registerOutput env "Error finding round 1 output for node" myNodeId otherNodeIdx output.1 output.2.1

def registerResharingRound1ResultFromOtherNode (self : NodeDataVariant env) (myNodeId otherNodeIdx : ℕ)
    (output : ResharingRound1Output) : Outcome String (NodeDataVariant env) :=
  self.registerOutput env
    s!"Error finding resharing round 1 output for node from node {otherNodeIdx}, my node id {myNodeId}"
    myNodeId otherNodeIdx output.1 output.2

def storeOwnOutput (self : NodeDataVariant env) (idx : ℕ) (output : ResharingRound1Output) :
    Outcome EngineError (NodeDataVariant env) := do
  let curve := match self.c with
    | .secp256k1 => "Secp256k1"
    | .babyJubJub => "BabyJubJub"
  let yValue ← okOr (output.1.get? idx) (.missing s!"Missing resharing Round 1 output for index {idx}")
  let vValues ← output.2.mapM fun x =>
    mapErr (fun _ => .restore s!"Error decoding {curve} points") ((env.curve self.c).fromEncoded x)
  return ⟨self.c, { self.data with
    inputY := self.data.inputY.insert idx yValue
    inputV := self.data.inputV.insert idx vValues }⟩

end NodeDataVariant

namespace DkgEngineState

/-- The loop over the outputs of a dealer, one for each key. One that does not register is logged and skipped. -/
def registerAll {Output : Type} (register : NodeDataVariant env → Output → Outcome String (NodeDataVariant env))
    (outputs : List (String × Output)) (nodes : HMap String (NodeDataVariant env)) :
    Outcome EngineError (HMap String (NodeDataVariant env)) :=
  outputs.foldlM (fun nodes e =>
    match nodes.get? e.1 with
    | none => .ok nodes
    | some node => do
      let registered ← toOption (register node e.2)
      return nodes.mapVal fun key other => if key = e.1 then registered.getD node else other) nodes

/-- The second component is who reports `DKGRound1Completed`. -/
def handleRound1Output (self : DkgEngineState env) (idx : ℕ) (outputs : HMap String Round1Output) :
    Outcome EngineError (DkgEngineState env × List PeerId) := do
  let dkgNodes ← registerAll env (fun node => node.registerRound1ResultFromOtherNode env self.idx idx)
    outputs.entries self.dkgNodes
  let isReady := dkgNodes.values.all fun node =>
    node.data.inputY.len = self.network.totalNodes - 1 ∧ node.data.inputV.len = self.network.totalNodes - 1
  return ({ self with dkgNodes := dkgNodes }, if isReady then [self.peerId] else [])

/-- The second component is who reports `ResharingRound1Completed`. -/
def handleResharingRound1Output (self : DkgEngineState env) (idx : ℕ) (outputs : HMap String ResharingRound1Output) :
    Outcome EngineError (DkgEngineState env × List PeerId) := do
  if ¬ self.newProvers.containsKey self.peerId then return (self, [])
  -- the sender is an index, compared after a cast to `usize`
  if ¬ self.tstarProvers.values.any fun e => e.2 = idx % 2 ^ 64 then return (self, [])
  let dkgNodes ← registerAll env (fun node => node.registerResharingRound1ResultFromOtherNode env self.idx idx)
    outputs.entries self.dkgNodes
  let isReady := dkgNodes.values.all fun node =>
    node.data.inputY.len = self.tstarProvers.len ∧ node.data.inputV.len = self.tstarProvers.len
  return ({ self with dkgNodes := dkgNodes }, if isReady then [self.peerId] else [])

def resharingRound1 (self : DkgEngineState env) (electionInfo : ElectionInfo)
    (rng : String → (c : CurveId) → ℕ → (env.curve c).FieldEl) (coins : String → ℕ → env.R.Coin) :
    Outcome EngineError (HMap String ResharingRound1Output) := do
  let tstarNetwork ← quorumNetwork env electionInfo.threshold self.tstarProvers true
  self.dkgNodes.mapValM fun key node =>
    node.resharingRound1 env electionInfo.threshold tstarNetwork self.newProvers (rng key) (coins key)

/-- A loop over outputs, one for each key, that stops at the first error. -/
def updateNodes {Output : Type} (update : NodeDataVariant env → Output → Outcome EngineError (NodeDataVariant env))
    (outputs : List (String × Output)) (nodes : HMap String (NodeDataVariant env)) :
    Outcome EngineError (HMap String (NodeDataVariant env)) :=
  outputs.foldlM (fun nodes e =>
    match nodes.get? e.1 with
    | none => .ok nodes
    | some node => do
      let updated ← update node e.2
      return nodes.mapVal fun key other => if key = e.1 then updated else other) nodes

def storeOwnOutputs (self : DkgEngineState env) (isRelected : Bool) (outputs : HMap String ResharingRound1Output) :
    Outcome EngineError (HMap String (NodeDataVariant env)) :=
  if isRelected then
    updateNodes env (fun node output => node.storeOwnOutput env self.idx output) outputs.entries self.dkgNodes
  else .ok self.dkgNodes

/-- A member of `T*` deals, and keeps what it deals to itself if it is in the new quorum too. An error of the round is
logged. The second component is what is gossiped, the third is who reports `ResharingRound1Completed`. -/
def handleResharingRound1 (self : DkgEngineState env) (electionInfo : ElectionInfo) (isRelected : Bool)
    (rng : String → (c : CurveId) → ℕ → (env.curve c).FieldEl) (coins : String → ℕ → env.R.Coin) :
    Outcome EngineError (DkgEngineState env × Option (HMap String ResharingRound1Output) × List PeerId) := do
  if ¬ self.tstarProvers.containsKey self.peerId then return (self, none, [])
  match ← toOption (self.resharingRound1 env electionInfo rng coins) with
  | none => return (self, none, [])
  | some outputs =>
    let dkgNodes ← self.storeOwnOutputs env isRelected outputs
    let isReady := dkgNodes.values.all fun node =>
      node.data.inputY.len = self.tstarProvers.len ∧ node.data.inputV.len = self.tstarProvers.len ∧
        self.newProvers.containsKey self.peerId
    return ({ self with dkgNodes := dkgNodes }, some outputs,
      if isReady ∧ self.newProvers.containsKey self.peerId then [self.peerId] else [])

/-- The engine with its new shares and the public shares that it gossips. A prover that is not in the new quorum
has none. -/
def handleResharingRound2 (prof : Profile) (self : DkgEngineState env) :
    Outcome EngineError (DkgEngineState env × Option (HMap String Bytes)) := do
  if ¬ self.newProvers.containsKey self.peerId then return (self, none)
  let newNetwork ← quorumNetwork env self.electionInfo.threshold self.newProvers false
  let tstarNetwork ← quorumNetwork env self.electionInfo.threshold self.tstarProvers true
  let outputs ← self.dkgNodes.mapValM fun key node => do
    let kDkg ← okOr (self.finalizedGroupPublicKeys.get? key)
      (.missing s!"Missing finalized group public key for node {key}")
    node.resharingRound2 env prof tstarNetwork newNetwork kDkg
  return ({ self with dkgNodes := outputs.mapVal fun _ out => out.1 }, some (outputs.mapVal fun _ out => out.2))

end DkgEngineState

/-! ### The networks that are built -/

variable {env}

def EngineError.IsNetwork : EngineError → Prop
  | .network _ | .rsaKey _ => True
  | .missing _ | .restore _ | .round _ => False

abbrev BuildsNetworks {α : Type} (x : Outcome EngineError α) : Prop := ErrorsIn (fun e => ¬ e.IsNetwork) x

variable (env) in
def KeysParse (provers : QuorumMap) : Prop :=
  ∀ e ∈ provers.entries, ∃ key, env.fromPkcs1Pem (e.2.1.rsaPubKey.replace "\\r" "\n") = .ok key

variable (env) in
/-- The parameters of the network pass the checks of `Network.new`, and its members have keys. -/
def Buildable (threshold : ℕ) (provers : QuorumMap) (isTstar : Bool) : Prop :=
  Network.invalid threshold provers.len isTstar = false ∧ KeysParse env provers

def BuildsIff {α : Type} (P : Prop) (x : Outcome EngineError α) : Prop :=
  (P ∧ ∃ a, x = .ok a) ∨ (¬ P ∧ ∃ e, e.IsNetwork ∧ x = fail e)

namespace BuildsIff
variable {α : Type} {P : Prop} {x : Outcome EngineError α}

theorem builds (h : BuildsIff P x) : BuildsNetworks x ↔ P := by
  rcases h with ⟨hP, a, rfl⟩ | ⟨hP, e, he, rfl⟩
  · exact iff_of_true (.ok a) hP
  · exact iff_of_false (fun h => h e rfl he) hP

theorem exists_ok (h : BuildsIff P x) (hP : P) : ∃ a, x = .ok a := by
  rcases h with ⟨-, h⟩ | ⟨hnot, -⟩
  · exact h
  · exact absurd hP hnot

end BuildsIff

section networks
variable (env) (text keyText : String) (threshold n : ℕ) (provers : QuorumMap) (isTstar : Bool)

theorem newNetwork_builds :
    BuildsIff (Network.invalid threshold n isTstar = false) (newNetwork env text threshold n isTstar) := by
  unfold newNetwork Network.new
  split
  next h =>
    refine .inr ⟨by simp [h], _, ?_, rfl⟩
    trivial
  next h => exact .inl ⟨by simpa using h, _, rfl⟩

theorem parseRsaKey_eq_ok {env} {e : PeerId × ProverRecord × ℕ} {entry : ℕ × env.R.PublicKey} :
    parseRsaKey env e = .ok entry ↔
      env.fromPkcs1Pem (e.2.1.rsaPubKey.replace "\\r" "\n") = .ok entry.2 ∧ entry.1 = e.2.2 := by
  unfold parseRsaKey
  split
  next key h => simp [h, Prod.ext_iff, eq_comm, and_comm]
  next err h => simp [h, fail]

theorem parseRsaKeys_builds : BuildsIff (KeysParse env provers) (parseRsaKeys env provers) := by
  unfold parseRsaKeys
  rcases mapM_cases (parseRsaKey env) provers.entries with ⟨keys, hkeys⟩ | ⟨e, he, fault, hfault, hstop⟩
  · refine .inl ⟨fun e he => ?_, _, by rw [hkeys]; rfl⟩
    obtain ⟨entry, -, hentry⟩ := (exists_of_mapM hkeys).1 e he
    exact ⟨entry.2, (parseRsaKey_eq_ok.1 hentry).1⟩
  · refine .inr ⟨fun h => ?_, ?_⟩
    · obtain ⟨key, hkey⟩ := h e he
      have hok : parseRsaKey env e = .ok (e.2.2, key) := parseRsaKey_eq_ok.2 ⟨hkey, rfl⟩
      rw [hok] at hfault
      cases hfault
    · unfold parseRsaKey at hfault
      split at hfault
      · cases hfault
      · obtain rfl := Except.error.inj hfault
        rw [hstop]
        refine ⟨_, ?_, rfl⟩
        trivial

theorem EngineError.IsNetwork.addText {e : EngineError} (h : e.IsNetwork) (text : String) : (e.addText text).IsNetwork := by
  cases e with
  | rsaKey msg => trivial
  | _ => exact h

theorem keyedNetwork_builds :
    BuildsIff (Buildable env threshold provers isTstar) (keyedNetwork env text keyText threshold provers isTstar) := by
  unfold keyedNetwork Buildable
  rcases newNetwork_builds env text threshold provers.len isTstar with ⟨h, network, hnetwork⟩ | ⟨h, e, he, hfail⟩
  · rcases parseRsaKeys_builds env provers with ⟨hkeys, keys, hparsed⟩ | ⟨hkeys, e, he, hfail⟩
    · exact .inl ⟨⟨h, hkeys⟩, _, by rw [hnetwork, hparsed]; rfl⟩
    · exact .inr ⟨fun h => hkeys h.2, _, he.addText keyText, by rw [hnetwork, hfail]; rfl⟩
  · exact .inr ⟨fun hb => h hb.1, e, he, by rw [hfail]; rfl⟩

end networks

/-! The steps between the networks fail with other errors. -/

section builds
variable {ctx : ResharingInitContext env} {idx threshold : ℕ} {tstar new : QuorumMap} {coins : NodeCoins env}

theorem builds_lookupAll (what : String) (m : HMap String Bytes) : BuildsNetworks (lookupAll what m) :=
  .mapM fun _ _ => (ErrorsIn.okOr _ id).bind fun _ _ => .ok _

theorem builds_restored (m : Method) (sk : env.R.SecretKey) (keyshare networkPubkey : Bytes) :
    BuildsNetworks (NodeDataVariant.restored env m sk idx keyshare networkPubkey coins) := by
  unfold NodeDataVariant.restored
  refine .bind ?_ fun share _ => (ErrorsIn.unwrap _ _).bind fun _ _ => (ErrorsIn.mapErr _ fun _ => id).bind fun _ _ => .ok _
  unfold toOption
  split
  · exact .ok _
  · exact .crash _
  · exact .ok _

theorem builds_restoreOldResharingState (hnew : Buildable env threshold new false) (p : PeerId) (sk : env.R.SecretKey)
    (saved groupKeys : HMap String Bytes) :
    BuildsNetworks (restoreOldResharingState env p idx sk new threshold saved tstar groupKeys coins) := by
  unfold restoreOldResharingState
  refine (builds_lookupAll _ _).bind fun shares _ => (builds_lookupAll _ _).bind fun pubkeys _ => ?_
  refine .bind ?_ fun nodes _ => ((keyedNetwork_builds ..).builds.2 hnew).bind fun _ _ => .ok _
  exact .mapM fun _ _ => (builds_restored _ _ _ _).bind fun _ _ => .ok _

theorem builds_resume (self : DkgEngineState env) (network : Network env.R) (htstar : KeysParse env tstar) :
    BuildsNetworks (self.resume env ctx network tstar new) := by
  unfold resume
  dsimp only
  split
  · exact ((parseRsaKeys_builds ..).builds.2 htstar).bind fun _ _ => .ok _
  · exact .ok _

theorem builds_join (hnew : Buildable env ctx.electionInfo.threshold new false) :
    BuildsNetworks (join env ctx idx tstar new coins) := by
  unfold join dkgInit
  refine .bind ?_ fun _ _ => ((newNetwork_builds ..).builds.2 hnew.1).bind fun _ _ => .ok _
  exact ((keyedNetwork_builds ..).builds.2 hnew).bind fun _ _ => .ok _

theorem builds_handleResharingInit (htstar : Buildable env ctx.electionInfo.threshold tstar true)
    (hnew : Buildable env ctx.electionInfo.threshold new false) (state : Option (DkgEngineState env))
    (saved : HMap String Bytes) : BuildsNetworks (handleResharingInit env ctx state idx tstar new saved coins) := by
  unfold handleResharingInit
  refine ((newNetwork_builds ..).builds.2 htstar.1).bind fun network _ => ?_
  cases state with
  | some self => exact (builds_resume self network htstar.2).bind fun _ _ => .ok _
  | none =>
    dsimp only
    split
    · refine (builds_restoreOldResharingState hnew _ _ _ _).bind fun self _ => ?_
      exact (builds_resume self network htstar.2).bind fun _ _ => .ok _
    · split
      · exact (builds_join hnew).bind fun _ _ => .ok _
      · exact .ok _

theorem builds_node_resharingRound1 (hnew : Buildable env threshold new false) (node : NodeDataVariant env)
    (network : Network env.R) (rng : (c : CurveId) → ℕ → (env.curve c).FieldEl) (rsaCoins : ℕ → env.R.Coin) :
    BuildsNetworks (node.resharingRound1 env threshold network new rng rsaCoins) := by
  unfold NodeDataVariant.resharingRound1 encodeVValues
  refine ((keyedNetwork_builds ..).builds.2 hnew).bind fun _ _ => (ErrorsIn.mapErr _ fun _ => id).bind fun _ _ => ?_
  exact .bind (.mapM fun _ _ => .unwrap _ _) fun _ _ => .ok _

theorem builds_node_resharingRound2 (prof : Profile) (node : NodeDataVariant env) (tstarNetwork newNetwork : Network env.R)
    (kDkg : Bytes) : BuildsNetworks (node.resharingRound2 env prof tstarNetwork newNetwork kDkg) := by
  unfold NodeDataVariant.resharingRound2
  refine (ErrorsIn.mapErr _ fun _ => id).bind fun _ _ => (ErrorsIn.mapErr _ fun _ => id).bind fun _ _ => ?_
  exact (ErrorsIn.unwrap _ _).bind fun _ _ => .ok _

variable {self : DkgEngineState env}

theorem builds_resharingRound1 (info : ElectionInfo) (htstar : Buildable env info.threshold self.tstarProvers true)
    (hnew : Buildable env info.threshold self.newProvers false)
    (rng : String → (c : CurveId) → ℕ → (env.curve c).FieldEl) (rsaCoins : String → ℕ → env.R.Coin) :
    BuildsNetworks (self.resharingRound1 env info rng rsaCoins) :=
  ((keyedNetwork_builds ..).builds.2 htstar).bind fun network _ =>
    HMap.errorsIn_mapValM fun key node => builds_node_resharingRound1 hnew node network (rng key) (rsaCoins key)

theorem builds_handleResharingRound2 (prof : Profile)
    (htstar : Buildable env self.electionInfo.threshold self.tstarProvers true)
    (hnew : Buildable env self.electionInfo.threshold self.newProvers false) :
    BuildsNetworks (self.handleResharingRound2 env prof) := by
  unfold handleResharingRound2
  split
  · exact .ok _
  · refine ((keyedNetwork_builds ..).builds.2 hnew).bind fun _ _ => ((keyedNetwork_builds ..).builds.2 htstar).bind fun _ _ => ?_
    refine .bind (HMap.errorsIn_mapValM fun key node => ?_) fun _ _ => .ok _
    exact (ErrorsIn.okOr _ id).bind fun _ _ => builds_node_resharingRound2 prof node _ _ _

end builds

/-! ### What an engine is after `ResharingInit` -/

section prepared
variable {ctx : ResharingInitContext env} {idx : ℕ} {tstar new : QuorumMap} {coins : NodeCoins env}
  {self after : DkgEngineState env} {network : Network env.R} {report : List PeerId} {saved : HMap String Bytes}

def DkgEngineState.Indexed (self : DkgEngineState env) : Prop :=
  ∀ key node, self.dkgNodes.get? key = some node → node.id = self.idx

theorem DkgEngineState.Indexed.clearInputs (h : self.Indexed) : self.clearInputs.Indexed := by
  intro key node hnode
  rw [DkgEngineState.clearInputs, HMap.get?_mapVal, Option.map_eq_some_iff] at hnode
  obtain ⟨old, hold, rfl⟩ := hnode
  exact h key old hold

theorem resume_eq_ok (h : self.resume env ctx network tstar new = .ok (after, report)) :
    ∃ network' context, (∀ c ∈ context, c = ctx) ∧
      after = { self.clearInputs.setResharing tstar new ctx with
        network := network', resharingRound2Triggered := false, resharingRound1Context := context } := by
  simp only [resume] at h
  split at h
  · simp only [bind_eq_ok, pure_eq_ok, Except.ok.injEq, Prod.mk.injEq] at h
    obtain ⟨keys, -, rfl, -⟩ := h
    exact ⟨_, some ctx, by simp, rfl⟩
  · obtain ⟨rfl, -⟩ := Prod.mk.inj (Except.ok.inj h)
    exact ⟨_, none, by simp, rfl⟩

theorem dkgInit_eq_ok {p : PeerId} {sk : env.R.SecretKey} {threshold : ℕ}
    (h : dkgInit env p idx sk new threshold coins = .ok self) :
    self.peerId = p ∧ self.idx = idx ∧ self.newProvers = new ∧ self.resharingRound1Context = none ∧ self.Indexed := by
  simp only [dkgInit, bind_eq_ok, pure_eq_ok, Except.ok.injEq] at h
  obtain ⟨network, -, rfl⟩ := h
  refine ⟨rfl, rfl, rfl, rfl, fun key node hnode => ?_⟩
  rw [HMap.get?_collect, Option.map_eq_some_iff] at hnode
  obtain ⟨m, -, rfl⟩ := hnode
  rfl

theorem restored_id {m : Method} {sk : env.R.SecretKey} {keyshare networkPubkey : Bytes} {node : NodeDataVariant env}
    (h : NodeDataVariant.restored env m sk idx keyshare networkPubkey coins = .ok node) : node.id = idx := by
  simp only [NodeDataVariant.restored, bind_eq_ok, pure_eq_ok, Except.ok.injEq] at h
  obtain ⟨_, -, _, -, _, -, rfl⟩ := h
  rfl

theorem restoreOldResharingState_eq_ok {p : PeerId} {sk : env.R.SecretKey} {threshold : ℕ} {groupKeys : HMap String Bytes}
    (h : restoreOldResharingState env p idx sk new threshold saved tstar groupKeys coins = .ok self) :
    self.peerId = p ∧ self.idx = idx ∧ self.Indexed := by
  simp only [restoreOldResharingState, bind_eq_ok, pure_eq_ok, Except.ok.injEq] at h
  obtain ⟨shares, -, pubkeys, -, nodes, hnodes, network, -, rfl⟩ := h
  refine ⟨rfl, rfl, fun key node hnode => ?_⟩
  rw [HMap.get?_collect, Option.map_eq_some_iff] at hnode
  obtain ⟨entry, hentry, rfl⟩ := hnode
  obtain ⟨source, -, hsource⟩ := (exists_of_mapM hnodes).2 entry (List.mem_reverse.1 (List.mem_of_find?_eq_some hentry))
  simp only [bind_eq_ok, Except.ok.injEq] at hsource
  obtain ⟨restoredNode, hrestored, rfl⟩ := hsource
  exact restored_id hrestored

/-- The engine of a node that takes part, after `ResharingInit`. One that existed keeps its index. -/
structure Prepared (ctx : ResharingInitContext env) (state : Option (DkgEngineState env)) (idx : ℕ) (tstar new : QuorumMap)
    (after : DkgEngineState env) : Prop where
  peerId : after.peerId = ctx.nodePeerId
  tstarProvers : after.tstarProvers = tstar
  newProvers : after.newProvers = new
  electionInfo : after.electionInfo = ctx.electionInfo
  round1Context : ∀ c ∈ after.resharingRound1Context, c = ctx
  idx : after.idx = (state.map fun old => old.idx).getD idx
  indexed : (∀ old ∈ state, old.Indexed) → after.Indexed

theorem prepared_of_resume (hpeer : self.peerId = ctx.nodePeerId)
    (h : self.resume env ctx network tstar new = .ok (after, report)) : Prepared ctx (some self) idx tstar new after := by
  obtain ⟨network', context, hcontext, rfl⟩ := resume_eq_ok h
  exact ⟨hpeer, rfl, rfl, rfl, hcontext, rfl, fun hindexed => (hindexed self rfl).clearInputs⟩

theorem handleResharingInit_eq_ok {state : Option (DkgEngineState env)} (hpeer : ∀ old ∈ state, old.peerId = ctx.nodePeerId)
    (h : handleResharingInit env ctx state idx tstar new saved coins = .ok (some after, report)) :
    Prepared ctx state idx tstar new after := by
  simp only [handleResharingInit, bind_eq_ok] at h
  obtain ⟨network, -, h⟩ := h
  cases state with
  | some self =>
    simp only [bind_eq_ok, pure_eq_ok, Except.ok.injEq, Prod.mk.injEq, Option.some.injEq, Prod.exists] at h
    obtain ⟨_, _, hresume, rfl, rfl⟩ := h
    exact prepared_of_resume (hpeer self rfl) hresume
  | none =>
    dsimp only at h
    split at h
    · simp only [bind_eq_ok, pure_eq_ok, Except.ok.injEq, Prod.mk.injEq, Option.some.injEq, Prod.exists] at h
      obtain ⟨self, hrestored, engine, _, hresume, rfl, rfl⟩ := h
      obtain ⟨hself, hidx, hindexed⟩ := restoreOldResharingState_eq_ok hrestored
      have hprep : Prepared ctx (some self) idx tstar new engine := prepared_of_resume hself hresume
      exact { hprep with
        idx := hprep.idx.trans hidx
        indexed := fun _ => hprep.indexed (by simpa using hindexed) }
    · split at h
      · simp only [join, bind_eq_ok, pure_eq_ok, Except.ok.injEq, Prod.mk.injEq, Option.some.injEq, Prod.exists] at h
        obtain ⟨_, _, ⟨self, hself, _, -, rfl, rfl⟩, rfl, rfl⟩ := h
        obtain ⟨hpeer, hidx, -, hcontext, hindexed⟩ := dkgInit_eq_ok hself
        refine ⟨hpeer, rfl, rfl, rfl, ?_, hidx, fun _ => hindexed.clearInputs⟩
        intro c (hc : c ∈ self.resharingRound1Context)
        rw [hcontext] at hc
        cases hc
      · cases h

end prepared

/-! ### The size of `T*` -/

/-- The networks that a node builds: when it prepares, and in the rounds with the nodes that it has then. -/
structure NodeBuilds (ctx : ResharingInitContext env) (state : Option (DkgEngineState env)) (idx : ℕ)
    (tstar new : QuorumMap) (saved : HMap String Bytes) (coins : NodeCoins env) : Prop where
  init : BuildsNetworks (handleResharingInit env ctx state idx tstar new saved coins)
  round1 : ∀ self report nodes, handleResharingInit env ctx state idx tstar new saved coins = .ok (some self, report) →
    ∀ c ∈ self.resharingRound1Context, ∀ rng rsaCoins,
      BuildsNetworks (DkgEngineState.resharingRound1 env { self with dkgNodes := nodes } c.electionInfo rng rsaCoins)
  round2 : ∀ self report nodes, handleResharingInit env ctx state idx tstar new saved coins = .ok (some self, report) →
    ∀ prof, BuildsNetworks (handleResharingRound2 env prof { self with dkgNodes := nodes })

variable (env) in
def NetworksBuilt (rsaPrivateKey : PeerId → env.R.SecretKey) (info : ElectionInfo) (tstar new : QuorumMap) : Prop :=
  ∀ p, p ∈ tstar.keys ∨ p ∈ new.keys → ∀ groupKeys (state : Option (DkgEngineState env)), (∀ old ∈ state, old.peerId = p) →
    ∀ idx saved coins, NodeBuilds ⟨rsaPrivateKey p, info, p, groupKeys⟩ state idx tstar new saved coins

section tstar
variable {info : ElectionInfo} {tstar new : QuorumMap}

theorem nodeBuilds_of_buildable {ctx : ResharingInitContext env} {state : Option (DkgEngineState env)}
    (hpeer : ∀ old ∈ state, old.peerId = ctx.nodePeerId) (htstar : Buildable env ctx.electionInfo.threshold tstar true)
    (hnew : Buildable env ctx.electionInfo.threshold new false) (idx : ℕ) (saved : HMap String Bytes) (coins : NodeCoins env) :
    NodeBuilds ctx state idx tstar new saved coins where
  init := builds_handleResharingInit htstar hnew state saved
  round1 := by
    intro self report nodes h c hc rng rsaCoins
    have hprep := handleResharingInit_eq_ok hpeer h
    obtain rfl := hprep.round1Context c hc
    apply builds_resharingRound1
    · rw [hprep.tstarProvers]
      exact htstar
    · rw [hprep.newProvers]
      exact hnew
  round2 := by
    intro self report nodes h prof
    have hprep := handleResharingInit_eq_ok hpeer h
    apply builds_handleResharingRound2
    · rw [hprep.tstarProvers, hprep.electionInfo]
      exact htstar
    · rw [hprep.newProvers, hprep.electionInfo]
      exact hnew

def blankEngine (p : PeerId) (network : Network env.R) : DkgEngineState env :=
  ⟨0, p, network, ∅, ∅, ∅, ⟨0, 0, 0⟩, ∅, false, none⟩

section necessary
variable {ctx : ResharingInitContext env} {idx : ℕ} {saved : HMap String Bytes} {coins : NodeCoins env}

theorem valid_of_builds {state : Option (DkgEngineState env)}
    (h : BuildsNetworks (handleResharingInit env ctx state idx tstar new saved coins)) :
    Network.invalid ctx.electionInfo.threshold tstar.len true = false :=
  (newNetwork_builds ..).builds.1 h.of_bind

theorem keysParse_of_builds {self : DkgEngineState env} (hself : tstar.containsKey self.peerId)
    (hvalid : Network.invalid ctx.electionInfo.threshold tstar.len true = false)
    (h : BuildsNetworks (handleResharingInit env ctx (some self) idx tstar new saved coins)) : KeysParse env tstar := by
  obtain ⟨network, hnetwork⟩ := (newNetwork_builds env "Failed to initialize network for resharing: " ..).exists_ok hvalid
  have hresume : BuildsNetworks (self.resume env ctx network tstar new) := by
    simp only [handleResharingInit, hnetwork, bind_ok] at h
    exact h.of_bind
  simp only [resume] at hresume
  rw [if_pos (show tstar.containsKey self.clearInputs.peerId from hself)] at hresume
  exact (parseRsaKeys_builds ..).builds.1 hresume.of_bind

theorem exists_handleResharingInit (self : DkgEngineState env) (htstar : Buildable env ctx.electionInfo.threshold tstar true) :
    ∃ after report, handleResharingInit env ctx (some self) idx tstar new saved coins = .ok (some after, report) := by
  obtain ⟨network, hnetwork⟩ := (newNetwork_builds env "Failed to initialize network for resharing: " ..).exists_ok htstar.1
  obtain ⟨keys, hkeys⟩ := (parseRsaKeys_builds env tstar).exists_ok htstar.2
  simp only [handleResharingInit, hnetwork, bind_ok, resume, hkeys]
  split
  · exact ⟨_, _, rfl⟩
  · exact ⟨_, _, rfl⟩

theorem keysParse_new_of_builds {self : DkgEngineState env} (prof : Profile) (hself : self.newProvers.containsKey self.peerId)
    (h : BuildsNetworks (self.handleResharingRound2 env prof)) : KeysParse env self.newProvers := by
  unfold handleResharingRound2 at h
  rw [if_neg (not_not_intro hself)] at h
  exact ((keyedNetwork_builds ..).builds.1 h.of_bind).2

end necessary

theorem containsKey_of_mem {m : QuorumMap} {p : PeerId} (h : p ∈ m.keys) : m.containsKey p := HMap.get?_isSome.2 h

/-- With a new quorum that `Network.new` accepts, the networks of a resharing are built exactly if `T*` has as many
members as the new threshold and all keys parse. The threshold of the old sharing does not matter. -/
theorem resharing_networks_iff (env : EngineEnv) (rsaPrivateKey : PeerId → env.R.SecretKey) (info : ElectionInfo)
    (tstar new : QuorumMap) (htstar : 2 ≤ tstar.len) (hnew : 2 < new.len) (hpos : 0 < info.threshold)
    (hlt : info.threshold < new.len) :
    NetworksBuilt env rsaPrivateKey info tstar new ↔
      info.threshold ≤ tstar.len ∧ KeysParse env tstar ∧ KeysParse env new := by
  have hnewValid : Network.invalid info.threshold new.len false = false := Network.invalid_new.2 ⟨hlt, hnew, hpos⟩
  constructor
  · intro h
    -- engines without nodes are enough to show what is needed
    obtain ⟨network, -⟩ := (newNetwork_builds env "" ..).exists_ok hnewValid
    have hcoins : NodeCoins env := fun _ => (0, 0)
    have hself : ∀ p, ∀ old ∈ some (blankEngine p network), old.peerId = p := by
      intro p old hold
      rw [← Option.mem_some_iff.1 hold]
      rfl
    obtain ⟨p, hp⟩ := List.exists_mem_of_length_pos (l := tstar.keys) (by rw [HMap.length_keys]; omega)
    have hbuilds := (h p (.inl hp) ∅ (some (blankEngine p network)) (hself p) 0 ∅ hcoins).init
    have hvalid := valid_of_builds hbuilds
    have hkeys := keysParse_of_builds (containsKey_of_mem hp) hvalid hbuilds
    refine ⟨(Network.invalid_tstar.1 hvalid).1, hkeys, ?_⟩
    obtain ⟨q, hq⟩ := List.exists_mem_of_length_pos (l := new.keys) (by rw [HMap.length_keys]; omega)
    have hnode := h q (.inr hq) ∅ (some (blankEngine q network)) (hself q) 0 ∅ hcoins
    obtain ⟨self, report, hinit⟩ : ∃ self report, handleResharingInit env ⟨rsaPrivateKey q, info, q, ∅⟩
        (some (blankEngine q network)) 0 tstar new ∅ hcoins = .ok (some self, report) :=
      exists_handleResharingInit (blankEngine q network) ⟨hvalid, hkeys⟩
    have hprep := handleResharingInit_eq_ok (hself q) hinit
    have hmember : self.newProvers.containsKey self.peerId := by
      rw [hprep.newProvers, hprep.peerId]
      exact containsKey_of_mem hq
    have hround2 : KeysParse env self.newProvers :=
      keysParse_new_of_builds .debug hmember (hnode.round2 self report self.dkgNodes hinit .debug)
    rwa [hprep.newProvers] at hround2
  · rintro ⟨hle, hkeys, hkeys'⟩ p - groupKeys state hpeer idx saved coins
    have hvalid : Network.invalid info.threshold tstar.len true = false := Network.invalid_tstar.2 ⟨hle, htstar, hpos⟩
    exact nodeBuilds_of_buildable hpeer ⟨hvalid, hkeys⟩ ⟨hnewValid, hkeys'⟩ idx saved coins

def boxEngines : EngineEnv := ⟨boxRsa, scalarCurve, fun _ => .ok (0 : ℕ)⟩

def fiveProvers : List ProverRecord := threeProvers ++ [recordOf "d" 5, recordOf "e" 6]

/-- `T*` has the two members that a sharing with threshold two needs, and the new quorum of five has threshold three:
no node gets through `ResharingInit`. -/
theorem resharing_grows_fails :
    2 ≤ (quorumMap (threeProvers.take 2)).len ∧ 2 < (quorumMap fiveProvers).len ∧ 3 < (quorumMap fiveProvers).len ∧
    ¬ NetworksBuilt boxEngines (fun _ => (0 : ℕ)) ⟨3, 1, 5⟩ (quorumMap (threeProvers.take 2)) (quorumMap fiveProvers) := by
  refine ⟨by decide, by decide, by decide, fun h => ?_⟩
  have hbuilds := (h "a" (by decide) ∅ none (by simp) 2 ∅ fun _ => (0, 0)).init
  exact hbuilds _ rfl trivial

theorem resharing_networks_three_to_five :
    NetworksBuilt boxEngines (fun _ => (0 : ℕ)) ⟨3, 1, 5⟩ (quorumMap threeProvers) (quorumMap fiveProvers) :=
  (resharing_networks_iff boxEngines (fun _ => (0 : ℕ)) ⟨3, 1, 5⟩ (quorumMap threeProvers) (quorumMap fiveProvers)
    (by decide) (by decide) (by decide) (by decide)).2
    ⟨by decide, fun _ _ => ⟨(0 : ℕ), rfl⟩, fun _ _ => ⟨(0 : ℕ), rfl⟩⟩

end tstar

end HumanNetwork
