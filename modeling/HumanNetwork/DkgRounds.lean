import HumanNetwork.Dealers
import HumanNetwork.ShareCustody

/-!
# The rounds of a key generation in the engine, and the end of round 2 (`dkg_engine_actor.rs`)

`handleRound1` deals for each key and `handleRound2` computes the shares. A node stores its own public share when it has
run round 2 and those of the others as they arrive, before or after, and reports the end of the round when it has as
many as there are members. `RoundStep` is the engine of one node with the messages of the protocol that is in progress.

The number decides, but only the indices of members are taken, and the own one only from the own round
(`SharesFit`). So a node that reports has the public shares of all members (`round2_completed`).
-/

namespace HumanNetwork
open Outcome DkgEngineState

variable {env : EngineEnv}

namespace NodeDataVariant

def dkgRound1 (self : NodeDataVariant env) (network : Network env.R) (rng : (c : CurveId) → ℕ → (env.curve c).FieldEl)
    (coins : ℕ → env.R.Coin) : Outcome DKGError (NodeDataVariant env × Round1Output) := do
  let (node, output) ← self.data.node.processDkgRound1 network (rng self.c) coins
  return (⟨self.c, { self.data with node := node }⟩, output)

def dkgRound2 (prof : Profile) (self : NodeDataVariant env) (network : Network env.R) :
    Outcome DKGError (NodeDataVariant env × Bytes) := do
  let (privShare, pubShare, networkPubkey) ←
    self.data.node.dkgRound2 prof network self.data.inputY self.data.inputV
  let encoded ← unwrap ((env.curve self.c).encode pubShare) unwrapNone
  return (⟨self.c, { self.data with
    node := { self.data.node with privateShare := privShare, networkPubkey := networkPubkey }
    otherPubshares := self.data.otherPubshares.insert self.data.node.id pubShare }⟩, encoded)

end NodeDataVariant

namespace DkgEngineState

/-- The loop of `round1` over the nodes. An error ends it, and the nodes before it stay as they are then. -/
def runRound1 (network : Network env.R) (rng : String → (c : CurveId) → ℕ → (env.curve c).FieldEl)
    (coins : String → ℕ → env.R.Coin) : List (String × NodeDataVariant env) → HMap String (NodeDataVariant env) →
      HMap String Round1Output → Outcome DKGError (HMap String (NodeDataVariant env) × Option (HMap String Round1Output))
  | [], nodes, outputs => .ok (nodes, some outputs)
  | (key, node) :: rest, nodes, outputs => do
    match ← toOption (node.dkgRound1 network (rng key) (coins key)) with
    | none => return (nodes, none)
    | some (dealt, output) =>
      runRound1 network rng coins rest (nodes.mapVal fun k other => if k = key then dealt else other)
        (outputs.insert key output)

/-- The second component is what is gossiped as `Round1Out`, the third is who reports `DKGRound1Completed`. -/
def handleRound1 (self : DkgEngineState env) (rng : String → (c : CurveId) → ℕ → (env.curve c).FieldEl)
    (coins : String → ℕ → env.R.Coin) :
    Outcome DKGError (DkgEngineState env × Option (HMap String Round1Output) × List PeerId) := do
  let (dkgNodes, outputs) ← runRound1 self.network rng coins self.dkgNodes.entries self.dkgNodes ∅
  match outputs with
  | none => return ({ self with dkgNodes := dkgNodes }, none, [])
  | some outputs =>
    let isReady := dkgNodes.values.all fun node =>
      node.data.inputY.len = self.network.totalNodes - 1 ∧ node.data.inputV.len = self.network.totalNodes - 1
    return ({ self with dkgNodes := dkgNodes }, some outputs, if isReady then [self.peerId] else [])

def round2Report (self : DkgEngineState env) : List PeerId :=
  if self.dkgNodes.values.all fun node => node.data.otherPubshares.len = self.newProvers.len then [self.peerId] else []

/-- The second component is what is gossiped as `Round2Out`, the third is who reports `DKGRound2Completed`. -/
def handleRound2 (prof : Profile) (self : DkgEngineState env) :
    Outcome DKGError (DkgEngineState env × Option (HMap String Bytes) × List PeerId) := do
  if ¬ self.newProvers.containsKey self.peerId then return (self, none, [])
  let outputs ← self.dkgNodes.mapValM fun _ node => node.dkgRound2 prof self.network
  let self := { self with dkgNodes := outputs.mapVal fun _ out => out.1 }
  return (self, some (outputs.mapVal fun _ out => out.2), self.round2Report)

/-- `handle_resharing_round2` with who reports `ResharingRound2Completed`. -/
def reportResharingRound2 (prof : Profile) (self : DkgEngineState env) :
    Outcome EngineError (DkgEngineState env × Option (HMap String Bytes) × List PeerId) := do
  let (self, pubshares) ← self.handleResharingRound2 env prof
  return (self, pubshares, if pubshares.isSome then self.round2Report else [])

end DkgEngineState

/-! ### One node -/

inductive Protocol where
  | dkg
  | resharing
deriving DecidableEq, Repr

def FitsQuorum (provers : QuorumMap) (p : PeerId) (idx : ℕ) : Prop := ∀ e, provers.get? p = some e → e.2 = idx

variable (env) in
structure RoundState where
  protocol : Protocol
  engine : Option (DkgEngineState env)

/-- A message of the protocol in progress, with who reports the end of round 2. An error or a panic stops the actor, and
it starts again without a state. -/
inductive RoundStep (prof : Profile) : RoundState env → List PeerId → RoundState env → Prop
  | init {s p idx sk provers threshold coins engine} (hfits : FitsQuorum provers p idx) (hmember : p ∈ provers.keys)
      (h : dkgInit env p idx sk provers threshold coins = .ok engine) :
    RoundStep prof s [] ⟨.dkg, some engine⟩
  | round1 {self rng coins after out} (h : self.handleRound1 rng coins = .ok (after, out)) :
    RoundStep prof ⟨.dkg, some self⟩ [] ⟨.dkg, some after⟩
  | round1Out {self idx outputs after out} (h : self.handleRound1Output env idx outputs = .ok (after, out)) :
    RoundStep prof ⟨.dkg, some self⟩ [] ⟨.dkg, some after⟩
  | round2 {self after pubshares report} (h : self.handleRound2 prof = .ok (after, pubshares, report)) :
    RoundStep prof ⟨.dkg, some self⟩ report ⟨.dkg, some after⟩
  | storeReceivedPublicKey {self idx pubshares after report}
      (h : self.handleStoreReceivedPubshare idx pubshares = .ok (after, report)) :
    RoundStep prof ⟨.dkg, some self⟩ report ⟨.dkg, some after⟩
  | round3 {self after out} (h : self.handleRound3 false = .ok (after, out)) :
    RoundStep prof ⟨.dkg, some self⟩ [] ⟨.dkg, some after⟩
  | resharingInit {s ctx idx tstar new saved coins engine report}
      (h : handleResharingInit env ctx s.engine idx tstar new saved coins = .ok (engine, report))
      (hfits : ∀ self ∈ engine, FitsQuorum self.newProvers self.peerId self.idx) :
    RoundStep prof s [] ⟨.resharing, engine⟩
  | resharingRound1 {self info isRelected rng coins after out}
      (h : self.handleResharingRound1 env info isRelected rng coins = .ok (after, out)) :
    RoundStep prof ⟨.resharing, some self⟩ [] ⟨.resharing, some after⟩
  | resharingRound1Out {self idx outputs after out}
      (h : self.handleResharingRound1Output env idx outputs = .ok (after, out)) :
    RoundStep prof ⟨.resharing, some self⟩ [] ⟨.resharing, some after⟩
  | resharingRound2 {self after pubshares report} (h : self.reportResharingRound2 prof = .ok (after, pubshares, report)) :
    RoundStep prof ⟨.resharing, some self⟩ report ⟨.resharing, some after⟩
  | storeResharedReceivedPublicKey {self idx pubshares after report}
      (h : self.handleStoreResharedReceivedPubshare idx pubshares = .ok (after, report)) :
    RoundStep prof ⟨.resharing, some self⟩ report ⟨.resharing, some after⟩
  | resharingRound3 {self after out} (h : self.handleRound3 true = .ok (after, out)) :
    RoundStep prof ⟨.resharing, some self⟩ [] ⟨.resharing, some after⟩
  | clearShares {protocol self} : RoundStep prof ⟨protocol, some self⟩ [] ⟨protocol, some self.clearInputs⟩
  | stop {s} : RoundStep prof s [] ⟨s.protocol, none⟩

/-! ### What a node has stored -/

def NodeDataVariant.ownPubshare (node : NodeDataVariant env) : (env.curve node.c).Point :=
  (env.curve node.c).scalarMul (env.curve node.c).basePointOrGenerator node.data.node.privateShare

/-- The stored public shares are under indices of members, and the own one is that of the private share. -/
structure NodeDataVariant.SharesFit (provers : QuorumMap) (idx : ℕ) (node : NodeDataVariant env) : Prop where
  id : node.id = idx
  stored : ∀ i ∈ node.data.otherPubshares.keys, i ∈ quorumIds provers
  own : ∀ share, node.data.otherPubshares.get? idx = some share → share = node.ownPubshare

section node
variable {R : Rsa} {C : Curve} {self : Node R C}

theorem Node.processDkgRound1_frame {network : Network R} {rng : ℕ → C.FieldEl} {coins : ℕ → R.Coin} {node : Node R C}
    {out : Round1Output} (h : self.processDkgRound1 network rng coins = .ok (node, out)) :
    node.id = self.id ∧ node.rsaSeckey = self.rsaSeckey ∧ node.privateShare = self.privateShare := by
  simp only [processDkgRound1, bind_eq_ok, Prod.exists, pure_eq_ok, Except.ok.injEq, Prod.mk.injEq] at h
  obtain ⟨_, _, _, -, _, -, _, -, rfl, -⟩ := h
  exact ⟨rfl, rfl, rfl⟩

theorem Node.dkgRound2_pubShare {prof : Profile} {network : Network R} {inputY : HMap ℕ Bytes}
    {inputV : HMap ℕ (List C.Point)} {ki : C.FieldEl} {Ki K : C.Point}
    (h : self.dkgRound2 prof network inputY inputV = .ok (ki, Ki, K)) : Ki = C.scalarMul C.basePointOrGenerator ki := by
  simp only [dkgRound2, bind_eq_ok, pure_eq_ok, Except.ok.injEq, Prod.mk.injEq] at h
  obtain ⟨_, -, _, -, _, -, _, -, _, -, _, -, rfl, rfl, -⟩ := h
  rfl

theorem Node.resharingRound2_pubShare {prof : Profile} {tStar newQuorum : Network R} {inputY : HMap ℕ Bytes}
    {inputV : HMap ℕ (List C.Point)} {K_dkg : C.Point} {ki : C.FieldEl} {Ki K : C.Point}
    (h : self.resharingRound2 prof tStar newQuorum inputY inputV K_dkg = .ok (ki, Ki, K)) :
    Ki = C.scalarMul C.basePointOrGenerator ki := by
  simp only [resharingRound2, bind_eq_ok] at h
  obtain ⟨_, -, _, -, _, -, _, -, _, -, _, -, _, -, h⟩ := h
  split at h
  · cases h
  · simp only [pure_eq_ok, Except.ok.injEq, Prod.mk.injEq] at h
    obtain ⟨rfl, rfl, -⟩ := h
    rfl

end node

namespace NodeDataVariant
variable {provers : QuorumMap} {idx : ℕ} {node node' : NodeDataVariant env}

theorem SharesFit.of_empty (hid : node.id = idx) (hempty : node.data.otherPubshares = ∅) : node.SharesFit provers idx := by
  refine ⟨hid, fun i hi => ?_, fun share hshare => ?_⟩
  · rw [hempty] at hi
    cases hi
  · rw [hempty] at hshare
    cases hshare

theorem SharesFit.cleared (hid : node.id = idx) : node.clearInputs.SharesFit provers idx := .of_empty hid rfl

theorem SharesFit.registerOutput (hfit : node.SharesFit provers idx) {missing : String} {i j : ℕ} {yValues : HMap ℕ Bytes}
    {vValues : List Bytes} (h : node.registerOutput env missing i j yValues vValues = .ok node') :
    node'.SharesFit provers idx := by
  simp only [NodeDataVariant.registerOutput, bind_eq_ok, okOr_eq_ok, pure_eq_ok, Except.ok.injEq] at h
  obtain ⟨_, -, _, -, rfl⟩ := h
  exact ⟨hfit.id, hfit.stored, hfit.own⟩

theorem SharesFit.storeOwnOutput (hfit : node.SharesFit provers idx) {i : ℕ} {output : ResharingRound1Output}
    (h : node.storeOwnOutput env i output = .ok node') : node'.SharesFit provers idx := by
  simp only [NodeDataVariant.storeOwnOutput, bind_eq_ok, okOr_eq_ok, pure_eq_ok, Except.ok.injEq] at h
  obtain ⟨_, -, _, -, rfl⟩ := h
  exact ⟨hfit.id, hfit.stored, hfit.own⟩

theorem SharesFit.dkgRound1 (hfit : node.SharesFit provers idx) {network : Network env.R}
    {rng : (c : CurveId) → ℕ → (env.curve c).FieldEl} {coins : ℕ → env.R.Coin} {output : Round1Output}
    (h : node.dkgRound1 network rng coins = .ok (node', output)) : node'.SharesFit provers idx := by
  simp only [NodeDataVariant.dkgRound1, bind_eq_ok, pure_eq_ok, Except.ok.injEq, Prod.mk.injEq] at h
  obtain ⟨⟨dealt, _⟩, hdealt, rfl, -⟩ := h
  obtain ⟨hid, -, hshare⟩ := Node.processDkgRound1_frame hdealt
  refine ⟨hid.trans hfit.id, hfit.stored, fun share hown => ?_⟩
  rw [hfit.own share hown, ownPubshare, ownPubshare, hshare]

theorem SharesFit.storePubshare (hfit : node.SharesFit provers idx) {i : ℕ} {pubshare : Bytes} (hi : i ∈ quorumIds provers)
    (hne : idx ≠ i) (h : node.storePubshareForNode i pubshare = .ok node') : node'.SharesFit provers idx := by
  simp only [NodeDataVariant.storePubshareForNode, bind_eq_ok, pure_eq_ok, Except.ok.injEq] at h
  obtain ⟨point, -, rfl⟩ := h
  refine ⟨hfit.id, fun j hj => ?_, fun share hshare => hfit.own share ?_⟩
  · rcases HMap.mem_keys_insert.1 hj with rfl | hj
    · exact hi
    · exact hfit.stored j hj
  · rwa [HMap.get?_insert_of_ne _ _ hne] at hshare

theorem SharesFit.computed (hfit : node.SharesFit provers idx) (hidx : idx ∈ quorumIds provers)
    (privShare : (env.curve node.c).FieldEl) (networkPubkey : (env.curve node.c).Point) :
    SharesFit provers idx ⟨node.c, { node.data with
      node := { node.data.node with privateShare := privShare, networkPubkey := networkPubkey }
      otherPubshares := node.data.otherPubshares.insert node.data.node.id
        ((env.curve node.c).scalarMul (env.curve node.c).basePointOrGenerator privShare) }⟩ := by
  have hid : node.data.node.id = idx := hfit.id
  refine ⟨hid, fun j hj => ?_, fun share hshare => ?_⟩
  · rcases HMap.mem_keys_insert.1 hj with rfl | hj
    · rwa [hid]
    · exact hfit.stored j hj
  · rw [hid] at hshare
    exact (Option.some.inj ((HMap.get?_insert_self _ _ _).symm.trans hshare)).symm

theorem SharesFit.dkgRound2 (hfit : node.SharesFit provers idx) (hidx : idx ∈ quorumIds provers) {prof : Profile}
    {network : Network env.R} {encoded : Bytes} (h : node.dkgRound2 prof network = .ok (node', encoded)) :
    node'.SharesFit provers idx := by
  simp only [NodeDataVariant.dkgRound2, bind_eq_ok, pure_eq_ok, Except.ok.injEq, Prod.mk.injEq] at h
  obtain ⟨⟨privShare, _, networkPubkey⟩, hround2, _, -, rfl, -⟩ := h
  obtain rfl := Node.dkgRound2_pubShare hround2
  exact hfit.computed hidx privShare networkPubkey

theorem SharesFit.resharingRound2 (hfit : node.SharesFit provers idx) (hidx : idx ∈ quorumIds provers) {prof : Profile}
    {tstarNetwork newNetwork : Network env.R} {kDkg encoded : Bytes}
    (h : node.resharingRound2 env prof tstarNetwork newNetwork kDkg = .ok (node', encoded)) :
    node'.SharesFit provers idx := by
  simp only [NodeDataVariant.resharingRound2, bind_eq_ok, pure_eq_ok, Except.ok.injEq, Prod.mk.injEq,
    mapErr_eq_ok] at h
  obtain ⟨_, -, ⟨privShare, _, networkPubkey⟩, hround2, _, -, rfl, -⟩ := h
  obtain rfl := Node.resharingRound2_pubShare hround2
  exact hfit.computed hidx privShare networkPubkey

end NodeDataVariant

/-! ### What an engine has stored -/

/-- The engine of a node that has the index of its entry, and what its nodes have stored. A resharing may leave the node
out of its quorum. -/
structure DkgEngineState.Fits (protocol : Protocol) (engine : DkgEngineState env) : Prop where
  quorum : FitsQuorum engine.newProvers engine.peerId engine.idx
  member : protocol = .dkg → engine.peerId ∈ engine.newProvers.keys
  total : protocol = .dkg → engine.network.totalNodes = engine.newProvers.len
  keys : engine.HasKeys
  nodes : ∀ key node, engine.dkgNodes.get? key = some node → node.SharesFit engine.newProvers engine.idx

structure DkgEngineState.Completed (engine : DkgEngineState env) : Prop where
  member : engine.peerId ∈ engine.newProvers.keys
  count : ∀ key node, engine.dkgNodes.get? key = some node → node.data.otherPubshares.len = engine.newProvers.len

def FitsAfter {ε β : Type} (protocol : Protocol) (report : β → List PeerId) (x : Outcome ε (DkgEngineState env × β)) : Prop :=
  ∀ after out, x = .ok (after, out) →
    after.Fits protocol ∧ (report out ≠ [] → report out = [after.peerId] ∧ after.Completed)

section engine
variable {protocol : Protocol} {self after : DkgEngineState env}

theorem FitsQuorum.mem {provers : QuorumMap} {p : PeerId} {idx : ℕ} (h : FitsQuorum provers p idx)
    (hp : p ∈ provers.keys) : idx ∈ quorumIds provers := by
  obtain ⟨e, he⟩ := HMap.exists_get? hp
  have hmem : (p, e) ∈ provers.entries := HMap.get?_eq_some.1 he
  rw [quorumIds, List.mem_toFinset, ← h e he]
  exact List.mem_map_of_mem (List.mem_map_of_mem hmem)

namespace DkgEngineState

theorem Fits.setNodes (h : self.Fits protocol) {nodes : HMap String (NodeDataVariant env)}
    (hkeys : nodes.keys = self.dkgNodes.keys)
    (hnodes : ∀ key node', nodes.get? key = some node' → node'.SharesFit self.newProvers self.idx) :
    Fits protocol { self with dkgNodes := nodes } := by
  refine ⟨h.quorum, h.member, h.total, fun m hm => ?_, hnodes⟩
  show m.keyName ∈ nodes.keys
  rw [hkeys]
  exact h.keys m hm

theorem Fits.changed (h : self.Fits protocol) {change : String → NodeDataVariant env → NodeDataVariant env → Prop}
    (hchanged : NodesChanged change self after)
    (hchange : ∀ key node node', node.SharesFit self.newProvers self.idx → change key node node' →
      node'.SharesFit self.newProvers self.idx) : after.Fits protocol := by
  rw [hchanged.frame]
  exact h.setNodes hchanged.keys (hchanged.forall_nodes h.nodes hchange)

theorem Fits.clearInputs (h : self.Fits protocol) : self.clearInputs.Fits protocol := by
  refine h.setNodes (HMap.keys_mapVal _ _) fun key node' hnode' => ?_
  rw [HMap.get?_mapVal, Option.map_eq_some_iff] at hnode'
  obtain ⟨node, hnode, rfl⟩ := hnode'
  exact .cleared (h.nodes key node hnode).id

end DkgEngineState

/-! The handlers. -/

namespace FitsAfter
variable {ε β : Type} {report : β → List PeerId} {x y : Outcome ε (DkgEngineState env × β)}

theorem skip (h : self.Fits protocol) {out : β} (hout : report out = []) :
    FitsAfter protocol report (pure (self, out) : Outcome ε _) := by
  intro after out' hok
  obtain ⟨rfl, rfl⟩ := Prod.mk.inj (Except.ok.inj hok)
  exact ⟨h, fun hreport => absurd hout hreport⟩

theorem ite {p : Prop} [Decidable p] (hx : p → FitsAfter protocol report x) (hy : ¬ p → FitsAfter protocol report y) :
    FitsAfter protocol report (if p then x else y) := by
  split
  next hp => exact hx hp
  next hp => exact hy hp

end FitsAfter

namespace DkgEngineState

theorem completed_of_all {total : ℕ} (hmember : self.peerId ∈ self.newProvers.keys) (htotal : total = self.newProvers.len)
    (hall : (self.dkgNodes.values.all fun node => node.data.otherPubshares.len = total) = true) : self.Completed := by
  refine ⟨hmember, fun key node hnode => ?_⟩
  have hmem : node ∈ self.dkgNodes.values := List.mem_map.2 ⟨(key, node), HMap.get?_eq_some.1 hnode, rfl⟩
  exact (of_decide_eq_true (List.all_eq_true.1 hall node hmem)).trans htotal

theorem Fits.storePubshares (h : self.Fits protocol) {total idx : ℕ} (pubshares : HMap String Bytes) (hne : self.idx ≠ idx)
    (hidx : isIndexOf self.newProvers idx = true) (hmember : self.peerId ∈ self.newProvers.keys)
    (htotal : total = self.newProvers.len) : FitsAfter protocol id (self.storePubshares total idx pubshares) := by
  intro after report hok
  have hchanged := storePubshares_changes hok
  simp only [DkgEngineState.storePubshares, bind_eq_ok, pure_eq_ok, Except.ok.injEq, Prod.mk.injEq] at hok
  obtain ⟨nodes, -, rfl, rfl⟩ := hok
  have hmem : idx ∈ quorumIds self.newProvers := by
    simpa [isIndexOf, quorumIds] using hidx
  refine ⟨h.changed hchanged ?_, fun hreport => ?_⟩
  · rintro key node node' hfit ⟨pubshare, -, hstored⟩
    exact hfit.storePubshare hmem hne hstored
  have hall := of_report hreport
  exact ⟨if_pos hall, completed_of_all hmember htotal hall⟩

theorem Fits.handleStoreReceivedPubshare (h : self.Fits .dkg) (idx : ℕ) (pubshares : HMap String Bytes) :
    FitsAfter .dkg id (self.handleStoreReceivedPubshare idx pubshares) :=
  .ite (fun _ => .skip h rfl) fun hne => .ite (fun _ => .skip h rfl) fun hidx =>
    h.storePubshares pubshares hne (not_not.1 hidx) (h.member rfl) (h.total rfl)

theorem Fits.handleStoreResharedReceivedPubshare (h : self.Fits .resharing) (idx : ℕ) (pubshares : HMap String Bytes) :
    FitsAfter .resharing id (self.handleStoreResharedReceivedPubshare idx pubshares) :=
  .ite (fun _ => .skip h rfl) fun hne => .ite (fun _ => .skip h rfl) fun hmember => .ite (fun _ => .skip h rfl) fun hidx =>
    h.storePubshares pubshares hne (not_not.1 hidx) (HMap.get?_isSome.1 (not_not.1 hmember)) rfl

theorem Fits.round2 (h : self.Fits protocol) (hmember : self.peerId ∈ self.newProvers.keys)
    {nodes : HMap String (NodeDataVariant env)} (hkeys : nodes.keys = self.dkgNodes.keys)
    (hnodes : ∀ key node', nodes.get? key = some node' → node'.SharesFit self.newProvers self.idx) :
    Fits protocol { self with dkgNodes := nodes } ∧ (round2Report { self with dkgNodes := nodes } ≠ [] →
      round2Report { self with dkgNodes := nodes } = [self.peerId] ∧ Completed { self with dkgNodes := nodes }) := by
  refine ⟨h.setNodes hkeys hnodes, fun hreport => ?_⟩
  have hall := of_report hreport
  exact ⟨if_pos hall, completed_of_all hmember rfl hall⟩

theorem handleRound2_eq_ok {prof : Profile} {out : Option (HMap String Bytes) × List PeerId}
    (h : self.handleRound2 prof = .ok (after, out)) :
    (after = self ∧ out = (none, [])) ∨
      (∃ nodes, after = { self with dkgNodes := nodes } ∧ out.2 = after.round2Report ∧ nodes.keys = self.dkgNodes.keys ∧
        ∀ key node', nodes.get? key = some node' → ∃ node encoded, self.dkgNodes.get? key = some node ∧
          node.dkgRound2 prof self.network = .ok (node', encoded)) := by
  unfold DkgEngineState.handleRound2 at h
  split at h
  · obtain ⟨rfl, rfl⟩ := Prod.mk.inj (Except.ok.inj h)
    exact .inl ⟨rfl, rfl⟩
  · simp only [bind_eq_ok, pure_eq_ok, Except.ok.injEq, Prod.mk.injEq] at h
    obtain ⟨outputs, houtputs, rfl, rfl⟩ := h
    refine .inr ⟨_, rfl, rfl, (HMap.keys_mapVal _ _).trans (HMap.keys_of_mapValM houtputs), fun key node' hnode' => ?_⟩
    rw [HMap.get?_mapVal, Option.map_eq_some_iff] at hnode'
    obtain ⟨⟨_, encoded⟩, hout, rfl⟩ := hnode'
    obtain ⟨node, hnode, hok⟩ := HMap.get?_of_mapValM houtputs hout
    exact ⟨node, encoded, hnode, hok⟩

theorem Fits.handleRound2 (h : self.Fits .dkg) (prof : Profile) :
    FitsAfter .dkg Prod.snd (self.handleRound2 prof) := by
  intro after out hok
  rcases handleRound2_eq_ok hok with ⟨rfl, rfl⟩ | ⟨nodes, rfl, hreport, hkeys, hnodes⟩
  · exact ⟨h, fun hreport => absurd rfl hreport⟩
  · rw [hreport]
    refine h.round2 (h.member rfl) hkeys fun key node' hnode' => ?_
    obtain ⟨node, encoded, hnode, hok⟩ := hnodes key node' hnode'
    exact (h.nodes key node hnode).dkgRound2 (h.quorum.mem (h.member rfl)) hok

theorem Fits.reportResharingRound2 (h : self.Fits .resharing) (prof : Profile) :
    FitsAfter .resharing Prod.snd (self.reportResharingRound2 prof) := by
  intro after out hok
  simp only [DkgEngineState.reportResharingRound2, bind_eq_ok, pure_eq_ok, Except.ok.injEq, Prod.mk.injEq] at hok
  obtain ⟨⟨engine, pubshares⟩, hround2, rfl, rfl⟩ := hok
  unfold handleResharingRound2 at hround2
  split at hround2
  next =>
    obtain ⟨rfl, rfl⟩ := Prod.mk.inj (Except.ok.inj hround2)
    exact ⟨h, fun hreport => absurd rfl hreport⟩
  next hmember =>
    have hmem : self.peerId ∈ self.newProvers.keys := HMap.get?_isSome.1 (not_not.1 hmember)
    simp only [bind_eq_ok, pure_eq_ok, Except.ok.injEq, Prod.mk.injEq] at hround2
    obtain ⟨_, -, _, -, outputs, houtputs, rfl, rfl⟩ := hround2
    refine h.round2 hmem ((HMap.keys_mapVal _ _).trans (HMap.keys_of_mapValM houtputs)) fun key node' hnode' => ?_
    rw [HMap.get?_mapVal, Option.map_eq_some_iff] at hnode'
    obtain ⟨⟨_, encoded⟩, hout, rfl⟩ := hnode'
    obtain ⟨node, hnode, hok⟩ := HMap.get?_of_mapValM houtputs hout
    obtain ⟨kDkg, -, hok⟩ := bind_eq_ok.1 hok
    exact (h.nodes key node hnode).resharingRound2 (h.quorum.mem hmem) hok

theorem runRound1_forall {P : String → NodeDataVariant env → Prop} {network : Network env.R}
    {rng : String → (c : CurveId) → ℕ → (env.curve c).FieldEl} {coins : String → ℕ → env.R.Coin}
    (hP : ∀ {key node node' output}, P key node → node.dkgRound1 network (rng key) (coins key) = .ok (node', output) →
      P key node')
    {entries : List (String × NodeDataVariant env)} {nodes nodes' : HMap String (NodeDataVariant env)}
    {outputs : HMap String Round1Output} {out : Option (HMap String Round1Output)} (hentries : ∀ e ∈ entries, P e.1 e.2)
    (hnodes : ∀ key node, nodes.get? key = some node → P key node)
    (h : runRound1 network rng coins entries nodes outputs = .ok (nodes', out)) :
    nodes'.keys = nodes.keys ∧ ∀ key node, nodes'.get? key = some node → P key node := by
  induction entries generalizing nodes outputs with
  | nil =>
    obtain ⟨rfl, -⟩ := Prod.mk.inj (Except.ok.inj h)
    exact ⟨rfl, hnodes⟩
  | cons e entries ih =>
    obtain ⟨key, node⟩ := e
    simp only [runRound1, bind_eq_ok] at h
    obtain ⟨dealt, hdealt, h⟩ := h
    cases dealt with
    | none =>
      obtain ⟨rfl, -⟩ := Prod.mk.inj (Except.ok.inj h)
      exact ⟨rfl, hnodes⟩
    | some dealt =>
      obtain ⟨dealt, output⟩ := dealt
      have hfirst : P key dealt := hP (hentries (key, node) List.mem_cons_self) (toOption_eq_some.1 hdealt)
      have hdealtNodes : ∀ k other', (nodes.mapVal fun k other => if k = key then dealt else other).get? k = some other' →
          P k other' := by
        intro k other' hother
        rw [HMap.get?_mapVal, Option.map_eq_some_iff] at hother
        obtain ⟨old, hold, rfl⟩ := hother
        split
        next hk => exact hk ▸ hfirst
        next => exact hnodes k old hold
      obtain ⟨hkeys, hrest⟩ := ih (fun e he => hentries e (List.mem_cons_of_mem _ he)) hdealtNodes h
      exact ⟨hkeys.trans (HMap.keys_mapVal _ _), hrest⟩

theorem handleRound1_eq_ok {rng : String → (c : CurveId) → ℕ → (env.curve c).FieldEl} {coins : String → ℕ → env.R.Coin}
    {outputs : Option (HMap String Round1Output)} {report : List PeerId}
    (h : self.handleRound1 rng coins = .ok (after, outputs, report)) :
    ∃ nodes, runRound1 self.network rng coins self.dkgNodes.entries self.dkgNodes ∅ = .ok (nodes, outputs) ∧
      after = { self with dkgNodes := nodes } := by
  simp only [DkgEngineState.handleRound1, bind_eq_ok, Prod.exists] at h
  obtain ⟨nodes, outputs', hround1, h⟩ := h
  cases outputs' with
  | none =>
    obtain ⟨rfl, hout⟩ := Prod.mk.inj (Except.ok.inj h)
    exact ⟨nodes, by rw [hround1, (Prod.mk.inj hout).1], rfl⟩
  | some outputs' =>
    obtain ⟨rfl, hout⟩ := Prod.mk.inj (Except.ok.inj h)
    exact ⟨nodes, by rw [hround1, (Prod.mk.inj hout).1], rfl⟩

theorem Fits.handleRound1 (h : self.Fits protocol) {rng : String → (c : CurveId) → ℕ → (env.curve c).FieldEl}
    {coins : String → ℕ → env.R.Coin} {out : Option (HMap String Round1Output) × List PeerId}
    (hok : self.handleRound1 rng coins = .ok (after, out)) : after.Fits protocol := by
  obtain ⟨outputs, report⟩ := out
  obtain ⟨nodes, hround1, rfl⟩ := handleRound1_eq_ok hok
  obtain ⟨hkeys, hnodes⟩ := runRound1_forall (fun hfit hdealt => hfit.dkgRound1 hdealt)
    (fun e he => h.nodes e.1 e.2 (HMap.get?_eq_some.2 he)) h.nodes hround1
  exact h.setNodes hkeys hnodes

theorem Fits.handleRound1Output (h : self.Fits protocol) {idx : ℕ} {outputs : HMap String Round1Output} {out : List PeerId}
    (hok : self.handleRound1Output env idx outputs = .ok (after, out)) : after.Fits protocol := by
  refine h.changed (handleRound1Output_changes hok) ?_
  rintro key node node' hfit ⟨output, -, hregistered⟩
  exact hfit.registerOutput hregistered

theorem Fits.handleResharingRound1 (h : self.Fits protocol) {info : ElectionInfo} {isRelected : Bool}
    {rng : String → (c : CurveId) → ℕ → (env.curve c).FieldEl} {coins : String → ℕ → env.R.Coin}
    {out : Option (HMap String ResharingRound1Output) × List PeerId}
    (hok : self.handleResharingRound1 env info isRelected rng coins = .ok (after, out)) : after.Fits protocol := by
  refine h.changed (handleResharingRound1_changes hok) ?_
  rintro key node node' hfit ⟨output, hstored⟩
  exact hfit.storeOwnOutput hstored

theorem Fits.handleResharingRound1Output (h : self.Fits protocol) {idx : ℕ} {outputs : HMap String ResharingRound1Output}
    {out : List PeerId} (hok : self.handleResharingRound1Output env idx outputs = .ok (after, out)) :
    after.Fits protocol := by
  refine h.changed (handleResharingRound1Output_changes hok) ?_
  rintro key node node' hfit ⟨output, -, hregistered⟩
  exact hfit.registerOutput hregistered

/-- Round 3 of a resharing exchanges the network, which counts in a key generation only. -/
theorem Fits.handleRound3 {isResharing : Bool} (h : self.Fits protocol) (hprotocol : isResharing = true → protocol ≠ .dkg)
    {out : Option (HMap String Bytes) × Option Completion} (hok : self.handleRound3 isResharing = .ok (after, out)) :
    after.Fits protocol := by
  simp only [DkgEngineState.handleRound3, bind_eq_ok, pure_eq_ok, Except.ok.injEq, Prod.mk.injEq] at hok
  obtain ⟨network, -, _, -, _, -, rfl, -⟩ := hok
  refine ⟨h.quorum, h.member, fun hdkg => ?_, h.keys, h.nodes⟩
  cases isResharing with
  | true => exact absurd hdkg (hprotocol rfl)
  | false => exact h.total hdkg

theorem fits_of_dkgInit {p : PeerId} {idx threshold : ℕ} {sk : env.R.SecretKey} {provers : QuorumMap} {coins : NodeCoins env}
    (hfits : FitsQuorum provers p idx) (hmember : p ∈ provers.keys)
    (hok : dkgInit env p idx sk provers threshold coins = .ok after) : after.Fits .dkg := by
  have hkeys := hasKeys_dkgInit hok
  simp only [dkgInit, bind_eq_ok, pure_eq_ok, Except.ok.injEq] at hok
  obtain ⟨network, hnetwork, rfl⟩ := hok
  refine ⟨hfits, fun _ => hmember, fun _ => (keyedNetwork_params hnetwork).2, hkeys, fun key node hnode => ?_⟩
  rw [HMap.get?_collect, Option.map_eq_some_iff] at hnode
  obtain ⟨m, -, rfl⟩ := hnode
  exact .of_empty rfl rfl

theorem fits_of_resharingInit {ctx : ResharingInitContext env} {state : Option (DkgEngineState env)} {idx : ℕ}
    {tstar new : QuorumMap} {saved : HMap String Bytes} {coins : NodeCoins env} {report : List PeerId}
    (hstate : ∀ old ∈ state, old.Indexed ∧ old.HasKeys) (hfits : FitsQuorum after.newProvers after.peerId after.idx)
    (hok : handleResharingInit env ctx state idx tstar new saved coins = .ok (some after, report)) :
    after.Fits .resharing := by
  obtain ⟨before, hbefore, hidx, hnodes, -⟩ := handleResharingInit_clears hok
  obtain ⟨hindexed, hkeys⟩ : before.Indexed ∧ before.HasKeys := by
    rcases hbefore with rfl | hnew
    · exact hstate before rfl
    · exact hnew
  refine ⟨hfits, nofun, nofun, fun m hm => ?_, fun key node hnode => ?_⟩
  · rw [hnodes, DkgEngineState.clearInputs, HMap.keys_mapVal]
    exact hkeys m hm
  rw [hnodes, DkgEngineState.clearInputs, HMap.get?_mapVal, Option.map_eq_some_iff] at hnode
  obtain ⟨old, hold, rfl⟩ := hnode
  exact .cleared ((hindexed key old hold).trans hidx.symm)

end DkgEngineState

end engine

/-! ### Runs -/

def RoundState.Fits (s : RoundState env) : Prop := ∀ self ∈ s.engine, self.Fits s.protocol

def RoundState.FitsWith (s : RoundState env) (report : List PeerId) : Prop :=
  s.Fits ∧ (report ≠ [] → ∃ self, s.engine = some self ∧ report = [self.peerId] ∧ self.Completed)

section run
variable {prof : Profile} {protocol : Protocol} {s s' : RoundState env} {self after : DkgEngineState env} {report : List PeerId}

theorem RoundState.FitsWith.quiet (h : s.Fits) : s.FitsWith [] := ⟨h, fun hreport => absurd rfl hreport⟩

theorem RoundState.Fits.some (h : self.Fits protocol) : RoundState.Fits ⟨protocol, .some self⟩ := by
  rintro _ ⟨⟩
  exact h

theorem FitsAfter.fitsWith {ε β : Type} {out : β} {reportOf : β → List PeerId} {x : Outcome ε (DkgEngineState env × β)}
    (h : FitsAfter protocol reportOf x) (hok : x = .ok (after, out)) :
    RoundState.FitsWith ⟨protocol, some after⟩ (reportOf out) := by
  obtain ⟨hfits, hreport⟩ := h after out hok
  refine ⟨.some hfits, fun hne => ?_⟩
  obtain ⟨hpeer, hcompleted⟩ := hreport hne
  exact ⟨after, rfl, hpeer, hcompleted⟩

theorem RoundStep.fitsWith (hs : s.Fits) (h : RoundStep prof s report s') : s'.FitsWith report := by
  cases h with
  | init hfits hmember h => exact .quiet (.some (fits_of_dkgInit hfits hmember h))
  | round1 h => exact .quiet (.some ((hs _ rfl).handleRound1 h))
  | round1Out h => exact .quiet (.some ((hs _ rfl).handleRound1Output h))
  | round2 h => exact ((hs _ rfl).handleRound2 prof).fitsWith h
  | storeReceivedPublicKey h => exact ((hs _ rfl).handleStoreReceivedPubshare _ _).fitsWith h
  | round3 h => exact .quiet (.some ((hs _ rfl).handleRound3 (fun hfalse => absurd hfalse Bool.false_ne_true) h))
  | resharingInit h hfits =>
    refine .quiet ?_
    rintro self ⟨⟩
    refine fits_of_resharingInit (fun old hold => ⟨fun key node hnode => ?_, (hs old hold).keys⟩) (hfits self rfl) h
    exact ((hs old hold).nodes key node hnode).id
  | resharingRound1 h => exact .quiet (.some ((hs _ rfl).handleResharingRound1 h))
  | resharingRound1Out h => exact .quiet (.some ((hs _ rfl).handleResharingRound1Output h))
  | resharingRound2 h => exact ((hs _ rfl).reportResharingRound2 prof).fitsWith h
  | storeResharedReceivedPublicKey h => exact ((hs _ rfl).handleStoreResharedReceivedPubshare _ _).fitsWith h
  | resharingRound3 h => exact .quiet (.some ((hs _ rfl).handleRound3 (fun _ => nofun) h))
  | clearShares => exact .quiet (.some (hs _ rfl).clearInputs)
  | stop => exact .quiet nofun

/-- At the end of round 2 a node has exactly the public shares of the members: there are as many, and all are theirs. -/
theorem DkgEngineState.Completed.pubshares (h : self.Completed) (hfits : self.Fits protocol) {key : String}
    {node : NodeDataVariant env} (hnode : self.dkgNodes.get? key = some node) :
    node.data.otherPubshares.keys.toFinset = quorumIds self.newProvers ∧ node.id ∈ quorumIds self.newProvers ∧
      node.data.otherPubshares.get? node.id = some node.ownPubshare := by
  have hfit := hfits.nodes key node hnode
  have hidx : self.idx ∈ quorumIds self.newProvers := hfits.quorum.mem h.member
  have hkeys : node.data.otherPubshares.keys.toFinset = quorumIds self.newProvers := by
    refine Finset.eq_of_subset_of_card_le (fun i hi => hfit.stored i (List.mem_toFinset.1 hi)) ?_
    rw [HMap.card_keys, h.count key node hnode]
    exact card_quorumIds_le _
  have hown : self.idx ∈ node.data.otherPubshares.keys := by rwa [← List.mem_toFinset, hkeys]
  obtain ⟨share, hshare⟩ := HMap.exists_get? hown
  rw [hfit.id]
  exact ⟨hkeys, hidx, by rw [hshare, hfit.own share hshare]⟩

/-- A node that reports the end of round 2, of a key generation or of a resharing, has for every key the public shares of
the members of the quorum and no others, and under its own index that of its private share. The indices of a quorum may
even coincide: then there are fewer of them than members, and the number is never reached. -/
theorem round2_completed (hrun : Reach (RoundStep prof) (fun _ _ => True) ⟨.dkg, none⟩ s)
    (hstep : RoundStep prof s report s') (hreport : report ≠ []) :
    ∃ self, s'.engine = some self ∧ report = [self.peerId] ∧ self.HasKeys ∧
      ∀ key node, self.dkgNodes.get? key = some node →
        node.data.otherPubshares.keys.toFinset = quorumIds self.newProvers ∧ node.id ∈ quorumIds self.newProvers ∧
        node.data.otherPubshares.get? node.id = some node.ownPubshare := by
  have hs : s.Fits := hrun.invariant (by rintro _ ⟨⟩) fun hs _ hstep => (hstep.fitsWith hs).1
  obtain ⟨hfits, hcompleted⟩ := hstep.fitsWith hs
  obtain ⟨self, hself, hpeer, hcompleted⟩ := hcompleted hreport
  refine ⟨self, hself, hpeer, (hfits self hself).keys, fun key node hnode => ?_⟩
  exact hcompleted.pubshares (hfits self hself) hnode

end run

/-! ### Three provers -/

def boxEngine (p : PeerId) (idx : ℕ) : Option (DkgEngineState boxEngines) :=
  (dkgInit boxEngines p idx (0 : ℕ) (quorumMap threeProvers) 2 (fun _ => (0, 0))).result?

def boxDealt (p : PeerId) (idx : ℕ) : Option (DkgEngineState boxEngines × HMap String Round1Output) := do
  let engine ← boxEngine p idx
  let (engine, outputs, _) ← (engine.handleRound1 (fun _ _ _ => 1) (fun _ _ => (0 : UInt8))).result?
  let outputs ← outputs
  return (engine, outputs)

/-- The prover `a` gets the dealings of `b` and `c`, runs round 2, and gets public shares from the two. -/
def completingRun : Option (List PeerId) := do
  let (dealt, _) ← boxDealt "a" 2
  let (_, outputs₃) ← boxDealt "b" 3
  let (_, outputs₄) ← boxDealt "c" 4
  let (got₃, _) ← (dealt.handleRound1Output boxEngines 3 outputs₃).result?
  let (got₄, _) ← (got₃.handleRound1Output boxEngines 4 outputs₄).result?
  let (computed, pubshares, _) ← (got₄.handleRound2 .release).result?
  let pubshares ← pubshares
  let (stored₃, _) ← (computed.handleStoreReceivedPubshare 3 pubshares).result?
  let (_, report) ← (stored₃.handleStoreReceivedPubshare 4 pubshares).result?
  return report

theorem round2_completed_three : ∃ (s s' : RoundState boxEngines) (self : DkgEngineState boxEngines),
    Reach (RoundStep .release) (fun _ _ => True) ⟨.dkg, none⟩ s ∧ RoundStep .release s ["a"] s' ∧
    s'.engine = some self ∧ self.HasKeys ∧ ∀ key node, self.dkgNodes.get? key = some node →
      node.data.otherPubshares.keys.toFinset = quorumIds self.newProvers ∧
      node.data.otherPubshares.get? node.id = some node.ownPubshare := by
  have hrun : completingRun = some ["a"] := by decide +kernel
  simp only [completingRun, boxDealt, boxEngine, Option.bind_eq_bind, Option.bind_eq_some_iff, result?_eq_some, Prod.exists,
    Option.pure_def, Option.some.injEq, Prod.mk.injEq] at hrun
  obtain ⟨dealt, _, ⟨engine, hinit, _, _, _, hround1, _, -, rfl, rfl⟩, _, outputs₃, -, _, outputs₄, -, got₃, _, hout₃,
    got₄, _, hout₄, computed, _, _, hround2, pubshares, -, stored₃, _, hstore₃, after, _, hstore₄, rfl⟩ := hrun
  have hfits : FitsQuorum (quorumMap threeProvers) "a" 2 := by
    rintro _ ⟨⟩
    rfl
  have hstart : Reach (RoundStep .release) (fun _ _ => True) ⟨.dkg, none⟩ ⟨.dkg, some engine⟩ :=
    Reach.refl.tail trivial (.init hfits (by decide) hinit)
  have hdealt := ((hstart.tail trivial (.round1 hround1)).tail trivial (.round1Out hout₃)).tail trivial (.round1Out hout₄)
  have hreach := (hdealt.tail trivial (.round2 hround2)).tail trivial (.storeReceivedPublicKey hstore₃)
  have hlast : RoundStep .release ⟨.dkg, some stored₃⟩ ["a"] ⟨.dkg, some after⟩ := .storeReceivedPublicKey hstore₄
  obtain ⟨self, hself, -, hkeys, hnodes⟩ := round2_completed hreach hlast (List.cons_ne_nil _ _)
  exact ⟨_, _, self, hreach, hlast, hself, hkeys, fun key node hnode =>
    ⟨(hnodes key node hnode).1, (hnodes key node hnode).2.2⟩⟩

end HumanNetwork
