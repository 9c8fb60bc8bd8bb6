import HumanNetwork.Persistence
import HumanNetwork.ResharingIndices

/-!
# The share after a failed resharing (`dkg_engine_actor.rs`, `app_state_actor.rs`)

A prover has its share three times: in the nodes of its engine, in its application state and in its database.
`resharing_round_2` replaces the first in place. The application state follows at the end of round 3 with
`StoreKeyShares`, and the database when the relay has everybody save. A rollback restores the application state from the
database and says nothing to the engine, and the next `handle_resharing_init` reads the database only if the engine has
no state.

A `ShareHolder` is a prover that receives these messages in any order. The engine keeps the saved shares until round 2
or a join gives it others (`Settled.of_spares`), and only a restart brings them back: so the next `resharing_round_1` deals
the share of the rolled-back state if round 2 was not reached since the last start or save (`share_intact`).
-/

namespace HumanNetwork
open Outcome DkgEngineState

variable {env : EngineEnv}

/-! ### The end of a round -/

inductive Round3Error where
  | engine (e : EngineError)
  | round (e : DKGError)

inductive Completion where
  | resharingPrepared (idx : ℕ) (peerId : PeerId) (pubshares : HMap String Bytes)
  | ready (idx : ℕ) (peerId : PeerId) (pubshares groupKeys : HMap String Bytes)

def Node.processRound3 {R : Rsa} {C : Curve} (node : Node R C) (network : Network R) (otherPubshares : HMap ℕ C.Point)
    (isResharing isElected : Bool) : Outcome DKGError Unit := do
  if isResharing ∧ isElected then
    let _ ← mapErr .resharingError (node.resharingRound3 network otherPubshares)
  else
    let _ ← node.dkgRound3 network otherPubshares

namespace NodeDataVariant

def storePubshareForNode (self : NodeDataVariant env) (idx : ℕ) (pubshare : Bytes) :
    Outcome EngineError (NodeDataVariant env) := do
  let point ← mapErr (fun e => .restore e.display) ((env.curve self.c).fromEncoded pubshare)
  return ⟨self.c, { self.data with otherPubshares := self.data.otherPubshares.insert idx point }⟩

def getPrivShare (self : NodeDataVariant env) : Bytes := (env.curve self.c).id.toBytes self.data.node.privateShare

def getPubShare (self : NodeDataVariant env) : Outcome EngineError Bytes :=
  let C := env.curve self.c
  unwrap (C.encode (C.scalarMul C.basePointOrGenerator self.data.node.privateShare)) unwrapNone

end NodeDataVariant

namespace DkgEngineState

def isIndexOf (provers : QuorumMap) (idx : ℕ) : Bool := provers.values.any fun e => e.2 = idx

/-- The loop over the public shares and who reports the end of the round, when there are `total` for each key. -/
def storePubshares (self : DkgEngineState env) (total idx : ℕ) (pubshares : HMap String Bytes) :
    Outcome EngineError (DkgEngineState env × List PeerId) := do
  let dkgNodes ← updateNodes env (fun node pubshare => node.storePubshareForNode idx pubshare) pubshares.entries self.dkgNodes
  let isReady := dkgNodes.values.all fun node => node.data.otherPubshares.len = total
  return ({ self with dkgNodes := dkgNodes }, if isReady then [self.peerId] else [])

/-- The second component is who reports `DKGRound2Completed`. -/
def handleStoreReceivedPubshare (self : DkgEngineState env) (idx : ℕ) (pubshares : HMap String Bytes) :
    Outcome EngineError (DkgEngineState env × List PeerId) := do
  if self.idx = idx then return (self, [])
  if ¬ isIndexOf self.newProvers idx then return (self, [])
  self.storePubshares self.network.totalNodes idx pubshares

/-- The second component is who reports `ResharingRound2Completed`. -/
def handleStoreResharedReceivedPubshare (self : DkgEngineState env) (idx : ℕ) (pubshares : HMap String Bytes) :
    Outcome EngineError (DkgEngineState env × List PeerId) := do
  if self.idx = idx then return (self, [])
  if ¬ self.newProvers.containsKey self.peerId then return (self, [])
  if ¬ isIndexOf self.newProvers idx then return (self, [])
  self.storePubshares self.newProvers.len idx pubshares

def round3Network (self : DkgEngineState env) (isResharing : Bool) : Outcome Round3Error (Network env.R) :=
  if isResharing then mapErr .engine (quorumNetwork env self.electionInfo.threshold self.newProvers false)
  else .ok self.network

/-- What `StoreKeyShares` gives to the application state, and what is gossiped. -/
def completion (self : DkgEngineState env) (isResharing : Bool) :
    Outcome Round3Error (Option (HMap String Bytes) × Option Completion) := do
  let partialShares := self.dkgNodes.mapVal fun _ node => node.getPrivShare
  if isResharing ∧ self.newProvers.containsKey self.peerId then
    let pubshares ← mapErr .engine (self.dkgNodes.mapValM fun _ node => node.getPubShare)
    return (some partialShares, some (.resharingPrepared self.idx self.peerId pubshares))
  if ¬ isResharing ∧ self.tstarProvers.len = 0 then
    let keys ← self.dkgNodes.mapValM fun _ node =>
      unwrap ((env.curve node.c).encode node.data.node.networkPubkey) unwrapNone
    let pubshares ← mapErr .engine (self.dkgNodes.mapValM fun _ node => node.getPubShare)
    return (some partialShares, some (.ready self.idx self.peerId pubshares keys))
  return (none, none)

def handleRound3 (self : DkgEngineState env) (isResharing : Bool) :
    Outcome Round3Error (DkgEngineState env × Option (HMap String Bytes) × Option Completion) := do
  let network ← self.round3Network isResharing
  self.dkgNodes.values.forM fun node => mapErr .round
    (node.data.node.processRound3 network node.data.otherPubshares isResharing (self.newProvers.containsKey self.peerId))
  let out ← self.completion isResharing
  return ({ self with network := if isResharing then network else self.network }, out)

end DkgEngineState

/-! ### The shares of an engine -/

variable (env) in
abbrev EngineShare := (c : CurveId) × (env.curve c).FieldEl

def NodeDataVariant.share (self : NodeDataVariant env) : EngineShare env := ⟨self.c, self.data.node.privateShare⟩

def sharesOf (nodes : HMap String (NodeDataVariant env)) : HMap String (EngineShare env) :=
  nodes.mapVal fun _ node => node.share

/-- What `resharing_round_1` deals, for each key. -/
def DkgEngineState.shares (self : DkgEngineState env) : HMap String (EngineShare env) := sharesOf self.dkgNodes

def Holds (saved : HMap String Bytes) (shares : HMap String (EngineShare env)) : Prop :=
  ∀ key share, shares.get? key = some share →
    ∃ bytes, saved.get? key = some bytes ∧ (env.curve share.1).id.fromBytes bytes = .ok share.2

section nodes
variable {node node' : NodeDataVariant env} {nodes nodes' : HMap String (NodeDataVariant env)} {self after : DkgEngineState env}

theorem share_of_registerOutput {missing : String} {i j : ℕ} {yValues : HMap ℕ Bytes} {vValues : List Bytes}
    (h : node.registerOutput env missing i j yValues vValues = .ok node') : node'.share = node.share := by
  simp only [NodeDataVariant.registerOutput, bind_eq_ok, pure_eq_ok, Except.ok.injEq] at h
  obtain ⟨_, -, _, -, rfl⟩ := h
  rfl

theorem share_of_storeOwnOutput {i : ℕ} {output : ResharingRound1Output} (h : node.storeOwnOutput env i output = .ok node') :
    node'.share = node.share := by
  simp only [NodeDataVariant.storeOwnOutput, bind_eq_ok, pure_eq_ok, Except.ok.injEq] at h
  obtain ⟨_, -, _, -, rfl⟩ := h
  rfl

theorem share_of_storePubshareForNode {i : ℕ} {pubshare : Bytes} (h : node.storePubshareForNode i pubshare = .ok node') :
    node'.share = node.share := by
  simp only [NodeDataVariant.storePubshareForNode, bind_eq_ok, pure_eq_ok, Except.ok.injEq] at h
  obtain ⟨_, -, rfl⟩ := h
  rfl

theorem NodesChanged.shares_eq {change : String → NodeDataVariant env → NodeDataVariant env → Prop}
    (h : NodesChanged change self after)
    (hchange : ∀ {key node node'}, change key node node' → node'.share = node.share) : after.shares = self.shares := by
  refine HMap.eq_of_keys ?_ fun key share hshare => ?_
  · rw [shares, shares, sharesOf, sharesOf, HMap.keys_mapVal, HMap.keys_mapVal, h.keys]
  · rw [shares, sharesOf, HMap.get?_mapVal, Option.map_eq_some_iff] at hshare ⊢
    obtain ⟨node', hnode', rfl⟩ := hshare
    obtain ⟨node, hnode, rfl | hchanged⟩ := h.node key node' hnode'
    · exact ⟨node', hnode, rfl⟩
    · exact ⟨node, hnode, (hchange hchanged).symm⟩

theorem shares_clearInputs (self : DkgEngineState env) : self.clearInputs.shares = self.shares := by
  rw [shares, sharesOf, clearInputs, HMap.mapVal_mapVal]
  rfl

theorem shares_of_resume {ctx : ResharingInitContext env} {network : Network env.R} {tstar new : QuorumMap}
    {report : List PeerId} (h : self.resume env ctx network tstar new = .ok (after, report)) : after.shares = self.shares := by
  obtain ⟨network', context, -, rfl⟩ := resume_eq_ok h
  exact shares_clearInputs self

theorem holds_of_restore {p : PeerId} {idx threshold : ℕ} {sk : env.R.SecretKey} {tstar new : QuorumMap}
    {saved groupKeys : HMap String Bytes} {coins : NodeCoins env}
    (h : restoreOldResharingState env p idx sk new threshold saved tstar groupKeys coins = .ok self) :
    Holds saved self.shares := by
  simp only [restoreOldResharingState, bind_eq_ok, pure_eq_ok, Except.ok.injEq] at h
  obtain ⟨found, hfound, pubkeys, -, nodes, hnodes, network, -, rfl⟩ := h
  intro key share hshare
  rw [shares, sharesOf, HMap.get?_mapVal, Option.map_eq_some_iff] at hshare
  obtain ⟨node, hnode, rfl⟩ := hshare
  rw [HMap.get?_collect, Option.map_eq_some_iff] at hnode
  obtain ⟨entry, hentry, rfl⟩ := hnode
  have hkey : entry.1 = key := by simpa using List.find?_some hentry
  subst hkey
  obtain ⟨⟨⟨m, bytes⟩, pubkey⟩, hsource, hok⟩ :=
    (exists_of_mapM hnodes).2 entry (List.mem_reverse.1 (List.mem_of_find?_eq_some hentry))
  obtain ⟨m', -, hlookup⟩ := (exists_of_mapM hfound).2 (m, bytes) (List.of_mem_zip hsource).1
  simp only [bind_eq_ok, okOr_eq_ok, pure_eq_ok, Except.ok.injEq, Prod.mk.injEq] at hlookup
  obtain ⟨_, hsaved, rfl, rfl⟩ := hlookup
  simp only [bind_eq_ok, pure_eq_ok, Except.ok.injEq, NodeDataVariant.restored, unwrap_eq_ok] at hok
  obtain ⟨_, ⟨_, hbytes, share, rfl, _, -, rfl⟩, rfl⟩ := hok
  exact ⟨_, hsaved, toOption_eq_some.1 hbytes⟩

theorem holds_of_round3 {isResharing : Bool} {stored : HMap String Bytes} {gossip : Option Completion}
    (h : self.handleRound3 isResharing = .ok (after, some stored, gossip)) : Holds stored after.shares := by
  simp only [handleRound3, bind_eq_ok, pure_eq_ok, Except.ok.injEq, Prod.mk.injEq] at h
  obtain ⟨network, -, _, -, out, hout, rfl, rfl⟩ := h
  have hstored : stored = self.dkgNodes.mapVal fun _ node => node.getPrivShare := by
    unfold completion at hout
    split at hout
    · simp only [bind_eq_ok, pure_eq_ok, Except.ok.injEq, Prod.mk.injEq, Option.some.injEq] at hout
      obtain ⟨_, -, rfl, -⟩ := hout
      rfl
    split at hout
    · simp only [bind_eq_ok, pure_eq_ok, Except.ok.injEq, Prod.mk.injEq, Option.some.injEq] at hout
      obtain ⟨_, -, _, -, rfl, -⟩ := hout
      rfl
    · cases hout
  intro key share hshare
  rw [shares, sharesOf, HMap.get?_mapVal, Option.map_eq_some_iff] at hshare
  obtain ⟨node, hnode, rfl⟩ := hshare
  refine ⟨node.getPrivShare, ?_, CurveId.fromBytes_toBytes _ _⟩
  rw [hstored, HMap.get?_mapVal, show self.dkgNodes.get? key = some node from hnode]
  rfl

end nodes

/-! ### The engine actor -/

variable (env) in
/-- The messages of a resharing, and those of a key generation that do not touch the shares. -/
inductive EngineMessage where
  | resharingInit (ctx : ResharingInitContext env) (idx : ℕ) (tstarProvers newProvers : QuorumMap) (readable : Bool)
      (coins : NodeCoins env)
  | resharingRound1 (electionInfo : ElectionInfo) (isRelected : Bool)
      (rng : String → (c : CurveId) → ℕ → (env.curve c).FieldEl) (coins : String → ℕ → env.R.Coin)
  | round1Out (idx : ℕ) (outputs : HMap String Round1Output)
  | resharingRound1Out (idx : ℕ) (outputs : HMap String ResharingRound1Output)
  | resharingRound2
  | storeReceivedPublicKey (idx : ℕ) (pubshares : HMap String Bytes)
  | storeResharedReceivedPublicKey (idx : ℕ) (pubshares : HMap String Bytes)
  | round3 (isResharing : Bool)
  | clearShares

/-- The state of the engine after a message, where `entry` is what the database has of the shares. An error or a panic
stops the actor, which is started again without a state. -/
def handleEngine (prof : Profile) (entry : Option (HMap String Bytes)) (state : Option (DkgEngineState env)) :
    EngineMessage env → Option (DkgEngineState env)
  | .resharingInit ctx idx tstarProvers newProvers readable coins =>
    (handleResharingInit env ctx state idx tstarProvers newProvers (getState readable entry ∅) coins).result?.bind Prod.fst
  | .resharingRound1 electionInfo isRelected rng coins =>
    state.bind fun self => (self.handleResharingRound1 env electionInfo isRelected rng coins).result?.map Prod.fst
  | .round1Out idx outputs => state.bind fun self => (self.handleRound1Output env idx outputs).result?.map Prod.fst
  | .resharingRound1Out idx outputs =>
    state.bind fun self => (self.handleResharingRound1Output env idx outputs).result?.map Prod.fst
  | .resharingRound2 => state.bind fun self => (self.handleResharingRound2 env prof).result?.map Prod.fst
  | .storeReceivedPublicKey idx pubshares =>
    state.bind fun self => (self.handleStoreReceivedPubshare idx pubshares).result?.map Prod.fst
  | .storeResharedReceivedPublicKey idx pubshares =>
    state.bind fun self => (self.handleStoreResharedReceivedPubshare idx pubshares).result?.map Prod.fst
  | .round3 isResharing => state.bind fun self => (self.handleRound3 isResharing).result?.map Prod.fst
  | .clearShares => state.map clearInputs

/-- The message gives the engine shares that are not the saved ones: round 2 in a member of the new quorum, or random
ones for a prover that joins. -/
def EngineMessage.replaces (state : Option (DkgEngineState env)) : EngineMessage env → Bool
  | .resharingInit ctx _ tstarProvers _ _ _ => state.isNone && !tstarProvers.containsKey ctx.nodePeerId
  | .resharingRound2 => state.any fun self => self.newProvers.containsKey self.peerId
  | _ => false

section engine
variable {prof : Profile} {entry : Option (HMap String Bytes)} {self after : DkgEngineState env} {message : EngineMessage env}

theorem storePubshares_changes {total i : ℕ} {pubshares : HMap String Bytes} {report : List PeerId}
    (h : self.storePubshares total i pubshares = .ok (after, report)) :
    NodesChanged (fun key node node' => ∃ pubshare, pubshares.get? key = some pubshare ∧
      node.storePubshareForNode i pubshare = .ok node') self after := by
  simp only [storePubshares, bind_eq_ok, pure_eq_ok, Except.ok.injEq, Prod.mk.injEq] at h
  obtain ⟨nodes, hnodes, rfl, -⟩ := h
  exact .of_updateNodes hnodes

def KeepsShares {ε β : Type} (self : DkgEngineState env) (x : Outcome ε (DkgEngineState env × β)) : Prop :=
  ∀ after out, x = .ok (after, out) → after.shares = self.shares

namespace KeepsShares
variable {ε β : Type} {x y : Outcome ε (DkgEngineState env × β)}

theorem skip (out : β) : KeepsShares self (pure (self, out) : Outcome ε _) := by
  intro after out' h
  obtain ⟨rfl, -⟩ := Prod.mk.inj (Except.ok.inj h)
  rfl

theorem ite {p : Prop} [Decidable p] (hx : KeepsShares self x) (hy : KeepsShares self y) :
    KeepsShares self (if p then x else y) := by
  split
  · exact hx
  · exact hy

theorem handleResharingRound1 (info : ElectionInfo) (isRelected : Bool)
    (rng : String → (c : CurveId) → ℕ → (env.curve c).FieldEl) (coins : String → ℕ → env.R.Coin) :
    KeepsShares self (self.handleResharingRound1 env info isRelected rng coins) := by
  intro after out h
  exact (handleResharingRound1_changes h).shares_eq fun ⟨_, hok⟩ => share_of_storeOwnOutput hok

theorem handleRound1Output (i : ℕ) (outputs : HMap String Round1Output) :
    KeepsShares self (self.handleRound1Output env i outputs) := by
  intro after report h
  exact (handleRound1Output_changes h).shares_eq fun ⟨_, _, hok⟩ => share_of_registerOutput hok

theorem handleResharingRound1Output (i : ℕ) (outputs : HMap String ResharingRound1Output) :
    KeepsShares self (self.handleResharingRound1Output env i outputs) := by
  intro after report h
  exact (handleResharingRound1Output_changes h).shares_eq fun ⟨_, _, hok⟩ => share_of_registerOutput hok

theorem storePubshares (total i : ℕ) (pubshares : HMap String Bytes) :
    KeepsShares self (self.storePubshares total i pubshares) := by
  intro after report h
  exact (storePubshares_changes h).shares_eq fun ⟨_, _, hok⟩ => share_of_storePubshareForNode hok

theorem handleStoreReceivedPubshare (i : ℕ) (pubshares : HMap String Bytes) :
    KeepsShares self (self.handleStoreReceivedPubshare i pubshares) :=
  .ite (skip _) (.ite (skip _) (storePubshares _ _ _))

theorem handleStoreResharedReceivedPubshare (i : ℕ) (pubshares : HMap String Bytes) :
    KeepsShares self (self.handleStoreResharedReceivedPubshare i pubshares) :=
  .ite (skip _) (.ite (skip _) (.ite (skip _) (storePubshares _ _ _)))

theorem handleRound3 (isResharing : Bool) : KeepsShares self (self.handleRound3 isResharing) := by
  intro after out h
  simp only [DkgEngineState.handleRound3, bind_eq_ok, pure_eq_ok, Except.ok.injEq, Prod.mk.injEq] at h
  obtain ⟨network, -, _, -, _, -, rfl, -⟩ := h
  rfl

theorem of_result? (hx : KeepsShares self x) (h : x.result?.map Prod.fst = some after) : after.shares = self.shares := by
  obtain ⟨out, hok⟩ := result?_map_fst.1 h
  exact hx after out hok

end KeepsShares

theorem shares_of_handleEngine (hkeeps : message.replaces (some self) = false)
    (h : handleEngine prof entry (some self) message = some after) : after.shares = self.shares := by
  cases message with
  | resharingInit ctx idx tstar new readable coins =>
    obtain ⟨⟨_, report⟩, hok, rfl⟩ := Option.bind_eq_some_iff.1 h
    simp only [result?_eq_some, handleResharingInit, bind_eq_ok, pure_eq_ok, Except.ok.injEq, Prod.mk.injEq,
      Option.some.injEq, Prod.exists] at hok
    obtain ⟨network, -, _, _, hresume, rfl, rfl⟩ := hok
    exact shares_of_resume hresume
  | resharingRound1 info isRelected rng coins => exact (KeepsShares.handleResharingRound1 info isRelected rng coins).of_result? h
  | round1Out i outputs => exact (KeepsShares.handleRound1Output i outputs).of_result? h
  | resharingRound1Out i outputs => exact (KeepsShares.handleResharingRound1Output i outputs).of_result? h
  | resharingRound2 =>
    -- a prover outside the new quorum does nothing in this round
    have hnew : ¬ self.newProvers.containsKey self.peerId := by simpa [EngineMessage.replaces] using hkeeps
    obtain ⟨out, hok⟩ := result?_map_fst.1 h
    rw [handleResharingRound2, if_pos hnew] at hok
    exact KeepsShares.skip _ after out hok
  | storeReceivedPublicKey i pubshares => exact (KeepsShares.handleStoreReceivedPubshare i pubshares).of_result? h
  | storeResharedReceivedPublicKey i pubshares =>
    exact (KeepsShares.handleStoreResharedReceivedPubshare i pubshares).of_result? h
  | round3 isResharing => exact (KeepsShares.handleRound3 isResharing).of_result? h
  | clearShares =>
    obtain rfl := Option.some.inj h
    exact shares_clearInputs self

theorem Holds.of_getState {readable : Bool} {shares : HMap String (EngineShare env)}
    (h : Holds (getState readable entry ∅) shares) : Holds (getState true entry ∅) shares := by
  cases readable with
  | true => exact h
  | false =>
    intro key share hshare
    obtain ⟨_, hget, -⟩ := h key share hshare
    cases hget

/-- An engine without a state gets the saved shares, if the message is not one that gives it others. -/
theorem holds_of_handleEngine_none (hkeeps : message.replaces none = false)
    (h : handleEngine prof entry none message = some after) : Holds (getState true entry ∅) after.shares := by
  cases message with
  | resharingInit ctx idx tstar new readable coins =>
    have htstar : tstar.containsKey ctx.nodePeerId := by simpa [EngineMessage.replaces] using hkeeps
    obtain ⟨⟨_, report⟩, hok, rfl⟩ := Option.bind_eq_some_iff.1 h
    simp only [result?_eq_some, handleResharingInit, if_pos htstar, bind_eq_ok, pure_eq_ok, Except.ok.injEq, Prod.mk.injEq,
      Option.some.injEq, Prod.exists] at hok
    obtain ⟨network, -, restored, hrestored, _, _, hresume, rfl, rfl⟩ := hok
    rw [shares_of_resume hresume]
    exact (holds_of_restore hrestored).of_getState
  | _ => cases h

end engine

/-! ### A prover -/

namespace KeyedProver

/-- `RestoreKeyShare`, with the shares that are hexadecimal. -/
def restoreKeyShare (written : Bool) (keyshares : HMap String Bytes) (state : KeyedProver) : KeyedProver :=
  { state with
    privateKeyshares := keyshares
    entries := fun
      | .privateKeyshares => saveState written (state.entries .privateKeyshares) keyshares
      | k => state.entries k }

def savedShares (state : KeyedProver) : HMap String Bytes := getState true (state.entries .privateKeyshares) ∅

end KeyedProver

variable (env) in
structure ShareHolder where
  engine : Option (DkgEngineState env)
  app : KeyedProver

variable (env) in
inductive HolderMessage where
  | engine (message : EngineMessage env)
  | app (message : ProverMessage)
  | restoreKeyShare (written : Bool) (keyshares : HMap String Bytes)
  | engineStopped
  | nodeRestarted (readable : ProverKey → Bool)

def HolderMessage.saves : HolderMessage env → Bool
  | .app (.saveCurrentState _) | .app (.backupState _) | .restoreKeyShare _ _ => true
  | _ => false

namespace ShareHolder
variable {s s' : ShareHolder env} {message : HolderMessage env} {prof : Profile}

def handle (prof : Profile) (self : ShareHolder env) : HolderMessage env → ShareHolder env
  | .engine message =>
    { self with engine := handleEngine prof (self.app.entries .privateKeyshares) self.engine message }
  | .app message => { self with app := self.app.handle message }
  | .restoreKeyShare written keyshares => { self with app := self.app.restoreKeyShare written keyshares }
  | .engineStopped => { self with engine := none }
  | .nodeRestarted readable => { engine := none, app := self.app.preStart readable }

def Step (prof : Profile) (self : ShareHolder env) (message : HolderMessage env) (after : ShareHolder env) : Prop :=
  self.handle prof message = after

/-- Not round 2 in a member of the new quorum, no join and no save. -/
def Spares (holder : ShareHolder env) (message : HolderMessage env) : Prop :=
  message.saves = false ∧ ∀ engineMessage, message = .engine engineMessage → engineMessage.replaces holder.engine = false

theorem spares_engine {message : EngineMessage env} (h : message.replaces s.engine = false) : s.Spares (.engine message) := by
  refine ⟨rfl, fun message' hmessage => ?_⟩
  obtain rfl := HolderMessage.engine.inj hmessage
  exact h

def rolledBack (self : ShareHolder env) (prof : Profile) : ShareHolder env :=
  self.handle prof (.app (.rollbackToPreviousState fun _ => true))

/-- The engine has no state, as after a start, or the saved shares. -/
def Settled (holder : ShareHolder env) : Prop :=
  ∀ engine, holder.engine = some engine → Holds holder.app.savedShares engine.shares

theorem savedShares_handle (prof : Profile) (hsaves : message.saves = false) :
    (s.handle prof message).app.savedShares = s.app.savedShares := by
  cases message with
  | engine message => rfl
  | app message =>
    cases message with
    | saveCurrentState | backupState => cases hsaves
    | _ => rfl
  | restoreKeyShare => cases hsaves
  | engineStopped => rfl
  | nodeRestarted => rfl

theorem Settled.engine (hs : s.Settled) {message : EngineMessage env} (hkeeps : message.replaces s.engine = false) :
    (s.handle prof (.engine message)).Settled := by
  intro after hafter
  have hafter : handleEngine prof (s.app.entries .privateKeyshares) s.engine message = some after := hafter
  cases hengine : s.engine with
  | none =>
    rw [hengine] at hkeeps hafter
    exact holds_of_handleEngine_none hkeeps hafter
  | some old =>
    rw [hengine] at hkeeps hafter
    rw [shares_of_handleEngine hkeeps hafter]
    exact hs old hengine

theorem Settled.handle (hs : s.Settled) (hspares : s.Spares message) : (s.handle prof message).Settled := by
  have hsaved := savedShares_handle prof hspares.1 (s := s)
  cases message with
  | engine message => exact hs.engine (hspares.2 message rfl)
  | app message =>
    intro engine hengine
    rw [hsaved]
    exact hs engine hengine
  | restoreKeyShare written keyshares => cases hspares.1
  | engineStopped => exact fun engine hengine => (nomatch hengine)
  | nodeRestarted readable => exact fun engine hengine => (nomatch hengine)

/-- The engine keeps the saved shares for as long as there is no round 2, no join and no save. -/
theorem Settled.of_spares (hs : s.Settled) (hrun : Reach (Step prof) Spares s s') :
    s'.Settled ∧ s'.app.savedShares = s.app.savedShares := by
  refine hrun.invariant (I := fun s' => s'.Settled ∧ s'.app.savedShares = s.app.savedShares) ⟨hs, rfl⟩ fun h hspares hstep => ?_
  obtain rfl := hstep
  exact ⟨h.1.handle hspares, (savedShares_handle prof hspares.1).trans h.2⟩

end ShareHolder

/-! ### Where a run can be counted from -/

/-- The message gives the application state other shares. -/
def HolderMessage.assigns : HolderMessage env → Bool
  | .app (.storeKeyShares _) | .app (.rollbackToPreviousState _) | .restoreKeyShare _ _ | .nodeRestarted _ => true
  | _ => false

namespace ShareHolder
variable {s s' : ShareHolder env} {message : HolderMessage env} {prof : Profile}

/-- The engine goes on, and neither it nor the application state gets other shares. -/
def Retains (prof : Profile) (holder : ShareHolder env) (message : HolderMessage env) : Prop :=
  holder.Spares message ∧ message.assigns = false ∧ (holder.handle prof message).engine.isSome

/-- The engine has no state, as after a start or a stop, or what its last round 3 has handed to the application state has
just been saved. -/
inductive Grounded (prof : Profile) : ShareHolder env → Prop
  | stopped (app : KeyedProver) : Grounded prof ⟨none, app⟩
  | saved {self after : DkgEngineState env} {isResharing : Bool} {shares : HMap String Bytes} {gossip : Option Completion}
      {app : KeyedProver} {s : ShareHolder env} {written : ProverKey → Bool}
      (hround3 : self.handleRound3 isResharing = .ok (after, some shares, gossip))
      (hrun : Reach (Step prof) (Retains prof) ⟨some after, app.handle (.storeKeyShares shares)⟩ s)
      (hwritten : written .privateKeyshares = true) : Grounded prof (s.handle prof (.app (.saveCurrentState written)))

/-- The application state has the shares of an engine that runs. -/
def Shared (holder : ShareHolder env) : Prop :=
  ∃ engine, holder.engine = some engine ∧ Holds holder.app.privateKeyshares engine.shares

theorem Shared.handle (hs : s.Shared) (hretains : s.Retains prof message) : (s.handle prof message).Shared := by
  obtain ⟨engine, hengine, hholds⟩ := hs
  obtain ⟨⟨hsaves, hkeeps⟩, hassigns, hsome⟩ := hretains
  cases message with
  | engine message =>
    obtain ⟨after, hafter⟩ := Option.isSome_iff_exists.1 hsome
    have hkept := hkeeps message rfl
    have hhandled : handleEngine prof (s.app.entries .privateKeyshares) s.engine message = some after := hafter
    rw [hengine] at hkept hhandled
    exact ⟨after, hafter, shares_of_handleEngine hkept hhandled ▸ hholds⟩
  | app message =>
    cases message with
    | cast => exact ⟨engine, hengine, hholds⟩
    | storeKeyShares | rollbackToPreviousState => cases hassigns
    | saveCurrentState | backupState => cases hsaves
  | restoreKeyShare | nodeRestarted => cases hassigns
  | engineStopped => cases hsome

theorem Grounded.settled (h : s.Grounded prof) : s.Settled := by
  cases h with
  | stopped app =>
    intro engine hengine
    cases hengine
  | @saved _ after _ shares _ app s written hround3 hrun hwritten =>
    have hshared : s.Shared := hrun.invariant (I := Shared) ⟨after, rfl, holds_of_round3 hround3⟩ fun hs hretains hstep => by
      obtain rfl := hstep
      exact hs.handle hretains
    obtain ⟨engine', hengine', hholds⟩ := hshared
    intro engine hengine
    obtain rfl : engine' = engine := Option.some.inj (hengine'.symm.trans hengine)
    have hsaved : (s.app.saveCurrentState written).savedShares = s.app.privateKeyshares := by
      simp only [KeyedProver.savedShares, KeyedProver.saveCurrentState, KeyedProver.persisted, hwritten]
      rfl
    show Holds (s.app.saveCurrentState written).savedShares engine'.shares
    rw [hsaved]
    exact hholds

end ShareHolder

/-- The runs are counted from a start or a stop of the engine, or from the save of what round 3 has returned. If since then
there was no round 2 in a member of the new quorum, no join and no save, the engine deals the shares of the rolled-back
application state in the next round 1. -/
theorem share_intact (env : EngineEnv) (prof : Profile) (s s₁ s₂ : ShareHolder env) (hs : s.Grounded prof)
    (hrun : Reach (ShareHolder.Step prof) ShareHolder.Spares s s₁)
    (hnext : Reach (ShareHolder.Step prof) ShareHolder.Spares (s₁.rolledBack prof) s₂)
    (engine : DkgEngineState env) (hengine : s₂.engine = some engine) :
    Holds (s₁.rolledBack prof).app.privateKeyshares engine.shares := by
  have hrolled : (s₁.rolledBack prof).app.privateKeyshares = (s₁.rolledBack prof).app.savedShares := rfl
  have hsettled : (s₁.rolledBack prof).Settled := (hs.settled.of_spares hrun).1
  obtain ⟨hfinal, hsaved⟩ := hsettled.of_spares hnext
  rw [hrolled, ← hsaved]
  exact hfinal engine hengine

/-! ### The resharing of two provers to three -/

/-- The keys of the polynomial `5 - 2x`. -/
def lineGroupKeys : HMap String Bytes :=
  .collect Method.keyName (fun m => m.curve.compressed false (Bytes.toBe 32 5)) engineMethods

def shareForAll (share : (c : CurveId) → c.Scalar) : HMap String Bytes :=
  .collect Method.keyName (fun m => m.curve.toBytes (share m.curve)) engineMethods

def lineInit (p : PeerId) (idx : ℕ) : EngineMessage boxEngines :=
  .resharingInit ⟨(0 : ℕ), ⟨2, 3, 2⟩, p, lineGroupKeys⟩ idx (quorumMap (threeProvers.take 2)) (quorumMap threeProvers) true
    fun m => ((0 : m.curve.Scalar), (0 : m.curve.Scalar))

/-- What `b` deals with its share of `5 - 2x`: the polynomial `2 + x`. -/
def dealtByB : Option (HMap String ResharingRound1Output) := do
  let engine ← handleEngine .debug (some (shareForAll fun _ => -1)) none (lineInit "b" 3)
  let (_, outputs, _) ← (engine.handleResharingRound1 boxEngines ⟨2, 3, 2⟩ true (fun _ _ _ => 1) fun _ _ => (0 : UInt8)).result?
  outputs

/-- The node of `a` is started again with its share 1 of `5 - 2x`. -/
def restartedHolder : ShareHolder boxEngines :=
  ⟨none, KeyedProver.saveCurrentState (fun _ => true) ⟨⟨0, 3, 2, 0, 2, ∅⟩, shareForAll fun _ => 1, fun _ => none⟩⟩

/-- Round 1: `a` deals `3 + x`, and gets the dealing of `b`. -/
def round1Messages : List (EngineMessage boxEngines) :=
  [lineInit "a" 2, .resharingRound1 ⟨2, 3, 2⟩ true (fun _ _ _ => 1) fun _ _ => (0 : UInt8),
    .resharingRound1Out 3 (dealtByB.getD ∅)]

def round1Holder : ShareHolder boxEngines :=
  round1Messages.foldl (fun s message => s.handle .debug (.engine message)) restartedHolder

theorem spares_lineInit (holder : ShareHolder boxEngines) : holder.Spares (.engine (lineInit "a" 2)) :=
  ShareHolder.spares_engine (Bool.and_eq_false_iff.2 (.inr rfl))

theorem reach_round1Holder : Reach (ShareHolder.Step .debug) ShareHolder.Spares restartedHolder round1Holder :=
  ((Reach.refl.tail (spares_lineInit _) rfl).tail (ShareHolder.spares_engine rfl) rfl).tail (ShareHolder.spares_engine rfl) rfl

/-- The share of the first key in the engine, as it would be saved. -/
def firstShare (holder : ShareHolder boxEngines) : Option (CurveId × Bytes) :=
  holder.engine.bind fun engine => (engine.dkgNodes.get? "OPRFSecp256k1").map fun node => (node.c, node.getPrivShare)

theorem share_intact_round1 :
    ∃ engine, ((round1Holder.rolledBack .debug).handle .debug (.engine (lineInit "a" 2))).engine = some engine ∧
      Holds (round1Holder.rolledBack .debug).app.privateKeyshares engine.shares := by
  obtain ⟨engine, hengine⟩ : ∃ engine,
      ((round1Holder.rolledBack .debug).handle .debug (.engine (lineInit "a" 2))).engine = some engine :=
    Option.isSome_iff_exists.1 (by decide +kernel)
  refine ⟨engine, hengine, share_intact boxEngines .debug restartedHolder round1Holder _ (.stopped _) reach_round1Holder ?_
    engine hengine⟩
  exact Reach.refl.tail (spares_lineInit _) rfl

/-- After round 2 the share 1 is in the rolled-back state, and the engine deals with the share 9 that round 2 gave it. -/
theorem rollback_keeps_new_share :
    ∃ (s s₁ s₂ : ShareHolder boxEngines) (engine : DkgEngineState boxEngines), s.Grounded .debug ∧
      Reach (ShareHolder.Step .debug) ShareHolder.Spares s s₁ ∧
      Reach (ShareHolder.Step .debug) ShareHolder.Spares ((s₁.handle .debug (.engine .resharingRound2)).rolledBack .debug) s₂ ∧
      s₂.engine = some engine ∧ firstShare s₂ = some (.secp256k1, CurveId.secp256k1.toBytes 9) ∧
      ((s₁.handle .debug (.engine .resharingRound2)).rolledBack .debug).app.privateKeyshares.get? "OPRFSecp256k1" =
        some (CurveId.secp256k1.toBytes 1) ∧
      ¬ Holds ((s₁.handle .debug (.engine .resharingRound2)).rolledBack .debug).app.privateKeyshares engine.shares := by
  have hshare : firstShare (((round1Holder.handle .debug (.engine .resharingRound2)).rolledBack .debug).handle .debug
      (.engine (lineInit "a" 2))) = some (.secp256k1, CurveId.secp256k1.toBytes 9) := by decide +kernel
  have hsaved : ((round1Holder.handle .debug (.engine .resharingRound2)).rolledBack .debug).app.privateKeyshares.get?
      "OPRFSecp256k1" = some (CurveId.secp256k1.toBytes 1) := by decide +kernel
  obtain ⟨engine, hengine, hnode⟩ := Option.bind_eq_some_iff.1 hshare
  obtain ⟨⟨c, data⟩, hget, heq⟩ := Option.map_eq_some_iff.1 hnode
  obtain ⟨rfl, hbytes⟩ := Prod.mk.inj heq
  refine ⟨restartedHolder, round1Holder, _, engine, .stopped _, reach_round1Holder, Reach.refl.tail (spares_lineInit _) rfl,
    hengine, hshare, hsaved, fun hholds => ?_⟩
  have hshares : engine.shares.get? "OPRFSecp256k1" = some ⟨.secp256k1, data.node.privateShare⟩ := by
    rw [DkgEngineState.shares, sharesOf, HMap.get?_mapVal, show engine.dkgNodes.get? _ = _ from hget]
    rfl
  obtain ⟨bytes, hget', hread⟩ := hholds _ _ hshares
  obtain rfl : CurveId.secp256k1.toBytes 1 = bytes := Option.some.inj (hsaved.symm.trans hget')
  have hone : (1 : CurveId.secp256k1.Scalar) = data.node.privateShare :=
    Except.ok.inj ((CurveId.secp256k1.fromBytes_toBytes 1).symm.trans hread)
  have hbytes : CurveId.secp256k1.toBytes data.node.privateShare = CurveId.secp256k1.toBytes 9 := hbytes
  rw [← hone] at hbytes
  exact absurd hbytes (by decide +kernel)

end HumanNetwork
