import HumanNetwork.DkgRounds

/-!
# The index of a member of `T*`

An election gives a prover its position in the registry as its index, and the engine keeps the index with which it was
made: the rounds replace what its nodes hold, not their ids (`Handles.samePlace`). It takes the values dealt to this
index, so a share belongs to the index of the engine that computed it in round 2. A re-election reads the registry again:
its `T*` lists the provers by their positions then, and `resharing_round_1` interpolates over those. A prover that has
restarted is restored with its saved share under its position then.

A `TrackedProver` is the engine of one prover with the places where its shares were dealt. `tstar_indices_iff` says when a
member of `T*` enters the interpolation with the index of its share.
-/

namespace HumanNetwork
open Outcome ElectionEngine DkgEngineState

variable {el : ElectionEnv} {env : EngineEnv} {prof : Profile} {self after : DkgEngineState env}

/-! ### The rounds -/

namespace DkgEngineState

/-- A message of a round that the engine handles, and whether it gives the engine new shares. -/
inductive Handles (prof : Profile) (self : DkgEngineState env) : Bool → DkgEngineState env → Prop
  | round1 {rng coins after out} (h : self.handleRound1 rng coins = .ok (after, out)) : Handles prof self false after
  | round1Out {idx outputs after report} (h : self.handleRound1Output env idx outputs = .ok (after, report)) :
    Handles prof self false after
  | round2 {after pubshares report} (h : self.handleRound2 prof = .ok (after, pubshares, report)) :
    Handles prof self pubshares.isSome after
  | storeReceivedPublicKey {idx pubshares after report}
      (h : self.handleStoreReceivedPubshare idx pubshares = .ok (after, report)) : Handles prof self false after
  | resharingRound1 {info isRelected rng coins after out}
      (h : self.handleResharingRound1 env info isRelected rng coins = .ok (after, out)) : Handles prof self false after
  | resharingRound1Out {idx outputs after report}
      (h : self.handleResharingRound1Output env idx outputs = .ok (after, report)) : Handles prof self false after
  | resharingRound2 {after pubshares} (h : self.handleResharingRound2 env prof = .ok (after, pubshares)) :
    Handles prof self pubshares.isSome after
  | storeResharedReceivedPublicKey {idx pubshares after report}
      (h : self.handleStoreResharedReceivedPubshare idx pubshares = .ok (after, report)) : Handles prof self false after
  | round3 {isResharing after out} (h : self.handleRound3 isResharing = .ok (after, out)) : Handles prof self false after
  | clearShares : Handles prof self false self.clearInputs

structure SamePlace (before after : DkgEngineState env) : Prop where
  peerId : after.peerId = before.peerId
  idx : after.idx = before.idx
  keys : after.dkgNodes.keys = before.dkgNodes.keys
  ids : ∀ key node', after.dkgNodes.get? key = some node' → ∃ node, before.dkgNodes.get? key = some node ∧ node'.id = node.id

theorem SamePlace.refl (self : DkgEngineState env) : self.SamePlace self :=
  ⟨rfl, rfl, rfl, fun _ node hnode => ⟨node, hnode, rfl⟩⟩

theorem SamePlace.setNodes {nodes : HMap String (NodeDataVariant env)} (hkeys : nodes.keys = self.dkgNodes.keys)
    (hids : ∀ key node', nodes.get? key = some node' → ∃ node, self.dkgNodes.get? key = some node ∧ node'.id = node.id) :
    self.SamePlace { self with dkgNodes := nodes } := ⟨rfl, rfl, hkeys, hids⟩

theorem SamePlace.of_changed {change : String → NodeDataVariant env → NodeDataVariant env → Prop}
    (h : NodesChanged change self after) (hchange : ∀ {key node node'}, change key node node' → node'.id = node.id) :
    self.SamePlace after := by
  rw [h.frame]
  refine .setNodes h.keys fun key node' hnode' => ?_
  obtain ⟨node, hnode, rfl | hchanged⟩ := h.node key node' hnode'
  · exact ⟨_, hnode, rfl⟩
  · exact ⟨node, hnode, hchange hchanged⟩

theorem SamePlace.indexed (h : self.SamePlace after) (hself : self.Indexed) : after.Indexed := by
  intro key node' hnode'
  obtain ⟨node, hnode, hid⟩ := h.ids key node' hnode'
  rw [hid, hself key node hnode, h.idx]

theorem SamePlace.hasKeys (h : self.SamePlace after) (hself : self.HasKeys) : after.HasKeys := by
  intro m hm
  rw [h.keys]
  exact hself m hm

end DkgEngineState

section nodes
variable {node node' : NodeDataVariant env}

theorem id_of_storeOwnOutput {i : ℕ} {output : ResharingRound1Output} (h : node.storeOwnOutput env i output = .ok node') :
    node'.id = node.id := by
  simp only [NodeDataVariant.storeOwnOutput, bind_eq_ok, pure_eq_ok, Except.ok.injEq] at h
  obtain ⟨_, -, _, -, rfl⟩ := h
  rfl

theorem id_of_storePubshareForNode {i : ℕ} {pubshare : Bytes} (h : node.storePubshareForNode i pubshare = .ok node') :
    node'.id = node.id := by
  simp only [NodeDataVariant.storePubshareForNode, bind_eq_ok, pure_eq_ok, Except.ok.injEq] at h
  obtain ⟨_, -, rfl⟩ := h
  rfl

theorem id_of_dkgRound1 {network : Network env.R} {rng : (c : CurveId) → ℕ → (env.curve c).FieldEl} {coins : ℕ → env.R.Coin}
    {output : Round1Output} (h : node.dkgRound1 network rng coins = .ok (node', output)) : node'.id = node.id := by
  simp only [NodeDataVariant.dkgRound1, bind_eq_ok, pure_eq_ok, Except.ok.injEq, Prod.mk.injEq] at h
  obtain ⟨⟨dealt, _⟩, hdealt, rfl, -⟩ := h
  exact (Node.processDkgRound1_frame hdealt).1

theorem id_of_dkgRound2 {network : Network env.R} {encoded : Bytes}
    (h : node.dkgRound2 prof network = .ok (node', encoded)) : node'.id = node.id := by
  simp only [NodeDataVariant.dkgRound2, bind_eq_ok, pure_eq_ok, Except.ok.injEq, Prod.mk.injEq] at h
  obtain ⟨_, -, _, -, rfl, -⟩ := h
  rfl

theorem id_of_resharingRound2 {tstarNetwork newNetwork : Network env.R} {kDkg encoded : Bytes}
    (h : node.resharingRound2 env prof tstarNetwork newNetwork kDkg = .ok (node', encoded)) : node'.id = node.id := by
  simp only [NodeDataVariant.resharingRound2, bind_eq_ok, pure_eq_ok, Except.ok.injEq, Prod.mk.injEq] at h
  obtain ⟨_, -, _, -, _, -, rfl, -⟩ := h
  rfl

end nodes

namespace DkgEngineState

def KeepsPlace {ε β : Type} (self : DkgEngineState env) (x : Outcome ε (DkgEngineState env × β)) : Prop :=
  ∀ after out, x = .ok (after, out) → self.SamePlace after

namespace KeepsPlace
variable {ε β : Type} {x y : Outcome ε (DkgEngineState env × β)}

theorem skip (out : β) : KeepsPlace self (pure (self, out) : Outcome ε _) := by
  intro after out' h
  obtain ⟨rfl, -⟩ := Prod.mk.inj (Except.ok.inj h)
  exact .refl _

theorem ite {p : Prop} [Decidable p] (hx : KeepsPlace self x) (hy : KeepsPlace self y) :
    KeepsPlace self (if p then x else y) := by
  split
  · exact hx
  · exact hy

theorem storePubshares (total i : ℕ) (pubshares : HMap String Bytes) :
    KeepsPlace self (self.storePubshares total i pubshares) := by
  intro after report h
  exact .of_changed (storePubshares_changes h) fun ⟨_, _, hok⟩ => id_of_storePubshareForNode hok

theorem handleRound1 (rng : String → (c : CurveId) → ℕ → (env.curve c).FieldEl) (coins : String → ℕ → env.R.Coin) :
    KeepsPlace self (self.handleRound1 rng coins) := by
  rintro after ⟨outputs, report⟩ h
  obtain ⟨nodes, hround1, rfl⟩ := handleRound1_eq_ok h
  obtain ⟨hkeys, hnodes⟩ := runRound1_forall
    (P := fun key node => ∃ old, self.dkgNodes.get? key = some old ∧ node.id = old.id)
    (fun ⟨old, hold, hid⟩ hdealt => ⟨old, hold, (id_of_dkgRound1 hdealt).trans hid⟩)
    (fun e he => ⟨e.2, HMap.get?_eq_some.2 he, rfl⟩) (fun _ node hnode => ⟨node, hnode, rfl⟩) hround1
  exact .setNodes hkeys hnodes

theorem handleRound2 (prof : Profile) : KeepsPlace self (self.handleRound2 prof) := by
  intro after out h
  rcases handleRound2_eq_ok h with ⟨rfl, -⟩ | ⟨nodes, rfl, -, hkeys, hnodes⟩
  · exact .refl _
  · refine .setNodes hkeys fun key node' hnode' => ?_
    obtain ⟨node, encoded, hnode, hok⟩ := hnodes key node' hnode'
    exact ⟨node, hnode, id_of_dkgRound2 hok⟩

theorem handleResharingRound2 (prof : Profile) : KeepsPlace self (self.handleResharingRound2 env prof) := by
  refine .ite (skip _) fun after out h => ?_
  simp only [bind_eq_ok, pure_eq_ok, Except.ok.injEq, Prod.mk.injEq] at h
  obtain ⟨_, -, _, -, outputs, houtputs, rfl, -⟩ := h
  refine .setNodes ((HMap.keys_mapVal _ _).trans (HMap.keys_of_mapValM houtputs)) fun key node' hnode' => ?_
  rw [HMap.get?_mapVal, Option.map_eq_some_iff] at hnode'
  obtain ⟨⟨_, encoded⟩, hout, rfl⟩ := hnode'
  obtain ⟨node, hnode, hok⟩ := HMap.get?_of_mapValM houtputs hout
  obtain ⟨kDkg, -, hok⟩ := bind_eq_ok.1 hok
  exact ⟨node, hnode, id_of_resharingRound2 hok⟩

end KeepsPlace

theorem samePlace_clearInputs (self : DkgEngineState env) : self.SamePlace self.clearInputs := by
  refine .setNodes (HMap.keys_mapVal _ _) fun key node' hnode' => ?_
  rw [HMap.get?_mapVal, Option.map_eq_some_iff] at hnode'
  obtain ⟨node, hnode, rfl⟩ := hnode'
  exact ⟨node, hnode, rfl⟩

theorem Handles.samePlace {deals : Bool} (h : self.Handles prof deals after) : self.SamePlace after := by
  cases h with
  | round1 h => exact KeepsPlace.handleRound1 _ _ _ _ h
  | round1Out h => exact .of_changed (handleRound1Output_changes h) fun ⟨_, _, hok⟩ => (registerOutput_eq_ok hok).choose_spec.2.1
  | round2 h => exact KeepsPlace.handleRound2 prof _ _ h
  | storeReceivedPublicKey h => exact (KeepsPlace.ite (.skip _) (.ite (.skip _) (.storePubshares _ _ _))) _ _ h
  | resharingRound1 h => exact .of_changed (handleResharingRound1_changes h) fun ⟨_, hok⟩ => id_of_storeOwnOutput hok
  | resharingRound1Out h =>
    exact .of_changed (handleResharingRound1Output_changes h) fun ⟨_, _, hok⟩ => (registerOutput_eq_ok hok).choose_spec.2.1
  | resharingRound2 h => exact KeepsPlace.handleResharingRound2 prof _ _ h
  | storeResharedReceivedPublicKey h =>
    exact (KeepsPlace.ite (.skip _) (.ite (.skip _) (.ite (.skip _) (.storePubshares _ _ _)))) _ _ h
  | round3 h =>
    simp only [handleRound3, bind_eq_ok, pure_eq_ok, Except.ok.injEq, Prod.mk.injEq] at h
    obtain ⟨network, -, _, -, _, -, rfl, -⟩ := h
    exact ⟨rfl, rfl, rfl, fun _ node hnode => ⟨node, hnode, rfl⟩⟩
  | clearShares => exact samePlace_clearInputs self

end DkgEngineState

/-! ### How a prover gets its index -/

/-- The relay announces a re-election, and the election actor of the prover starts the resharing. -/
structure ResharingStarts (el : ElectionEnv) (relay : ElectionEngine el.f64) (reply : ReElectionReply) (p : PeerId) (idx : ℕ)
    (tstar new : QuorumMap) (info : ElectionInfo) (groupKeys : HMap String Bytes) : Prop where
  announced : ∃ prev relay' casts drand, relay.triggerReElection el prev reply = .ok (some (relay', casts)) ∧
    .forwardReElectedProvers info tstar new drand ∈ casts
  started : ∃ prover : ElectionEngine el.f64, .resharingInit idx tstar new info p groupKeys ∈
    (prover.handleCheckReElectedStatus info tstar new groupKeys).1.handleTriggerInitResharing

section starts
variable {relay : ElectionEngine el.f64} {reply : ReElectionReply} {p : PeerId} {idx : ℕ} {tstar new : QuorumMap}
  {info : ElectionInfo} {groupKeys : HMap String Bytes}

/-- The index that the prover passes to its engine is that of its entry, in `T*` if it has one there. -/
theorem ResharingStarts.entry (h : ResharingStarts el relay reply p idx tstar new info groupKeys) :
    (∃ r, tstar.get? p = some (r, idx)) ∨ tstar.get? p = none ∧ ∃ r, new.get? p = some (r, idx) := by
  obtain ⟨prover, hstarted⟩ := h.started
  simp only [handleTriggerInitResharing, handleCheckReElectedStatus] at hstarted
  split at hstarted
  next r i htstar =>
    obtain ⟨rfl, rfl⟩ : idx = i ∧ p = prover.peerId := by simpa using hstarted
    exact .inl ⟨r, htstar⟩
  next r i htstar hnew =>
    obtain ⟨rfl, rfl⟩ : idx = i ∧ p = prover.peerId := by simpa using hstarted
    exact .inr ⟨htstar, r, hnew⟩
  next => cases hstarted

/-- The position at which a re-election finds the peer: that of the last of its entries that takes part and answers. -/
def ElectionEngine.position (relay : ElectionEngine el.f64) (reply : ReElectionReply) (p : PeerId) : Option ℕ :=
  match waitParticipating el reply.registries with
  | .ok (some provers) =>
    (((relay.participating el provers).filter reply.ping).reverse.find? fun r => r.peerId = p).map fun r => r.idx
  | _ => none

theorem ResharingStarts.fetched (h : ResharingStarts el relay reply p idx tstar new info groupKeys) :
    ∃ prev provers newQuorum, waitParticipating el reply.registries = .ok (some provers) ∧
      tstar = quorumMap (tstarQuorum prev ((relay.participating el provers).filter reply.ping)) ∧
      new = quorumMap newQuorum ∧ ∀ r ∈ newQuorum, r ∈ relay.participating el provers := by
  obtain ⟨prev, relay', casts, drand, helection, hann⟩ := h.announced
  obtain ⟨provers, newQuorum, hannounces, -, rfl, rfl⟩ := announces_of_mem helection hann
  exact ⟨prev, provers, newQuorum, hannounces.fetched, by rw [hannounces.engine], rfl, hannounces.elected⟩

theorem mem_of_mem_participating {provers : List ProverRecord} {r : ProverRecord} (h : r ∈ relay.participating el provers) :
    r ∈ provers :=
  List.mem_of_mem_drop (List.mem_of_mem_filter h)

theorem ResharingStarts.lists (h : ResharingStarts el relay reply p idx tstar new info groupKeys) {registry : Registry}
    {provers : List ProverRecord} (hread : waitParticipating el reply.registries = .ok (some provers))
    (hregistry : fetchProversV2 el registry = .ok provers) : registry.Lists el p idx := by
  obtain ⟨prev, provers', newQuorum, hread', rfl, rfl, helected⟩ := h.fetched
  obtain rfl := Option.some.inj (Except.ok.inj (hread'.symm.trans hread))
  have hmem : ∃ r ∈ provers', r.peerId = p ∧ r.idx = idx := by
    rcases h.entry with ⟨r, hr⟩ | ⟨-, r, hr⟩
    · obtain ⟨hmem, hpeer, hidx⟩ := mem_of_get?_quorumMap hr
      have hreachable := List.mem_of_mem_filter (List.mem_of_mem_filter hmem)
      exact ⟨r, mem_of_mem_participating hreachable, hpeer, hidx.symm⟩
    · obtain ⟨hmem, hpeer, hidx⟩ := mem_of_get?_quorumMap hr
      exact ⟨r, mem_of_mem_participating (helected r hmem), hpeer, hidx.symm⟩
  obtain ⟨r, hr, rfl, rfl⟩ := hmem
  exact fetchProversV2_lists hregistry hr

theorem ResharingStarts.position_eq (h : ResharingStarts el relay reply p idx tstar new info groupKeys) {r : ProverRecord}
    {i : ℕ} (hp : tstar.get? p = some (r, i)) : relay.position reply p = some i := by
  obtain ⟨prev, provers, newQuorum, hread, rfl, -, -⟩ := h.fetched
  obtain ⟨hr, hpeer, -⟩ := mem_of_get?_quorumMap hp
  have hprev : p ∈ prev.map ProverInfo.peerId := by
    have := List.of_mem_filter hr
    rwa [hpeer, decide_eq_true_eq] at this
  -- all entries of `p` pass the filter for the old quorum
  have hfilter : ∀ a : ProverRecord, (decide (a.peerId ∈ prev.map ProverInfo.peerId) = true ∧ decide (a.peerId = p) = true) ↔
      a.peerId = p := by
    intro a
    rw [decide_eq_true_eq, decide_eq_true_eq]
    constructor
    · exact And.right
    · rintro rfl
      exact ⟨hprev, rfl⟩
  rw [get?_quorumMap, tstarQuorum, ← List.filter_reverse, List.find?_filter] at hp
  simp only [hfilter, Option.map_eq_some_iff] at hp
  obtain ⟨r', hfind, hr'⟩ := hp
  obtain ⟨rfl, rfl⟩ := Prod.mk.inj hr'
  simp only [ElectionEngine.position, hread, hfind, Option.map_some]

end starts

variable {p : PeerId} {registry : Registry} {i : ℕ}

theorem dkgInit_lists {relay relay' prover : ElectionEngine el.f64} {reply : FirstElectionReply} {casts : List ElectionCast}
    {info : ElectionInfo} {elected : List ProverRecord} {idx threshold : ℕ} {provers : QuorumMap}
    (helection : relay.handleTriggerElection el reply = .ok (some (relay', casts)))
    (hgossip : .gossipElectedProvers info elected ∈ casts) (hmember : ∃ r ∈ elected, r.peerId = p)
    (hinit : .dkgInit idx p provers threshold ∈ (prover.handleCheckElectedStatus elected).1.handleTriggerInitDkg) :
    reply.registry.Lists el p idx := by
  obtain ⟨fetched, elected', _, hfetched, helected, -, -, -, rfl⟩ := handleTriggerElection_eq_ok helection
  obtain ⟨-, rfl⟩ : _ ∧ elected = elected' := by simpa using hgossip
  obtain ⟨hpeer, ⟨r, hr, hrp, rfl⟩, -⟩ := mem_handleTriggerInitDkg hinit
  -- the prover has found itself in the list, so this is the list it starts with
  have hlist : (prover.handleCheckElectedStatus elected).1.electedProvers = elected := by
    rcases prover.handleCheckElectedStatus_cases elected with ⟨_, -, -, heq⟩ | ⟨hnone, heq⟩
    · rw [heq]
    · obtain ⟨q, hq, hqp⟩ := hmember
      rw [heq] at hpeer
      exact absurd (hqp.trans hpeer) (hnone q hq)
  rw [hlist] at hr
  rw [← hrp]
  exact fetchProversV2_lists hfetched (helected r hr)

/-! ### Where a share was dealt -/

/-- An election found the prover at this position. -/
structure Place where
  registry : Registry
  idx : ℕ

variable (env) in
/-- The running engine, the election that made it, and that of the engine that computed its shares, if they are not the
random ones of a new engine. -/
structure MadeEngine where
  state : DkgEngineState env
  made : Place
  dealt : Option Place

variable (env) in
/-- `stored` and `saved` are the places of the shares in the application state and in the database. -/
structure TrackedProver where
  engine : Option (MadeEngine env)
  stored : Option Place
  saved : Option Place

namespace TrackedProver

/-- After `ResharingInit`: an engine that exists stays what it is, one of `T*` is restored from the database, and one that
joins is new. -/
def prepare (self : TrackedProver env) (place : Place) (isTstar : Bool) (state : DkgEngineState env) : MadeEngine env :=
  match self.engine with
  | some engine => { engine with state := state }
  | none => ⟨state, place, if isTstar then self.saved else none⟩

/-- The share with which the prover enters the next resharing. -/
def current (self : TrackedProver env) : Option Place :=
  match self.engine with
  | some engine => engine.dealt
  | none => self.saved

inductive Reached (el : ElectionEnv) (env : EngineEnv) (prof : Profile) (p : PeerId) : TrackedProver env → Prop
  | start : Reached el env prof p ⟨none, none, none⟩
  | dkgInit {s} {relay relay' prover : ElectionEngine el.f64} {reply casts info elected idx provers threshold sk coins engine}
      (h : Reached el env prof p s) (helection : relay.handleTriggerElection el reply = .ok (some (relay', casts)))
      (hgossip : .gossipElectedProvers info elected ∈ casts) (hmember : ∃ r ∈ elected, r.peerId = p)
      (hinit : .dkgInit idx p provers threshold ∈ (prover.handleCheckElectedStatus elected).1.handleTriggerInitDkg)
      (hengine : DkgEngineState.dkgInit env p idx sk provers threshold coins = .ok engine) :
    Reached el env prof p { s with engine := some ⟨engine, ⟨reply.registry, idx⟩, none⟩ }
  | resharingInit {s} {relay : ElectionEngine el.f64}
      {reply idx tstar new info groupKeys registry provers sk saved coins state report}
      (h : Reached el env prof p s) (hstarts : ResharingStarts el relay reply p idx tstar new info groupKeys)
      (hread : waitParticipating el reply.registries = .ok (some provers)) (hregistry : fetchProversV2 el registry = .ok provers)
      (hinit : handleResharingInit env ⟨sk, info, p, groupKeys⟩ (s.engine.map MadeEngine.state) idx tstar new saved coins =
        .ok (state, report)) :
    Reached el env prof p { s with engine := state.map (s.prepare ⟨registry, idx⟩ (tstar.containsKey p)) }
  | round {s engine deals after} (h : Reached el env prof p s) (hengine : s.engine = some engine)
      (hround : engine.state.Handles prof deals after) :
    Reached el env prof p { s with
      engine := some { engine with state := after, dealt := if deals then some engine.made else engine.dealt } }
  /-- `StoreKeyShares`. -/
  | store {s engine isResharing after shares gossip} (h : Reached el env prof p s) (hengine : s.engine = some engine)
      (hround3 : engine.state.handleRound3 isResharing = .ok (after, some shares, gossip)) :
    Reached el env prof p { s with engine := some { engine with state := after }, stored := engine.dealt }
  | save {s} (h : Reached el env prof p s) : Reached el env prof p { s with saved := s.stored }
  | rollback {s} (h : Reached el env prof p s) : Reached el env prof p { s with stored := s.saved }
  /-- An error, a panic or a restart of the node. -/
  | stop {s} (h : Reached el env prof p s) : Reached el env prof p { s with engine := none }

end TrackedProver

def Place.Found (el : ElectionEnv) (p : PeerId) (place : Place) : Prop := place.registry.Lists el p place.idx

structure MadeEngine.Valid (el : ElectionEnv) (p : PeerId) (engine : MadeEngine env) : Prop where
  peerId : engine.state.peerId = p
  idx : engine.state.idx = engine.made.idx
  indexed : engine.state.Indexed
  hasKeys : engine.state.HasKeys
  made : engine.made.Found el p
  dealt : ∀ place ∈ engine.dealt, place.Found el p

theorem MadeEngine.Valid.samePlace {engine : MadeEngine env} (h : engine.Valid el p) (hsame : engine.state.SamePlace after)
    {dealt : Option Place} (hdealt : ∀ place ∈ dealt, place.Found el p) :
    MadeEngine.Valid el p { engine with state := after, dealt := dealt } where
  peerId := hsame.peerId.trans h.peerId
  idx := hsame.idx.trans h.idx
  indexed := hsame.indexed h.indexed
  hasKeys := hsame.hasKeys h.hasKeys
  made := h.made
  dealt := hdealt

namespace TrackedProver
variable {s : TrackedProver env}

structure Valid (el : ElectionEnv) (p : PeerId) (s : TrackedProver env) : Prop where
  engine : ∀ engine ∈ s.engine, engine.Valid el p
  stored : ∀ place ∈ s.stored, place.Found el p
  saved : ∀ place ∈ s.saved, place.Found el p

theorem Valid.setEngine (h : s.Valid el p) {engine : MadeEngine env} (hengine : engine.Valid el p) :
    Valid el p { s with engine := some engine } := by
  refine ⟨?_, h.stored, h.saved⟩
  rintro _ ⟨⟩
  exact hengine

theorem Valid.prepared (h : s.Valid el p) {sk : env.R.SecretKey} {info : ElectionInfo} {idx : ℕ} {tstar new : QuorumMap}
    {groupKeys saved : HMap String Bytes} {coins : NodeCoins env} {report : List PeerId}
    (hinit : handleResharingInit env ⟨sk, info, p, groupKeys⟩ (s.engine.map MadeEngine.state) idx tstar new saved coins =
      .ok (some after, report)) :
    after.peerId = p ∧ after.idx = (s.engine.map fun engine => engine.made.idx).getD idx ∧ after.Indexed ∧
      after.HasKeys ∧ after.tstarProvers = tstar := by
  have hold : ∀ old ∈ s.engine.map MadeEngine.state, old.peerId = p ∧ old.Indexed ∧ old.HasKeys := by
    intro old hmem
    obtain ⟨engine, hengine, rfl⟩ := Option.map_eq_some_iff.1 hmem
    exact ⟨(h.engine engine hengine).peerId, (h.engine engine hengine).indexed, (h.engine engine hengine).hasKeys⟩
  have hprep := handleResharingInit_eq_ok (fun old hmem => (hold old hmem).1) hinit
  refine ⟨hprep.peerId, ?_, hprep.indexed fun old hmem => (hold old hmem).2.1, ?_, hprep.tstarProvers⟩
  · rw [hprep.idx]
    cases hengine : s.engine with
    | none => rfl
    | some engine => exact (h.engine engine hengine).idx
  · obtain ⟨before, hbefore, -, hnodes, -⟩ := handleResharingInit_clears hinit
    have hkeys : before.HasKeys := by
      rcases hbefore with heq | ⟨-, hnew⟩
      · exact (hold before heq).2.2
      · exact hnew
    intro m hm
    rw [hnodes, DkgEngineState.clearInputs, HMap.keys_mapVal]
    exact hkeys m hm

theorem Valid.prepare (h : s.Valid el p) {sk : env.R.SecretKey} {info : ElectionInfo} {tstar new : QuorumMap}
    {groupKeys saved : HMap String Bytes} {coins : NodeCoins env} {report : List PeerId} {place : Place}
    (hplace : place.Found el p) (isTstar : Bool)
    (hinit : handleResharingInit env ⟨sk, info, p, groupKeys⟩ (s.engine.map MadeEngine.state) place.idx tstar new saved coins =
      .ok (some after, report)) : (s.prepare place isTstar after).Valid el p := by
  obtain ⟨hpeer, hidx, hindexed, hkeys, -⟩ := h.prepared hinit
  unfold TrackedProver.prepare
  cases hengine : s.engine with
  | some engine =>
    rw [hengine] at hidx
    exact ⟨hpeer, hidx, hindexed, hkeys, (h.engine engine hengine).made, (h.engine engine hengine).dealt⟩
  | none =>
    rw [hengine] at hidx
    refine ⟨hpeer, hidx, hindexed, hkeys, hplace, ?_⟩
    cases isTstar with
    | true => exact h.saved
    | false => rintro _ ⟨⟩

theorem Reached.valid (h : Reached el env prof p s) : s.Valid el p := by
  induction h with
  | start => exact ⟨nofun, nofun, nofun⟩
  | dkgInit _ helection hgossip hmember hinit hengine ih =>
    obtain ⟨hpeer, hidx, -, -, hindexed⟩ := dkgInit_eq_ok hengine
    exact ih.setEngine ⟨hpeer, hidx, hindexed, hasKeys_dkgInit hengine, dkgInit_lists helection hgossip hmember hinit, nofun⟩
  | resharingInit _ hstarts hread hregistry hinit ih =>
    refine ⟨fun engine hengine => ?_, ih.stored, ih.saved⟩
    obtain ⟨after, rfl, rfl⟩ := Option.map_eq_some_iff.1 hengine
    have hfound : Place.Found el p ⟨_, _⟩ := hstarts.lists hread hregistry
    exact ih.prepare hfound _ hinit
  | round _ hengine hround ih =>
    have hvalid := ih.engine _ hengine
    refine ih.setEngine (hvalid.samePlace hround.samePlace fun place hplace => ?_)
    split at hplace
    · exact Option.some.inj hplace ▸ hvalid.made
    · exact hvalid.dealt place hplace
  | store _ hengine hround3 ih =>
    have hvalid := ih.engine _ hengine
    have hsame := Handles.samePlace (.round3 hround3 : Handles prof _ false _)
    exact ⟨(ih.setEngine (hvalid.samePlace hsame hvalid.dealt)).engine, hvalid.dealt, ih.saved⟩
  | save _ ih => exact ⟨ih.engine, ih.stored, ih.stored⟩
  | rollback _ ih => exact ⟨ih.engine, ih.saved, ih.saved⟩
  | stop _ ih => exact ⟨nofun, ih.stored, ih.saved⟩

theorem Valid.current (h : s.Valid el p) {place : Place} (hplace : s.current = some place) : place.Found el p := by
  unfold TrackedProver.current at hplace
  cases hengine : s.engine with
  | some engine =>
    rw [hengine] at hplace
    exact (h.engine engine hengine).dealt place hplace
  | none =>
    rw [hengine] at hplace
    exact h.saved place hplace

end TrackedProver

/-! ### The interpolation -/

/-- A member enters the interpolation of `resharing_round_1` with one index: as the id of its nodes, as its entry in `T*`
and in the network of `T*`. -/
structure EntersAt (after : DkgEngineState env) (network : Network env.R) (p : PeerId) (i : ℕ) : Prop where
  ids : ∀ key node, after.dkgNodes.get? key = some node → node.id = i
  entry : ∃ r, after.tstarProvers.get? p = some (r, i)
  listed : i ∈ network.publicKeys.keys

theorem mem_publicKeys {threshold : ℕ} {provers : QuorumMap} {isTstar : Bool} {network : Network env.R} {r : ProverRecord}
    (h : quorumNetwork env threshold provers isTstar = .ok network) (hp : provers.get? p = some (r, i)) :
    i ∈ network.publicKeys.keys := by
  simp only [quorumNetwork, keyedNetwork, parseRsaKeys, bind_eq_ok, mapErr_eq_ok, pure_eq_ok, Except.ok.injEq] at h
  obtain ⟨_, -, _, ⟨keys, hkeys, rfl⟩, rfl⟩ := h
  obtain ⟨entry, hentry, hparsed⟩ := (exists_of_mapM hkeys).1 _ (HMap.get?_eq_some.1 hp)
  exact HMap.mem_keys_collect.2 ⟨entry, hentry, (parseRsaKey_eq_ok.1 hparsed).2⟩

/-- A member of `T*` has a share that was dealt at `place`. It enters the interpolation with the index of this place exactly
if the re-election finds it at this position in the registry, and so did the election that made its engine, if it has one.
The values of round 1 are taken at the index of that election. -/
theorem tstar_indices_iff (el : ElectionEnv) (env : EngineEnv) (prof : Profile) (p : PeerId) (s : TrackedProver env)
    (hs : s.Reached el env prof p) (place : Place) (hplace : s.current = some place)
    (relay : ElectionEngine el.f64) (reply : ReElectionReply) (idx : ℕ) (tstar new : QuorumMap) (info : ElectionInfo)
    (groupKeys saved : HMap String Bytes) (hstarts : ResharingStarts el relay reply p idx tstar new info groupKeys)
    (hmember : p ∈ tstar.keys) (sk : env.R.SecretKey) (coins : NodeCoins env) (after : DkgEngineState env)
    (report : List PeerId)
    (hinit : handleResharingInit env ⟨sk, info, p, groupKeys⟩ (s.engine.map MadeEngine.state) idx tstar new saved coins =
      .ok (some after, report))
    (network : Network env.R) (hnetwork : quorumNetwork env info.threshold after.tstarProvers true = .ok network) :
    (∀ engine ∈ s.engine, RegistersAt engine.made.idx engine.state ∧ engine.made.Found el p) ∧ place.Found el p ∧
      (EntersAt after network p place.idx ↔
        relay.position reply p = some place.idx ∧ ∀ engine ∈ s.engine, engine.made.idx = place.idx) := by
  have hvalid := hs.valid
  obtain ⟨-, hidx, hindexed, hkeys, htstar⟩ := hvalid.prepared hinit
  rw [htstar] at hnetwork
  refine ⟨fun engine hengine => ⟨(hvalid.engine engine hengine).idx ▸ registersAt_idx engine.state,
    (hvalid.engine engine hengine).made⟩, hvalid.current hplace, fun h => ⟨?_, fun engine hengine => ?_⟩, fun ⟨hposition, hmade⟩ => ?_⟩
  · obtain ⟨r, hr⟩ := h.entry
    rw [htstar] at hr
    exact hstarts.position_eq hr
  · -- the engine has nodes, and they have its index
    obtain ⟨node, hnode⟩ := HMap.exists_get? (hkeys .oprfSecp256k1 (by decide))
    rw [hengine] at hidx
    exact hidx.symm.trans ((hindexed _ node hnode).symm.trans (h.ids _ node hnode))
  · obtain ⟨r, hr⟩ : ∃ r, tstar.get? p = some (r, idx) := by
      rcases hstarts.entry with h | ⟨hnone, -⟩
      · exact h
      · exact absurd hmember (HMap.get?_eq_none.1 hnone)
    obtain rfl : idx = place.idx := Option.some.inj ((hstarts.position_eq hr).symm.trans hposition)
    have hafter : after.idx = place.idx := by
      rw [hidx]
      cases hengine : s.engine with
      | none => rfl
      | some engine => exact hmade engine hengine
    exact ⟨fun key node hnode => (hindexed key node hnode).trans hafter, ⟨r, htstar ▸ hr⟩, mem_publicKeys hnetwork hr⟩

/-! ### A registry that changes -/

def runningRelay : ElectionEngine openElection.f64 := { freshEngine "relay" with currentThreshold := 2 }

def sharedRun : Option (HMap String Bytes) := do
  let (_, outputs₂) ← boxDealt "a" 2
  let (dealt, _) ← boxDealt "b" 3
  let (_, outputs₄) ← boxDealt "c" 4
  let (got₂, _) ← (dealt.handleRound1Output boxEngines 2 outputs₂).result?
  let (got₄, _) ← (got₂.handleRound1Output boxEngines 4 outputs₄).result?
  let (_, pubshares, _) ← (got₄.handleRound2 .release).result?
  pubshares

def firstPlace : Place := ⟨registryOf ["boot", "relay", "a", "b", "c"], 3⟩

theorem reached_b : ∃ s : TrackedProver boxEngines, s.Reached openElection boxEngines .release "b" ∧
    s.current = some firstPlace ∧ ∃ engine, s.engine = some engine ∧ engine.made = firstPlace := by
  have ht : calculateThreshold exactF64 3 (60 : ℚ) = 2 := by decide +kernel
  have helection := @firstElection_threeProvers (freshEngine "relay") _ _ rfl ht
  have hinit : .dkgInit 3 "b" (quorumMap threeProvers) 2 ∈
      ((freshEngine "b").handleCheckElectedStatus threeProvers).1.handleTriggerInitDkg := by
    show _ ∈ [ElectionCast.dkgInit 3 "b" (quorumMap threeProvers) (calculateThreshold exactF64 3 (60 : ℚ))]
    rw [ht]
    exact List.mem_singleton.2 rfl
  obtain ⟨pubshares, hrun⟩ : ∃ pubshares, sharedRun = some pubshares := Option.isSome_iff_exists.1 (by decide +kernel)
  simp only [sharedRun, boxDealt, boxEngine, Option.bind_eq_bind, Option.bind_eq_some_iff, result?_eq_some, Prod.exists,
    Option.pure_def, Option.some.injEq, Prod.mk.injEq] at hrun
  obtain ⟨_, outputs₂, -, dealt, _, ⟨engine, hengine, _, _, _, hround1, _, -, rfl, rfl⟩, _, outputs₄, -, got₂, _, hout₂,
    got₄, _, hout₄, computed, _, _, hround2, rfl⟩ := hrun
  have hstart : TrackedProver.Reached openElection boxEngines .release "b" _ :=
    .dkgInit .start helection (List.mem_of_getElem? (i := 3) rfl) ⟨recordOf "b" 3, by decide, rfl⟩ hinit hengine
  have hdealt := (((hstart.round rfl (.round1 hround1)).round rfl (.round1Out hout₂)).round rfl (.round1Out hout₄)).round rfl
    (.round2 hround2)
  exact ⟨_, hdealt, rfl, _, rfl, rfl⟩

theorem resharingStarts_b (names : List PeerId) (tstar new : List ProverRecord) {idx : ℕ} {r : ProverRecord}
    {relay' : ElectionEngine openElection.f64} {casts : List ElectionCast}
    (helection : runningRelay.triggerReElection openElection (threeProvers.map fun p => p.toProverInfo) (allAnswer names) =
      .ok (some (relay', casts)))
    (hann : .forwardReElectedProvers ⟨calculateThreshold exactF64 3 (60 : ℚ), 1, 3⟩ (quorumMap tstar) (quorumMap new) default ∈
      casts)
    (hentry : (quorumMap tstar).get? "b" = some (r, idx)) :
    ResharingStarts openElection runningRelay (allAnswer names) "b" idx (quorumMap tstar) (quorumMap new) ⟨2, 1, 3⟩ ∅ := by
  have ht : calculateThreshold exactF64 3 (60 : ℚ) = 2 := by decide +kernel
  rw [ht] at hann
  refine ⟨⟨_, relay', casts, default, helection, hann⟩, freshEngine "b", ?_⟩
  simp only [handleTriggerInitResharing, handleCheckReElectedStatus]
  rw [show (quorumMap tstar).get? (freshEngine "b").peerId = _ from hentry]
  exact List.mem_singleton.2 rfl

theorem exists_prepared_b {engine : DkgEngineState boxEngines} (hpeer : engine.peerId = "b") (tstar new : QuorumMap) (idx : ℕ)
    (hlen : 2 ≤ tstar.len) : ∃ after report network,
    handleResharingInit boxEngines ⟨(0 : ℕ), ⟨2, 1, 3⟩, "b", ∅⟩ (some engine) idx tstar new ∅ (fun _ => (0, 0)) =
      .ok (some after, report) ∧ quorumNetwork boxEngines 2 after.tstarProvers true = .ok network := by
  have hkeys : KeysParse boxEngines tstar := fun _ _ => ⟨(0 : ℕ), rfl⟩
  have htstar : Buildable boxEngines 2 tstar true := ⟨Network.invalid_tstar.2 ⟨hlen, hlen, Nat.two_pos⟩, hkeys⟩
  obtain ⟨after, report, hinit⟩ : ∃ after report, handleResharingInit boxEngines ⟨(0 : ℕ), ⟨2, 1, 3⟩, "b", ∅⟩
      (some engine) idx tstar new ∅ (fun _ => (0, 0)) = .ok (some after, report) := exists_handleResharingInit engine htstar
  have hprep := handleResharingInit_eq_ok (by simpa using hpeer) hinit
  obtain ⟨network, hnetwork⟩ := (keyedNetwork_builds boxEngines _ _ 2 after.tstarProvers true).exists_ok
    (hprep.tstarProvers ▸ htstar)
  exact ⟨after, report, network, hinit, hnetwork⟩

/-- When the registry stays, `b` enters the interpolation at the index at which it was dealt its share. -/
theorem tstar_indices_unchanged : ∃ (s : TrackedProver boxEngines) (after : DkgEngineState boxEngines)
    (network : Network boxEngines.R), s.Reached openElection boxEngines .release "b" ∧ s.current = some firstPlace ∧
    EntersAt after network "b" 3 := by
  obtain ⟨s, hs, hcurrent, engine, hengine, hmade⟩ := reached_b
  have hstarts := resharingStarts_b ["boot", "relay", "a", "b", "c"] threeProvers threeProvers rfl
    (List.mem_of_getElem? (i := 4) rfl) rfl
  obtain ⟨after, report, network, hinit, hnetwork⟩ := exists_prepared_b (hs.valid.engine engine hengine).peerId
    (quorumMap threeProvers) (quorumMap threeProvers) 3 (by decide)
  have hstate : s.engine.map MadeEngine.state = some engine.state := by rw [hengine]; rfl
  obtain ⟨-, -, hiff⟩ := tstar_indices_iff openElection boxEngines .release "b" s hs firstPlace hcurrent runningRelay _ 3 _ _
    ⟨2, 1, 3⟩ ∅ ∅ hstarts (by decide) (0 : ℕ) (fun _ => (0, 0)) after report (hstate ▸ hinit) network hnetwork
  refine ⟨s, after, network, hs, hcurrent, hiff.2 ⟨rfl, fun engine' hengine' => ?_⟩⟩
  obtain rfl := Option.some.inj (hengine.symm.trans hengine')
  rw [hmade]

/-- When `a` leaves the registry, everybody behind it moves up: `b` has the entry two in `T*`, and `c` has the index of
`b`'s nodes. -/
theorem tstar_index_shifts : ∃ (s : TrackedProver boxEngines) (after : DkgEngineState boxEngines)
    (network : Network boxEngines.R) (report : List PeerId) (tstar new : QuorumMap),
    s.Reached openElection boxEngines .release "b" ∧ s.current = some firstPlace ∧
    ResharingStarts openElection runningRelay (allAnswer ["boot", "relay", "b", "c", "d", "e"]) "b" 2 tstar new ⟨2, 1, 3⟩ ∅ ∧
    handleResharingInit boxEngines ⟨(0 : ℕ), ⟨2, 1, 3⟩, "b", ∅⟩ (s.engine.map MadeEngine.state) 2 tstar new ∅
      (fun _ => (0, 0)) = .ok (some after, report) ∧
    quorumNetwork boxEngines 2 after.tstarProvers true = .ok network ∧
    (∀ key node, after.dkgNodes.get? key = some node → node.id = 3) ∧
    after.tstarProvers.get? "b" = some (recordOf "b" 2, 2) ∧ after.tstarProvers.get? "c" = some (recordOf "c" 3, 3) ∧
    ¬ EntersAt after network "b" 3 := by
  obtain ⟨s, hs, hcurrent, engine, hengine, hmade⟩ := reached_b
  have hstarts := resharingStarts_b ["boot", "relay", "b", "c", "d", "e"] [recordOf "b" 2, recordOf "c" 3]
    [recordOf "b" 2, recordOf "c" 3, recordOf "d" 4] rfl (List.mem_of_getElem? (i := 4) rfl) rfl
  obtain ⟨after, report, network, hinit, hnetwork⟩ := exists_prepared_b (hs.valid.engine engine hengine).peerId
    (quorumMap [recordOf "b" 2, recordOf "c" 3]) (quorumMap [recordOf "b" 2, recordOf "c" 3, recordOf "d" 4]) 2 (by decide)
  have hstate : s.engine.map MadeEngine.state = some engine.state := by rw [hengine]; rfl
  rw [← hstate] at hinit
  obtain ⟨-, hidx, hindexed, -, htstar⟩ := hs.valid.prepared hinit
  have hentry : after.tstarProvers.get? "b" = some (recordOf "b" 2, 2) := by
    rw [htstar]
    rfl
  refine ⟨s, after, network, report, _, _, hs, hcurrent, hstarts, hinit, hnetwork, ?_, hentry, by rw [htstar]; rfl, ?_⟩
  · intro key node hnode
    rw [hindexed key node hnode, hidx, hengine, Option.map_some, Option.getD_some, hmade]
    rfl
  · intro h
    obtain ⟨r, hr⟩ := h.entry
    rw [hentry] at hr
    cases hr

end HumanNetwork
