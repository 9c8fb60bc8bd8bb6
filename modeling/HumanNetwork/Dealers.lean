import HumanNetwork.ResharingIndices

/-!
# Who has dealt when round 1 is over (`handle_round1_output`, `handle_resharing_round1_output`)

The engine of a prover stores what it is dealt under the index that a message declares, and reports the end of the
round when each of its nodes has as many entries as there are dealers. The key generation checks nothing about the
index. A resharing asks for the index of a member of `T*` after a cast to `usize`, and the engine stores the index
before the cast; a member of `T*` that is in the new quorum stores its own values under its own index.

So the stored dealers are the right ones exactly if every index under which something was registered is one of theirs
(`round1_dealers_iff`).
-/

namespace HumanNetwork
open Outcome DkgEngineState

/-- What a message deals: the index it declares, and for each key the values and the commitments. -/
structure Dealing where
  idx : ℕ
  offer : String → Option (HMap ℕ Bytes × List Bytes)

def Dealing.ofOutputs {Output : Type} (offer : Output → HMap ℕ Bytes × List Bytes) (idx : ℕ) (outputs : HMap String Output) :
    Dealing :=
  ⟨idx, fun key => (outputs.get? key).map offer⟩

def Dealing.ofRound1 : ℕ → HMap String Round1Output → Dealing := .ofOutputs fun output => (output.1, output.2.1)

def Dealing.ofResharing : ℕ → HMap String ResharingRound1Output → Dealing := .ofOutputs id

def quorumIds (provers : QuorumMap) : Finset ℕ := (provers.values.map Prod.snd).toFinset

variable {env : EngineEnv}

def NodeDataVariant.CanRegister (node : NodeDataVariant env) (i : ℕ) (offer : HMap ℕ Bytes × List Bytes) : Prop :=
  i ∈ offer.1.keys ∧ ∀ x ∈ offer.2, ∃ point, (env.curve node.c).fromEncoded x = .ok point

namespace DkgEngineState

def Registers (self : DkgEngineState env) (dealing : Dealing) : Prop :=
  ∃ key node offer, self.dkgNodes.get? key = some node ∧ dealing.offer key = some offer ∧ node.CanRegister self.idx offer

def DealersAre (self : DkgEngineState env) (ids : Finset ℕ) : Prop :=
  ∀ key node, self.dkgNodes.get? key = some node →
    node.data.inputY.keys.toFinset = ids ∧ node.data.inputV.keys.toFinset = ids

/-- The messages of round 1 of a key generation, from the first one on: what they deal, the engine afterwards and who
reports the end of the round at the last one. -/
inductive Round1Run (start : DkgEngineState env) : List Dealing → DkgEngineState env → List PeerId → Prop
  | start : Round1Run start [] start []
  | output {dealings self report idx outputs after report'} (h : Round1Run start dealings self report)
      (hstep : self.handleRound1Output env idx outputs = .ok (after, report')) :
    Round1Run start (dealings ++ [.ofRound1 idx outputs]) after report'

/-- The sender is taken for a member of `T*`. -/
def AcceptsDealer (self : DkgEngineState env) (idx : ℕ) : Prop :=
  self.newProvers.containsKey self.peerId ∧ idx % 2 ^ 64 ∈ quorumIds self.tstarProvers

instance (self : DkgEngineState env) (idx : ℕ) : Decidable (self.AcceptsDealer idx) := inferInstanceAs (Decidable (_ ∧ _))

/-- Round 1 of a resharing, with the own round of a member of `T*`. -/
inductive ResharingRound1Run (start : DkgEngineState env) : List Dealing → DkgEngineState env → List PeerId → Prop
  | start : ResharingRound1Run start [] start []
  | output {dealings self report idx outputs after report'} (h : ResharingRound1Run start dealings self report)
      (hstep : self.handleResharingRound1Output env idx outputs = .ok (after, report')) :
    ResharingRound1Run start
      (dealings ++ if self.AcceptsDealer idx then [.ofResharing idx outputs] else []) after report'
  | own {dealings self report info isRelected rng coins outputs after report'}
      (h : ResharingRound1Run start dealings self report)
      (hstep : self.handleResharingRound1 env info isRelected rng coins = .ok (after, outputs, report')) :
    ResharingRound1Run start
      (dealings ++ if isRelected then outputs.toList.map (.ofResharing self.idx) else []) after report'

end DkgEngineState

/-! ### What is stored -/

section stored
variable {self after start : DkgEngineState env} {dealing : Dealing} {dealings : List Dealing}

structure NodeDataVariant.Meets (i : ℕ) (key : String) (dealing : Dealing) (node node' : NodeDataVariant env) : Prop where
  c : node'.c = node.c
  inputY : ∀ j, j ∈ node'.data.inputY.keys ↔
    j ∈ node.data.inputY.keys ∨ j = dealing.idx ∧ ∃ offer ∈ dealing.offer key, node.CanRegister i offer
  inputV : ∀ j, j ∈ node'.data.inputV.keys ↔
    j ∈ node.data.inputV.keys ∨ j = dealing.idx ∧ ∃ offer ∈ dealing.offer key, node.CanRegister i offer

namespace NodeDataVariant
variable {node node' : NodeDataVariant env} {i : ℕ} {key : String}

theorem Meets.same (h : ∀ offer ∈ dealing.offer key, ¬ node.CanRegister i offer) : Meets i key dealing node node := by
  have hno : ¬ ∃ offer ∈ dealing.offer key, node.CanRegister i offer := fun ⟨offer, hoffer, hcan⟩ => h offer hoffer hcan
  exact ⟨rfl, fun j => (or_iff_left fun h => hno h.2).symm, fun j => (or_iff_left fun h => hno h.2).symm⟩

theorem Meets.inserted {offer : HMap ℕ Bytes × List Bytes} {y : Bytes} {v : List (env.curve node.c).Point}
    (hoffer : dealing.offer key = some offer) (hcan : node.CanRegister i offer) :
    Meets i key dealing node ⟨node.c, { node.data with
      inputY := node.data.inputY.insert dealing.idx y, inputV := node.data.inputV.insert dealing.idx v }⟩ := by
  have hyes : ∃ offer ∈ dealing.offer key, node.CanRegister i offer := ⟨offer, hoffer, hcan⟩
  refine ⟨rfl, fun j => ?_, fun j => ?_⟩
  · show j ∈ (node.data.inputY.insert dealing.idx y).keys ↔ _
    rw [HMap.mem_keys_insert, or_comm, and_iff_left hyes]
  · show j ∈ (node.data.inputV.insert dealing.idx v).keys ↔ _
    rw [HMap.mem_keys_insert, or_comm, and_iff_left hyes]

theorem canRegister_iff {offer : HMap ℕ Bytes × List Bytes} : node.CanRegister i offer ↔
    ∃ y v, offer.1.get? i = some y ∧ offer.2.mapM (env.curve node.c).fromEncoded = .ok v := by
  rw [CanRegister, ← exists_mapM_eq_ok, ← HMap.get?_isSome, Option.isSome_iff_exists, exists_and_exists_comm]

theorem registerOutput_eq_ok_iff {missing : String} {offer : HMap ℕ Bytes × List Bytes} {j : ℕ} :
    node.registerOutput env missing i j offer.1 offer.2 = .ok node' ↔
      ∃ y v, offer.1.get? i = some y ∧ offer.2.mapM (env.curve node.c).fromEncoded = .ok v ∧
        node' = ⟨node.c, { node.data with
          inputY := node.data.inputY.insert j y, inputV := node.data.inputV.insert j v }⟩ := by
  simp only [registerOutput, bind_eq_ok, okOr_eq_ok, pure_eq_ok, Except.ok.injEq, mapM_eq_ok, mapErr_eq_ok]
  constructor
  · rintro ⟨v, hv, y, hy, rfl⟩
    exact ⟨y, v, hy, hv, rfl⟩
  · rintro ⟨y, v, hy, hv, rfl⟩
    exact ⟨v, hv, y, hy, rfl⟩

theorem registered_cases {missing : String} {offer : HMap ℕ Bytes × List Bytes} {j : ℕ}
    {registered : Option (NodeDataVariant env)}
    (h : (toOption (node.registerOutput env missing i j offer.1 offer.2) : Outcome EngineError _) = .ok registered) :
    (∃ y v, offer.1.get? i = some y ∧ offer.2.mapM (env.curve node.c).fromEncoded = .ok v ∧
      registered.getD node = ⟨node.c, { node.data with
        inputY := node.data.inputY.insert j y, inputV := node.data.inputV.insert j v }⟩) ∨
    (¬ ∃ y v, offer.1.get? i = some y ∧ offer.2.mapM (env.curve node.c).fromEncoded = .ok v) ∧
      registered.getD node = node := by
  cases registered with
  | some node' => exact .inl (registerOutput_eq_ok_iff.1 (toOption_eq_some.1 h))
  | none =>
    refine .inr ⟨?_, rfl⟩
    rintro ⟨y, v, hy, hv⟩
    have hok : node.registerOutput env missing i j offer.1 offer.2 = .ok _ :=
      registerOutput_eq_ok_iff.2 ⟨y, v, hy, hv, rfl⟩
    rw [hok] at h
    cases h

theorem meets_of_registerOutput {missing : String} {offer : HMap ℕ Bytes × List Bytes} {registered : Option (NodeDataVariant env)}
    (hoffer : dealing.offer key = some offer)
    (h : (toOption (node.registerOutput env missing i dealing.idx offer.1 offer.2) : Outcome EngineError _) = .ok registered) :
    Meets i key dealing node (registered.getD node) := by
  rcases registered_cases h with ⟨y, v, hy, hv, heq⟩ | ⟨hcannot, heq⟩
  · rw [heq]
    exact .inserted hoffer (canRegister_iff.2 ⟨y, v, hy, hv⟩)
  · rw [heq]
    refine .same fun offer' hoffer' hcan => ?_
    obtain rfl : offer = offer' := Option.some.inj (hoffer.symm.trans hoffer')
    exact hcannot (canRegister_iff.1 hcan)

theorem meets_of_storeOwnOutput {output : ResharingRound1Output} (hoffer : dealing.offer key = some output)
    (h : node.storeOwnOutput env dealing.idx output = .ok node') : Meets dealing.idx key dealing node node' := by
  simp only [storeOwnOutput, bind_eq_ok, okOr_eq_ok, pure_eq_ok, Except.ok.injEq] at h
  obtain ⟨y, hy, v, hv, rfl⟩ := h
  refine .inserted hoffer ⟨HMap.get?_isSome.1 (by rw [hy]; rfl), fun x hx => ?_⟩
  obtain ⟨point, -, hpoint⟩ := (exists_of_mapM hv).1 x hx
  exact ⟨point, mapErr_eq_ok.1 hpoint⟩

end NodeDataVariant

structure DkgEngineState.Meets (dealing : Dealing) (before after : DkgEngineState env) : Prop where
  keys : after.dkgNodes.keys = before.dkgNodes.keys
  node : ∀ key node', after.dkgNodes.get? key = some node' →
    ∃ node, before.dkgNodes.get? key = some node ∧ NodeDataVariant.Meets before.idx key dealing node node'

section loops
variable {Output : Type} (offer : Output → HMap ℕ Bytes × List Bytes) {idx : ℕ} {outputs : HMap String Output}

theorem offer_ofOutputs {key : String} {output : Output} (h : outputs.get? key = some output) :
    (Dealing.ofOutputs offer idx outputs).offer key = some (offer output) := by
  show (outputs.get? key).map offer = _
  rw [h]
  rfl

theorem offer_ofOutputs_eq_none {key : String} (h : outputs.get? key = none) :
    (Dealing.ofOutputs offer idx outputs).offer key = none := by
  show (outputs.get? key).map offer = _
  rw [h]
  rfl

theorem meets_of_updateNodes {update : NodeDataVariant env → Output → Outcome EngineError (NodeDataVariant env)}
    (hupdate : ∀ {key node output node'}, outputs.get? key = some output → update node output = .ok node' →
      NodeDataVariant.Meets self.idx key (.ofOutputs offer idx outputs) node node')
    (h : updateNodes env update outputs.entries self.dkgNodes = .ok after.dkgNodes) :
    DkgEngineState.Meets (.ofOutputs offer idx outputs) self after := by
  refine ⟨keys_updateNodes h, fun key node' hnode' => ?_⟩
  obtain ⟨node, hnode, ⟨hnone, rfl⟩ | ⟨output, houtput, hok⟩⟩ := updateNodes_output h hnode'
  · refine ⟨_, hnode, .same fun o ho => ?_⟩
    rw [offer_ofOutputs_eq_none offer hnone] at ho
    cases ho
  · exact ⟨node, hnode, hupdate houtput hok⟩

theorem meets_of_registerAll {missing : String}
    (h : registerAll env (fun node output => node.registerOutput env missing self.idx idx (offer output).1 (offer output).2)
      outputs.entries self.dkgNodes = .ok after.dkgNodes) :
    DkgEngineState.Meets (.ofOutputs offer idx outputs) self after := by
  rw [registerAll_eq_updateNodes] at h
  refine meets_of_updateNodes offer (fun {key node output node'} houtput hok => ?_) h
  obtain ⟨registered, hregistered, hok⟩ := bind_eq_ok.1 hok
  obtain rfl := Except.ok.inj hok
  exact NodeDataVariant.meets_of_registerOutput (offer_ofOutputs offer houtput) hregistered

end loops

/-! The handlers of round 1: what is stored, what stays, and what a report says. -/

def DkgEngineState.Full (self : DkgEngineState env) (count : ℕ) : Prop :=
  ∀ key node, self.dkgNodes.get? key = some node → node.data.inputY.len = count ∧ node.data.inputV.len = count

theorem of_report {ready : Prop} [Decidable ready] {peers : List PeerId} (h : (if ready then peers else []) ≠ []) : ready := by
  by_contra hnot
  exact h (if_neg hnot)

theorem full_of_all {nodes : HMap String (NodeDataVariant env)} {count : ℕ} {p : NodeDataVariant env → Bool}
    (hp : ∀ node, p node = true → node.data.inputY.len = count ∧ node.data.inputV.len = count)
    (hall : nodes.values.all p = true) {key : String} {node : NodeDataVariant env} (hnode : nodes.get? key = some node) :
    node.data.inputY.len = count ∧ node.data.inputV.len = count := by
  have hmem : node ∈ nodes.values := List.mem_map.2 ⟨(key, node), HMap.get?_eq_some.1 hnode, rfl⟩
  exact hp node (List.all_eq_true.1 hall node hmem)

theorem handleRound1Output_eq_ok {idx : ℕ} {outputs : HMap String Round1Output} {report : List PeerId}
    (h : self.handleRound1Output env idx outputs = .ok (after, report)) :
    after = { self with dkgNodes := after.dkgNodes } ∧ Meets (.ofRound1 idx outputs) self after ∧
      (report ≠ [] → after.Full (self.network.totalNodes - 1)) := by
  simp only [handleRound1Output, bind_eq_ok, pure_eq_ok, Except.ok.injEq, Prod.mk.injEq] at h
  obtain ⟨nodes, hnodes, rfl, rfl⟩ := h
  refine ⟨rfl, meets_of_registerAll _ hnodes, fun hreport key node hnode => ?_⟩
  refine full_of_all ?_ (of_report hreport) hnode
  exact fun node hnode => of_decide_eq_true hnode

theorem any_tstar {idx : ℕ} : (self.tstarProvers.values.any fun e => e.2 = idx % 2 ^ 64) = true ↔
    idx % 2 ^ 64 ∈ quorumIds self.tstarProvers := by
  rw [List.any_eq_true, quorumIds, List.mem_toFinset, List.mem_map]
  simp only [decide_eq_true_eq]

theorem handleResharingRound1Output_eq_ok {idx : ℕ} {outputs : HMap String ResharingRound1Output} {report : List PeerId}
    (h : self.handleResharingRound1Output env idx outputs = .ok (after, report)) :
    after = { self with dkgNodes := after.dkgNodes } ∧
      (self.AcceptsDealer idx ∧ Meets (.ofResharing idx outputs) self after ∨
        ¬ self.AcceptsDealer idx ∧ after.dkgNodes = self.dkgNodes) ∧
      (report ≠ [] → after.Full self.tstarProvers.len) := by
  unfold handleResharingRound1Output at h
  split at h
  next hnew =>
    obtain ⟨rfl, rfl⟩ := Prod.mk.inj (Except.ok.inj h)
    exact ⟨rfl, .inr ⟨fun haccepts => hnew haccepts.1, rfl⟩, fun hreport => absurd rfl hreport⟩
  next hnew =>
    split at h
    next hidx =>
      obtain ⟨rfl, rfl⟩ := Prod.mk.inj (Except.ok.inj h)
      exact ⟨rfl, .inr ⟨fun haccepts => hidx (any_tstar.2 haccepts.2), rfl⟩, fun hreport => absurd rfl hreport⟩
    next hidx =>
      simp only [bind_eq_ok, pure_eq_ok, Except.ok.injEq, Prod.mk.injEq] at h
      obtain ⟨nodes, hnodes, rfl, rfl⟩ := h
      refine ⟨rfl, .inl ⟨⟨not_not.1 hnew, any_tstar.1 (not_not.1 hidx)⟩, meets_of_registerAll id hnodes⟩, ?_⟩
      intro hreport key node hnode
      refine full_of_all ?_ (of_report hreport) hnode
      exact fun node hnode => of_decide_eq_true hnode

theorem handleResharingRound1_eq_ok {info : ElectionInfo} {isRelected : Bool}
    {rng : String → (c : CurveId) → ℕ → (env.curve c).FieldEl} {coins : String → ℕ → env.R.Coin}
    {outputs : Option (HMap String ResharingRound1Output)} {report : List PeerId}
    (h : self.handleResharingRound1 env info isRelected rng coins = .ok (after, outputs, report)) :
    after = { self with dkgNodes := after.dkgNodes } ∧
      ((∃ o, isRelected = true ∧ outputs = some o ∧ Meets (.ofResharing self.idx o) self after) ∨
        (isRelected = false ∨ outputs = none) ∧ after.dkgNodes = self.dkgNodes) ∧
      (report ≠ [] → after.Full self.tstarProvers.len) := by
  unfold handleResharingRound1 at h
  split at h
  next =>
    obtain ⟨rfl, hrest⟩ := Prod.mk.inj (Except.ok.inj h)
    obtain ⟨rfl, rfl⟩ := Prod.mk.inj hrest
    exact ⟨rfl, .inr ⟨.inr rfl, rfl⟩, fun hreport => absurd rfl hreport⟩
  next =>
    obtain ⟨dealt, -, h⟩ := bind_eq_ok.1 h
    cases dealt with
    | none =>
      obtain ⟨rfl, hrest⟩ := Prod.mk.inj (Except.ok.inj h)
      obtain ⟨rfl, rfl⟩ := Prod.mk.inj hrest
      exact ⟨rfl, .inr ⟨.inr rfl, rfl⟩, fun hreport => absurd rfl hreport⟩
    | some dealt =>
      simp only [bind_eq_ok, pure_eq_ok, Except.ok.injEq, Prod.mk.injEq] at h
      obtain ⟨nodes, hnodes, rfl, rfl, rfl⟩ := h
      refine ⟨rfl, ?_, fun hreport key node hnode => ?_⟩
      · cases isRelected with
        | true =>
          refine .inl ⟨dealt, rfl, rfl, ?_⟩
          refine meets_of_updateNodes id (fun {key node output node'} houtput hok => ?_) hnodes
          exact NodeDataVariant.meets_of_storeOwnOutput (offer_ofOutputs id houtput) hok
        | false =>
          obtain rfl := Except.ok.inj hnodes
          exact .inr ⟨.inl rfl, rfl⟩
      · refine full_of_all (fun node hnode => ?_) (of_report hreport).1 hnode
        have hlens := of_decide_eq_true hnode
        exact ⟨hlens.1, hlens.2.1⟩

/-! ### Runs of round 1 -/

theorem NodeDataVariant.canRegister_congr {node node' : NodeDataVariant env} (hc : node'.c = node.c) {i : ℕ}
    {offer : HMap ℕ Bytes × List Bytes} : node'.CanRegister i offer ↔ node.CanRegister i offer := by
  obtain ⟨c, data⟩ := node
  obtain ⟨c', data'⟩ := node'
  obtain rfl : c' = c := hc
  exact Iff.rfl

def DkgEngineState.Cleared (self : DkgEngineState env) : Prop :=
  ∀ key node, self.dkgNodes.get? key = some node → node.data.inputY.keys = [] ∧ node.data.inputV.keys = []

def DkgEngineState.HasKeys (self : DkgEngineState env) : Prop := ∀ m ∈ engineMethods, m.keyName ∈ self.dkgNodes.keys

/-- Each node has stored the dealers whose offers it could register, and no others. -/
structure DkgEngineState.Stored (start : DkgEngineState env) (dealings : List Dealing) (engine : DkgEngineState env) : Prop where
  frame : engine = { start with dkgNodes := engine.dkgNodes }
  keys : engine.dkgNodes.keys = start.dkgNodes.keys
  node : ∀ key node, engine.dkgNodes.get? key = some node → ∃ node₀, start.dkgNodes.get? key = some node₀ ∧ node.c = node₀.c ∧
    ∀ j, (j ∈ node.data.inputY.keys ↔
        ∃ d ∈ dealings, j = d.idx ∧ ∃ offer ∈ d.offer key, node₀.CanRegister start.idx offer) ∧
      (j ∈ node.data.inputV.keys ↔
        ∃ d ∈ dealings, j = d.idx ∧ ∃ offer ∈ d.offer key, node₀.CanRegister start.idx offer)

namespace DkgEngineState

theorem Cleared.stored (h : start.Cleared) : Stored start [] start where
  frame := rfl
  keys := rfl
  node := by
    intro key node hnode
    obtain ⟨hY, hV⟩ := h key node hnode
    refine ⟨node, hnode, rfl, fun j => ?_⟩
    rw [hY, hV]
    simp

theorem Stored.meets (hs : Stored start dealings self) (hframe : after = { self with dkgNodes := after.dkgNodes })
    (h : Meets dealing self after) : Stored start (dealings ++ [dealing]) after where
  frame := by rw [hframe, hs.frame]
  keys := h.keys.trans hs.keys
  node := by
    intro key node' hnode'
    obtain ⟨node, hnode, hmeets⟩ := h.node key node' hnode'
    obtain ⟨node₀, hnode₀, hc, hstored⟩ := hs.node key node hnode
    refine ⟨node₀, hnode₀, hmeets.c.trans hc, fun j => ?_⟩
    have hidx : self.idx = start.idx := by rw [hs.frame]
    have hnew : (∃ d ∈ dealings ++ [dealing], j = d.idx ∧ ∃ offer ∈ d.offer key, node₀.CanRegister start.idx offer) ↔
        (∃ d ∈ dealings, j = d.idx ∧ ∃ offer ∈ d.offer key, node₀.CanRegister start.idx offer) ∨
          j = dealing.idx ∧ ∃ offer ∈ dealing.offer key, node.CanRegister self.idx offer := by
      simp only [NodeDataVariant.canRegister_congr hc, hidx, List.mem_append, List.mem_singleton, or_and_right, exists_or,
        exists_eq_left]
    rw [hmeets.inputY, hmeets.inputV, (hstored j).1, (hstored j).2, hnew]
    exact ⟨Iff.rfl, Iff.rfl⟩

theorem Stored.same (hs : Stored start dealings self) (hframe : after = { self with dkgNodes := after.dkgNodes })
    (h : after.dkgNodes = self.dkgNodes) : Stored start (dealings ++ []) after := by
  obtain rfl : after = self := by rw [hframe, h]
  rw [List.append_nil]
  exact hs

theorem Round1Run.stored (hstart : start.Cleared) {report : List PeerId} (h : Round1Run start dealings self report) :
    Stored start dealings self ∧ (report ≠ [] → self.Full (start.network.totalNodes - 1)) := by
  induction h with
  | start => exact ⟨hstart.stored, fun h => absurd rfl h⟩
  | output _ hstep ih =>
    obtain ⟨hframe, hmeets, hfull⟩ := handleRound1Output_eq_ok hstep
    refine ⟨ih.1.meets hframe hmeets, fun hreport => ?_⟩
    have hcount := hfull hreport
    rwa [ih.1.frame] at hcount

theorem ResharingRound1Run.stored (hstart : start.Cleared) {report : List PeerId}
    (h : ResharingRound1Run start dealings self report) :
    Stored start dealings self ∧ (report ≠ [] → self.Full start.tstarProvers.len) := by
  induction h with
  | start => exact ⟨hstart.stored, fun h => absurd rfl h⟩
  | output _ hstep ih =>
    obtain ⟨hframe, hstored, hfull⟩ := handleResharingRound1Output_eq_ok hstep
    refine ⟨?_, fun hreport => ?_⟩
    · rcases hstored with ⟨haccepts, hmeets⟩ | ⟨hrefuses, hsame⟩
      · rw [if_pos haccepts]
        exact ih.1.meets hframe hmeets
      · rw [if_neg hrefuses]
        exact ih.1.same hframe hsame
    · have hcount := hfull hreport
      rwa [ih.1.frame] at hcount
  | own _ hstep ih =>
    obtain ⟨hframe, hstored, hfull⟩ := handleResharingRound1_eq_ok hstep
    refine ⟨?_, fun hreport => ?_⟩
    · rcases hstored with ⟨o, rfl, rfl, hmeets⟩ | ⟨rfl | rfl, hsame⟩
      · exact ih.1.meets hframe hmeets
      · exact ih.1.same hframe hsame
      · split
        · exact ih.1.same hframe hsame
        · exact ih.1.same hframe hsame
    · have hcount := hfull hreport
      rwa [ih.1.frame] at hcount

theorem Stored.dealersAre_iff (hs : Stored start dealings self) {count : ℕ} (hfull : self.Full count) {ids : Finset ℕ}
    (hcard : ids.card ≤ count) : self.DealersAre ids ↔ ∀ d ∈ dealings, start.Registers d → d.idx ∈ ids := by
  constructor
  · rintro hdealers d hd ⟨key, node₀, offer, hnode₀, hoffer, hcan⟩
    obtain ⟨node, hnode⟩ : ∃ node, self.dkgNodes.get? key = some node := by
      apply HMap.exists_get?
      rw [hs.keys]
      exact HMap.get?_isSome.1 (by rw [hnode₀]; rfl)
    obtain ⟨node₁, hnode₁, -, hstored⟩ := hs.node key node hnode
    obtain rfl : node₁ = node₀ := Option.some.inj (hnode₁.symm.trans hnode₀)
    rw [← (hdealers key node hnode).1, List.mem_toFinset]
    exact (hstored d.idx).1.2 ⟨d, hd, rfl, offer, hoffer, hcan⟩
  · intro h key node hnode
    obtain ⟨node₀, hnode₀, -, hstored⟩ := hs.node key node hnode
    obtain ⟨hlenY, hlenV⟩ := hfull key node hnode
    have hids : ∀ j, (∃ d ∈ dealings, j = d.idx ∧ ∃ offer ∈ d.offer key, node₀.CanRegister start.idx offer) → j ∈ ids := by
      rintro j ⟨d, hd, rfl, offer, hoffer, hcan⟩
      exact h d hd ⟨key, node₀, offer, hnode₀, hoffer, hcan⟩
    -- as many as there are right ones, and only right ones
    constructor
    · refine Finset.eq_of_subset_of_card_le (fun j hj => hids j ((hstored j).1.1 (List.mem_toFinset.1 hj))) ?_
      rw [HMap.card_keys, hlenY]
      exact hcard
    · refine Finset.eq_of_subset_of_card_le (fun j hj => hids j ((hstored j).2.1 (List.mem_toFinset.1 hj))) ?_
      rw [HMap.card_keys, hlenV]
      exact hcard

end DkgEngineState

/-! The engines with which round 1 starts. -/

theorem card_quorumIds_le (provers : QuorumMap) : (quorumIds provers).card ≤ provers.len := by
  have h := List.toFinset_card_le (provers.values.map Prod.snd)
  rwa [List.length_map, HMap.length_values] at h

theorem cleared_clearInputs (self : DkgEngineState env) : self.clearInputs.Cleared := by
  intro key node hnode
  rw [DkgEngineState.clearInputs, HMap.get?_mapVal, Option.map_eq_some_iff] at hnode
  obtain ⟨old, -, rfl⟩ := hnode
  exact ⟨rfl, rfl⟩

theorem keyedNetwork_params {text keyText : String} {threshold : ℕ} {provers : QuorumMap} {isTstar : Bool}
    {network : Network env.R} (h : keyedNetwork env text keyText threshold provers isTstar = .ok network) :
    network.threshold = threshold ∧ network.totalNodes = provers.len := by
  simp only [keyedNetwork, newNetwork, bind_eq_ok, mapErr_eq_ok, pure_eq_ok, Except.ok.injEq] at h
  obtain ⟨built, hbuilt, _, -, rfl⟩ := h
  unfold Network.new at hbuilt
  split at hbuilt
  · cases hbuilt
  · obtain rfl := Except.ok.inj hbuilt
    exact ⟨rfl, rfl⟩

theorem dkgInit_round1 {p : PeerId} {idx threshold : ℕ} {sk : env.R.SecretKey} {elected : QuorumMap} {coins : NodeCoins env}
    (h : dkgInit env p idx sk elected threshold coins = .ok start) :
    start.Cleared ∧ start.network.totalNodes = elected.len := by
  simp only [dkgInit, bind_eq_ok, pure_eq_ok, Except.ok.injEq] at h
  obtain ⟨network, hnetwork, rfl⟩ := h
  refine ⟨fun key node hnode => ?_, (keyedNetwork_params hnetwork).2⟩
  rw [HMap.get?_collect, Option.map_eq_some_iff] at hnode
  obtain ⟨m, -, rfl⟩ := hnode
  exact ⟨rfl, rfl⟩

theorem hasKeys_dkgInit {p : PeerId} {idx threshold : ℕ} {sk : env.R.SecretKey} {elected : QuorumMap} {coins : NodeCoins env}
    (h : dkgInit env p idx sk elected threshold coins = .ok start) : start.HasKeys := by
  simp only [dkgInit, bind_eq_ok, pure_eq_ok, Except.ok.injEq] at h
  obtain ⟨network, -, rfl⟩ := h
  exact fun m hm => HMap.mem_keys_collect.2 ⟨m, hm, rfl⟩

theorem hasKeys_restore {p : PeerId} {idx threshold : ℕ} {sk : env.R.SecretKey} {tstar new : QuorumMap}
    {saved groupKeys : HMap String Bytes} {coins : NodeCoins env}
    (h : restoreOldResharingState env p idx sk new threshold saved tstar groupKeys coins = .ok start) : start.HasKeys := by
  simp only [restoreOldResharingState, bind_eq_ok, pure_eq_ok, Except.ok.injEq] at h
  obtain ⟨shares, hshares, pubkeys, hpubkeys, nodes, hnodes, network, -, rfl⟩ := h
  intro m hm
  -- the share of the key, the share with the group key, and the node that is restored from them
  obtain ⟨share, hshare, hlookup⟩ := (exists_of_mapM hshares).1 m hm
  simp only [bind_eq_ok, pure_eq_ok, Except.ok.injEq] at hlookup
  obtain ⟨_, -, rfl⟩ := hlookup
  have hlen : shares.length ≤ pubkeys.length :=
    ((mapM_eq_ok.1 hshares).length_eq.symm.trans (mapM_eq_ok.1 hpubkeys).length_eq).le
  rw [← List.map_fst_zip hlen] at hshare
  obtain ⟨⟨_, pubkey⟩, hzip, rfl⟩ := List.mem_map.1 hshare
  obtain ⟨entry, hentry, hrestored⟩ := (exists_of_mapM hnodes).1 _ hzip
  simp only [bind_eq_ok, Except.ok.injEq] at hrestored
  obtain ⟨_, -, rfl⟩ := hrestored
  exact HMap.mem_keys_collect.2 ⟨_, hentry, rfl⟩

theorem handleResharingInit_clears {ctx : ResharingInitContext env} {state : Option (DkgEngineState env)} {idx : ℕ}
    {tstar new : QuorumMap} {saved : HMap String Bytes} {coins : NodeCoins env} {report : List PeerId}
    (h : handleResharingInit env ctx state idx tstar new saved coins = .ok (some start, report)) :
    ∃ before : DkgEngineState env, (state = some before ∨ before.Indexed ∧ before.HasKeys) ∧ start.idx = before.idx ∧
      start.dkgNodes = before.clearInputs.dkgNodes ∧ start.tstarProvers = tstar := by
  simp only [handleResharingInit, bind_eq_ok] at h
  obtain ⟨network, -, h⟩ := h
  cases state with
  | some self =>
    simp only [bind_eq_ok, pure_eq_ok, Except.ok.injEq, Prod.mk.injEq, Option.some.injEq, Prod.exists] at h
    obtain ⟨_, _, hresume, rfl, rfl⟩ := h
    obtain ⟨_, _, -, rfl⟩ := resume_eq_ok hresume
    exact ⟨self, .inl rfl, rfl, rfl, rfl⟩
  | none =>
    dsimp only at h
    split at h
    · simp only [bind_eq_ok, pure_eq_ok, Except.ok.injEq, Prod.mk.injEq, Option.some.injEq, Prod.exists] at h
      obtain ⟨self, hrestored, _, _, hresume, rfl, rfl⟩ := h
      obtain ⟨_, _, -, rfl⟩ := resume_eq_ok hresume
      exact ⟨self, .inr ⟨(restoreOldResharingState_eq_ok hrestored).2.2, hasKeys_restore hrestored⟩, rfl, rfl, rfl⟩
    · split at h
      · simp only [join, bind_eq_ok, pure_eq_ok, Except.ok.injEq, Prod.mk.injEq, Option.some.injEq, Prod.exists] at h
        obtain ⟨_, _, ⟨self, hself, _, -, rfl, rfl⟩, rfl, rfl⟩ := h
        exact ⟨self, .inr ⟨(dkgInit_eq_ok hself).2.2.2.2, hasKeys_dkgInit hself⟩, rfl, rfl, rfl⟩
      · cases h

theorem handleResharingInit_round1 {ctx : ResharingInitContext env} {state : Option (DkgEngineState env)} {idx : ℕ}
    {tstar new : QuorumMap} {saved : HMap String Bytes} {coins : NodeCoins env} {report : List PeerId}
    (h : handleResharingInit env ctx state idx tstar new saved coins = .ok (some start, report)) :
    start.Cleared ∧ start.tstarProvers = tstar := by
  obtain ⟨before, -, -, hnodes, htstar⟩ := handleResharingInit_clears h
  refine ⟨?_, htstar⟩
  unfold DkgEngineState.Cleared
  rw [hnodes]
  exact cleared_clearInputs before

end stored

/-- When an engine reports the end of round 1, it has stored the other members of the quorum as dealers, or `T*` in a
resharing, exactly if every index under which it registered something is one of theirs. -/
theorem round1_dealers_iff (env : EngineEnv) :
    (∀ p idx sk elected threshold coins start, dkgInit env p idx sk elected threshold coins = .ok start → p ∈ elected.keys →
      ∀ dealings self report, Round1Run start dealings self report → report ≠ [] →
        (self.DealersAre (quorumIds (elected.remove p)) ↔
          ∀ d ∈ dealings, start.Registers d → d.idx ∈ quorumIds (elected.remove p))) ∧
    ∀ ctx state idx tstar new saved coins start prepared,
      handleResharingInit env ctx state idx tstar new saved coins = .ok (some start, prepared) →
      ∀ dealings self report, ResharingRound1Run start dealings self report → report ≠ [] →
        (self.DealersAre (quorumIds tstar) ↔ ∀ d ∈ dealings, start.Registers d → d.idx ∈ quorumIds tstar) := by
  constructor
  · intro p idx sk elected threshold coins start hinit hp dealings self report hrun hreport
    obtain ⟨hcleared, htotal⟩ := dkgInit_round1 hinit
    obtain ⟨hstored, hfull⟩ := hrun.stored hcleared
    refine hstored.dealersAre_iff (hfull hreport) ?_
    rw [htotal, ← HMap.len_remove hp]
    exact card_quorumIds_le _
  · intro ctx state idx tstar new saved coins start prepared hinit dealings self report hrun hreport
    obtain ⟨hcleared, rfl⟩ := handleResharingInit_round1 hinit
    obtain ⟨hstored, hfull⟩ := hrun.stored hcleared
    exact hstored.dealersAre_iff (hfull hreport) (card_quorumIds_le _)

def valuesFor (i : ℕ) : HMap String Round1Output :=
  .collect Method.keyName (fun _ => ((∅ : HMap ℕ Bytes).insert i [], [], [])) engineMethods

def sharesFor (i : ℕ) : HMap String ResharingRound1Output :=
  .collect Method.keyName (fun _ => ((∅ : HMap ℕ Bytes).insert i [], [])) engineMethods

theorem exists_round1 : ∃ start self,
    dkgInit boxEngines "a" 2 (0 : ℕ) (quorumMap threeProvers) 2 (fun _ => (0, 0)) = .ok start ∧
    Round1Run start [.ofRound1 3 (valuesFor 2), .ofRound1 4 (valuesFor 2)] self ["a"] :=
  ⟨_, _, rfl, .output (.output .start rfl) rfl⟩

theorem round1_dealers_three : ∃ start self,
    dkgInit boxEngines "a" 2 (0 : ℕ) (quorumMap threeProvers) 2 (fun _ => (0, 0)) = .ok start ∧
    Round1Run start [.ofRound1 3 (valuesFor 2), .ofRound1 4 (valuesFor 2)] self ["a"] ∧
    self.DealersAre (quorumIds ((quorumMap threeProvers).remove "a")) := by
  obtain ⟨start, self, hinit, hrun⟩ := exists_round1
  refine ⟨start, self, hinit, hrun, ?_⟩
  refine ((round1_dealers_iff boxEngines).1 "a" 2 _ _ 2 _ start hinit (by decide) _ self _ hrun (by decide)).2 fun d hd _ => ?_
  rcases List.mem_cons.1 hd with rfl | hd
  · decide
  · rcases List.mem_singleton.1 hd with rfl
    decide

/-- Each engine hears from `b` twice, the second time under an index that is nobody's: 99 in the key generation, and
in a resharing one that `b` has after the cast. Both report the end of round 1. -/
theorem round1_ends_without_dealers :
    (∃ start self₁ self₂, dkgInit boxEngines "a" 2 (0 : ℕ) (quorumMap threeProvers) 2 (fun _ => (0, 0)) = .ok start ∧
      start.handleRound1Output boxEngines 3 (valuesFor 2) = .ok (self₁, []) ∧
      self₁.handleRound1Output boxEngines 99 (valuesFor 2) = .ok (self₂, ["a"]) ∧
      ¬ self₂.DealersAre (quorumIds ((quorumMap threeProvers).remove "a"))) ∧
    ∃ start self₁ self₂, handleResharingInit boxEngines ⟨(0 : ℕ), ⟨2, 1, 3⟩, "d", ∅⟩ none 5 (quorumMap (threeProvers.take 2))
        (quorumMap fiveProvers) ∅ (fun _ => (0, 0)) = .ok (some start, ["d"]) ∧
      start.handleResharingRound1Output boxEngines 3 (sharesFor 5) = .ok (self₁, []) ∧
      self₁.handleResharingRound1Output boxEngines (3 + 2 ^ 64) (sharesFor 5) = .ok (self₂, ["d"]) ∧
      ¬ self₂.DealersAre (quorumIds (quorumMap (threeProvers.take 2))) := by
  constructor
  · refine ⟨_, _, _, rfl, rfl, rfl, fun h => ?_⟩
    exact absurd (h "OPRFSecp256k1" _ rfl).1 (by decide)
  · refine ⟨_, _, _, rfl, rfl, rfl, fun h => ?_⟩
    exact absurd (h "OPRFSecp256k1" _ rfl).1 (by decide)

end HumanNetwork
