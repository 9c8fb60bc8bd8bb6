import HumanNetwork.ResharingEngine

/-!
# Which values an engine takes (`dkg_engine_actor.rs`)

The handlers of round 1 run over the nodes of an engine, one for each key. `NodesChanged` says what such a loop can have
done. The engine takes the values dealt to the index with which it was made, so a share belongs to that index
(`registersAt_idx`).
-/

namespace HumanNetwork
open Outcome DkgEngineState

variable {env : EngineEnv} {self after : DkgEngineState env}

/-! ### Which values an engine takes -/

/-- Of what the dealer `j` sends for each key, the nodes take the value for the index `i` or nothing. -/
def TakesAt (i j : ℕ) (sent : String → Option (HMap ℕ Bytes)) (self after : DkgEngineState env) : Prop :=
  ∀ key node', after.dkgNodes.get? key = some node' → ∃ node, self.dkgNodes.get? key = some node ∧
    (node' = node ∨ ∃ values y, sent key = some values ∧ values.get? i = some y ∧
      node'.id = node.id ∧ node'.data.inputY = node.data.inputY.insert j y)

/-- The values that make up the shares of the engine are those dealt to the index `i`. -/
structure RegistersAt (i : ℕ) (self : DkgEngineState env) : Prop where
  dkg : ∀ j outputs after report, self.handleRound1Output env j outputs = .ok (after, report) →
    TakesAt i j (fun key => (outputs.get? key).map fun output => output.1) self after
  resharing : ∀ j outputs after report, self.handleResharingRound1Output env j outputs = .ok (after, report) →
    TakesAt i j (fun key => (outputs.get? key).map fun output => output.1) self after

theorem registerOutput_eq_ok {node node' : NodeDataVariant env} {missing : String} {i j : ℕ} {yValues : HMap ℕ Bytes}
    {vValues : List Bytes} (h : node.registerOutput env missing i j yValues vValues = .ok node') :
    ∃ y, yValues.get? i = some y ∧ node'.id = node.id ∧ node'.data.inputY = node.data.inputY.insert j y := by
  simp only [NodeDataVariant.registerOutput, bind_eq_ok, okOr_eq_ok, pure_eq_ok, Except.ok.injEq] at h
  obtain ⟨_, -, y, hy, rfl⟩ := h
  exact ⟨y, hy, rfl, rfl⟩

theorem updateNodes_get? {Output : Type} {update : NodeDataVariant env → Output → Outcome EngineError (NodeDataVariant env)}
    {outputs : List (String × Output)} (hnodup : (outputs.map Prod.fst).Nodup)
    {nodes nodes' : HMap String (NodeDataVariant env)} (h : updateNodes env update outputs nodes = .ok nodes')
    {key : String} {node' : NodeDataVariant env} (hnode' : nodes'.get? key = some node') :
    ∃ node, nodes.get? key = some node ∧
      ((∀ output, (key, output) ∉ outputs) ∧ node' = node ∨
        ∃ output, (key, output) ∈ outputs ∧ update node output = .ok node') := by
  induction outputs generalizing nodes with
  | nil =>
    obtain rfl := Except.ok.inj h
    exact ⟨node', hnode', .inl ⟨by simp, rfl⟩⟩
  | cons e outputs ih =>
    rw [List.map_cons, List.nodup_cons] at hnodup
    rw [updateNodes, List.foldlM_cons, bind_eq_ok] at h
    obtain ⟨nodes₁, hstep, h⟩ := h
    obtain ⟨node₁, hnode₁, hrest⟩ := ih hnodup.2 h
    -- what the rest of the loop does to a key that is not the first one
    have hother : key ≠ e.1 → ((∀ output, (key, output) ∉ e :: outputs) ∧ node' = node₁ ∨
        ∃ output, (key, output) ∈ e :: outputs ∧ update node₁ output = .ok node') := by
      intro hkey
      rcases hrest with ⟨hnone, hsame⟩ | ⟨output, houtput, hok⟩
      · refine .inl ⟨fun output houtput => ?_, hsame⟩
        rcases List.mem_cons.1 houtput with heq | houtput
        · exact hkey (congrArg Prod.fst heq)
        · exact hnone output houtput
      · exact .inr ⟨output, List.mem_cons_of_mem _ houtput, hok⟩
    cases hget : nodes.get? e.1 with
    | none =>
      rw [hget] at hstep
      obtain rfl := Except.ok.inj hstep
      refine ⟨node₁, hnode₁, hother ?_⟩
      rintro rfl
      rw [hget] at hnode₁
      cases hnode₁
    | some node =>
      simp only [hget, bind_eq_ok, pure_eq_ok, Except.ok.injEq] at hstep
      obtain ⟨updated, hupdated, rfl⟩ := hstep
      rw [HMap.get?_mapVal, Option.map_eq_some_iff] at hnode₁
      obtain ⟨old, hold, rfl⟩ := hnode₁
      by_cases hkey : key = e.1
      · -- the rest of the loop does not come back to this key
        subst hkey
        obtain rfl : node = old := Option.some.inj (hget.symm.trans hold)
        refine ⟨node, hold, .inr ⟨e.2, List.mem_cons_self, ?_⟩⟩
        rcases hrest with ⟨-, hsame⟩ | ⟨output, houtput, -⟩
        · rw [hsame, if_pos rfl, hupdated]
        · exact absurd (List.mem_map_of_mem houtput) hnodup.1
      · rw [if_neg hkey] at hother
        exact ⟨old, hold, hother hkey⟩

theorem updateNodes_output {Output : Type} {update : NodeDataVariant env → Output → Outcome EngineError (NodeDataVariant env)}
    {outputs : HMap String Output} {nodes nodes' : HMap String (NodeDataVariant env)}
    (h : updateNodes env update outputs.entries nodes = .ok nodes') {key : String} {node' : NodeDataVariant env}
    (hnode' : nodes'.get? key = some node') :
    ∃ node, nodes.get? key = some node ∧ (outputs.get? key = none ∧ node' = node ∨
      ∃ output, outputs.get? key = some output ∧ update node output = .ok node') := by
  obtain ⟨node, hnode, ⟨hnone, rfl⟩ | ⟨output, houtput, hok⟩⟩ := updateNodes_get? outputs.nodup h hnode'
  · refine ⟨_, hnode, .inl ⟨Option.eq_none_iff_forall_not_mem.2 fun output houtput => ?_, rfl⟩⟩
    exact hnone output (HMap.get?_eq_some.1 houtput)
  · exact ⟨node, hnode, .inr ⟨output, HMap.get?_eq_some.2 houtput, hok⟩⟩

theorem keys_updateNodes {Output : Type} {update : NodeDataVariant env → Output → Outcome EngineError (NodeDataVariant env)}
    {outputs : List (String × Output)} {nodes nodes' : HMap String (NodeDataVariant env)}
    (h : updateNodes env update outputs nodes = .ok nodes') : nodes'.keys = nodes.keys := by
  induction outputs generalizing nodes with
  | nil =>
    obtain rfl := Except.ok.inj h
    rfl
  | cons e outputs ih =>
    rw [updateNodes, List.foldlM_cons, bind_eq_ok] at h
    obtain ⟨nodes₁, hstep, h⟩ := h
    rw [ih h]
    cases hget : nodes.get? e.1 with
    | none =>
      rw [hget] at hstep
      obtain rfl := Except.ok.inj hstep
      rfl
    | some node =>
      simp only [hget, bind_eq_ok, pure_eq_ok, Except.ok.injEq] at hstep
      obtain ⟨_, -, rfl⟩ := hstep
      exact HMap.keys_mapVal _ _

theorem registerAll_eq_updateNodes {Output : Type}
    (register : NodeDataVariant env → Output → Outcome String (NodeDataVariant env)) (outputs : List (String × Output))
    (nodes : HMap String (NodeDataVariant env)) :
    registerAll env register outputs nodes =
      updateNodes env (fun node output => do
        let registered ← toOption (register node output)
        return registered.getD node) outputs nodes := by
  simp only [registerAll, updateNodes, bind_assoc, pure_bind]

/-- Only the nodes differ, and each of them is as it was or went through the change. -/
structure NodesChanged (change : String → NodeDataVariant env → NodeDataVariant env → Prop)
    (before after : DkgEngineState env) : Prop where
  frame : after = { before with dkgNodes := after.dkgNodes }
  keys : after.dkgNodes.keys = before.dkgNodes.keys
  node : ∀ key node', after.dkgNodes.get? key = some node' →
    ∃ node, before.dkgNodes.get? key = some node ∧ (node' = node ∨ change key node node')

namespace NodesChanged
variable {change : String → NodeDataVariant env → NodeDataVariant env → Prop} {Output : Type} {outputs : HMap String Output}
  {nodes : HMap String (NodeDataVariant env)}

theorem refl (self : DkgEngineState env) : NodesChanged change self self :=
  ⟨rfl, rfl, fun _ node hnode => ⟨node, hnode, .inl rfl⟩⟩

theorem of_updateNodes {update : NodeDataVariant env → Output → Outcome EngineError (NodeDataVariant env)}
    (h : updateNodes env update outputs.entries self.dkgNodes = .ok nodes) :
    NodesChanged (fun key node node' => ∃ output, outputs.get? key = some output ∧ update node output = .ok node') self
      { self with dkgNodes := nodes } := by
  refine ⟨rfl, keys_updateNodes h, fun key node' hnode' => ?_⟩
  obtain ⟨node, hnode, ⟨-, rfl⟩ | hoffered⟩ := updateNodes_output h hnode'
  · exact ⟨_, hnode, .inl rfl⟩
  · exact ⟨node, hnode, .inr hoffered⟩

theorem of_registerAll {register : NodeDataVariant env → Output → Outcome String (NodeDataVariant env)}
    (h : registerAll env register outputs.entries self.dkgNodes = .ok nodes) :
    NodesChanged (fun key node node' => ∃ output, outputs.get? key = some output ∧ register node output = .ok node') self
      { self with dkgNodes := nodes } := by
  rw [registerAll_eq_updateNodes] at h
  obtain ⟨hframe, hkeys, hnode⟩ := of_updateNodes h
  refine ⟨hframe, hkeys, fun key node' hnode' => ?_⟩
  obtain ⟨node, hold, hsame | ⟨output, houtput, hok⟩⟩ := hnode key node' hnode'
  · exact ⟨node, hold, .inl hsame⟩
  · obtain ⟨registered, hregistered, hok⟩ := bind_eq_ok.1 hok
    obtain rfl := Except.ok.inj hok
    refine ⟨node, hold, ?_⟩
    cases registered with
    | none => exact .inl rfl
    | some node' => exact .inr ⟨output, houtput, toOption_eq_some.1 hregistered⟩

theorem forall_nodes (h : NodesChanged change self after) {P : String → NodeDataVariant env → Prop}
    (hself : ∀ key node, self.dkgNodes.get? key = some node → P key node)
    (hchange : ∀ key node node', P key node → change key node node' → P key node') (key : String)
    (node' : NodeDataVariant env) (hnode' : after.dkgNodes.get? key = some node') : P key node' := by
  obtain ⟨node, hnode, rfl | hchanged⟩ := h.node key node' hnode'
  · exact hself key _ hnode
  · exact hchange key node node' (hself key node hnode) hchanged

end NodesChanged

theorem handleRound1Output_changes {i : ℕ} {outputs : HMap String Round1Output} {report : List PeerId}
    (h : self.handleRound1Output env i outputs = .ok (after, report)) :
    NodesChanged (fun key node node' => ∃ output, outputs.get? key = some output ∧
      node.registerRound1ResultFromOtherNode env self.idx i output = .ok node') self after := by
  simp only [handleRound1Output, bind_eq_ok, pure_eq_ok, Except.ok.injEq, Prod.mk.injEq] at h
  obtain ⟨nodes, hnodes, rfl, -⟩ := h
  exact .of_registerAll hnodes

theorem handleResharingRound1Output_changes {i : ℕ} {outputs : HMap String ResharingRound1Output} {report : List PeerId}
    (h : self.handleResharingRound1Output env i outputs = .ok (after, report)) :
    NodesChanged (fun key node node' => ∃ output, outputs.get? key = some output ∧
      node.registerResharingRound1ResultFromOtherNode env self.idx i output = .ok node') self after := by
  unfold handleResharingRound1Output at h
  -- an engine that does not accept the sender stays as it is
  split at h
  · obtain ⟨rfl, -⟩ := Prod.mk.inj (Except.ok.inj h)
    exact .refl _
  split at h
  · obtain ⟨rfl, -⟩ := Prod.mk.inj (Except.ok.inj h)
    exact .refl _
  simp only [bind_eq_ok, pure_eq_ok, Except.ok.injEq, Prod.mk.injEq] at h
  obtain ⟨nodes, hnodes, rfl, -⟩ := h
  exact .of_registerAll hnodes

theorem handleResharingRound1_changes {info : ElectionInfo} {isRelected : Bool}
    {rng : String → (c : CurveId) → ℕ → (env.curve c).FieldEl} {coins : String → ℕ → env.R.Coin}
    {out : Option (HMap String ResharingRound1Output) × List PeerId}
    (h : self.handleResharingRound1 env info isRelected rng coins = .ok (after, out)) :
    NodesChanged (fun _ node node' => ∃ output, node.storeOwnOutput env self.idx output = .ok node') self after := by
  unfold handleResharingRound1 at h
  split at h
  · obtain ⟨rfl, -⟩ := Prod.mk.inj (Except.ok.inj h)
    exact .refl _
  obtain ⟨dealt, -, h⟩ := bind_eq_ok.1 h
  cases dealt with
  | none =>
    obtain ⟨rfl, -⟩ := Prod.mk.inj (Except.ok.inj h)
    exact .refl _
  | some outputs =>
    simp only [bind_eq_ok, pure_eq_ok, Except.ok.injEq, Prod.mk.injEq] at h
    obtain ⟨nodes, hnodes, rfl, -⟩ := h
    cases isRelected with
    | true =>
      obtain ⟨hframe, hkeys, hnode⟩ := NodesChanged.of_updateNodes hnodes
      refine ⟨hframe, hkeys, fun key node' hnode' => ?_⟩
      obtain ⟨node, hold, hsame | ⟨output, -, hok⟩⟩ := hnode key node' hnode'
      · exact ⟨node, hold, .inl hsame⟩
      · exact ⟨node, hold, .inr ⟨output, hok⟩⟩
    | false =>
      obtain rfl := Except.ok.inj hnodes
      exact .refl _

theorem NodesChanged.takesAt {Output : Type} {register : NodeDataVariant env → Output → Outcome String (NodeDataVariant env)}
    {values : Output → HMap ℕ Bytes} {outputs : HMap String Output} {i j : ℕ}
    (hregister : ∀ {node output node'}, register node output = .ok node' → ∃ y, (values output).get? i = some y ∧
      node'.id = node.id ∧ node'.data.inputY = node.data.inputY.insert j y)
    (h : NodesChanged (fun key node node' => ∃ output, outputs.get? key = some output ∧ register node output = .ok node')
      self after) :
    TakesAt i j (fun key => (outputs.get? key).map values) self after := by
  intro key node' hnode'
  obtain ⟨node, hnode, rfl | ⟨output, houtput, hok⟩⟩ := h.node key node' hnode'
  · exact ⟨node', hnode, .inl rfl⟩
  · obtain ⟨y, hy, hid, hinput⟩ := hregister hok
    refine ⟨node, hnode, .inr ⟨values output, y, ?_, hy, hid, hinput⟩⟩
    simp only [houtput, Option.map_some]

/-- An engine takes the values for its own index, whatever the maps of the election say. -/
theorem registersAt_idx (self : DkgEngineState env) : RegistersAt self.idx self where
  dkg _ _ _ _ h := (handleRound1Output_changes h).takesAt registerOutput_eq_ok
  resharing _ _ _ _ h := (handleResharingRound1Output_changes h).takesAt registerOutput_eq_ok

end HumanNetwork
