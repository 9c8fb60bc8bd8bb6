import HumanNetwork.DkgRounds

/-!
# The keys of an engine do not interfere (`dkg_engine_actor.rs`)

The engine of a prover generates a key for each method, and a dealer sends what it deals for all of them in one message.
Of all the messages, round 2 of a key reads the last well-formed output for it under each index (`lastDealt`), one that
has a value for the prover and commitments that decode. `DealtRun` is round 1 with the messages in any order and the own
dealing at any time. What else the messages have, and in which order the dealers come, changes neither the share nor the
group key (`round2_eq_of_lastDealt`).
-/

namespace HumanNetwork
open Outcome DkgEngineState

variable {env : EngineEnv}

/-- What the dealing has for the node `i` of a key on the curve `c`: the value for it and the commitments, if the value is
there and the commitments decode. -/
def Dealing.wellFormed (env : EngineEnv) (c : CurveId) (i : ℕ) (key : String) (dealing : Dealing) :
    Option (Bytes × List (env.curve c).Point) := do
  let (yValues, vValues) ← dealing.offer key
  let v ← (vValues.mapM (env.curve c).fromEncoded).result?
  let y ← yValues.get? i
  return (y, v)

def lastDealt (env : EngineEnv) (c : CurveId) (i : ℕ) (key : String) (dealings : List Dealing) (j : ℕ) :
    Option (Bytes × List (env.curve c).Point) :=
  dealings.reverse.findSome? fun dealing => if dealing.idx = j then dealing.wellFormed env c i key else none

namespace DkgEngineState

/-- Round 1 of a key generation in an engine: the outputs of the dealers as they come, and the own round at any time. -/
inductive DealtRun (start : DkgEngineState env) : List Dealing → DkgEngineState env → Prop
  | start : DealtRun start [] start
  | output {dealings self idx outputs after report} (h : DealtRun start dealings self)
      (hstep : self.handleRound1Output env idx outputs = .ok (after, report)) :
    DealtRun start (dealings ++ [.ofRound1 idx outputs]) after
  | own {dealings self rng coins after out} (h : DealtRun start dealings self)
      (hstep : self.handleRound1 rng coins = .ok (after, out)) :
    DealtRun start dealings after

end DkgEngineState

/-! ### What is stored -/

section last
variable {c : CurveId} {i : ℕ} {key : String} {dealing : Dealing} {dealings : List Dealing}

theorem lastDealt_append (dealings dealings' : List Dealing) (j : ℕ) : lastDealt env c i key (dealings ++ dealings') j =
    (lastDealt env c i key dealings' j).or (lastDealt env c i key dealings j) := by
  rw [lastDealt, List.reverse_append, List.findSome?_append, lastDealt, lastDealt]

theorem lastDealt_singleton (j : ℕ) : lastDealt env c i key [dealing] j =
    if dealing.idx = j then dealing.wellFormed env c i key else none := by
  rw [lastDealt, List.reverse_singleton, List.findSome?_singleton]

theorem lastDealt_of_malformed (h : dealing.wellFormed env c i key = none) (dealings dealings' : List Dealing)
    (j : ℕ) :
    lastDealt env c i key (dealings ++ [dealing] ++ dealings') j = lastDealt env c i key (dealings ++ dealings') j := by
  rw [lastDealt_append, lastDealt_append, lastDealt_singleton, h, ite_self, Option.none_or, ← lastDealt_append]

theorem lastDealt_swap {dealing' : Dealing} (h : dealing.idx ≠ dealing'.idx) (dealings dealings' : List Dealing) (j : ℕ) :
    lastDealt env c i key (dealings ++ [dealing, dealing'] ++ dealings') j =
      lastDealt env c i key (dealings ++ [dealing', dealing] ++ dealings') j := by
  have hpair (d d' : Dealing) : lastDealt env c i key [d, d'] j =
      (lastDealt env c i key [d'] j).or (lastDealt env c i key [d] j) := lastDealt_append [d] [d'] j
  have hswap : lastDealt env c i key [dealing, dealing'] j = lastDealt env c i key [dealing', dealing] j := by
    rw [hpair, hpair, lastDealt_singleton, lastDealt_singleton]
    by_cases hj : dealing.idx = j
    · rw [if_neg fun hj' => h (hj.trans hj'.symm), Option.none_or, Option.or_none]
    · rw [if_neg hj, Option.none_or, Option.or_none]
  simp only [lastDealt_append, hswap]

theorem wellFormed_eq_some {offer : HMap ℕ Bytes × List Bytes} (hoffer : dealing.offer key = some offer) {y : Bytes}
    {v : List (env.curve c).Point} : dealing.wellFormed env c i key = some (y, v) ↔
      offer.1.get? i = some y ∧ offer.2.mapM (env.curve c).fromEncoded = .ok v := by
  simp only [Dealing.wellFormed, hoffer, Option.bind_eq_bind, Option.bind_some, Option.bind_eq_some_iff, result?_eq_some,
    Option.pure_def, Option.some.injEq, Prod.mk.injEq]
  constructor
  · rintro ⟨_, hv, _, hy, rfl, rfl⟩
    exact ⟨hy, hv⟩
  · rintro ⟨hy, hv⟩
    exact ⟨v, hv, y, hy, rfl, rfl⟩

theorem get?_insert_last {V : Type} (f : Bytes × List (env.curve c).Point → V) {m m₀ : HMap ℕ V}
    (hm : ∀ j, m.get? j = ((lastDealt env c i key dealings j).map f).or (m₀.get? j))
    {dealt : Bytes × List (env.curve c).Point} (hsome : dealing.wellFormed env c i key = some dealt) (j : ℕ) :
    (m.insert dealing.idx (f dealt)).get? j =
      ((lastDealt env c i key (dealings ++ [dealing]) j).map f).or (m₀.get? j) := by
  rw [HMap.get?_insert, lastDealt_append, lastDealt_singleton, hsome, hm]
  by_cases hj : j = dealing.idx
  · rw [if_pos hj, if_pos hj.symm]
    rfl
  · rw [if_neg hj, if_neg (Ne.symm hj), Option.none_or]

end last

/-- A node after a run of round 1: it has what is last under each index, or what it had there before. -/
structure NodeData.Heard {R : Rsa} {C : Curve} (last : ℕ → Option (Bytes × List C.Point)) (data₀ data : NodeData R C) :
    Prop where
  rsaSeckey : data.node.rsaSeckey = data₀.node.rsaSeckey
  inputY : ∀ j, data.inputY.get? j = ((last j).map Prod.fst).or (data₀.inputY.get? j)
  inputV : ∀ j, data.inputV.get? j = ((last j).map Prod.snd).or (data₀.inputV.get? j)

def DkgEngineState.Heard (start : DkgEngineState env) (dealings : List Dealing) (key : String) (node : NodeDataVariant env) :
    Prop :=
  ∃ data₀, start.dkgNodes.get? key = some ⟨node.c, data₀⟩ ∧
    NodeData.Heard (lastDealt env node.c start.idx key dealings) data₀ node.data

section heard
variable {start self after : DkgEngineState env} {dealings : List Dealing} {dealing : Dealing} {key : String}
  {node node' : NodeDataVariant env}

namespace DkgEngineState

theorem Heard.skip (h : start.Heard dealings key node) (hnone : dealing.wellFormed env node.c start.idx key = none) :
    start.Heard (dealings ++ [dealing]) key node := by
  obtain ⟨data₀, hstart, hheard⟩ := h
  refine ⟨data₀, hstart, hheard.rsaSeckey, fun j => ?_, fun j => ?_⟩
  · rw [lastDealt_append, lastDealt_singleton, hnone, ite_self, Option.none_or]
    exact hheard.inputY j
  · rw [lastDealt_append, lastDealt_singleton, hnone, ite_self, Option.none_or]
    exact hheard.inputV j

theorem Heard.insert (h : start.Heard dealings key node) {y : Bytes} {v : List (env.curve node.c).Point}
    (hsome : dealing.wellFormed env node.c start.idx key = some (y, v)) :
    start.Heard (dealings ++ [dealing]) key ⟨node.c, { node.data with
      inputY := node.data.inputY.insert dealing.idx y, inputV := node.data.inputV.insert dealing.idx v }⟩ := by
  obtain ⟨data₀, hstart, hheard⟩ := h
  exact ⟨data₀, hstart, hheard.rsaSeckey, get?_insert_last Prod.fst hheard.inputY hsome,
    get?_insert_last Prod.snd hheard.inputV hsome⟩

theorem Heard.registerOutput (h : start.Heard dealings key node) {missing : String} {offer : HMap ℕ Bytes × List Bytes}
    (hoffer : dealing.offer key = some offer) {registered : Option (NodeDataVariant env)}
    (hok : (toOption (node.registerOutput env missing start.idx dealing.idx offer.1 offer.2) : Outcome EngineError _) =
      .ok registered) : start.Heard (dealings ++ [dealing]) key (registered.getD node) := by
  rcases NodeDataVariant.registered_cases hok with ⟨y, v, hy, hv, heq⟩ | ⟨hcannot, heq⟩
  · rw [heq]
    exact h.insert ((wellFormed_eq_some hoffer).2 ⟨hy, hv⟩)
  · rw [heq]
    refine h.skip (Option.eq_none_iff_forall_not_mem.2 ?_)
    rintro ⟨y, v⟩ hsome
    exact hcannot ⟨y, v, (wellFormed_eq_some hoffer).1 hsome⟩

theorem Heard.handleRound1Output (hidx : self.idx = start.idx)
    (hself : ∀ key node, self.dkgNodes.get? key = some node → start.Heard dealings key node) {idx : ℕ}
    {outputs : HMap String Round1Output} {report : List PeerId}
    (h : self.handleRound1Output env idx outputs = .ok (after, report)) :
    after.idx = start.idx ∧ ∀ key node', after.dkgNodes.get? key = some node' →
      start.Heard (dealings ++ [.ofRound1 idx outputs]) key node' := by
  simp only [DkgEngineState.handleRound1Output, bind_eq_ok, pure_eq_ok, Except.ok.injEq, Prod.mk.injEq] at h
  obtain ⟨nodes, hnodes, rfl, -⟩ := h
  rw [registerAll_eq_updateNodes] at hnodes
  refine ⟨hidx, fun key node' hnode' => ?_⟩
  obtain ⟨node, hnode, ⟨hnone, rfl⟩ | ⟨output, houtput, hok⟩⟩ := updateNodes_output hnodes hnode'
  · refine (hself key _ hnode).skip ?_
    rw [Dealing.wellFormed, Dealing.ofRound1, offer_ofOutputs_eq_none _ hnone]
    rfl
  · obtain ⟨registered, hregistered, hok⟩ := bind_eq_ok.1 hok
    obtain rfl := Except.ok.inj hok
    rw [hidx] at hregistered
    have hoffer : (Dealing.ofRound1 idx outputs).offer key = some (output.1, output.2.1) := offer_ofOutputs _ houtput
    exact (hself key node hnode).registerOutput hoffer hregistered

theorem Heard.dkgRound1 (h : start.Heard dealings key node) {network : Network env.R}
    {rng : (c : CurveId) → ℕ → (env.curve c).FieldEl} {coins : ℕ → env.R.Coin} {output : Round1Output}
    (hok : node.dkgRound1 network rng coins = .ok (node', output)) : start.Heard dealings key node' := by
  simp only [NodeDataVariant.dkgRound1, bind_eq_ok, pure_eq_ok, Except.ok.injEq, Prod.mk.injEq] at hok
  obtain ⟨⟨dealt, _⟩, hdealt, rfl, -⟩ := hok
  obtain ⟨data₀, hstart, hheard⟩ := h
  obtain ⟨-, hsk, -⟩ := Node.processDkgRound1_frame hdealt
  exact ⟨data₀, hstart, hsk.trans hheard.rsaSeckey, hheard.inputY, hheard.inputV⟩

theorem DealtRun.heard (h : DealtRun start dealings self) :
    self.idx = start.idx ∧ ∀ key node, self.dkgNodes.get? key = some node → start.Heard dealings key node := by
  induction h with
  | start => exact ⟨rfl, fun key node hnode => ⟨node.data, hnode, rfl, fun _ => rfl, fun _ => rfl⟩⟩
  | output _ hstep ih => exact Heard.handleRound1Output ih.1 ih.2 hstep
  | @own _ self _ _ _ out _ hstep ih =>
    obtain ⟨outputs, report⟩ := out
    obtain ⟨nodes, hround1, rfl⟩ := handleRound1_eq_ok hstep
    refine ⟨ih.1, (runRound1_forall (fun hheard hdealt => hheard.dkgRound1 hdealt) (fun e he => ?_) ih.2 hround1).2⟩
    exact ih.2 e.1 e.2 (HMap.get?_eq_some.2 he)

end DkgEngineState
end heard

/-! ### Round 2 -/

section round2
variable {R : Rsa} {C : Curve} {self self' : Node R C} {inputY inputY' : HMap ℕ Bytes}
  {inputV inputV' : HMap ℕ (List C.Point)}

theorem foldl_add_congr {y y' : HMap ℕ C.FieldEl} (h : ∀ j, y.get? j = y'.get? j) (init : C.FieldEl) :
    y.values.foldl (· + ·) init = y'.values.foldl (· + ·) init :=
  ((HMap.perm_of_get?_eq h).map Prod.snd).foldl_eq init

theorem sumFreeTerms_congr {ε : Type} {t : ℕ} (ht : 0 < t) (hV : ∀ j, inputV.get? j = inputV'.get? j)
    (hlen : ∀ j v, inputV.get? j = some v → v.length = t) (init : C.Point) :
    (sumFreeTerms inputV init : Outcome ε C.Point) = sumFreeTerms inputV' init := by
  let head (j : ℕ) : C.Point := ((inputV.get? j).bind fun v => v[0]?).getD 0
  have hhead : ∀ j v, inputV.get? j = some v → v[0]? = some (head j) := by
    intro j v hv
    have hpos : 0 < v.length := hlen j v hv ▸ ht
    have hfirst : v[0]? = some v[0] := List.getElem?_eq_getElem hpos
    simp only [head, hv, Option.bind_some, hfirst, Option.getD_some]
  have hhead' : ∀ j v, inputV'.get? j = some v → v[0]? = some (head j) := by
    intro j v hv
    exact hhead j v (by rw [hV, hv])
  have hkeys : inputV.keys.Perm inputV'.keys := (HMap.perm_of_get?_eq hV).map Prod.fst
  rw [sumFreeTerms_eq_ok hhead, sumFreeTerms_eq_ok hhead', (hkeys.map head).sum_eq]

/-- What round 2 computes depends on the RSA key of the node, its own dealing and the inputs under each index. -/
theorem Node.dkgRound2_congr {prof : Profile} {network network' : Network R} {out out' : C.FieldEl × C.Point × C.Point}
    (hsk : self.rsaSeckey = self'.rsaSeckey) (hpub : self.initPubShare = self'.initPubShare)
    (hown : self.ownPartialShare = self'.ownPartialShare) (hY : ∀ j, inputY.get? j = inputY'.get? j)
    (hV : ∀ j, inputV.get? j = inputV'.get? j) (h : self.dkgRound2 prof network inputY inputV = .ok out)
    (h' : self'.dkgRound2 prof network' inputY' inputV' = .ok out') : out = out' := by
  simp only [dkgRound2, bind_eq_ok, pure_eq_ok, Except.ok.injEq] at h h'
  obtain ⟨_, -, _, hchecked, y, hy, _, -, K, hK, _, -, rfl⟩ := h
  obtain ⟨_, -, _, -, y', hy', _, -, K', hK', _, -, rfl⟩ := h'
  have hlen : ∀ j v, inputV.get? j = some v → v.length = network.threshold := by
    intro j v hv
    have hmem : v ∈ inputV.values := List.mem_map.2 ⟨(j, v), HMap.get?_eq_some.1 hv, rfl⟩
    exact check_eq_ok.1 (forM_eq_ok.1 hchecked v hmem)
  have hsame : ∀ j, y.get? j = y'.get? j := by
    intro j
    rw [HMap.get?_mapValM hy, HMap.get?_mapValM hy', hY, hsk]
  rw [sumFreeTerms_congr network.threshold_pos hV hlen, hpub, hK'] at hK
  obtain rfl := Except.ok.inj hK
  rw [foldl_add_congr hsame, hown]

end round2

/-! ### Engines -/

section engines
variable {prof : Profile} {start self self' after after' : DkgEngineState env} {dealings dealings' : List Dealing}
  {pubshares pubshares' : HMap String Bytes} {report report' : List PeerId} {key : String} {c : CurveId}
  {data data' : NodeData env.R (env.curve c)}

theorem handleRound2_node (h : self.handleRound2 prof = .ok (after, some pubshares, report))
    (hnode : self.dkgNodes.get? key = some ⟨c, data⟩) : ∃ share pubshare networkPubkey encoded,
      data.node.dkgRound2 prof self.network data.inputY data.inputV = .ok (share, pubshare, networkPubkey) ∧
      (env.curve c).encode pubshare = some encoded ∧ pubshares.get? key = some encoded ∧
      after.dkgNodes.get? key = some ⟨c, { data with
        node := { data.node with privateShare := share, networkPubkey := networkPubkey }
        otherPubshares := data.otherPubshares.insert data.node.id pubshare }⟩ := by
  unfold DkgEngineState.handleRound2 at h
  split at h
  · cases h
  · simp only [bind_eq_ok, pure_eq_ok, Except.ok.injEq, Prod.mk.injEq, Option.some.injEq] at h
    obtain ⟨outputs, houtputs, rfl, rfl, -⟩ := h
    obtain ⟨⟨node', encoded⟩, hout, hround2⟩ := HMap.exists_of_mapValM houtputs hnode
    simp only [NodeDataVariant.dkgRound2, bind_eq_ok, Prod.exists, pure_eq_ok, Except.ok.injEq, Prod.mk.injEq,
      unwrap_eq_ok] at hround2
    obtain ⟨share, pubshare, networkPubkey, hround2, _, hencode, rfl, rfl⟩ := hround2
    refine ⟨share, pubshare, networkPubkey, _, hround2, hencode, ?_, ?_⟩
    · rw [HMap.get?_mapVal, hout]
      rfl
    · rw [HMap.get?_mapVal, hout]
      rfl

/-- Two runs of round 1 from one state, with the own dealing of the node the same and under each index the same last
well-formed output for the key: if round 2 runs and succeeds after both, it computes the same share and the same group
key, and the node publishes the same public share. Nothing is said of the other entries of the messages, nor of their
order. -/
theorem round2_eq_of_lastDealt (hrun : DealtRun start dealings self) (hrun' : DealtRun start dealings' self')
    (hnode : self.dkgNodes.get? key = some ⟨c, data⟩) (hnode' : self'.dkgNodes.get? key = some ⟨c, data'⟩)
    (hown : data.node.ownPartialShare = data'.node.ownPartialShare ∧ data.node.initPubShare = data'.node.initPubShare)
    (hlast : ∀ j, lastDealt env c start.idx key dealings j = lastDealt env c start.idx key dealings' j)
    (hround2 : self.handleRound2 prof = .ok (after, some pubshares, report))
    (hround2' : self'.handleRound2 prof = .ok (after', some pubshares', report')) :
    ∃ result result' : NodeData env.R (env.curve c),
      after.dkgNodes.get? key = some ⟨c, result⟩ ∧ after'.dkgNodes.get? key = some ⟨c, result'⟩ ∧
      result.node.privateShare = result'.node.privateShare ∧ result.node.networkPubkey = result'.node.networkPubkey ∧
      pubshares.get? key = pubshares'.get? key := by
  obtain ⟨data₀, hstart, hheard⟩ := hrun.heard.2 key _ hnode
  obtain ⟨data₀', hstart', hheard'⟩ := hrun'.heard.2 key _ hnode'
  obtain rfl : data₀ = data₀' := by
    cases hstart.symm.trans hstart'
    rfl
  obtain ⟨share, pubshare, networkPubkey, encoded, hok, hencode, hpub, hafter⟩ := handleRound2_node hround2 hnode
  obtain ⟨share', pubshare', networkPubkey', encoded', hok', hencode', hpub', hafter'⟩ := handleRound2_node hround2' hnode'
  have hsame : (share, pubshare, networkPubkey) = (share', pubshare', networkPubkey') := by
    have hsk := hheard.rsaSeckey.trans hheard'.rsaSeckey.symm
    refine Node.dkgRound2_congr hsk hown.2 hown.1 (fun j => ?_) (fun j => ?_) hok hok'
    · rw [hheard.inputY, hheard'.inputY, hlast]
    · rw [hheard.inputV, hheard'.inputV, hlast]
  simp only [Prod.mk.injEq] at hsame
  obtain ⟨rfl, rfl, rfl⟩ := hsame
  refine ⟨_, _, hafter, hafter', rfl, rfl, ?_⟩
  rw [hpub, hpub', ← hencode, ← hencode']

end engines

/-! ### Two orders of the messages -/

def otherOutput (p : PeerId) (idx : ℕ) (key : String) : Option Round1Output := do
  let engine ← boxEngine p idx
  let (_, outputs, _) ← (engine.handleRound1 (fun _ _ _ => 1 + 1) (fun _ _ => (0 : UInt8))).result?
  (← outputs).get? key

def secpNode (engine : DkgEngineState boxEngines) (key : String) :
    Option (NodeData boxEngines.R (boxEngines.curve .secp256k1)) :=
  match engine.dkgNodes.get? key with
  | some ⟨.secp256k1, data⟩ => some data
  | _ => none

theorem secpNode_eq_some {engine : DkgEngineState boxEngines} {key : String}
    {data : NodeData boxEngines.R (boxEngines.curve .secp256k1)} (h : secpNode engine key = some data) :
    engine.dkgNodes.get? key = some ⟨.secp256k1, data⟩ := by
  unfold secpNode at h
  split at h
  next heq => rw [heq, Option.some.inj h]
  next => cases h

section runs
variable {start self : DkgEngineState boxEngines} {outputs₃ outputs₄ : HMap String Round1Output}

def inOrder (start : DkgEngineState boxEngines) (outputs₃ outputs₄ : HMap String Round1Output) :
    Option (DkgEngineState boxEngines) := do
  let (dealt, _) ← (start.handleRound1 (fun _ _ _ => 1) (fun _ _ => (0 : UInt8))).result?
  let (got₃, _) ← (dealt.handleRound1Output boxEngines 3 outputs₃).result?
  let (got₄, _) ← (got₃.handleRound1Output boxEngines 4 outputs₄).result?
  return got₄

theorem dealtRun_inOrder (h : inOrder start outputs₃ outputs₄ = some self) :
    DealtRun start [.ofRound1 3 outputs₃, .ofRound1 4 outputs₄] self := by
  simp only [inOrder, Option.bind_eq_bind, Option.bind_eq_some_iff, result?_eq_some, Prod.exists, Option.pure_def,
    Option.some.injEq] at h
  obtain ⟨dealt, _, _, hdealt, got₃, _, hgot₃, _, _, hgot₄, rfl⟩ := h
  exact .output (.output (.own .start hdealt) hgot₃) hgot₄

/-- It gets an output of `b` that has no value for it and the one of `c`, deals, and gets one of `b` again. -/
def outOfOrder (start : DkgEngineState boxEngines) (outputs₃ outputs₄ : HMap String Round1Output) :
    Option (DkgEngineState boxEngines) := do
  let (missed, _) ← (start.handleRound1Output boxEngines 3 (valuesFor 9)).result?
  let (got₄, _) ← (missed.handleRound1Output boxEngines 4 outputs₄).result?
  let (dealt, _) ← (got₄.handleRound1 (fun _ _ _ => 1) (fun _ _ => (0 : UInt8))).result?
  let (got₃, _) ← (dealt.handleRound1Output boxEngines 3 outputs₃).result?
  return got₃

theorem dealtRun_outOfOrder (h : outOfOrder start outputs₃ outputs₄ = some self) :
    DealtRun start [.ofRound1 3 (valuesFor 9), .ofRound1 4 outputs₄, .ofRound1 3 outputs₃] self := by
  simp only [outOfOrder, Option.bind_eq_bind, Option.bind_eq_some_iff, result?_eq_some, Prod.exists, Option.pure_def,
    Option.some.injEq] at h
  obtain ⟨missed, _, hmissed, got₄, _, hgot₄, dealt, _, _, hdealt, _, _, hgot₃, rfl⟩ := h
  exact .output (.own (.output (.output .start hmissed) hgot₄) hdealt) hgot₃

/-- The order does not count, nor the first output, nor the entries under other keys. -/
theorem lastDealt_outOfOrder (outputs₃ outputs₄ : HMap String Round1Output) (other : Round1Output) (j : ℕ) :
    lastDealt boxEngines .secp256k1 2 "OPRFSecp256k1" [.ofRound1 3 outputs₃, .ofRound1 4 outputs₄] j =
      lastDealt boxEngines .secp256k1 2 "OPRFSecp256k1" [.ofRound1 3 (valuesFor 9), .ofRound1 4 outputs₄,
        .ofRound1 3 (outputs₃.insert "DecryptBabyJubjub" other)] j := by
  have hmissed : (Dealing.ofRound1 3 (valuesFor 9)).wellFormed boxEngines .secp256k1 2 "OPRFSecp256k1" = none := rfl
  have hother : (Dealing.ofRound1 3 (outputs₃.insert "DecryptBabyJubjub" other)).wellFormed boxEngines .secp256k1 2
      "OPRFSecp256k1" = (Dealing.ofRound1 3 outputs₃).wellFormed boxEngines .secp256k1 2 "OPRFSecp256k1" := by
    simp only [Dealing.wellFormed, Dealing.ofRound1, Dealing.ofOutputs]
    rw [HMap.get?_insert_of_ne _ _ (by decide)]
  have hlast : ∀ j, lastDealt boxEngines .secp256k1 2 "OPRFSecp256k1" [.ofRound1 3 outputs₃] j =
      lastDealt boxEngines .secp256k1 2 "OPRFSecp256k1" [.ofRound1 3 (outputs₃.insert "DecryptBabyJubjub" other)] j := by
    intro j
    rw [lastDealt_singleton, lastDealt_singleton, hother]
    rfl
  calc lastDealt boxEngines .secp256k1 2 "OPRFSecp256k1" [.ofRound1 3 outputs₃, .ofRound1 4 outputs₄] j
    _ = lastDealt boxEngines .secp256k1 2 "OPRFSecp256k1" ([.ofRound1 4 outputs₄] ++ [.ofRound1 3 outputs₃]) j :=
      lastDealt_swap (show 3 ≠ 4 by decide) [] [] j
    _ = lastDealt boxEngines .secp256k1 2 "OPRFSecp256k1"
          ([.ofRound1 4 outputs₄] ++ [.ofRound1 3 (outputs₃.insert "DecryptBabyJubjub" other)]) j := by
      rw [lastDealt_append, lastDealt_append, hlast]
    _ = _ := (lastDealt_of_malformed hmissed [] _ j).symm

end runs

def twoRuns : Option Unit := do
  let start ← boxEngine "a" 2
  let (_, outputs₃) ← boxDealt "b" 3
  let (_, outputs₄) ← boxDealt "c" 4
  let other ← otherOutput "b" 3 "DecryptBabyJubjub"
  let self ← inOrder start outputs₃ outputs₄
  let self' ← outOfOrder start (outputs₃.insert "DecryptBabyJubjub" other) outputs₄
  let data ← secpNode self "OPRFSecp256k1"
  let data' ← secpNode self' "OPRFSecp256k1"
  let (_, pubshares, _) ← (self.handleRound2 .release).result?
  let (_, pubshares', _) ← (self'.handleRound2 .release).result?
  guard (start.idx = 2 ∧ pubshares.isSome ∧ pubshares'.isSome ∧
    data.node.ownPartialShare = data'.node.ownPartialShare ∧ data.node.initPubShare = data'.node.initPubShare)

theorem round2_eq_of_lastDealt_three : ∃ (start self self' after after' : DkgEngineState boxEngines)
    (outputs₃ outputs₄ : HMap String Round1Output) (other : Round1Output) (pubshares pubshares' : HMap String Bytes)
    (report report' : List PeerId) (result result' : NodeData boxEngines.R (boxEngines.curve .secp256k1)),
    DealtRun start [.ofRound1 3 outputs₃, .ofRound1 4 outputs₄] self ∧
    DealtRun start [.ofRound1 3 (valuesFor 9), .ofRound1 4 outputs₄,
      .ofRound1 3 (outputs₃.insert "DecryptBabyJubjub" other)] self' ∧
    self.handleRound2 .release = .ok (after, some pubshares, report) ∧
    self'.handleRound2 .release = .ok (after', some pubshares', report') ∧
    after.dkgNodes.get? "OPRFSecp256k1" = some ⟨.secp256k1, result⟩ ∧
    after'.dkgNodes.get? "OPRFSecp256k1" = some ⟨.secp256k1, result'⟩ ∧
    result.node.privateShare = result'.node.privateShare ∧ result.node.networkPubkey = result'.node.networkPubkey := by
  have hruns : twoRuns = some () := by decide +kernel
  unfold twoRuns at hruns
  obtain ⟨start, -, hruns⟩ := Option.bind_eq_some_iff.1 hruns
  obtain ⟨⟨_, outputs₃⟩, -, hruns⟩ := Option.bind_eq_some_iff.1 hruns
  obtain ⟨⟨_, outputs₄⟩, -, hruns⟩ := Option.bind_eq_some_iff.1 hruns
  obtain ⟨other, -, hruns⟩ := Option.bind_eq_some_iff.1 hruns
  obtain ⟨self, hself, hruns⟩ := Option.bind_eq_some_iff.1 hruns
  obtain ⟨self', hself', hruns⟩ := Option.bind_eq_some_iff.1 hruns
  obtain ⟨data, hdata, hruns⟩ := Option.bind_eq_some_iff.1 hruns
  obtain ⟨data', hdata', hruns⟩ := Option.bind_eq_some_iff.1 hruns
  obtain ⟨⟨after, pubshares, report⟩, hround2, hruns⟩ := Option.bind_eq_some_iff.1 hruns
  obtain ⟨⟨after', pubshares', report'⟩, hround2', hruns⟩ := Option.bind_eq_some_iff.1 hruns
  obtain ⟨hidx, hsome, hsome', hown⟩ := (Option.guard_eq_some' _).1 hruns
  obtain ⟨pubshares, rfl⟩ := Option.isSome_iff_exists.1 hsome
  obtain ⟨pubshares', rfl⟩ := Option.isSome_iff_exists.1 hsome'
  rw [result?_eq_some] at hround2 hround2'
  have hlast : ∀ j, lastDealt boxEngines .secp256k1 start.idx _ _ j = _ := fun j =>
    hidx ▸ lastDealt_outOfOrder outputs₃ outputs₄ other j
  obtain ⟨result, result', hafter, hafter', hshare, hkey, -⟩ := round2_eq_of_lastDealt (dealtRun_inOrder hself)
    (dealtRun_outOfOrder hself') (secpNode_eq_some hdata) (secpNode_eq_some hdata') hown hlast hround2 hround2'
  exact ⟨start, self, self', after, after', outputs₃, outputs₄, other, pubshares, pubshares', report, report',
    result, result', dealtRun_inOrder hself, dealtRun_outOfOrder hself', hround2, hround2', hafter, hafter', hshare, hkey⟩

end HumanNetwork
