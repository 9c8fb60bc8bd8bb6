import HumanNetwork.Dealers
import HumanNetwork.Parameters

/-!
# The threshold of a key generation (`handle_trigger_election`, `handle_trigger_init_dkg`)

The relay computes the threshold of a first election from its percentage, which `UpdateElectionParams` changes, takes it
as the `t` of its own state and gossips it with the elected provers. A prover keeps the list of the message, and
computes the threshold anew, from a percentage of its own that no message changes.

`ElectionNet` is the relay's election actor with those of the provers, the elections that were held and the key
generations that were started. `dkg_threshold_agrees_iff` says when the two thresholds are the same.
-/

namespace HumanNetwork
open Outcome

/-- What a first election gossips, with the percentage that the relay had then. -/
structure HeldElection (f64 : F64) where
  percentage : f64.Val
  info : ElectionInfo
  elected : List ProverRecord

def HeldElection.Computed {f64 : F64} (election : HeldElection f64) : Prop :=
  election.info.threshold = calculateThreshold f64 election.elected.length election.percentage

/-- What a prover hands to its engine, with the election whose list it has kept. -/
structure DkgStart (f64 : F64) where
  peerId : PeerId
  election : HeldElection f64
  idx : ℕ
  provers : QuorumMap
  threshold : ℕ

structure ElectionNet (env : ElectionEnv) where
  relay : ElectionEngine env.f64
  held : List (HeldElection env.f64)
  prover : PeerId → ElectionEngine env.f64
  accepted : PeerId → Option (HeldElection env.f64)
  starts : List (DkgStart env.f64)

/-- What an election has gossiped reaches a prover at any time, and possibly again. -/
inductive ElectionNetEvent (env : ElectionEnv) where
  | updateElectionParams (params : ElectionParams env.f64) (written : Bool × Bool × Bool)
  | firstElection (reply : FirstElectionReply)
  | restartRelay
  | proverParams (p : PeerId) (params : ElectionParams env.f64) (written : Bool × Bool × Bool)
  | checkElectedStatus (p : PeerId) (election : HeldElection env.f64)
  | triggerInitDkg (p : PeerId)
  | restartProver (p : PeerId)

namespace ElectionNet
variable {env : ElectionEnv}

def init (relayNode : PeerId) (saved : PeerId → SavedElection env.f64) : ElectionNet env where
  relay := .preStart env.f64 relayNode relayNode (saved relayNode)
  held := []
  prover p := .preStart env.f64 p relayNode (saved p)
  accepted _ := none
  starts := []

inductive Step (env : ElectionEnv) : ElectionNet env → ElectionNetEvent env → ElectionNet env → Prop
  | updateElectionParams {s params written engine} (h : s.relay.updateElectionParams params written = .ok engine) :
    Step env s (.updateElectionParams params written) { s with relay := engine }
  | firstElection {s reply engine casts info elected}
      (h : s.relay.handleTriggerElection env reply = .ok (some (engine, casts)))
      (hgossip : .gossipElectedProvers info elected ∈ casts) :
    Step env s (.firstElection reply)
      { s with relay := engine, held := ⟨s.relay.globals.threshold, info, elected⟩ :: s.held }
  | restartRelay {s} :
    Step env s .restartRelay { s with relay := .preStart env.f64 s.relay.peerId s.relay.relayNode s.relay.saved }
  | proverParams {s p params written engine} (hp : p ≠ s.relay.relayNode)
      (h : (s.prover p).updateElectionParams params written = .ok engine) :
    Step env s (.proverParams p params written) { s with prover := Function.update s.prover p engine }
  | checkElectedStatus {s p election} (hp : p ≠ s.relay.relayNode) (hheld : election ∈ s.held) :
    Step env s (.checkElectedStatus p election) { s with
      prover := Function.update s.prover p ((s.prover p).handleCheckElectedStatus election.elected).1
      accepted := Function.update s.accepted p
        (if election.elected.any fun r => r.peerId = p then some election else s.accepted p) }
  | triggerInitDkg {s p election idx provers threshold} (hp : p ≠ s.relay.relayNode)
      (haccepted : s.accepted p = some election)
      (h : .dkgInit idx p provers threshold ∈ (s.prover p).handleTriggerInitDkg) :
    Step env s (.triggerInitDkg p) { s with starts := ⟨p, election, idx, provers, threshold⟩ :: s.starts }
  | restartProver {s p} (hp : p ≠ s.relay.relayNode) :
    Step env s (.restartProver p) { s with
      prover := Function.update s.prover p
        (.preStart env.f64 (s.prover p).peerId (s.prover p).relayNode (s.prover p).saved)
      accepted := Function.update s.accepted p none }

/-- The percentage that a node starts with: the saved one, or 60. -/
def startPercentage (saved : PeerId → SavedElection env.f64) (p : PeerId) : env.f64.Val :=
  (saved p).params.threshold.getD (env.f64.ofNat 60)

/-- The relay's percentage at the election and the prover's give the same threshold. -/
def Agrees (saved : PeerId → SavedElection env.f64) (start : DkgStart env.f64) : Prop :=
  calculateThreshold env.f64 start.election.elected.length (startPercentage saved start.peerId) =
    calculateThreshold env.f64 start.election.elected.length start.election.percentage

/-! ### What stays -/

/-- A prover has the percentage that it started with, and the list of the election that it has kept. -/
structure Follows (engine : ElectionEngine env.f64) (relayNode p : PeerId) (initial : SavedElection env.f64)
    (election : Option (HeldElection env.f64)) : Prop where
  peerId : engine.peerId = p
  relayNode : engine.relayNode = relayNode
  saved : engine.saved = initial
  percentage : engine.globals.threshold = initial.params.threshold.getD (env.f64.ofNat 60)
  elected : engine.electedProvers = (election.map HeldElection.elected).getD []
  computed : ∀ e ∈ election, e.Computed

namespace Follows
variable {engine engine' : ElectionEngine env.f64} {relayNode p : PeerId} {initial : SavedElection env.f64}
  {election : Option (HeldElection env.f64)}

theorem preStart (relayNode p : PeerId) (initial : SavedElection env.f64) :
    Follows (.preStart env.f64 p relayNode initial) relayNode p initial none :=
  ⟨rfl, rfl, rfl, rfl, rfl, nofun⟩

theorem restart (h : Follows engine relayNode p initial election) :
    Follows (.preStart env.f64 engine.peerId engine.relayNode engine.saved) relayNode p initial none := by
  rw [h.peerId, h.relayNode, h.saved]
  exact .preStart relayNode p initial

theorem no_params (h : Follows engine relayNode p initial election) (hp : p ≠ relayNode)
    (params : ElectionParams env.f64) (written : Bool × Bool × Bool) :
    engine.updateElectionParams params written ≠ .ok engine' := by
  intro hok
  obtain ⟨hrelay, -⟩ := ElectionEngine.updateElectionParams_eq_ok hok
  rw [h.peerId, h.relayNode] at hrelay
  exact hp hrelay

theorem check (h : Follows engine relayNode p initial election) {held : HeldElection env.f64} (hheld : held.Computed) :
    Follows (engine.handleCheckElectedStatus held.elected).1 relayNode p initial
      (if held.elected.any fun r => r.peerId = p then some held else election) := by
  rcases engine.handleCheckElectedStatus_cases held.elected with ⟨r, hr, hrp, heq⟩ | ⟨hnone, heq⟩
  · rw [heq, if_pos (by simpa using ⟨r, hr, hrp.trans h.peerId⟩)]
    refine ⟨h.peerId, h.relayNode, h.saved, h.percentage, rfl, ?_⟩
    rintro _ ⟨⟩
    exact hheld
  · rw [heq, if_neg (by simpa [h.peerId] using hnone)]
    exact h

end Follows

structure Inv (relayNode : PeerId) (saved : PeerId → SavedElection env.f64) (s : ElectionNet env) : Prop where
  relay : s.relay.relayNode = relayNode
  prover : ∀ p, p ≠ relayNode → Follows (s.prover p) relayNode p (saved p) (s.accepted p)
  held : ∀ election ∈ s.held, election.Computed
  starts : ∀ start ∈ s.starts, start.election.Computed ∧ start.threshold =
    calculateThreshold env.f64 start.election.elected.length (startPercentage saved start.peerId)

section run
variable {relayNode : PeerId} {saved : PeerId → SavedElection env.f64} {s s' : ElectionNet env} {e : ElectionNetEvent env}

theorem inv_init (relayNode : PeerId) (saved : PeerId → SavedElection env.f64) : (init relayNode saved).Inv relayNode saved :=
  ⟨rfl, fun p _ => .preStart relayNode p (saved p), nofun, nofun⟩

theorem Inv.update (h : s.Inv relayNode saved) {p : PeerId} {engine : ElectionEngine env.f64}
    {election : Option (HeldElection env.f64)} (hfollows : Follows engine relayNode p (saved p) election) :
    Inv relayNode saved { s with
      prover := Function.update s.prover p engine, accepted := Function.update s.accepted p election } := by
  refine ⟨h.relay, fun q hq => ?_, h.held, h.starts⟩
  by_cases hqp : q = p
  · subst hqp
    simpa using hfollows
  · simpa [hqp] using h.prover q hq

theorem Inv.step (h : s.Inv relayNode saved) (hstep : Step env s e s') : s'.Inv relayNode saved := by
  obtain ⟨hrelay, hprover, hheld, hstarts⟩ := id h
  cases hstep with
  | updateElectionParams hparams =>
    obtain ⟨-, _, _, rfl⟩ := ElectionEngine.updateElectionParams_eq_ok hparams
    exact ⟨hrelay, hprover, hheld, hstarts⟩
  | firstElection helection hgossip =>
    obtain ⟨_, elected, _, -, -, hlen, rfl, rfl, rfl⟩ := ElectionEngine.handleTriggerElection_eq_ok helection
    obtain ⟨rfl, rfl⟩ : _ ∧ _ := by simpa using hgossip
    refine ⟨hrelay, hprover, ?_, hstarts⟩
    rintro election (_ | ⟨_, hmem⟩)
    · rw [HeldElection.Computed, hlen]
      rfl
    · exact hheld election hmem
  | restartRelay => exact ⟨hrelay, hprover, hheld, hstarts⟩
  | proverParams hp hparams => exact absurd hparams ((hprover _ (hrelay ▸ hp)).no_params (hrelay ▸ hp) _ _)
  | checkElectedStatus hp hmem => exact h.update ((hprover _ (hrelay ▸ hp)).check (hheld _ hmem))
  | @triggerInitDkg p election idx provers threshold hp haccepted hinit =>
    have hfollows := hprover p (hrelay ▸ hp)
    obtain ⟨-, -, hthreshold⟩ := ElectionEngine.mem_handleTriggerInitDkg hinit
    refine ⟨hrelay, hprover, hheld, ?_⟩
    rintro start (_ | ⟨_, hmem⟩)
    · refine ⟨hfollows.computed election haccepted, ?_⟩
      rw [hthreshold, hfollows.elected, hfollows.percentage, haccepted]
      rfl
    · exact hstarts start hmem
  | restartProver hp => exact h.update (hprover _ (hrelay ▸ hp)).restart

end run

/-! ### The polynomial that is dealt -/

variable {eenv : EngineEnv}

theorem length_commitments {R : Rsa} {C : Curve} {self node : Node R C} {network : Network R} {rng : ℕ → C.FieldEl}
    {coins : ℕ → R.Coin} {out : Round1Output} (h : self.processDkgRound1 network rng coins = .ok (node, out)) :
    out.2.1.length = network.threshold := by
  simp only [Node.processDkgRound1, bind_eq_ok, Prod.exists, pure_eq_ok, Except.ok.injEq, Prod.mk.injEq] at h
  obtain ⟨_, v, _, hround1, _, -, encoded, hencoded, -, rfl⟩ := h
  obtain ⟨-, rfl, -⟩ := Node.dkgRound1_ok hround1
  rw [← (mapM_eq_ok.1 hencoded).length_eq, length_feldmanCommitments, length_dkgPoly]

theorem dkgInit_threshold {p : PeerId} {idx threshold : ℕ} {sk : eenv.R.SecretKey} {elected : QuorumMap}
    {coins : NodeCoins eenv} {engine : DkgEngineState eenv}
    (h : DkgEngineState.dkgInit eenv p idx sk elected threshold coins = .ok engine) : engine.network.threshold = threshold := by
  simp only [DkgEngineState.dkgInit, bind_eq_ok, pure_eq_ok, Except.ok.injEq] at h
  obtain ⟨network, hnetwork, rfl⟩ := h
  exact (keyedNetwork_params hnetwork).1

/-- A prover starts its engine with the threshold that the relay computed and gossiped exactly when the relay's
percentage at the election and the prover's own give the same one. A polynomial of round 1, with as many coefficients as
there are commitments, has the relay's `t` of them exactly then. -/
theorem dkg_threshold_agrees_iff {relayNode : PeerId} {saved : PeerId → SavedElection env.f64} {s : ElectionNet env}
    (hrun : Reach (Step env) (fun _ _ => True) (init relayNode saved) s) {start : DkgStart env.f64}
    (hstart : start ∈ s.starts) :
    (start.threshold = start.election.info.threshold ↔ Agrees saved start) ∧
    ∀ (eenv : EngineEnv) (sk : eenv.R.SecretKey) (nodeCoins : NodeCoins eenv) (engine : DkgEngineState eenv),
      DkgEngineState.dkgInit eenv start.peerId start.idx sk start.provers start.threshold nodeCoins = .ok engine →
      ∀ (key : String) (data : NodeDataVariant eenv), engine.dkgNodes.get? key = some data →
      ∀ rng coins node out, data.data.node.processDkgRound1 engine.network rng coins = .ok (node, out) →
        out.2.1.length = (dkgPoly engine.network rng).coefficients.length ∧
        ∀ relay : Relay, out.2.1.length = (updateThreshold start.election.info relay).t ↔ Agrees saved start := by
  have hinv : s.Inv relayNode saved := hrun.invariant (inv_init relayNode saved) fun h _ hstep => h.step hstep
  obtain ⟨hcomputed, hthreshold⟩ := hinv.starts start hstart
  have hagrees : start.threshold = start.election.info.threshold ↔ Agrees saved start := by
    rw [hthreshold, hcomputed, Agrees]
  refine ⟨hagrees, fun eenv sk nodeCoins engine hengine key data hdata rng coins node out hround1 => ?_⟩
  have hlen := length_commitments hround1
  refine ⟨by rw [hlen, length_dkgPoly], fun relay => ?_⟩
  rw [hlen, dkgInit_threshold hengine]
  exact hagrees

/-! ### Four provers -/

def fourNames : List PeerId := ["boot", "relay", "a", "b", "c", "d"]

def fourProvers : List ProverRecord := threeProvers ++ [recordOf "d" 5]

def unsaved : PeerId → SavedElection exactF64 := fun _ => ⟨none, ⟨none, none, none⟩⟩

theorem run_fourProvers {percentage : ℚ} {t : ℕ} (ht : calculateThreshold exactF64 4 percentage = t) :
    ∃ s : ElectionNet openElection, Reach (Step openElection) (fun _ _ => True) (init "relay" unsaved) s ∧
      ⟨"a", ⟨percentage, ⟨t, 1, 4⟩, fourProvers⟩, 2, quorumMap fourProvers, 3⟩ ∈ s.starts := by
  subst ht
  let relay : ElectionEngine exactF64 :=
    { freshEngine "relay" with
      globals := ⟨percentage, 1, 4⟩, saved := ⟨none, ⟨some percentage, some 1, some 4⟩⟩ }
  have hparams : Step openElection (init "relay" unsaved)
      (.updateElectionParams ⟨some percentage, none, some 4⟩ (true, true, true))
      { init "relay" unsaved with relay := relay } := .updateElectionParams rfl
  have helection : relay.handleTriggerElection openElection ⟨registryOf fourNames, [fun _ => true]⟩ =
      .ok (some (_, _)) := rfl
  have hheld : Reach (Step openElection) (fun _ _ => True) (init "relay" unsaved) _ :=
    (Reach.refl.tail trivial hparams).tail trivial (.firstElection helection (List.mem_of_getElem? (i := 3) rfl))
  have hne : ("a" : PeerId) ≠ "relay" := by decide
  have haccepted := hheld.tail trivial (.checkElectedStatus hne List.mem_cons_self)
  have hown : calculateThreshold exactF64 4 (60 : ℚ) = 3 := by decide +kernel
  refine ⟨_, haccepted.tail trivial (.triggerInitDkg hne rfl ?_), List.mem_cons_self⟩
  show _ ∈ [ElectionCast.dkgInit 2 "a" (quorumMap fourProvers) (calculateThreshold exactF64 4 (60 : ℚ))]
  rw [hown]
  exact List.mem_singleton.2 rfl

theorem engine_fourProvers : ∃ (engine : DkgEngineState boxEngines) (data : NodeDataVariant boxEngines)
      (rng : ℕ → (scalarCurve data.c).FieldEl) (node : Node boxRsa (scalarCurve data.c)) (out : Round1Output),
    DkgEngineState.dkgInit boxEngines "a" 2 (0 : ℕ) (quorumMap fourProvers) 3 (fun _ => (0, 0)) = .ok engine ∧
      engine.dkgNodes.get? "OPRFSecp256k1" = some data ∧
      data.data.node.processDkgRound1 engine.network rng (fun _ => (0 : UInt8)) = .ok (node, out) :=
  ⟨_, _, fun _ => 1, _, _, rfl, rfl, rfl⟩

theorem dkg_threshold_agrees_sixty : ∃ (s : ElectionNet openElection) (start : DkgStart exactF64)
      (engine : DkgEngineState boxEngines) (data : NodeDataVariant boxEngines) (out : Round1Output),
    Reach (Step openElection) (fun _ _ => True) (init "relay" unsaved) s ∧ start ∈ s.starts ∧
    start.threshold = start.election.info.threshold ∧ engine.dkgNodes.get? "OPRFSecp256k1" = some data ∧
    out.2.1.length = (updateThreshold start.election.info RelayNode.servingNode.relay).t := by
  obtain ⟨s, hrun, hstart⟩ := @run_fourProvers (60 : ℚ) 3 (by decide +kernel)
  obtain ⟨engine, data, rng, node, out, hengine, hdata, hround1⟩ := engine_fourProvers
  obtain ⟨hthreshold, hdealt⟩ := dkg_threshold_agrees_iff hrun hstart
  have hlen := (hdealt boxEngines _ _ engine hengine _ data hdata rng _ node out hround1).2 RelayNode.servingNode.relay
  exact ⟨s, _, engine, data, out, hrun, hstart, hthreshold.2 rfl, hdata, hlen.2 rfl⟩

/-- The operator lowers the percentage to fifty. The election of four provers gives a valid `t` of two, and the provers
deal polynomials with three coefficients. -/
theorem dkg_threshold_differs : ∃ (s : ElectionNet openElection) (start : DkgStart exactF64)
      (engine : DkgEngineState boxEngines) (data : NodeDataVariant boxEngines)
      (rng : ℕ → (scalarCurve data.c).FieldEl) (node : Node boxRsa (scalarCurve data.c)) (out : Round1Output),
    Reach (Step openElection) (fun _ _ => True) (init "relay" unsaved) s ∧ start ∈ s.starts ∧
    start.election.percentage = (50 : ℚ) ∧ start.election.info = ⟨2, 1, 4⟩ ∧ start.election.info.rejection = none ∧
    start.threshold = 3 ∧
    DkgEngineState.dkgInit boxEngines start.peerId start.idx (0 : ℕ) start.provers start.threshold (fun _ => (0, 0)) =
      .ok engine ∧
    engine.dkgNodes.get? "OPRFSecp256k1" = some data ∧
    data.data.node.processDkgRound1 engine.network rng (fun _ => (0 : UInt8)) = .ok (node, out) ∧
    out.2.1.length = 3 ∧ (updateThreshold start.election.info RelayNode.servingNode.relay).t = 2 := by
  obtain ⟨s, hrun, hstart⟩ := @run_fourProvers (50 : ℚ) 2 (by decide +kernel)
  obtain ⟨engine, data, rng, node, out, hengine, hdata, hround1⟩ := engine_fourProvers
  have hvalid : (ElectionInfo.mk 2 1 4).rejection = none :=
    ElectionInfo.rejection_eq_none.2 ⟨by decide, by decide, by decide, by decide⟩
  have hlen : out.2.1.length = 3 := by rw [length_commitments hround1, dkgInit_threshold hengine]
  exact ⟨s, _, engine, data, rng, node, out, hrun, hstart, rfl, rfl, hvalid, rfl, hengine, hdata, hround1, hlen, rfl⟩

end ElectionNet

end HumanNetwork
