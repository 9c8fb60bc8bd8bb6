import HumanNetwork.DkgRounds

/-!
# The attempts of a key generation (`handle_dkg_init`, `monitor_quorum_formation`)

When a key generation takes too long, the relay's monitor starts another one with a first election, and each elected node
makes a new engine. What the nodes gossip in rounds 1 and 2 names the index of the sender and not the attempt, and an
engine takes what arrives. `SessionNet` is the nodes with what has been gossiped so far, any of which may reach a node
at any time.

A node has what its dealers produced in its own attempt, as long as nothing of another attempt reaches it after its
initialisation (`session_separated`).
-/

namespace HumanNetwork
open Outcome DkgEngineState

inductive SessionMessage where
  | round1Out (idx : ℕ) (outputs : HMap String Round1Output)
  | round2Out (idx : ℕ) (pubshares : HMap String Bytes)

def SessionMessage.idx : SessionMessage → ℕ
  | .round1Out idx _ | .round2Out idx _ => idx

/-- A message with the node that has gossiped it and the attempt in which the node was then. -/
structure Sent where
  attempt : ℕ
  dealer : PeerId
  message : SessionMessage

inductive SessionEvent where
  | init (p : PeerId) (attempt : ℕ)
  | round1 (p : PeerId)
  | round2 (p : PeerId)
  | round3 (p : PeerId)
  | deliver (p : PeerId) (m : Sent)
  | stop (p : PeerId)

/-- `attempt` is the one for which a node was initialised last. -/
structure SessionNet (env : EngineEnv) where
  attempt : PeerId → ℕ
  engine : PeerId → Option (DkgEngineState env)
  sent : List Sent

variable {env : EngineEnv}

namespace SessionNet

def init : SessionNet env := ⟨fun _ => 0, fun _ => none, []⟩

def act (s : SessionNet env) (p : PeerId) (engine : DkgEngineState env) (gossip : List SessionMessage) : SessionNet env :=
  { s with
    engine := Function.update s.engine p (some engine)
    sent := gossip.map (fun message => ⟨s.attempt p, p, message⟩) ++ s.sent }

/-- The nodes of an attempt are initialised with its quorum. An error or a panic stops the actor. -/
inductive Step (prof : Profile) (quorum : ℕ → QuorumMap) : SessionNet env → SessionEvent → SessionNet env → Prop
  | init {s p attempt sk threshold coins r idx engine} (hentry : (quorum attempt).get? p = some (r, idx))
      (h : dkgInit env p idx sk (quorum attempt) threshold coins = .ok engine) :
    Step prof quorum s (.init p attempt)
      { s with
        attempt := Function.update s.attempt p attempt
        engine := Function.update s.engine p (some engine) }
  | round1 {s p self rng coins after outputs report} (hself : s.engine p = some self)
      (h : self.handleRound1 rng coins = .ok (after, outputs, report)) :
    Step prof quorum s (.round1 p) (s.act p after (outputs.toList.map (.round1Out self.idx)))
  | round1Out {s p self m idx outputs after report} (hself : s.engine p = some self) (hsent : m ∈ s.sent)
      (hm : m.message = .round1Out idx outputs) (h : self.handleRound1Output env idx outputs = .ok (after, report)) :
    Step prof quorum s (.deliver p m) (s.act p after [])
  | round2 {s p self after pubshares report} (hself : s.engine p = some self)
      (h : self.handleRound2 prof = .ok (after, pubshares, report)) :
    Step prof quorum s (.round2 p) (s.act p after (pubshares.toList.map (.round2Out self.idx)))
  | round2Out {s p self m idx pubshares after report} (hself : s.engine p = some self) (hsent : m ∈ s.sent)
      (hm : m.message = .round2Out idx pubshares) (h : self.handleStoreReceivedPubshare idx pubshares = .ok (after, report)) :
    Step prof quorum s (.deliver p m) (s.act p after [])
  | round3 {s p self after out} (hself : s.engine p = some self) (h : self.handleRound3 false = .ok (after, out)) :
    Step prof quorum s (.round3 p) (s.act p after [])
  | stop {s p} : Step prof quorum s (.stop p) { s with engine := Function.update s.engine p none }

/-- What reaches a node was gossiped in the attempt in which the node is. -/
def Fresh (s : SessionNet env) : SessionEvent → Prop
  | .deliver p m => m.attempt = s.attempt p
  | _ => True

end SessionNet

/-! ### What a node has of an attempt -/

def Sent.Deals (m : Sent) (C : Curve) (key : String) (j i : ℕ) (y : Bytes) (v : List C.Point) : Prop :=
  ∃ outputs output, m.message = .round1Out j outputs ∧ outputs.get? key = some output ∧ output.1.get? i = some y ∧
    List.Forall₂ (fun x point => C.fromEncoded x = .ok point) output.2.1 v

def Sent.Shares (m : Sent) (C : Curve) (key : String) (j : ℕ) (share : C.Point) : Prop :=
  ∃ pubshares bytes, m.message = .round2Out j pubshares ∧ pubshares.get? key = some bytes ∧ C.fromEncoded bytes = .ok share

/-- The message was gossiped in the attempt by the member that has the index there. -/
def Sent.ProducedIn (m : Sent) (quorum : ℕ → QuorumMap) (attempt j : ℕ) : Prop :=
  m.attempt = attempt ∧ ∃ r, (quorum attempt).get? m.dealer = some (r, j)

/-- Every dealing and every public share of another node that the node has was produced in the attempt, by its
dealer. The first are used in round 2 and the second in round 3. -/
structure NodeDataVariant.OfAttempt (node : NodeDataVariant env) (quorum : ℕ → QuorumMap) (sent : List Sent) (attempt i : ℕ)
    (key : String) : Prop where
  dealings : ∀ j, (node.data.inputY.get? j = none ∧ node.data.inputV.get? j = none) ∨
    ∃ y v, node.data.inputY.get? j = some y ∧ node.data.inputV.get? j = some v ∧
      ∃ m ∈ sent, m.ProducedIn quorum attempt j ∧ m.Deals (env.curve node.c) key j i y v
  pubshares : ∀ j share, node.data.otherPubshares.get? j = some share → j ≠ i →
    ∃ m ∈ sent, m.ProducedIn quorum attempt j ∧ m.Shares (env.curve node.c) key j share

namespace NodeDataVariant
variable {quorum : ℕ → QuorumMap} {sent sent' : List Sent} {attempt i j : ℕ} {key : String} {node node' : NodeDataVariant env}

theorem OfAttempt.mono (h : node.OfAttempt quorum sent attempt i key) (hsub : ∀ m ∈ sent, m ∈ sent') :
    node.OfAttempt quorum sent' attempt i key := by
  refine ⟨fun j => ?_, fun j share hshare hj => ?_⟩
  · rcases h.dealings j with hnone | ⟨y, v, hy, hv, m, hm, hdeals⟩
    · exact .inl hnone
    · exact .inr ⟨y, v, hy, hv, m, hsub m hm, hdeals⟩
  · obtain ⟨m, hm, hshares⟩ := h.pubshares j share hshare hj
    exact ⟨m, hsub m hm, hshares⟩

theorem OfAttempt.dkgRound1 (h : node.OfAttempt quorum sent attempt i key) {network : Network env.R}
    {rng : (c : CurveId) → ℕ → (env.curve c).FieldEl} {coins : ℕ → env.R.Coin} {output : Round1Output}
    (hok : node.dkgRound1 network rng coins = .ok (node', output)) : node'.OfAttempt quorum sent attempt i key := by
  simp only [NodeDataVariant.dkgRound1, bind_eq_ok, pure_eq_ok, Except.ok.injEq, Prod.mk.injEq] at hok
  obtain ⟨_, -, rfl, -⟩ := hok
  exact ⟨h.dealings, h.pubshares⟩

theorem OfAttempt.registered (h : node.OfAttempt quorum sent attempt i key) {m : Sent} {outputs : HMap String Round1Output}
    {output : Round1Output} (hm : m ∈ sent) (hmessage : m.message = .round1Out j outputs)
    (hproduced : m.ProducedIn quorum attempt j) (houtput : outputs.get? key = some output)
    (hok : node.registerRound1ResultFromOtherNode env i j output = .ok node') :
    node'.OfAttempt quorum sent attempt i key := by
  have hoffer : node.registerOutput env _ i j (output.1, output.2.1).1 (output.1, output.2.1).2 = .ok node' := hok
  obtain ⟨y, v, hy, hv, rfl⟩ := registerOutput_eq_ok_iff.1 hoffer
  refine ⟨fun k => ?_, h.pubshares⟩
  by_cases hk : k = j
  · subst hk
    refine .inr ⟨y, v, HMap.get?_insert_self _ _ _, HMap.get?_insert_self _ _ _, m, hm, hproduced, outputs, output, hmessage,
      houtput, hy, mapM_eq_ok.1 hv⟩
  · simp only [HMap.get?_insert_of_ne _ _ hk]
    exact h.dealings k

theorem OfAttempt.stored (h : node.OfAttempt quorum sent attempt i key) {m : Sent} {pubshares : HMap String Bytes}
    {pubshare : Bytes} (hm : m ∈ sent) (hmessage : m.message = .round2Out j pubshares)
    (hproduced : m.ProducedIn quorum attempt j) (hpubshare : pubshares.get? key = some pubshare)
    (hok : node.storePubshareForNode j pubshare = .ok node') : node'.OfAttempt quorum sent attempt i key := by
  simp only [NodeDataVariant.storePubshareForNode, bind_eq_ok, mapErr_eq_ok, pure_eq_ok, Except.ok.injEq] at hok
  obtain ⟨point, hpoint, rfl⟩ := hok
  refine ⟨h.dealings, fun k share hshare hk => ?_⟩
  by_cases hkj : k = j
  · subst hkj
    obtain rfl := Option.some.inj ((HMap.get?_insert_self _ _ _).symm.trans hshare)
    exact ⟨m, hm, hproduced, pubshares, pubshare, hmessage, hpubshare, hpoint⟩
  · exact h.pubshares k share (by rwa [HMap.get?_insert_of_ne _ _ hkj] at hshare) hk

theorem OfAttempt.dkgRound2 (h : node.OfAttempt quorum sent attempt i key) (hid : node.id = i) {prof : Profile}
    {network : Network env.R} {encoded : Bytes} (hok : node.dkgRound2 prof network = .ok (node', encoded)) :
    node'.OfAttempt quorum sent attempt i key := by
  simp only [NodeDataVariant.dkgRound2, bind_eq_ok, pure_eq_ok, Except.ok.injEq, Prod.mk.injEq] at hok
  obtain ⟨_, -, _, -, rfl, -⟩ := hok
  refine ⟨h.dealings, fun k share hshare hk => ?_⟩
  have hkid : k ≠ node.data.node.id := fun hkid => hk (hkid.trans hid)
  exact h.pubshares k share (by rwa [HMap.get?_insert_of_ne _ _ hkid] at hshare) hk

end NodeDataVariant

/-! ### Engines -/

structure DkgEngineState.InAttempt (engine : DkgEngineState env) (quorum : ℕ → QuorumMap) (sent : List Sent) (p : PeerId)
    (attempt : ℕ) : Prop where
  fits : engine.Fits .dkg
  entry : ∃ r, (quorum attempt).get? p = some (r, engine.idx)
  nodes : ∀ key node, engine.dkgNodes.get? key = some node → node.OfAttempt quorum sent attempt engine.idx key

namespace DkgEngineState
variable {quorum : ℕ → QuorumMap} {sent sent' : List Sent} {p : PeerId} {attempt idx : ℕ} {m : Sent}
  {self after : DkgEngineState env}

theorem InAttempt.mono (h : self.InAttempt quorum sent p attempt) (hsub : ∀ m ∈ sent, m ∈ sent') :
    self.InAttempt quorum sent' p attempt :=
  ⟨h.fits, h.entry, fun key node hnode => (h.nodes key node hnode).mono hsub⟩

theorem inAttempt_of_dkgInit {threshold : ℕ} {sk : env.R.SecretKey} {coins : NodeCoins env} {r : ProverRecord}
    (hentry : (quorum attempt).get? p = some (r, idx))
    (hok : dkgInit env p idx sk (quorum attempt) threshold coins = .ok after) : after.InAttempt quorum sent p attempt := by
  have hfits : FitsQuorum (quorum attempt) p idx := fun e he => congrArg Prod.snd (Option.some.inj (he.symm.trans hentry))
  have hmember : p ∈ (quorum attempt).keys := HMap.get?_isSome.1 (by rw [hentry]; rfl)
  have hafter := fits_of_dkgInit hfits hmember hok
  simp only [dkgInit, bind_eq_ok, pure_eq_ok, Except.ok.injEq] at hok
  obtain ⟨network, -, rfl⟩ := hok
  refine ⟨hafter, ⟨r, hentry⟩, fun key node hnode => ?_⟩
  rw [HMap.get?_collect, Option.map_eq_some_iff] at hnode
  obtain ⟨_, -, rfl⟩ := hnode
  refine ⟨fun _ => .inl ⟨rfl, rfl⟩, fun j share hshare => ?_⟩
  cases hshare

theorem InAttempt.changed (h : self.InAttempt quorum sent p attempt) (hafter : after.Fits .dkg)
    {change : String → NodeDataVariant env → NodeDataVariant env → Prop} (hchanged : NodesChanged change self after)
    (hchange : ∀ key node node', node.OfAttempt quorum sent attempt self.idx key → change key node node' →
      node'.OfAttempt quorum sent attempt self.idx key) : after.InAttempt quorum sent p attempt := by
  have hidx : after.idx = self.idx := by rw [hchanged.frame]
  refine ⟨hafter, hidx ▸ h.entry, ?_⟩
  rw [hidx]
  exact hchanged.forall_nodes h.nodes hchange

theorem InAttempt.handleRound1 (h : self.InAttempt quorum sent p attempt)
    {rng : String → (c : CurveId) → ℕ → (env.curve c).FieldEl} {coins : String → ℕ → env.R.Coin}
    {outputs : Option (HMap String Round1Output)} {report : List PeerId}
    (hok : self.handleRound1 rng coins = .ok (after, outputs, report)) : after.InAttempt quorum sent p attempt := by
  have hafter := h.fits.handleRound1 hok
  obtain ⟨nodes, hround1, rfl⟩ := handleRound1_eq_ok hok
  refine ⟨hafter, h.entry, (runRound1_forall (fun hnode hdealt => hnode.dkgRound1 hdealt) (fun e he => ?_) h.nodes hround1).2⟩
  exact h.nodes e.1 e.2 (HMap.get?_eq_some.2 he)

theorem InAttempt.handleRound1Output (h : self.InAttempt quorum sent p attempt) {outputs : HMap String Round1Output}
    {report : List PeerId} (hm : m ∈ sent) (hmessage : m.message = .round1Out idx outputs)
    (hproduced : m.ProducedIn quorum attempt idx) (hok : self.handleRound1Output env idx outputs = .ok (after, report)) :
    after.InAttempt quorum sent p attempt := by
  have hafter := h.fits.handleRound1Output hok
  refine h.changed hafter (handleRound1Output_changes hok) ?_
  rintro key node node' hnode ⟨output, houtput, hregistered⟩
  exact hnode.registered hm hmessage hproduced houtput hregistered

theorem InAttempt.handleRound2 (h : self.InAttempt quorum sent p attempt) {prof : Profile}
    {out : Option (HMap String Bytes) × List PeerId} (hok : self.handleRound2 prof = .ok (after, out)) :
    after.InAttempt quorum sent p attempt := by
  obtain ⟨hafter, -⟩ := h.fits.handleRound2 prof after out hok
  rcases handleRound2_eq_ok hok with ⟨rfl, -⟩ | ⟨nodes, rfl, -, -, hnodes⟩
  · exact h
  · refine ⟨hafter, h.entry, fun key node' hnode' => ?_⟩
    obtain ⟨node, encoded, hnode, hround2⟩ := hnodes key node' hnode'
    exact (h.nodes key node hnode).dkgRound2 (h.fits.nodes key node hnode).id hround2

theorem InAttempt.handleStoreReceivedPubshare (h : self.InAttempt quorum sent p attempt) {pubshares : HMap String Bytes}
    {report : List PeerId} (hm : m ∈ sent) (hmessage : m.message = .round2Out idx pubshares)
    (hproduced : m.ProducedIn quorum attempt idx)
    (hok : self.handleStoreReceivedPubshare idx pubshares = .ok (after, report)) :
    after.InAttempt quorum sent p attempt := by
  obtain ⟨hafter, -⟩ := h.fits.handleStoreReceivedPubshare idx pubshares after report hok
  unfold DkgEngineState.handleStoreReceivedPubshare at hok
  split at hok
  · obtain ⟨rfl, -⟩ := Prod.mk.inj (Except.ok.inj hok)
    exact h
  · split at hok
    · obtain ⟨rfl, -⟩ := Prod.mk.inj (Except.ok.inj hok)
      exact h
    · refine h.changed hafter (storePubshares_changes hok) ?_
      rintro key node node' hnode ⟨pubshare, hpubshare, hstored⟩
      exact hnode.stored hm hmessage hproduced hpubshare hstored

theorem InAttempt.handleRound3 (h : self.InAttempt quorum sent p attempt)
    {out : Option (HMap String Bytes) × Option Completion} (hok : self.handleRound3 false = .ok (after, out)) :
    after.InAttempt quorum sent p attempt := by
  have hafter := h.fits.handleRound3 (fun hfalse => absurd hfalse Bool.false_ne_true) hok
  simp only [DkgEngineState.handleRound3, bind_eq_ok, pure_eq_ok, Except.ok.injEq, Prod.mk.injEq] at hok
  obtain ⟨_, -, _, -, _, -, rfl, -⟩ := hok
  exact ⟨hafter, h.entry, h.nodes⟩

end DkgEngineState

/-! ### Runs -/

namespace SessionNet
variable {quorum : ℕ → QuorumMap} {prof : Profile} {s s' : SessionNet env} {event : SessionEvent}

/-- Every message names the index that its sender has in the attempt, and every engine is in the attempt of its node. -/
structure Separated (quorum : ℕ → QuorumMap) (s : SessionNet env) : Prop where
  sent : ∀ m ∈ s.sent, m.ProducedIn quorum m.attempt m.message.idx
  engine : ∀ p self, s.engine p = some self → self.InAttempt quorum s.sent p (s.attempt p)

theorem Separated.at_node (h : s.Separated quorum) (p : PeerId)
    (hothers : ∀ q ≠ p, s'.engine q = s.engine q ∧ s'.attempt q = s.attempt q) (hkept : ∀ m ∈ s.sent, m ∈ s'.sent)
    (hsent : ∀ m ∈ s'.sent, m.ProducedIn quorum m.attempt m.message.idx)
    (hself : ∀ self, s'.engine p = some self → self.InAttempt quorum s'.sent p (s'.attempt p)) : s'.Separated quorum := by
  refine ⟨hsent, fun q self hengine => ?_⟩
  by_cases hq : q = p
  · subst hq
    exact hself self hengine
  · obtain ⟨hold, hattempt⟩ := hothers q hq
    rw [hattempt]
    exact (h.engine q self (hold.symm.trans hengine)).mono hkept

theorem Separated.act (h : s.Separated quorum) {p : PeerId} {self after : DkgEngineState env} {gossip : List SessionMessage}
    (hself : s.engine p = some self) (hafter : after.InAttempt quorum s.sent p (s.attempt p))
    (hgossip : ∀ message ∈ gossip, message.idx = self.idx) : (s.act p after gossip).Separated quorum := by
  have hkept : ∀ m ∈ s.sent, m ∈ (s.act p after gossip).sent := fun m hm => List.mem_append_right _ hm
  refine h.at_node p (fun q hq => ⟨Function.update_of_ne hq _ _, rfl⟩) hkept (fun m hm => ?_) fun engine hengine => ?_
  · rcases List.mem_append.1 hm with hm | hm
    · obtain ⟨message, hmessage, rfl⟩ := List.mem_map.1 hm
      refine ⟨rfl, ?_⟩
      rw [hgossip message hmessage]
      exact (h.engine p self hself).entry
    · exact h.sent m hm
  · simp only [SessionNet.act, Function.update_self, Option.some.injEq] at hengine
    exact hengine ▸ hafter.mono hkept

theorem Separated.produced (h : s.Separated quorum) {p : PeerId} {m : Sent} (hsent : m ∈ s.sent)
    (hfresh : s.Fresh (.deliver p m)) : m.ProducedIn quorum (s.attempt p) m.message.idx := by
  have hattempt : m.attempt = s.attempt p := hfresh
  exact hattempt ▸ h.sent m hsent

theorem Separated.step (h : s.Separated quorum) (hfresh : s.Fresh event) (hstep : Step prof quorum s event s') :
    s'.Separated quorum := by
  cases hstep with
  | @init p attempt _ _ _ _ _ engine hentry hinit =>
    refine h.at_node p (fun q hq => ⟨Function.update_of_ne hq _ _, Function.update_of_ne hq _ _⟩) (fun m hm => hm) h.sent ?_
    simp only [Function.update_self, Option.some.injEq]
    rintro self rfl
    exact inAttempt_of_dkgInit hentry hinit
  | round1 hself hround1 => exact h.act hself ((h.engine _ _ hself).handleRound1 hround1) (by simp [SessionMessage.idx])
  | round1Out hself hsent hm hout =>
    have hproduced := h.produced hsent hfresh
    rw [hm] at hproduced
    exact h.act hself ((h.engine _ _ hself).handleRound1Output hsent hm hproduced hout) nofun
  | round2 hself hround2 => exact h.act hself ((h.engine _ _ hself).handleRound2 hround2) (by simp [SessionMessage.idx])
  | round2Out hself hsent hm hout =>
    have hproduced := h.produced hsent hfresh
    rw [hm] at hproduced
    exact h.act hself ((h.engine _ _ hself).handleStoreReceivedPubshare hsent hm hproduced hout) nofun
  | round3 hself hround3 => exact h.act hself ((h.engine _ _ hself).handleRound3 hround3) nofun
  | @stop p =>
    refine h.at_node p (fun q hq => ⟨Function.update_of_ne hq _ _, rfl⟩) (fun m hm => hm) h.sent ?_
    simp only [Function.update_self]
    exact nofun

/-- However many attempts there are and however late its messages come: as long as those that a node handles were gossiped
in its attempt, all that it has for round 2 and round 3 was produced there by its dealers. -/
theorem session_separated (hrun : Reach (Step prof quorum) Fresh SessionNet.init s) {p : PeerId} {self : DkgEngineState env}
    (hself : s.engine p = some self) {key : String} {node : NodeDataVariant env}
    (hnode : self.dkgNodes.get? key = some node) : node.OfAttempt quorum s.sent (s.attempt p) self.idx key := by
  have hseparated : s.Separated quorum := hrun.invariant ⟨nofun, nofun⟩ fun hs hfresh hstep => hs.step hfresh hstep
  exact (hseparated.engine p self hself).nodes key node hnode

/-! The provers `a`, `b` and `c` are elected in each of two attempts. -/

def boxQuorum (_ : ℕ) : QuorumMap := quorumMap threeProvers

/-- Whose dealings `a` has before round 2, and that it computes its share from them. -/
def dealtRun : Option (List ℕ × Bool) := do
  let (dealt, _) ← boxDealt "a" 2
  let (_, outputs₃) ← boxDealt "b" 3
  let (_, outputs₄) ← boxDealt "c" 4
  let (got₃, _) ← (dealt.handleRound1Output boxEngines 3 outputs₃).result?
  let (got₄, _) ← (got₃.handleRound1Output boxEngines 4 outputs₄).result?
  let node ← got₄.dkgNodes.get? Method.oprfSecp256k1.keyName
  let (_, pubshares, _) ← (got₄.handleRound2 .release).result?
  return (node.data.inputY.keys, pubshares.isSome)

theorem reach_round2 {ok : SessionNet boxEngines → SessionEvent → Prop} (k : ℕ)
    (hok : ∀ s event, (∀ p m, event = .deliver p m → s.attempt p = 2 ∧ (m.attempt = k ∨ m.attempt = 2)) → ok s event) :
    ∃ (s s' : SessionNet boxEngines) (self : DkgEngineState boxEngines) (node : NodeDataVariant boxEngines),
      Reach (Step .release boxQuorum) ok SessionNet.init s ∧ Step .release boxQuorum s (.round2 "a") s' ∧
      s.attempt "a" = 2 ∧ s.engine "a" = some self ∧ self.dkgNodes.get? Method.oprfSecp256k1.keyName = some node ∧
      3 ∈ node.data.inputY.keys ∧ (∃ pubshares, ⟨2, "a", .round2Out self.idx pubshares⟩ ∈ s'.sent) ∧
      ∀ m ∈ s.sent, m.dealer = "b" → m.attempt = k := by
  have hrun : dealtRun = some ([3, 4], true) := by decide +kernel
  simp only [dealtRun, boxDealt, boxEngine, Option.bind_eq_bind, Option.bind_eq_some_iff, result?_eq_some, Prod.exists,
    Option.pure_def, Option.some.injEq, Prod.mk.injEq] at hrun
  obtain ⟨dealt₂, outputs₂, ⟨engine₂, hinit₂, _, _, _, hround₂, _, rfl, rfl, rfl⟩,
    dealt₃, outputs₃, ⟨engine₃, hinit₃, _, _, _, hround₃, _, rfl, rfl, rfl⟩,
    dealt₄, outputs₄, ⟨engine₄, hinit₄, _, _, _, hround₄, _, rfl, rfl, rfl⟩,
    got₃, _, hout₃, got₄, _, hout₄, node, hnode, after, pubshares, _, hround2, hkeys, hsome⟩ := hrun
  obtain ⟨pubshares, rfl⟩ := Option.isSome_iff_exists.1 hsome
  have hinit : ∀ s p attempt, ok s (.init p attempt) := fun s p attempt => hok s _ fun _ _ hevent => by cases hevent
  have hround1 : ∀ s p, ok s (.round1 p) := fun s p => hok s _ fun _ _ hevent => by cases hevent
  have hdeliver : ∀ s p m, s.attempt p = 2 → m.attempt = k ∨ m.attempt = 2 → ok s (.deliver p m) := by
    intro s p m hattempt hm
    refine hok s _ fun _ _ hevent => ?_
    cases hevent
    exact ⟨hattempt, hm⟩
  have hidx₃ : engine₃.idx = 3 := (dkgInit_eq_ok hinit₃).2.1
  have hidx₄ : engine₄.idx = 4 := (dkgInit_eq_ok hinit₄).2.1
  have hrestarted : Reach (Step .release boxQuorum) ok SessionNet.init _ :=
    (((Reach.refl.tail (hinit _ "a" 1) (.init rfl hinit₂)).tail (hinit _ "b" k) (.init rfl hinit₃)).tail
      (hround1 _ "b") (.round1 rfl hround₃)).tail (hinit _ "a" 2) (.init rfl hinit₂)
  have hdealt := ((hrestarted.tail (hround1 _ "a") (.round1 rfl hround₂)).tail (hinit _ "c" 2) (.init rfl hinit₄)).tail
    (hround1 _ "c") (.round1 rfl hround₄)
  have hgot₃ := hdealt.tail (hdeliver _ "a" ⟨k, "b", .round1Out engine₃.idx _⟩ rfl (.inl rfl))
    (.round1Out rfl (by simp [act]) rfl (hidx₃ ▸ hout₃))
  have hgot₄ := hgot₃.tail (hdeliver _ "a" ⟨2, "c", .round1Out engine₄.idx _⟩ rfl (.inr rfl))
    (.round1Out rfl (by simp [act]) rfl (hidx₄ ▸ hout₄))
  refine ⟨_, _, got₄, node, hgot₄, .round2 rfl hround2, rfl, rfl, hnode, by simp [hkeys],
    ⟨pubshares, by simp [act]⟩, fun m hm hdealer => ?_⟩
  simp only [act, SessionNet.init, Option.toList_some, List.map_cons, List.map_nil, List.nil_append, List.cons_append,
    List.mem_cons, List.not_mem_nil, or_false] at hm
  rcases hm with rfl | rfl | rfl
  · exact absurd hdealer (show "c" ≠ "b" by decide)
  · exact absurd hdealer (show "a" ≠ "b" by decide)
  · rfl

theorem session_separated_restarted : ∃ (s : SessionNet boxEngines) (self : DkgEngineState boxEngines)
    (node : NodeDataVariant boxEngines), Reach (Step .release boxQuorum) Fresh SessionNet.init s ∧ s.attempt "a" = 2 ∧
      s.engine "a" = some self ∧ self.dkgNodes.get? Method.oprfSecp256k1.keyName = some node ∧
      3 ∈ node.data.inputY.keys ∧ node.OfAttempt boxQuorum s.sent (s.attempt "a") self.idx Method.oprfSecp256k1.keyName := by
  have hfresh : ∀ (s : SessionNet boxEngines) event,
      (∀ p m, event = .deliver p m → s.attempt p = 2 ∧ (m.attempt = 2 ∨ m.attempt = 2)) → s.Fresh event := by
    intro s event hdeliver
    cases event with
    | deliver p m =>
      obtain ⟨hattempt, hm⟩ := hdeliver p m rfl
      exact (or_self_iff.1 hm).trans hattempt.symm
    | _ => trivial
  obtain ⟨s, _, self, node, hrun, -, hattempt, hself, hnode, hdealt, -⟩ := reach_round2 2 hfresh
  exact ⟨s, self, node, hrun, hattempt, hself, hnode, hdealt, session_separated hrun hself hnode⟩

/-- The dealing of `b` from before the restart is taken in the second attempt, in which `b` has not dealt: `a` computes its
share from it and gossips the public one. -/
theorem session_mixed : ∃ (s s' : SessionNet boxEngines) (self : DkgEngineState boxEngines)
    (node : NodeDataVariant boxEngines), Reach (Step .release boxQuorum) (fun _ _ => True) SessionNet.init s ∧
      Step .release boxQuorum s (.round2 "a") s' ∧ s.attempt "a" = 2 ∧ s.engine "a" = some self ∧
      self.dkgNodes.get? Method.oprfSecp256k1.keyName = some node ∧ 3 ∈ node.data.inputY.keys ∧
      (∃ pubshares, ⟨2, "a", .round2Out self.idx pubshares⟩ ∈ s'.sent) ∧
      ¬ node.OfAttempt boxQuorum s.sent (s.attempt "a") self.idx Method.oprfSecp256k1.keyName := by
  obtain ⟨s, s', self, node, hrun, hstep, hattempt, hself, hnode, hdealt, hshared, hsent⟩ :=
    @reach_round2 (fun _ _ => True) 1 fun _ _ _ => trivial
  refine ⟨s, s', self, node, hrun, hstep, hattempt, hself, hnode, hdealt, hshared, fun hof => ?_⟩
  rcases hof.dealings 3 with ⟨hnone, -⟩ | ⟨_, _, -, -, m, hm, ⟨hproduced, r, hentry⟩, -⟩
  · exact HMap.get?_eq_none.1 hnone hdealt
  · have hindex : ∀ e ∈ (quorumMap threeProvers).entries, e.2.2 = 3 → e.1 = "b" := by decide
    have hdealer : m.dealer = "b" := hindex _ (HMap.get?_eq_some.1 hentry) rfl
    rw [hattempt, hsent m hm hdealer] at hproduced
    cases hproduced

end SessionNet

end HumanNetwork
