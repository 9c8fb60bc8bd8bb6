import HumanNetwork.DkgDealings

/-!
# The nodes of an attempt agree on one key (`dkg_engine_actor.rs`)

The nodes of a key generation deal, collect the dealings of the others and compute their shares, each when its messages
arrive. `Orderly` says in which order the relay calls the rounds at a node.

Every node that has gossiped a public share has then used the dealings of all members, and there is one polynomial for
each key of an attempt on which all of them lie (`dkg_agreement`).
-/

namespace HumanNetwork
open Outcome DkgEngineState

variable {env : EngineEnv}

/-! ### What was dealt and computed -/

def HasDealt (sent : List Sent) (a j : ℕ) : Prop :=
  ∃ msg ∈ sent, msg.attempt = a ∧ ∃ outputs, msg.message = .round1Out j outputs

def HasShared (sent : List Sent) (a j : ℕ) : Prop :=
  ∃ msg ∈ sent, msg.attempt = a ∧ ∃ pubshares, msg.message = .round2Out j pubshares

theorem HasDealt.mono {sent sent' : List Sent} {a j : ℕ} (h : HasDealt sent a j) (hsub : ∀ msg ∈ sent, msg ∈ sent') :
    HasDealt sent' a j := by
  obtain ⟨msg, hmsg, hdealt⟩ := h
  exact ⟨msg, hsub msg hmsg, hdealt⟩

namespace SessionNet

/-- The relay initialises a node for an attempt before the node has dealt in it, calls round 1 once for an attempt and
round 2 after it, and nothing of another attempt reaches a node. -/
def Orderly (s : SessionNet env) : SessionEvent → Prop
  | .init p a => ∀ msg ∈ s.sent, msg.attempt = a → msg.dealer ≠ p
  | .round1 p => ∀ msg ∈ s.sent, msg.attempt = s.attempt p → msg.dealer ≠ p
  | .round2 p => ∃ msg ∈ s.sent, msg.attempt = s.attempt p ∧ msg.dealer = p ∧
    ∃ idx outputs, msg.message = .round1Out idx outputs
  | .deliver p msg => msg.attempt = s.attempt p
  | _ => True

variable {s : SessionNet env} {p : PeerId} {a j : ℕ} {after : DkgEngineState env} {gossip : List SessionMessage}

theorem Orderly.fresh {event : SessionEvent} (h : s.Orderly event) : s.Fresh event := by
  cases event with
  | deliver p msg => exact h
  | _ => trivial

theorem mem_sent_act {msg : Sent} : msg ∈ (s.act p after gossip).sent ↔
    (msg.attempt = s.attempt p ∧ msg.dealer = p ∧ msg.message ∈ gossip) ∨ msg ∈ s.sent := by
  simp only [act, List.mem_append, List.mem_map]
  constructor
  · rintro (⟨message, hmessage, rfl⟩ | hmsg)
    · exact .inl ⟨rfl, rfl, hmessage⟩
    · exact .inr hmsg
  · rintro (⟨hattempt, hdealer, hmessage⟩ | hmsg)
    · exact .inl ⟨msg.message, hmessage, by rw [← hattempt, ← hdealer]⟩
    · exact .inr hmsg

theorem hasDealt_act (hgossip : ∀ outputs, .round1Out j outputs ∉ gossip) :
    HasDealt (s.act p after gossip).sent a j ↔ HasDealt s.sent a j := by
  constructor
  · rintro ⟨msg, hmsg, hattempt, outputs, hm⟩
    rcases mem_sent_act.1 hmsg with ⟨-, -, hmessage⟩ | hmsg
    · exact absurd (hm ▸ hmessage) (hgossip outputs)
    · exact ⟨msg, hmsg, hattempt, outputs, hm⟩
  · exact fun h => h.mono fun msg hmsg => mem_sent_act.2 (.inr hmsg)

theorem hasShared_of_act (hgossip : ∀ pubshares, .round2Out j pubshares ∉ gossip)
    (h : HasShared (s.act p after gossip).sent a j) : HasShared s.sent a j := by
  obtain ⟨msg, hmsg, hattempt, pubshares, hm⟩ := h
  rcases mem_sent_act.1 hmsg with ⟨-, -, hmessage⟩ | hmsg
  · exact absurd (hm ▸ hmessage) (hgossip pubshares)
  · exact ⟨msg, hmsg, hattempt, pubshares, hm⟩

end SessionNet

def SessionSetup.Initialises (setup : SessionSetup env) : SessionEvent → SessionNet env → Prop
  | .init p a, s' => ∀ engine, s'.engine p = some engine → setup.Gives p a engine
  | _, _ => True

def SessionSetup.Step (setup : SessionSetup env) (prof : Profile) (s : SessionNet env) (event : SessionEvent)
    (s' : SessionNet env) : Prop :=
  SessionNet.Step prof setup.quorum s event s' ∧ setup.Initialises event s'

section agreed
variable [∀ c, (env.curve c).PrimeOrder] {setup : SessionSetup env} {polys polys' : DealtPolys env} {p : PeerId} {a i j : ℕ}
  {self after : DkgEngineState env}

def SessionSetup.Deals (setup : SessionSetup env) (a j : ℕ) (f : (m : Method) → Polynomial (env.curve m.curve).FieldEl)
    (outputs : HMap String Round1Output) : Prop :=
  ∀ m : Method, (f m).degree < setup.threshold a ∧ ∃ output network, outputs.get? m.keyName = some output ∧
    setup.Networked a network ∧ DealsPoly network j (f m) output

def SharesPoly (F : (m : Method) → Polynomial (env.curve m.curve).FieldEl) (j : ℕ) (pubshares : HMap String Bytes) : Prop :=
  ∀ m : Method, ∃ bytes, pubshares.get? m.keyName = some bytes ∧
    (env.curve m.curve).encode ((F m).eval (j : (env.curve m.curve).FieldEl) • (env.curve m.curve).basePointOrGenerator) =
      some bytes

namespace DkgEngineState

def Keeps (self : DkgEngineState env) (f : (m : Method) → Polynomial (env.curve m.curve).FieldEl) : Prop :=
  ∀ (m : Method) node, self.nodeOf m.keyName = some ⟨m.curve, node⟩ → node.KeepsPoly (f m)

def Computed (self : DkgEngineState env) (F : (m : Method) → Polynomial (env.curve m.curve).FieldEl) : Prop :=
  ∀ (m : Method) node, self.nodeOf m.keyName = some ⟨m.curve, node⟩ → node.OnPoly self.idx (F m)

theorem Keeps.of_sameNodes {f : (m : Method) → Polynomial (env.curve m.curve).FieldEl} (h : self.Keeps f)
    (hsame : self.SameNodes after) : after.Keeps f :=
  fun m node hnode => h m node (by rwa [← hsame.nodeOf])

theorem Computed.of_sameNodes {F : (m : Method) → Polynomial (env.curve m.curve).FieldEl} (h : self.Computed F)
    (hsame : self.SameNodes after) : after.Computed F := by
  have hidx : after.idx = self.idx := by rw [hsame.frame]
  intro m node hnode
  rw [hidx]
  exact h m node (by rwa [← hsame.nodeOf])

end DkgEngineState

theorem SessionSetup.Placed.deals [∀ c, (env.curve c).FaithfulEncodings] [env.R.Lossless] (h : setup.Placed p a self)
    (hfits : self.Fits .dkg) {rng : String → (c : CurveId) → ℕ → (env.curve c).FieldEl} {coins : String → ℕ → env.R.Coin}
    {outputs : HMap String Round1Output} {report : List PeerId}
    (hok : self.handleRound1 rng coins = .ok (after, some outputs, report)) :
    ∃ f, setup.Deals a self.idx f outputs ∧ after.Keeps f := by
  refine ⟨fun m => (dkgPoly self.network (rng m.keyName m.curve)).toPolynomial, ?_⟩
  have hdealt : ∀ m : Method, ∃ output dealt, outputs.get? m.keyName = some output ∧
      after.nodeOf m.keyName = some ⟨m.curve, dealt⟩ ∧
      dealt.KeepsPoly (dkgPoly self.network (rng m.keyName m.curve)).toPolynomial ∧
      DealsPoly self.network self.idx (dkgPoly self.network (rng m.keyName m.curve)).toPolynomial output := by
    intro m
    obtain ⟨⟨c, data⟩, hnode⟩ := HMap.exists_get? (hfits.keys m (by cases m <;> decide))
    obtain ⟨rfl, -⟩ := h.node (nodeOf_eq_some hnode)
    obtain ⟨dealt, output, hprocess, hafter, houtput⟩ := handleRound1_deals hok hnode
    obtain ⟨hkeeps, hdeals⟩ := Node.processDkgRound1_deals hprocess
    have hid : data.node.id = self.idx := (hfits.nodes _ _ hnode).id
    exact ⟨output, dealt, houtput, hafter, hkeeps, hid ▸ hdeals⟩
  constructor
  · intro m
    obtain ⟨output, -, houtput, -, -, hdeals⟩ := hdealt m
    refine ⟨?_, output, self.network, houtput, h.network, hdeals⟩
    have hdegree := Poly.degree_toPolynomial_lt (dkgPoly self.network (rng m.keyName m.curve))
    rwa [length_dkgPoly, h.network.threshold] at hdegree
  · intro m node hnode
    obtain ⟨-, dealt, -, hafter, hkeeps, -⟩ := hdealt m
    cases hafter.symm.trans hnode
    exact hkeeps

namespace SessionNet
variable {s s' : SessionNet env} {event : SessionEvent}

/-- Whoever has dealt in an attempt has dealt the polynomial at its index. The public shares come after all dealings of
the attempt, and are on the sum of the polynomials. -/
structure Agreed (setup : SessionSetup env) (polys : DealtPolys env) (s : SessionNet env) : Prop where
  separated : s.Separated setup.quorum
  placed : ∀ p self, s.engine p = some self → setup.Placed p (s.attempt p) self
  dealt : ∀ msg ∈ s.sent, ∀ j outputs, msg.message = .round1Out j outputs →
    setup.Deals msg.attempt j (polys msg.attempt j) outputs
  keeps : ∀ p self, s.engine p = some self → HasDealt s.sent (s.attempt p) self.idx →
    self.Keeps (polys (s.attempt p) self.idx)
  complete : ∀ a j, HasShared s.sent a j → ∀ i ∈ setup.ids a, HasDealt s.sent a i
  computed : ∀ p self, s.engine p = some self → HasShared s.sent (s.attempt p) self.idx →
    self.Computed (setup.groupPoly polys (s.attempt p))
  shared : ∀ msg ∈ s.sent, ∀ j pubshares, msg.message = .round2Out j pubshares →
    SharesPoly (setup.groupPoly polys msg.attempt) j pubshares

/-- The index of a message is that of its sender, so it tells who has sent it. -/
theorem Agreed.dealer (h : s.Agreed setup polys) {msg : Sent} (hmsg : msg ∈ s.sent) {r : ProverRecord}
    (hentry : (setup.quorum msg.attempt).get? p = some (r, msg.message.idx)) : msg.dealer = p := by
  obtain ⟨-, _, hdealer⟩ := h.separated.sent msg hmsg
  exact setup.distinct hdealer hentry

theorem Agreed.congr (h : s.Agreed setup polys) (hpolys : ∀ a j, HasDealt s.sent a j → polys' a j = polys a j) :
    s.Agreed setup polys' := by
  have hgroup : ∀ a j, HasShared s.sent a j → setup.groupPoly polys' a = setup.groupPoly polys a := by
    intro a j hshared
    funext m
    exact Finset.sum_congr rfl fun i hi => congrFun (hpolys a i (h.complete a j hshared i hi)) m
  refine ⟨h.separated, h.placed, fun msg hmsg j outputs hm => ?_, fun p self hself hdealt => ?_, h.complete,
    fun p self hself hshared => ?_, fun msg hmsg j pubshares hm => ?_⟩
  · rw [hpolys _ _ ⟨msg, hmsg, rfl, outputs, hm⟩]
    exact h.dealt msg hmsg j outputs hm
  · rw [hpolys _ _ hdealt]
    exact h.keeps p self hself hdealt
  · rw [hgroup _ _ hshared]
    exact h.computed p self hself hshared
  · rw [hgroup _ _ ⟨msg, hmsg, rfl, pubshares, hm⟩]
    exact h.shared msg hmsg j pubshares hm

theorem Agreed.quiet (h : s.Agreed setup polys) (hsent : s'.sent = s.sent) (hseparated : s'.Separated setup.quorum)
    (p : PeerId) (hothers : ∀ q ≠ p, s'.engine q = s.engine q ∧ s'.attempt q = s.attempt q)
    (hself : ∀ self, s'.engine p = some self → setup.Placed p (s'.attempt p) self ∧
      (HasDealt s.sent (s'.attempt p) self.idx → self.Keeps (polys (s'.attempt p) self.idx)) ∧
      (HasShared s.sent (s'.attempt p) self.idx → self.Computed (setup.groupPoly polys (s'.attempt p)))) :
    s'.Agreed setup polys := by
  have hcases : ∀ q self, s'.engine q = some self → q = p ∨ (s.engine q = some self ∧ s'.attempt q = s.attempt q) := by
    intro q self hq
    by_cases hqp : q = p
    · exact .inl hqp
    · exact .inr ⟨(hothers q hqp).1 ▸ hq, (hothers q hqp).2⟩
  refine ⟨hseparated, fun q self hq => ?_, hsent ▸ h.dealt, fun q self hq hdealt => ?_, hsent ▸ h.complete,
    fun q self hq hshared => ?_, hsent ▸ h.shared⟩
  · rcases hcases q self hq with rfl | ⟨hold, hattempt⟩
    · exact (hself self hq).1
    · exact hattempt ▸ h.placed q self hold
  · rw [hsent] at hdealt
    rcases hcases q self hq with rfl | ⟨hold, hattempt⟩
    · exact (hself self hq).2.1 hdealt
    · rw [hattempt] at hdealt ⊢
      exact h.keeps q self hold hdealt
  · rw [hsent] at hshared
    rcases hcases q self hq with rfl | ⟨hold, hattempt⟩
    · exact (hself self hq).2.2 hshared
    · rw [hattempt] at hshared ⊢
      exact h.computed q self hold hshared

theorem Agreed.not_gossiped (h : s.Agreed setup polys) {r : ProverRecord} (hentry : (setup.quorum a).get? p = some (r, i))
    (hnone : ∀ msg ∈ s.sent, msg.attempt = a → msg.dealer ≠ p) : ¬ HasDealt s.sent a i ∧ ¬ HasShared s.sent a i := by
  constructor
  · rintro ⟨msg, hmsg, rfl, outputs, hm⟩
    exact hnone msg hmsg rfl (h.dealer hmsg (by rw [hm]; exact hentry))
  · rintro ⟨msg, hmsg, rfl, pubshares, hm⟩
    exact hnone msg hmsg rfl (h.dealer hmsg (by rw [hm]; exact hentry))

theorem Agreed.act (h : s.Agreed setup polys) (hself : s.engine p = some self) (hidx : after.idx = self.idx)
    {gossip : List SessionMessage} (hgossip : ∀ message ∈ gossip, message.idx = self.idx)
    (hseparated : (s.act p after gossip).Separated setup.quorum) (hplaced : setup.Placed p (s.attempt p) after)
    (hdeals : ∀ outputs, .round1Out self.idx outputs ∈ gossip →
      setup.Deals (s.attempt p) self.idx (polys (s.attempt p) self.idx) outputs)
    (hshares : ∀ pubshares, .round2Out self.idx pubshares ∈ gossip →
      (∀ i ∈ setup.ids (s.attempt p), HasDealt s.sent (s.attempt p) i) ∧
      SharesPoly (setup.groupPoly polys (s.attempt p)) self.idx pubshares)
    (hkeeps : HasDealt (s.act p after gossip).sent (s.attempt p) self.idx → after.Keeps (polys (s.attempt p) self.idx))
    (hcomputed : HasShared (s.act p after gossip).sent (s.attempt p) self.idx →
      after.Computed (setup.groupPoly polys (s.attempt p))) : (s.act p after gossip).Agreed setup polys := by
  have hsub : ∀ msg ∈ s.sent, msg ∈ (s.act p after gossip).sent := fun msg hmsg => mem_sent_act.2 (.inr hmsg)
  -- a new message has the index of `p`, and no other node has it in the attempt
  have hother : ∀ q engine, q ≠ p → s.engine q = some engine → ∀ msg ∈ (s.act p after gossip).sent,
      msg.attempt = s.attempt q → msg.message.idx = engine.idx → msg ∈ s.sent := by
    intro q engine hqp hq msg hmsg hattempt hindex
    rcases mem_sent_act.1 hmsg with ⟨hattempt', -, hmessage⟩ | hmsg
    · obtain ⟨r, hr⟩ := (h.separated.engine p self hself).entry
      obtain ⟨r', hr'⟩ := (h.separated.engine q engine hq).entry
      rw [← hattempt, hattempt', ← hindex, hgossip _ hmessage] at hr'
      exact absurd (setup.distinct hr' hr) hqp
    · exact hmsg
  have hengine : ∀ q engine, (s.act p after gossip).engine q = some engine →
      (q = p ∧ engine = after) ∨ (q ≠ p ∧ s.engine q = some engine) := by
    intro q engine hq
    by_cases hqp : q = p
    · subst hqp
      exact .inl ⟨rfl, by simpa [SessionNet.act] using hq.symm⟩
    · exact .inr ⟨hqp, by simpa [SessionNet.act, Function.update_of_ne hqp] using hq⟩
  refine ⟨hseparated, fun q engine hq => ?_, fun msg hmsg j outputs hm => ?_, fun q engine hq hdealt => ?_,
    fun a j hshared i hi => ?_, fun q engine hq hshared => ?_, fun msg hmsg j pubshares hm => ?_⟩
  · rcases hengine q engine hq with ⟨rfl, rfl⟩ | ⟨-, hold⟩
    · exact hplaced
    · exact h.placed q engine hold
  · rcases mem_sent_act.1 hmsg with ⟨hattempt, -, hmessage⟩ | hmsg
    · rw [hm] at hmessage
      obtain rfl : j = self.idx := hgossip _ hmessage
      rw [hattempt]
      exact hdeals outputs hmessage
    · exact h.dealt msg hmsg j outputs hm
  · rcases hengine q engine hq with ⟨rfl, rfl⟩ | ⟨hqp, hold⟩
    · rw [hidx] at hdealt ⊢
      exact hkeeps hdealt
    · obtain ⟨msg, hmsg, hattempt, outputs, hm⟩ := hdealt
      have hmem := hother q engine hqp hold msg hmsg hattempt (by rw [hm]; rfl)
      exact h.keeps q engine hold ⟨msg, hmem, hattempt, outputs, hm⟩
  · obtain ⟨msg, hmsg, hattempt, pubshares, hm⟩ := hshared
    rcases mem_sent_act.1 hmsg with ⟨hattempt', -, hmessage⟩ | hmsg
    · rw [hm] at hmessage
      obtain rfl : j = self.idx := hgossip _ hmessage
      obtain rfl : s.attempt p = a := hattempt'.symm.trans hattempt
      exact ((hshares pubshares hmessage).1 i hi).mono hsub
    · exact (h.complete a j ⟨msg, hmsg, hattempt, pubshares, hm⟩ i hi).mono hsub
  · rcases hengine q engine hq with ⟨rfl, rfl⟩ | ⟨hqp, hold⟩
    · rw [hidx] at hshared
      exact hcomputed hshared
    · obtain ⟨msg, hmsg, hattempt, pubshares, hm⟩ := hshared
      have hmem := hother q engine hqp hold msg hmsg hattempt (by rw [hm]; rfl)
      exact h.computed q engine hold ⟨msg, hmem, hattempt, pubshares, hm⟩
  · rcases mem_sent_act.1 hmsg with ⟨hattempt, -, hmessage⟩ | hmsg
    · rw [hm] at hmessage
      obtain rfl : j = self.idx := hgossip _ hmessage
      rw [hattempt]
      exact (hshares pubshares hmessage).2
    · exact h.shared msg hmsg j pubshares hm

theorem Agreed.received (h : s.Agreed setup polys) (hself : s.engine p = some self) (hsame : self.SameNodes after)
    (hseparated : (s.act p after []).Separated setup.quorum) : (s.act p after []).Agreed setup polys := by
  have hidx : after.idx = self.idx := by rw [hsame.frame]
  refine h.act hself hidx nofun hseparated ((h.placed p self hself).of_sameNodes hsame) nofun nofun
    (fun hdealt => ?_) fun hshared => ?_
  · exact (h.keeps p self hself ((hasDealt_act fun _ => List.not_mem_nil).1 hdealt)).of_sameNodes hsame
  · exact (h.computed p self hself (hasShared_of_act (fun _ => List.not_mem_nil) hshared)).of_sameNodes hsame

theorem Agreed.round1 [∀ c, (env.curve c).FaithfulEncodings] [env.R.Lossless] (h : s.Agreed setup polys)
    (hself : s.engine p = some self) (hnone : ∀ msg ∈ s.sent, msg.attempt = s.attempt p → msg.dealer ≠ p)
    {rng : String → (c : CurveId) → ℕ → (env.curve c).FieldEl} {coins : String → ℕ → env.R.Coin}
    {outputs : Option (HMap String Round1Output)} {report : List PeerId}
    (hok : self.handleRound1 rng coins = .ok (after, outputs, report))
    (hseparated : (s.act p after (outputs.toList.map (.round1Out self.idx))).Separated setup.quorum) :
    ∃ polys', (s.act p after (outputs.toList.map (.round1Out self.idx))).Agreed setup polys' := by
  have hin := h.separated.engine p self hself
  obtain ⟨r, hentry⟩ := hin.entry
  obtain ⟨hundealt, hunshared⟩ := h.not_gossiped hentry hnone
  have hplaced := (h.placed p self hself).handleRound1 hok
  have hidx : after.idx = self.idx := by
    obtain ⟨nodes, -, rfl⟩ := handleRound1_eq_ok hok
    rfl
  have hunshared' : ¬ HasShared (s.act p after (outputs.toList.map (.round1Out self.idx))).sent (s.attempt p) self.idx :=
    fun hshared => hunshared (hasShared_of_act (by simp) hshared)
  cases outputs with
  | none =>
    refine ⟨polys, h.act hself hidx nofun hseparated hplaced nofun nofun (fun hdealt => ?_) fun hshared => ?_⟩
    · exact absurd ((hasDealt_act fun _ => List.not_mem_nil).1 hdealt) hundealt
    · exact absurd hshared hunshared'
  | some outputs =>
    obtain ⟨f, hdeals, hkeeps⟩ := (h.placed p self hself).deals hin.fits hok
    let polys' : DealtPolys env := fun a j => if a = s.attempt p ∧ j = self.idx then f else polys a j
    have hnew : polys' (s.attempt p) self.idx = f := if_pos ⟨rfl, rfl⟩
    have h' : s.Agreed setup polys' := by
      refine h.congr fun a j hdealt => if_neg ?_
      rintro ⟨rfl, rfl⟩
      exact hundealt hdealt
    refine ⟨polys', h'.act hself hidx (by simp [SessionMessage.idx]) hseparated hplaced (fun outputs' hmem => ?_) (by simp)
      (fun _ => ?_) fun hshared => absurd hshared hunshared'⟩
    · obtain rfl : outputs' = outputs := by simpa using hmem
      rw [hnew]
      exact hdeals
    · rw [hnew]
      exact hkeeps

section round2
variable {m : Method} {data : NodeData env.R (env.curve m.curve)}

theorem Agreed.stored (h : s.Agreed setup polys) (hself : s.engine p = some self)
    (hnode : self.dkgNodes.get? m.keyName = some ⟨m.curve, data⟩) {y : Bytes} {v : List (env.curve m.curve).Point}
    (hy : data.inputY.get? j = some y) (hv : data.inputV.get? j = some v) :
    j ∈ (setup.ids (s.attempt p)).erase self.idx ∧ HasDealt s.sent (s.attempt p) j ∧
      env.R.decrypt data.node.rsaSeckey y =
        some ((env.curve m.curve).id.toRepr ((polys (s.attempt p) j m).eval (self.idx : (env.curve m.curve).FieldEl))) ∧
      v[0]? = some ((polys (s.attempt p) j m).eval 0 • (env.curve m.curve).basePointOrGenerator) := by
  have hin := h.separated.engine p self hself
  obtain ⟨r, hentry⟩ := hin.entry
  have hsk : data.node.rsaSeckey = setup.rsaKey p :=
    ((h.placed p self hself).node (nodeOf_eq_some hnode)).2
  obtain ⟨hnone, -⟩ | ⟨_, _, hy', hv', msg, hmsg, ⟨hattempt, r', hr'⟩, outputs, output, hm, houtput, hvalue, hdecoded⟩ :=
    (hin.nodes _ _ hnode).dealings j
  · cases hy.symm.trans hnone
  cases hy.symm.trans hy'
  cases hv.symm.trans hv'
  have hdeals := h.dealt msg hmsg j outputs hm
  rw [hattempt] at hdeals
  obtain ⟨-, output', network, houtput', hnetwork, hpoly⟩ := hdeals m
  cases houtput.symm.trans houtput'
  have hne : self.idx ≠ j := hpoly.other self.idx (HMap.get?_isSome.1 (by rw [hvalue]; rfl))
  refine ⟨Finset.mem_erase.2 ⟨hne.symm, setup.mem_ids.2 ⟨_, r', hr'⟩⟩, ⟨msg, hmsg, hattempt, outputs, hm⟩, ?_,
    hpoly.freeTerm v hdecoded⟩
  rw [hsk]
  exact hpoly.value self.idx y _ hvalue (hnetwork.key hentry)

theorem Agreed.stored_both (h : s.Agreed setup polys) (hself : s.engine p = some self)
    (hnode : self.dkgNodes.get? m.keyName = some ⟨m.curve, data⟩) (j : ℕ) :
    (∃ y, data.inputY.get? j = some y) ↔ ∃ v, data.inputV.get? j = some v := by
  obtain ⟨hy, hv⟩ | ⟨y, v, hy, hv, -⟩ := ((h.separated.engine p self hself).nodes _ _ hnode).dealings j
  · rw [hy, hv]
    simp
  · exact ⟨fun _ => ⟨v, hv⟩, fun _ => ⟨y, hy⟩⟩

/-- As many dealings as there are other members are those of all of them. -/
theorem Agreed.mem_inputY (h : s.Agreed setup polys) (hself : s.engine p = some self)
    (hnode : self.dkgNodes.get? m.keyName = some ⟨m.curve, data⟩)
    (hlen : data.inputY.len = self.network.totalNodes - 1) (j : ℕ) :
    j ∈ data.inputY.keys ↔ j ∈ (setup.ids (s.attempt p)).erase self.idx := by
  obtain ⟨r, hentry⟩ := (h.separated.engine p self hself).entry
  have hmem : self.idx ∈ setup.ids (s.attempt p) := setup.mem_ids.2 ⟨p, r, hentry⟩
  have hsub : data.inputY.keys.toFinset ⊆ (setup.ids (s.attempt p)).erase self.idx := by
    intro j hj
    obtain ⟨y, hy⟩ := HMap.exists_get? (List.mem_toFinset.1 hj)
    obtain ⟨v, hv⟩ := (h.stored_both hself hnode j).1 ⟨y, hy⟩
    exact (h.stored hself hnode hy hv).1
  have hcard : ((setup.ids (s.attempt p)).erase self.idx).card ≤ data.inputY.keys.toFinset.card := by
    rw [Finset.card_erase_of_mem hmem, setup.card_ids, HMap.card_keys, hlen, (h.placed p self hself).network.totalNodes]
  rw [← Finset.eq_of_subset_of_card_le hsub hcard, List.mem_toFinset]

theorem Agreed.round2_node (h : s.Agreed setup polys) (hself : s.engine p = some self)
    (hdealt : HasDealt s.sent (s.attempt p) self.idx) (hnode : self.dkgNodes.get? m.keyName = some ⟨m.curve, data⟩)
    {prof : Profile} {ki : (env.curve m.curve).FieldEl} {Ki K : (env.curve m.curve).Point}
    (hok : data.node.dkgRound2 prof self.network data.inputY data.inputV = .ok (ki, Ki, K)) :
    (∀ i ∈ setup.ids (s.attempt p), HasDealt s.sent (s.attempt p) i) ∧
      Node.OnPoly { data.node with privateShare := ki, networkPubkey := K } self.idx
        (setup.groupPoly polys (s.attempt p) m) := by
  have hin := h.separated.engine p self hself
  obtain ⟨r, hentry⟩ := hin.entry
  have hid : data.node.id = self.idx := (hin.fits.nodes _ _ hnode).id
  have hmem : self.idx ∈ setup.ids (s.attempt p) := setup.mem_ids.2 ⟨p, r, hentry⟩
  have hboth := h.stored_both hself hnode
  have hlen : data.inputY.len = self.network.totalNodes - 1 := by
    simp only [Node.dkgRound2, bind_eq_ok] at hok
    obtain ⟨_, hcheck, -⟩ := hok
    exact (check_eq_ok.1 hcheck).2
  have hkeysY := h.mem_inputY hself hnode hlen
  have hkeysV : ∀ j, j ∈ data.inputV.keys ↔ j ∈ (setup.ids (s.attempt p)).erase self.idx := by
    intro j
    rw [← hkeysY, ← HMap.get?_isSome, ← HMap.get?_isSome, Option.isSome_iff_exists, Option.isSome_iff_exists, hboth]
  have hkeeps := h.keeps p self hself hdealt m data.node (nodeOf_eq_some hnode)
  refine ⟨fun i hi => ?_, ?_⟩
  · by_cases hown : i = self.idx
    · exact hown ▸ hdealt
    · obtain ⟨y, hy⟩ := HMap.exists_get? ((hkeysY i).2 (Finset.mem_erase.2 ⟨hown, hi⟩))
      obtain ⟨v, hv⟩ := (hboth i).1 ⟨y, hy⟩
      exact (h.stored hself hnode hy hv).2.1
  · rw [← hid] at hmem hkeysY hkeysV hkeeps ⊢
    refine Node.dkgRound2_of_dealt (f := fun j => polys (s.attempt p) j m) hmem hkeeps hkeysY hkeysV (fun j ct hct => ?_)
      (fun j v hv => ?_) hok
    · obtain ⟨v, hv⟩ := (hboth j).1 ⟨ct, hct⟩
      rw [hid]
      exact (h.stored hself hnode hct hv).2.2.1
    · obtain ⟨y, hy⟩ := (hboth j).2 ⟨v, hv⟩
      exact (h.stored hself hnode hy hv).2.2.2

end round2

theorem Agreed.exists_node (h : s.Agreed setup polys) (hself : s.engine p = some self) (m : Method) :
    ∃ data, self.dkgNodes.get? m.keyName = some ⟨m.curve, data⟩ := by
  obtain ⟨⟨c, data⟩, hnode⟩ := HMap.exists_get? ((h.separated.engine p self hself).fits.keys m (by cases m <;> decide))
  obtain ⟨rfl, -⟩ := (h.placed p self hself).node (nodeOf_eq_some hnode)
  exact ⟨data, hnode⟩

theorem Agreed.handleRound2_some (h : s.Agreed setup polys) (hself : s.engine p = some self) {prof : Profile}
    {pubshares : Option (HMap String Bytes)} {report : List PeerId}
    (hok : self.handleRound2 prof = .ok (after, pubshares, report)) : ∃ shares, pubshares = some shares := by
  obtain ⟨r, hentry⟩ := (h.separated.engine p self hself).entry
  have hmember : self.newProvers.containsKey self.peerId = true := by
    rw [(h.placed p self hself).newProvers, (h.placed p self hself).peerId, HMap.containsKey, hentry]
    rfl
  simp only [DkgEngineState.handleRound2, hmember, not_true_eq_false, if_false, bind_eq_ok, pure_eq_ok, Except.ok.injEq,
    Prod.mk.injEq] at hok
  obtain ⟨_, -, -, rfl, -⟩ := hok
  exact ⟨_, rfl⟩

theorem Agreed.round2 (h : s.Agreed setup polys) (hself : s.engine p = some self)
    (hdealt : HasDealt s.sent (s.attempt p) self.idx) {prof : Profile} {pubshares : Option (HMap String Bytes)}
    {report : List PeerId} (hok : self.handleRound2 prof = .ok (after, pubshares, report))
    (hseparated : (s.act p after (pubshares.toList.map (.round2Out self.idx))).Separated setup.quorum) :
    (s.act p after (pubshares.toList.map (.round2Out self.idx))).Agreed setup polys := by
  obtain ⟨pubshares, rfl⟩ := h.handleRound2_some hself hok
  have hplaced := h.placed p self hself
  -- what round 2 does for each key
  have hnodes : ∀ m : Method, ∃ data share pubshare networkPubkey encoded,
      self.nodeOf m.keyName = some ⟨m.curve, data⟩ ∧
      (∀ i ∈ setup.ids (s.attempt p), HasDealt s.sent (s.attempt p) i) ∧
      Node.OnPoly { data with privateShare := share, networkPubkey := networkPubkey } self.idx
        (setup.groupPoly polys (s.attempt p) m) ∧
      pubshare = share • (env.curve m.curve).basePointOrGenerator ∧
      (env.curve m.curve).encode pubshare = some encoded ∧ pubshares.get? m.keyName = some encoded ∧
      after.nodeOf m.keyName = some ⟨m.curve, { data with privateShare := share, networkPubkey := networkPubkey }⟩ := by
    intro m
    obtain ⟨data, hnode⟩ := h.exists_node hself m
    obtain ⟨share, pubshare, networkPubkey, encoded, hround2, hencode, hget, hafter⟩ := handleRound2_node hok hnode
    obtain ⟨hall, hon⟩ := h.round2_node hself hdealt hnode hround2
    refine ⟨data.node, share, pubshare, networkPubkey, encoded, nodeOf_eq_some hnode, hall, hon, ?_, hencode, hget,
      nodeOf_eq_some hafter⟩
    rw [Node.dkgRound2_pubShare hround2, Curve.scalarMul_eq_smul]
  have hidx : after.idx = self.idx ∧ setup.Placed p (s.attempt p) after := by
    rcases handleRound2_eq_ok hok with ⟨-, hout⟩ | ⟨nodes, rfl, -, -, hchanged⟩
    · cases hout
    · refine ⟨rfl, hplaced.setNodes fun key node' hnode' => ?_⟩
      obtain ⟨node, encoded, hnode, hround2⟩ := hchanged key node' hnode'
      simp only [NodeDataVariant.dkgRound2, bind_eq_ok, pure_eq_ok, Except.ok.injEq, Prod.mk.injEq] at hround2
      obtain ⟨_, -, _, -, rfl, -⟩ := hround2
      exact ⟨node, hnode, rfl, rfl⟩
  refine h.act hself hidx.1 (by simp [SessionMessage.idx]) hseparated hidx.2 (by simp) (fun shares hmem => ?_)
    (fun _ m node hnode => ?_) fun _ m node hnode => ?_
  · obtain rfl : shares = pubshares := by simpa using hmem
    refine ⟨?_, fun m => ?_⟩
    · obtain ⟨-, -, -, -, -, -, hall, -⟩ := hnodes .oprfSecp256k1
      exact hall
    · obtain ⟨_, share, _, _, encoded, -, -, hon, rfl, hencode, hget, -⟩ := hnodes m
      exact ⟨encoded, hget, by rw [← hon.privateShare]; exact hencode⟩
  · obtain ⟨data, share, -, networkPubkey, -, hold, -, -, -, -, -, hafter⟩ := hnodes m
    cases hafter.symm.trans hnode
    have hkeeps := h.keeps p self hself hdealt m data hold
    exact ⟨hkeeps.ownPartialShare, hkeeps.initPubShare⟩
  · obtain ⟨data, share, -, networkPubkey, -, -, -, hon, -, -, -, hafter⟩ := hnodes m
    cases hafter.symm.trans hnode
    rw [hidx.1]
    exact hon

theorem Agreed.step [∀ c, (env.curve c).FaithfulEncodings] [env.R.Lossless] {prof : Profile} (h : s.Agreed setup polys)
    (horderly : s.Orderly event) (hstep : setup.Step prof s event s') : ∃ polys', s'.Agreed setup polys' := by
  obtain ⟨hstep, hgives⟩ := hstep
  have hseparated := h.separated.step horderly.fresh hstep
  cases hstep with
  | @init p attempt _ _ _ r idx engine hentry hinit =>
    refine ⟨polys, h.quiet rfl hseparated p
      (fun q hq => ⟨Function.update_of_ne hq _ _, Function.update_of_ne hq _ _⟩) fun self hself => ?_⟩
    obtain rfl : engine = self := by simpa using hself
    obtain ⟨hundealt, hunshared⟩ := h.not_gossiped hentry horderly
    have hidx : engine.idx = idx := (dkgInit_eq_ok hinit).2.1
    simp only [Function.update_self, hidx]
    exact ⟨setup.placed_of_dkgInit (hgives engine (Function.update_self ..)) hinit,
      fun hdealt => absurd hdealt hundealt, fun hshared => absurd hshared hunshared⟩
  | round1 hself hround1 => exact h.round1 hself horderly hround1 hseparated
  | round1Out hself _ _ hout => exact ⟨polys, h.received hself (sameNodes_handleRound1Output hout) hseparated⟩
  | @round2 p self _ _ _ hself hround2 =>
    obtain ⟨msg, hmsg, hattempt, hdealer, idx, outputs, hm⟩ := horderly
    obtain ⟨-, r, hr⟩ := h.separated.sent msg hmsg
    obtain ⟨r', hr'⟩ := (h.separated.engine p self hself).entry
    rw [hattempt, hdealer, hm, hr', Option.some.injEq, Prod.mk.injEq] at hr
    obtain rfl : self.idx = idx := hr.2
    exact ⟨polys, h.round2 hself ⟨msg, hmsg, hattempt, outputs, hm⟩ hround2 hseparated⟩
  | round2Out hself _ _ hout => exact ⟨polys, h.received hself (sameNodes_handleStoreReceivedPubshare hout) hseparated⟩
  | round3 hself hround3 => exact ⟨polys, h.received hself (sameNodes_handleRound3 hround3) hseparated⟩
  | @stop p =>
    refine ⟨polys, h.quiet rfl hseparated p (fun q hq => ⟨Function.update_of_ne hq _ _, rfl⟩) fun self hself => ?_⟩
    simp at hself

end SessionNet
end agreed

/-! ### Three provers -/

instance (c : CurveId) : (boxEngines.curve c).PrimeOrder := inferInstanceAs (scalarCurve c).PrimeOrder

instance (c : CurveId) : (boxEngines.curve c).TotalEncodings := inferInstanceAs (scalarCurve c).TotalEncodings

instance : boxEngines.R.Lossless := inferInstanceAs boxRsa.Lossless

end HumanNetwork
