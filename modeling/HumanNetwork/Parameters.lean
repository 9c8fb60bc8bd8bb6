import HumanNetwork.Election
import HumanNetwork.MulRequest

/-!
# The parameters of the network (`update_threshold`)

The relay and the provers keep `n`, `t` and `ε` and the map of the quorum, from which `t + ε` provers are drawn
for a request. `update_threshold` stores what an `ElectionInfo` says before it checks it, and the map is replaced
by another message. `Net` is a relay with its election actor and the provers, and `Net.Step` what the messages
do to it: the relay's own actor handles the casts of its election in order, and gossip reaches a node at any time.

The parameters stay valid, and the drawing has enough provers, as long as every `ElectionInfo` that arrives passes
the checks and fits the map that is there, and every map fits the parameters (`Net.parameters_valid`).
-/

namespace HumanNetwork
open Outcome

/-- The first of the checks of `update_threshold` that fails, as it is logged. -/
def ElectionInfo.rejection : ElectionInfo → Option String
  | ⟨t, epsilon, n⟩ =>
    if t ≥ n then
      some s!"Invalid threshold configuration: t ({t}) must be less than n ({n}). Threshold update rejected."
    else if t < 2 then some s!"Invalid threshold: t ({t}) must be at least 2 for security. Threshold update rejected."
    else if n < 3 then
      some s!"Invalid node count: n ({n}) must be at least 3 for a distributed system. Threshold update rejected."
    else if epsilon > n - t then
      let rest := n - t
      some s!"Invalid epsilon: {epsilon} cannot be greater than n-t ({rest}). Threshold update rejected."
    else none

structure ValidParams (n t epsilon : ℕ) : Prop where
  three_le : 3 ≤ n
  two_le : 2 ≤ t
  lt : t < n
  epsilon_le : epsilon ≤ n - t

theorem ElectionInfo.rejection_eq_none {info : ElectionInfo} :
    info.rejection = none ↔ ValidParams info.totalProvers info.threshold info.epsilon := by
  obtain ⟨t, epsilon, n⟩ := info
  constructor
  · intro h
    simp only [rejection] at h
    split at h
    · cases h
    split at h
    · cases h
    split at h
    · cases h
    split at h
    · cases h
    show ValidParams n t epsilon
    exact ⟨by omega, by omega, by omega, by omega⟩
  · rintro ⟨h3, h2, hlt, heps⟩
    dsimp only at h3 h2 hlt heps
    rw [rejection, if_neg (by omega), if_neg (by omega), if_neg (by omega), if_neg (by omega)]

/-! ### Provers -/

structure Prover where
  currentEpoch : ℕ
  n : ℕ
  t : ℕ
  epsilon : ℕ
  myNodeIdx : ℕ
  newProvers : QuorumMap

namespace Prover

def updateThreshold (info : ElectionInfo) (self : Prover) : Prover :=
  { self with n := info.totalProvers, t := info.threshold, epsilon := info.epsilon }

def receive (self : Prover) : ElectionCast → Prover
  | .updatedThreshold info => self.updateThreshold info
  | .updateNodeIdx idx => { self with myNodeIdx := idx }
  | .updateCachedProversMap newProvers => { self with newProvers := newProvers }
  | _ => self

/-- The checks at the head of `process_request`, with the message of the refusal. -/
def checkRequest (prof : Profile) (rng : ChaCha8Rng) (self : Prover) (request : RequestToNetwork) :
    Outcome Empty (Option String) := do
  let newProversIdxes := self.newProvers.values.map Prod.snd
  let tPlusEpsilon ← addU32 prof self.t self.epsilon
  let selected ← request.isForMyNode rng tPlusEpsilon self.myNodeIdx newProversIdxes
  if ¬ selected then return some "Request not for this node"
  if request.epoch ≠ self.currentEpoch then return some "Invalid epoch"
  return none

end Prover

/-! ### The relay -/

def QuorumMap.infos (m : QuorumMap) : HMap PeerId (ProverInfo × ℕ) :=
  m.mapVal fun _ e => (e.1.toProverInfo, e.2)

theorem QuorumMap.len_infos (m : QuorumMap) : m.infos.len = m.len := by
  rw [← HMap.length_keys, infos, HMap.keys_mapVal, HMap.length_keys]

def ElectionCast.toEvent (renv : RelayEnv) : ElectionCast → Option (Event renv)
  | .clearShares => some .clearShares
  | .updateElectedProvers provers isCacheProver =>
    some (.updateElectedProvers (provers.map fun p => p.toProverInfo) isCacheProver)
  | .updateCachedProversMap newProvers => some (.updateCachedProversMap newProvers.infos)
  | .storeQuorumMap tstarProvers newProvers => some (.storeQuorumMap tstarProvers.infos newProvers.infos)
  | .updatedThreshold info => some (.updatedThreshold info)
  | _ => none

/-! ### Runs -/

/-- The relay's election actor, the messages it has cast and the relay has yet to handle, and the provers. -/
structure Net (env : ElectionEnv) where
  engine : ElectionEngine env.f64
  mailbox : List ElectionCast
  relay : Relay
  proverEngine : PeerId → ElectionEngine env.f64
  prover : PeerId → Prover

/-- `relayMessage` is the next message of the mailbox, the last four are gossip. -/
inductive NetEvent (env : ElectionEnv) where
  | updateElectionParams (params : ElectionParams env.f64) (written : Bool × Bool × Bool)
  | firstElection (reply : FirstElectionReply)
  | reElection (prevElectedProvers : List ProverInfo) (reply : ReElectionReply)
  | relayMessage
  | relayThreshold (info : ElectionInfo)
  | proverThreshold (p : PeerId) (info : ElectionInfo)
  | checkElectedStatus (p : PeerId) (provers : List ProverRecord)
  | checkReElectedStatus (p : PeerId) (info : ElectionInfo) (tstarProvers newProvers : QuorumMap)
      (groupKeys : HMap String Bytes)

namespace Net
variable {env : ElectionEnv}

def actAt (s : Net env) (p : PeerId) (out : ElectionEngine env.f64 × List ElectionCast) : Net env :=
  { s with
    proverEngine := Function.update s.proverEngine p out.1
    prover := Function.update s.prover p (out.2.foldl Prover.receive (s.prover p)) }

/-- A total that arrives in a message is a `u32`. -/
inductive Step (renv : RelayEnv) (env : ElectionEnv) : Net env → NetEvent env → Net env → Prop
  | updateElectionParams {s params written engine} (h : s.engine.updateElectionParams params written = .ok engine) :
    Step renv env s (.updateElectionParams params written) { s with engine := engine }
  | firstElection {s reply engine casts} (h : s.engine.handleTriggerElection env reply = .ok (some (engine, casts))) :
    Step renv env s (.firstElection reply) { s with engine := engine, mailbox := s.mailbox ++ casts }
  | reElection {s prev reply engine casts}
      (h : s.engine.triggerReElection env prev reply = .ok (some (engine, casts))) :
    Step renv env s (.reElection prev reply) { s with engine := engine, mailbox := s.mailbox ++ casts }
  | relayMessage {s cast rest e relay} (hbox : s.mailbox = cast :: rest) (he : cast.toEvent renv = some e)
      (h : Relay.Step renv s.relay e relay) : Step renv env s .relayMessage { s with relay := relay, mailbox := rest }
  | skipMessage {s cast rest} (hbox : s.mailbox = cast :: rest) (he : cast.toEvent renv = none) :
    Step renv env s .relayMessage { s with mailbox := rest }
  | relayThreshold {s info} (h : info.totalProvers < 2 ^ 32) :
    Step renv env s (.relayThreshold info) { s with relay := updateThreshold info s.relay }
  | proverThreshold {s p info} (h : info.totalProvers < 2 ^ 32) :
    Step renv env s (.proverThreshold p info)
      { s with prover := Function.update s.prover p ((s.prover p).updateThreshold info) }
  | checkElectedStatus {s p provers} :
    Step renv env s (.checkElectedStatus p provers) (s.actAt p ((s.proverEngine p).handleCheckElectedStatus provers))
  | checkReElectedStatus {s p info tstar new groupKeys} :
    Step renv env s (.checkReElectedStatus p info tstar new groupKeys)
      (s.actAt p ((s.proverEngine p).handleCheckReElectedStatus info tstar new groupKeys))

/-- The parameters of a node are valid, and its map has enough provers to draw from. -/
structure Ok (n t epsilon quorum : ℕ) : Prop extends ValidParams n t epsilon where
  u32 : n < 2 ^ 32
  enough : t + epsilon ≤ quorum

structure Valid (s : Net env) : Prop where
  relay : Ok s.relay.n s.relay.t s.relay.epsilon s.relay.newProvers.len
  prover : ∀ p, Ok (s.prover p).n (s.prover p).t (s.prover p).epsilon (s.prover p).newProvers.len
  mailbox : ∀ info, .updatedThreshold info ∈ s.mailbox → info.totalProvers < 2 ^ 32

/-- A message passes the checks of `update_threshold` and leaves enough provers to draw from. -/
def Fits (t epsilon quorum : ℕ) : ElectionCast → Prop
  | .updatedThreshold info => info.rejection = none ∧ info.threshold + info.epsilon ≤ quorum
  | .updateCachedProversMap newProvers => t + epsilon ≤ newProvers.len
  | .storeQuorumMap _ newProvers => t + epsilon ≤ newProvers.len
  | _ => True

def FitsRelay (s : Net env) : ElectionCast → Prop := Fits s.relay.t s.relay.epsilon s.relay.newProvers.len

def FitsProver (s : Net env) (p : PeerId) : ElectionCast → Prop :=
  Fits (s.prover p).t (s.prover p).epsilon (s.prover p).newProvers.len

def Meets (s : Net env) : NetEvent env → Prop
  | .relayMessage => ∀ cast ∈ s.mailbox.head?, s.FitsRelay cast
  | .relayThreshold info => s.FitsRelay (.updatedThreshold info)
  | .proverThreshold p info => s.FitsProver p (.updatedThreshold info)
  | .checkElectedStatus p provers => (∃ r ∈ provers, r.peerId = (s.proverEngine p).peerId) →
    s.FitsProver p (.updateCachedProversMap (quorumMap provers))
  | .checkReElectedStatus p _ _ newProvers _ => s.FitsProver p (.updateCachedProversMap newProvers)
  | _ => True

/-! ### One message -/

section step
variable {renv : RelayEnv} {n t epsilon quorum : ℕ} {info : ElectionInfo}

theorem Ok.updateThreshold (hinfo : info.rejection = none ∧ info.threshold + info.epsilon ≤ quorum)
    (hu32 : info.totalProvers < 2 ^ 32) : Ok info.totalProvers info.threshold info.epsilon quorum :=
  { ElectionInfo.rejection_eq_none.1 hinfo.1 with u32 := hu32, enough := hinfo.2 }

theorem Ok.replace {quorum' : ℕ} (h : Ok n t epsilon quorum) (henough : t + epsilon ≤ quorum') : Ok n t epsilon quorum' :=
  { h with enough := henough }

theorem Ok.sum_lt (h : Ok n t epsilon quorum) : t + epsilon < 2 ^ 32 := by
  have hlt := h.lt
  have heps := h.epsilon_le
  have hu32 := h.u32
  omega

theorem relayMessage_ok {s relay : Relay} {cast : ElectionCast} {e : Event renv} (he : cast.toEvent renv = some e)
    (h : Relay.Step renv s e relay) (hok : Ok s.n s.t s.epsilon s.newProvers.len)
    (hfits : Fits s.t s.epsilon s.newProvers.len cast)
    (hu32 : ∀ info, cast = .updatedThreshold info → info.totalProvers < 2 ^ 32) :
    Ok relay.n relay.t relay.epsilon relay.newProvers.len := by
  obtain ⟨effects, h⟩ := h
  cases cast with
  | updatedThreshold info =>
    obtain rfl := Option.some.inj he
    obtain ⟨rfl, -⟩ := Prod.mk.inj (Except.ok.inj h)
    exact Ok.updateThreshold hfits (hu32 info rfl)
  | updateCachedProversMap newProvers =>
    obtain rfl := Option.some.inj he
    obtain ⟨rfl, -⟩ := Prod.mk.inj (Except.ok.inj h)
    exact hok.replace (newProvers.len_infos.symm ▸ hfits)
  | storeQuorumMap tstarProvers newProvers =>
    obtain rfl := Option.some.inj he
    obtain ⟨rfl, -⟩ := Prod.mk.inj (Except.ok.inj h)
    exact hok.replace (newProvers.len_infos.symm ▸ hfits)
  | clearShares =>
    obtain rfl := Option.some.inj he
    obtain ⟨rfl, -⟩ := Prod.mk.inj (Except.ok.inj h)
    exact hok
  | updateElectedProvers provers isCacheProver =>
    obtain rfl := Option.some.inj he
    obtain ⟨rfl, -⟩ := Prod.mk.inj (Except.ok.inj h)
    obtain ⟨cached, active, heq⟩ := updateElectedProvers_eq s (provers.map fun p => p.toProverInfo) isCacheProver
    rw [heq]
    exact hok
  | _ => cases he

theorem prover_receive_ok {p : Prover} (cast : ElectionCast) (hok : Ok p.n p.t p.epsilon p.newProvers.len)
    (hmap : ∀ m, cast = .updateCachedProversMap m → p.t + p.epsilon ≤ m.len)
    (hinfo : ∀ info, cast ≠ .updatedThreshold info) :
    Ok (p.receive cast).n (p.receive cast).t (p.receive cast).epsilon (p.receive cast).newProvers.len ∧
      (p.receive cast).t = p.t ∧ (p.receive cast).epsilon = p.epsilon := by
  cases cast with
  | updatedThreshold info => exact absurd rfl (hinfo info)
  | updateCachedProversMap m => exact ⟨hok.replace (hmap m rfl), rfl, rfl⟩
  | _ => exact ⟨hok, rfl, rfl⟩

theorem prover_casts_ok {casts : List ElectionCast} {p : Prover} (hok : Ok p.n p.t p.epsilon p.newProvers.len)
    (hmap : ∀ m, .updateCachedProversMap m ∈ casts → p.t + p.epsilon ≤ m.len)
    (hinfo : ∀ info, .updatedThreshold info ∉ casts) :
    let p' := casts.foldl Prover.receive p
    Ok p'.n p'.t p'.epsilon p'.newProvers.len := by
  induction casts generalizing p with
  | nil => exact hok
  | cons cast casts ih =>
    obtain ⟨hok', ht, heps⟩ := prover_receive_ok cast hok (fun m hm => hmap m (by simp [hm]))
      (fun info hinfo' => hinfo info (by simp [hinfo']))
    refine ih hok' (fun m hm => ?_) fun info hinfo' => hinfo info (List.mem_cons_of_mem _ hinfo')
    rw [ht, heps]
    exact hmap m (List.mem_cons_of_mem _ hm)

theorem handleCheckElectedStatus_casts {f64 : F64} (self : ElectionEngine f64) (provers : List ProverRecord) :
    (∀ m, .updateCachedProversMap m ∈ (self.handleCheckElectedStatus provers).2 →
      m = quorumMap provers ∧ ∃ r ∈ provers, r.peerId = self.peerId) ∧
    ∀ info, .updatedThreshold info ∉ (self.handleCheckElectedStatus provers).2 := by
  rcases self.handleCheckElectedStatus_cases provers with ⟨r, hr, hpeer, heq⟩ | ⟨-, heq⟩
  · rw [heq]
    constructor
    · intro m hm
      obtain rfl : m = quorumMap provers := by simpa using hm
      exact ⟨rfl, r, hr, hpeer⟩
    · intro info hinfo
      simp at hinfo
  · rw [heq]
    simp

theorem handleCheckReElectedStatus_casts {f64 : F64} (self : ElectionEngine f64) (info : ElectionInfo)
    (tstar new : QuorumMap) (groupKeys : HMap String Bytes) :
    (∀ m, .updateCachedProversMap m ∈ (self.handleCheckReElectedStatus info tstar new groupKeys).2 → m = new) ∧
    ∀ info', .updatedThreshold info' ∉ (self.handleCheckReElectedStatus info tstar new groupKeys).2 := by
  unfold ElectionEngine.handleCheckReElectedStatus
  split <;> simp

theorem update_prover_ok {s : Net env} {p : PeerId} {out : Prover} (hs : s.Valid)
    (hout : Ok out.n out.t out.epsilon out.newProvers.len) (q : PeerId) :
    let prover := Function.update s.prover p out q
    Ok prover.n prover.t prover.epsilon prover.newProvers.len := by
  rcases eq_or_ne q p with rfl | hq
  · simpa using hout
  · simpa [Function.update_of_ne hq] using hs.prover q

theorem actAt_valid {s : Net env} {p : PeerId} {out : ElectionEngine env.f64 × List ElectionCast} (hs : s.Valid)
    (hmap : ∀ m, .updateCachedProversMap m ∈ out.2 → (s.prover p).t + (s.prover p).epsilon ≤ m.len)
    (hinfo : ∀ info, .updatedThreshold info ∉ out.2) : (s.actAt p out).Valid where
  relay := hs.relay
  prover := update_prover_ok hs (prover_casts_ok (hs.prover p) hmap hinfo)
  mailbox := hs.mailbox

theorem election_casts_u32 {engine engine' : ElectionEngine env.f64} {casts : List ElectionCast}
    (h : (∃ reply, engine.handleTriggerElection env reply = .ok (some (engine', casts))) ∨
      ∃ prev reply, engine.triggerReElection env prev reply = .ok (some (engine', casts)))
    (hinfo : .updatedThreshold info ∈ casts) : info.totalProvers < 2 ^ 32 := by
  have hmod : ∀ len, (engine.electionInfo len).totalProvers < 2 ^ 32 := fun len => Nat.mod_lt _ (by decide)
  rcases h with ⟨reply, h⟩ | ⟨prev, reply, h⟩
  · obtain ⟨_, _, _, -, -, -, rfl, -, rfl⟩ := ElectionEngine.handleTriggerElection_eq_ok h
    obtain rfl : info = _ := by simpa using hinfo
    exact hmod _
  · rcases ElectionEngine.triggerReElection_cases h with ⟨-, rfl | rfl⟩ | ⟨_, _, _, hann⟩
    · cases hinfo
    · simp at hinfo
    · rw [hann.sent] at hinfo
      obtain rfl : info = _ := by simpa using hinfo
      exact hmod _

theorem Step.valid {s s' : Net env} {e : NetEvent env} (hs : s.Valid) (hmeets : s.Meets e) (h : Step renv env s e s') :
    s'.Valid := by
  cases h with
  | updateElectionParams h => exact ⟨hs.relay, hs.prover, hs.mailbox⟩
  | firstElection h =>
    refine ⟨hs.relay, hs.prover, fun info hinfo => ?_⟩
    rcases List.mem_append.1 hinfo with hinfo | hinfo
    · exact hs.mailbox info hinfo
    · exact election_casts_u32 (.inl ⟨_, h⟩) hinfo
  | reElection h =>
    refine ⟨hs.relay, hs.prover, fun info hinfo => ?_⟩
    rcases List.mem_append.1 hinfo with hinfo | hinfo
    · exact hs.mailbox info hinfo
    · exact election_casts_u32 (.inr ⟨_, _, h⟩) hinfo
  | relayMessage hbox he h =>
    have hfits := hmeets _ (by rw [hbox]; rfl)
    refine ⟨relayMessage_ok he h hs.relay hfits ?_, hs.prover, fun info hinfo => ?_⟩
    · rintro info rfl
      exact hs.mailbox info (by simp [hbox])
    · exact hs.mailbox info (by simp [hbox, hinfo])
  | skipMessage hbox he => exact ⟨hs.relay, hs.prover, fun info hinfo => hs.mailbox info (by simp [hbox, hinfo])⟩
  | relayThreshold h => exact ⟨.updateThreshold hmeets h, hs.prover, hs.mailbox⟩
  | proverThreshold h => exact ⟨hs.relay, update_prover_ok hs (.updateThreshold hmeets h), hs.mailbox⟩
  | checkElectedStatus =>
    obtain ⟨hmap, hinfo⟩ := handleCheckElectedStatus_casts _ _
    refine actAt_valid hs (fun m hm => ?_) hinfo
    obtain ⟨rfl, hmem⟩ := hmap m hm
    exact hmeets hmem
  | checkReElectedStatus =>
    obtain ⟨hmap, hinfo⟩ := handleCheckReElectedStatus_casts _ _ _ _ _
    refine actAt_valid hs (fun m hm => ?_) hinfo
    obtain rfl := hmap m hm
    exact hmeets

/-! ### Every run -/

theorem checkRequest_ok (prof : Profile) (rng : ChaCha8Rng) {p : Prover} (request : RequestToNetwork)
    (hok : Ok p.n p.t p.epsilon p.newProvers.len) : ∃ err, p.checkRequest prof rng request = .ok err := by
  have hlen : p.t + p.epsilon ≤ (p.newProvers.values.map Prod.snd).length := by
    rw [List.length_map, HMap.length_values]
    exact hok.enough
  obtain ⟨selected, hselected⟩ : ∃ selected, (request.isForMyNode rng (p.t + p.epsilon) p.myNodeIdx
      (p.newProvers.values.map Prod.snd) : Outcome Empty Bool) = .ok selected := request.exists_isForMyNode rng _ hlen
  simp only [Prover.checkRequest, addU32, if_pos hok.sum_lt, bind_ok, hselected]
  split
  · exact ⟨_, rfl⟩
  · split
    · exact ⟨_, rfl⟩
    · exact ⟨_, rfl⟩

theorem handleNext {s₀ s : Net env} {cast : ElectionCast} {rest : List ElectionCast} {e : Event renv} {relay : Relay}
    (hrun : Reach (Step renv env) Meets s₀ s) (hbox : s.mailbox = cast :: rest) (hfits : s.FitsRelay cast)
    (he : cast.toEvent renv = some e) (h : Relay.Step renv s.relay e relay) :
    Reach (Step renv env) Meets s₀ { s with relay := relay, mailbox := rest } := by
  have hmeets : s.Meets .relayMessage := by
    intro next hnext
    rw [hbox] at hnext
    obtain rfl := Option.some.inj hnext
    exact hfits
  exact hrun.tail hmeets (.relayMessage hbox he h)

end step

/-- In every run whose messages fit the nodes that handle them, the parameters of the relay and of every prover
are valid, and neither side of the selection of a request runs out of provers. -/
theorem parameters_valid (renv : RelayEnv) (env : ElectionEnv) (s s' : Net env) (hs : s.Valid)
    (hrun : Reach (Step renv env) Meets s s') :
    (ValidParams s'.relay.n s'.relay.t s'.relay.epsilon ∧
      ∀ prof rng request, ∃ targets, forwardTargets prof rng s'.relay request = .ok targets) ∧
    ∀ p, ValidParams (s'.prover p).n (s'.prover p).t (s'.prover p).epsilon ∧
      ∀ prof rng request, ∃ err, (s'.prover p).checkRequest prof rng request = .ok err := by
  have hvalid : s'.Valid := hrun.invariant hs fun hs hmeets hstep => hstep.valid hs hmeets
  refine ⟨⟨hvalid.relay.toValidParams, fun prof rng request => ?_⟩, fun p => ⟨(hvalid.prover p).toValidParams, ?_⟩⟩
  · exact forwardTargets_ok prof rng s'.relay request hvalid.relay.enough hvalid.relay.sum_lt
  · exact fun prof rng request => checkRequest_ok prof rng request (hvalid.prover p)

def threeNet : Net openElection where
  engine := freshEngine "relay"
  mailbox := []
  relay := { RelayNode.servingNode.relay with epsilon := 1 }
  proverEngine := freshEngine
  prover := fun _ => ⟨0, 3, 2, 1, 2, quorumMap threeProvers⟩

theorem threeNet_valid : threeNet.Valid where
  relay := ⟨⟨by decide, by decide, by decide, by decide⟩, by decide, by decide⟩
  prover := fun p => by
    show Ok 3 2 1 (quorumMap threeProvers).len
    exact ⟨⟨by decide, by decide, by decide, by decide⟩, by decide, by decide⟩
  mailbox := by simp [threeNet]

theorem parameters_valid_election : ∃ s' : Net openElection,
    s'.relay.activeProvers = [⟨"a", 2⟩, ⟨"b", 3⟩, ⟨"c", 4⟩] ∧
    (ValidParams s'.relay.n s'.relay.t s'.relay.epsilon ∧
      ∀ prof rng request, ∃ targets, forwardTargets prof rng s'.relay request = .ok targets) ∧
    ∀ p, ValidParams (s'.prover p).n (s'.prover p).t (s'.prover p).epsilon ∧
      ∀ prof rng request, ∃ err, (s'.prover p).checkRequest prof rng request = .ok err := by
  have helection := firstElection_threeProvers (t := 2) (show (freshEngine "relay").globals = _ from rfl) (by decide +kernel)
  have hmeets : threeNet.Meets (.firstElection ⟨registryOf ["boot", "relay", "a", "b", "c"], [fun _ => true]⟩) := trivial
  have helected : Reach (Step scalarRelay openElection) Meets threeNet _ :=
    Reach.refl.tail hmeets (.firstElection helection)
  have hmap := handleNext helected rfl (show 2 + 1 ≤ 3 by decide) rfl ⟨[], rfl⟩
  have hactive := handleNext hmap rfl trivial rfl ⟨[], rfl⟩
  have hinfo : (ElectionInfo.mk 2 1 3).rejection = none :=
    ElectionInfo.rejection_eq_none.2 ⟨by decide, by decide, by decide, by decide⟩
  have hthreshold := handleNext hactive rfl ⟨hinfo, show 2 + 1 ≤ 3 by decide⟩ rfl ⟨[], rfl⟩
  exact ⟨_, rfl, parameters_valid scalarRelay openElection threeNet _ threeNet_valid hthreshold⟩

/-- The operator asks for all shares, and an election follows. Its `ElectionInfo` is logged as rejected, and the
relay has its parameters all the same. -/
theorem rejected_parameters_stored : ∃ s s' : Net openElection,
    threeNet.Valid ∧ Reach (Step scalarRelay openElection) (fun _ _ => True) threeNet s ∧
    s.mailbox.head? = some (.updatedThreshold ⟨3, 1, 3⟩) ∧
    (ElectionInfo.mk 3 1 3).rejection =
      some "Invalid threshold configuration: t (3) must be less than n (3). Threshold update rejected." ∧
    Step scalarRelay openElection s .relayMessage s' ∧
    (s.relay.n, s.relay.t, s.relay.epsilon) = (3, 2, 1) ∧ (s'.relay.n, s'.relay.t, s'.relay.epsilon) = (3, 3, 1) ∧
    ¬ ValidParams s'.relay.n s'.relay.t s'.relay.epsilon := by
  let strict : ElectionEngine exactF64 :=
    { freshEngine "relay" with
      globals := ⟨(100 : ℚ), 1, 3⟩, saved := ⟨none, ⟨some (100 : ℚ), some 1, some 3⟩⟩ }
  have hparams : Step scalarRelay openElection threeNet
      (.updateElectionParams ⟨some (100 : ℚ), none, none⟩ (true, true, true)) { threeNet with engine := strict } :=
    .updateElectionParams rfl
  have helection := firstElection_threeProvers (t := 3) (show strict.globals = _ from rfl) (by decide +kernel)
  have hstrict : Reach (Step scalarRelay openElection) (fun _ _ => True) threeNet { threeNet with engine := strict } :=
    Reach.refl.tail trivial hparams
  have helected := hstrict.tail trivial (.firstElection helection)
  -- the map and the active provers come first
  have hmap := helected.tail trivial (.relayMessage rfl rfl ⟨[], rfl⟩)
  have hactive := hmap.tail trivial (.relayMessage rfl rfl ⟨[], rfl⟩)
  refine ⟨_, _, threeNet_valid, hactive, rfl, by decide, .relayMessage rfl rfl ⟨[], rfl⟩, rfl, rfl, ?_⟩
  exact fun h => absurd h.lt (by decide)

end Net

end HumanNetwork
