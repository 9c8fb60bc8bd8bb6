import HumanNetwork.Service

/-!
# A client that asks gets its answer

`service_answers`: when a request has been forwarded and the proofs of `t` provers have arrived at the relay, the client has
got the product with the secret, once, whatever else was asked, served and received in between. `service_completes`: the
provers that a request is forwarded to find themselves selected, none of their handlers panics, and delivering the messages
leads to that answer.
-/

namespace HumanNetwork
open Outcome Polynomial

variable {env : ServiceEnv}

namespace Service
variable {q : Quorum env.relay} {request : String → RequestToNetwork} {svc svc' : Service env} {asked : List String}
  {id : String}

abbrev Trace (env : ServiceEnv) := List (ServiceEvent env × List (Effect env.relay))

def isReceive : ServiceEvent env → Bool
  | .receive .. => true
  | _ => false

def resultsTo (id : String) (trace : Trace env) : List (String × NodeResponse env.relay) :=
  (trace.flatMap fun e => if isReceive e.1 then e.2.filterMap Effect.publish? else []).filter fun p => p.1 = id

def receivedToken? : ServiceEvent env → Option (PeerId × String)
  | .receive response _ => response.token?
  | _ => none

def Arrived (id : String) (trace : Trace env) (peerId : PeerId) : Prop := ∃ e ∈ trace, receivedToken? e.1 = some (peerId, id)

def arrived (id : String) (trace : Trace env) : Finset PeerId :=
  (((trace.filterMap fun e => receivedToken? e.1).filter fun token => token.2 = id).map Prod.fst).toFinset

theorem mem_arrived {trace : Trace env} {peerId : PeerId} : peerId ∈ arrived id trace ↔ Arrived id trace peerId := by
  simp [arrived, Arrived]

theorem Arrived.append {before after : Trace env} {peerId : PeerId}
    (h : Arrived id before peerId ∨ Arrived id after peerId) : Arrived id (before ++ after) peerId := by
  rcases h with ⟨e, hmem, htoken⟩ | ⟨e, hmem, htoken⟩
  · exact ⟨e, List.mem_append_left _ hmem, htoken⟩
  · exact ⟨e, List.mem_append_right _ hmem, htoken⟩

/-- What does not get in the way of a request: Redis stores its proofs, and its entries stay in the caches. -/
def Calm (id : String) : ServiceEvent env → Prop
  | .receive response redis => ∀ peerId, response.token? = some (peerId, id) → redis.get = true ∧ redis.set = true
  | .expire cache key => key = id → cache = .batch
  | _ => True

/-- No other request has the same bytes. -/
def Distinct (env : ServiceEnv) (request : String → RequestToNetwork) (id : String) (asked : List String) : Prop :=
  ∀ id' ∈ asked, id' ≠ id → requestHash env.relay (request id') ≠ requestHash env.relay (request id)

theorem redis_of_toEvent {response : ProverResponse env.lib} {redis redis' : RedisReply} {c : CurveId} {i : ℕ}
    {peerId : PeerId} {id : String} {proof : DLEQProof (env.relay.curve c)} {method : Method}
    (h : response.toEvent env redis = some (.processReceivedProof c i peerId id proof method redis')) : redis' = redis := by
  cases response with
  | constructedProofSecp256k1 => exact (Event.processReceivedProof.inj (Option.some.inj h)).2.2.2.2.2.2.symm
  | constructedProofBabyJubJub => exact (Event.processReceivedProof.inj (Option.some.inj h)).2.2.2.2.2.2.symm
  | error => cases h

theorem token?_eq_none {response : ProverResponse env.lib} {redis : RedisReply} (h : response.toEvent env redis = none) :
    response.token? = none := by
  cases response with
  | error => rfl
  | _ => cases h

/-- A step of the service is one of the relay, or the relay does not notice. -/
theorem Sound.exists_relay_step (h : Sound q request asked svc) (hid : id ∈ asked) (hsubgroup : InSubgroup env request)
    {e : ServiceEvent env × List (Effect env.relay)} (hfresh : Fresh request asked e.1) (hcalm : Calm id e.1)
    (hdistinct : Distinct env request id asked) (hstep : Step svc e svc') :
    ∃ trace, Run (q.ServingStep request id) svc.node.relay trace svc'.node.relay ∧
      publicationsTo id trace = resultsTo id [e] ∧
      (∀ peerId, receivedToken? e.1 = some (peerId, id) →
        peerId ∈ svc.node.relay.activeProvers.map ProverInfo.peerId ∧ ∃ e' ∈ trace, IsAnswerOf q request peerId id e'.1) ∧
      ∀ i, ∀ e' ∈ trace, Quorum.Sends id i e'.1 → ∃ peerId, receivedToken? e.1 = some (peerId, id) ∧ q.idx peerId = i := by
  cases hstep with
  | @ask r id' reply out handled =>
    obtain ⟨rfl, hid'⟩ := hfresh
    have hne : id' ≠ id := by
      rintro rfl
      exact hid' hid
    refine ⟨[_], ⟨_, ⟨tracedStep_of_ask handled, rfl, trivial, hne⟩, rfl⟩, rfl, (fun _ heq => by cases heq), ?_⟩
    intro i e' he' hsends
    obtain rfl := List.mem_singleton.1 he'
    exact hsends.elim
  | serve => exact ⟨[], rfl, rfl, (fun _ heq => by cases heq), fun _ _ he' => absurd he' List.not_mem_nil⟩
  | @receive response redis e relay effects pre post sent told handled =>
    obtain ⟨peerId, id', htoken, hanswer, hfixed, hown⟩ := h.serving hsubgroup sent told
    have hmem := (perm_tokens sent htoken svc.node).mem_iff.2 List.mem_cons_self
    have hundisturbed : Quorum.Undisturbed request id e := by
      obtain ⟨P, hP, draw, proof, redis', hproof, rfl⟩ := hanswer
      obtain rfl := redis_of_toEvent told
      show if id' = id then _ else _
      split
      next heq =>
        subst heq
        exact hcalm peerId htoken
      next hne => exact hdistinct id' (h.asked_of_token _ hmem) hne
    refine ⟨[(e, effects)], ⟨relay, ⟨handled, hfixed, hown, hundisturbed⟩, rfl⟩, ?_, ?_, ?_⟩
    · obtain ⟨P, hP, draw, proof, redis', hproof, rfl⟩ := hanswer
      rfl
    · intro peerId' htoken'
      obtain ⟨rfl, rfl⟩ := Prod.mk.inj (Option.some.inj (htoken.symm.trans htoken'))
      exact ⟨h.members _ hmem, _, List.mem_singleton_self _, hanswer⟩
    · intro i e' he' hsends
      obtain rfl := List.mem_singleton.1 he'
      obtain ⟨P, hP, draw, proof, redis', hproof, rfl⟩ := hanswer
      obtain ⟨rfl, rfl⟩ := hsends
      exact ⟨peerId, htoken, rfl⟩
  | @ignore response redis pre post sent told =>
    refine ⟨[], rfl, rfl, fun peerId htoken => ?_, fun _ _ he' => absurd he' List.not_mem_nil⟩
    rw [receivedToken?, token?_eq_none told] at htoken
    cases htoken
  | @expire cache key =>
    refine ⟨[(.expire cache key, [])], ⟨_, ⟨rfl, rfl, trivial, hcalm⟩, rfl⟩, rfl, (fun _ heq => by cases heq), ?_⟩
    intro i e' he' hsends
    obtain rfl := List.mem_singleton.1 he'
    exact hsends.elim

def roster (svc : Service env) : Relay := { svc.node.relay.withoutCaches with readyNodes := ∅ }

theorem Step.roster {e : ServiceEvent env × List (Effect env.relay)} (h : Step svc e svc') :
    svc'.provers = svc.provers ∧ svc'.roster = svc.roster := by
  cases h with
  | ask handled =>
    obtain ⟨readyNodes, reqCache, -, heq⟩ := relay_of_ask handled
    refine ⟨rfl, ?_⟩
    unfold Service.roster
    rw [heq]
    rfl
  | serve => exact ⟨rfl, rfl⟩
  | @receive response redis e relay effects pre post sent told handled =>
    have hproof : ∃ c i peerId id proof method, e = .processReceivedProof c i peerId id proof method redis := by
      cases response with
      | error => cases told
      | _ => exact ⟨_, _, _, _, _, _, (Option.some.inj told).symm⟩
    obtain ⟨c, i, peerId, id, proof, method, rfl⟩ := hproof
    refine ⟨rfl, ?_⟩
    unfold Service.roster
    rw [withoutCaches_of_processReceivedProof handled]
  | ignore => exact ⟨rfl, rfl⟩
  | @expire cache key => exact ⟨rfl, by cases cache <;> rfl⟩

theorem roster_of_run {trace : Trace env} (h : Run Step svc trace svc') :
    svc'.provers = svc.provers ∧ svc'.roster = svc.roster :=
  h.invariant (I := fun svc' => svc'.provers = svc.provers ∧ svc'.roster = svc.roster) ⟨rfl, rfl⟩
    fun ⟨hprovers, hroster⟩ hstep => ⟨hstep.roster.1.trans hprovers, hstep.roster.2.trans hroster⟩

theorem resultsTo_append (id : String) (trace trace' : Trace env) :
    resultsTo id (trace ++ trace') = resultsTo id trace ++ resultsTo id trace' := by
  rw [resultsTo, List.flatMap_append, List.filter_append]
  rfl

/-- A run of the service after the request is a run of the relay in which the proofs that have arrived are answers. -/
theorem Idle.exists_relay_run {svc₀ svc₁ : Service env} (hidle : Idle q svc₀) (hsubgroup : InSubgroup env request)
    {before after : Trace env} (hproper : Proper request (before ++ after)) (hid : id ∈ askedIds before)
    (hcalm : ∀ e ∈ after, Calm id e.1) (hdistinct : Distinct env request id (askedIds (before ++ after)))
    (hbefore : Run Step svc₀ before svc₁) (hafter : Run Step svc₁ after svc) :
    ∃ trace, Run (q.ServingStep request id) svc₁.node.relay trace svc.node.relay ∧
      publicationsTo id trace = resultsTo id after ∧
      (∀ peerId, Arrived id after peerId →
        peerId ∈ svc₀.node.relay.activeProvers.map ProverInfo.peerId ∧ ∃ e ∈ trace, IsAnswerOf q request peerId id e.1) ∧
      ∀ i, ∀ e ∈ trace, Quorum.Sends id i e.1 → ∃ peerId, Arrived id after peerId ∧ q.idx peerId = i := by
  induction after using List.reverseRecOn generalizing svc with
  | nil =>
    obtain rfl := hafter
    refine ⟨[], rfl, rfl, fun peerId harrived => ?_, fun _ _ hmem => absurd hmem List.not_mem_nil⟩
    obtain ⟨e, hmem, -⟩ := harrived
    cases hmem
  | append_singleton after e ih =>
    obtain ⟨mid, hmid, last, hlast, rfl⟩ := Run.append_iff.1 hafter
    rw [← List.append_assoc] at hproper hdistinct
    have hsub : ∀ id' ∈ askedIds (before ++ after), id' ∈ askedIds ((before ++ after) ++ [e]) := by
      intro id' hid'
      rw [askedIds_append_singleton]
      exact List.mem_append_left _ hid'
    have hdistinct' : Distinct env request id (askedIds (before ++ after)) := fun id' hid' => hdistinct id' (hsub id' hid')
    obtain ⟨trace, hrun, hresults, hanswers, hsent⟩ :=
      ih hproper.of_append (fun e he => hcalm e (List.mem_append_left _ he)) hdistinct' hmid
    have hwhole : Run Step svc₀ (before ++ after) mid := Run.append_iff.2 ⟨svc₁, hbefore, hmid⟩
    have hsound := hidle.run hsubgroup hproper.of_append hwhole
    have hid' : id ∈ askedIds (before ++ after) := by
      rw [askedIds, List.filterMap_append]
      exact List.mem_append_left _ hid
    obtain ⟨trace', hrun', hresults', hanswers', hsent'⟩ := hsound.exists_relay_step hid' hsubgroup hproper.fresh
      (hcalm e (List.mem_append_right _ (List.mem_singleton_self _))) hdistinct' hlast
    refine ⟨trace ++ trace', Run.append_iff.2 ⟨_, hrun, hrun'⟩, ?_, ?_, ?_⟩
    · rw [publicationsTo_append, hresults, hresults', resultsTo_append]
    · rintro peerId ⟨e', hmem, htoken⟩
      rcases List.mem_append.1 hmem with hmem | hmem
      · obtain ⟨hactive, e', he', hanswer⟩ := hanswers peerId ⟨e', hmem, htoken⟩
        exact ⟨hactive, e', List.mem_append_left _ he', hanswer⟩
      · obtain rfl := List.mem_singleton.1 hmem
        obtain ⟨hactive, e', he', hanswer⟩ := hanswers' peerId htoken
        have hsame : mid.node.relay.activeProvers = svc₀.node.relay.activeProvers :=
          (congrArg Relay.activeProvers (roster_of_run hwhole).2 :)
        rw [hsame] at hactive
        exact ⟨hactive, e', List.mem_append_right _ he', hanswer⟩
    · intro i e' he' hsends
      rcases List.mem_append.1 he' with he' | he'
      · obtain ⟨peerId, harrived, hidx⟩ := hsent i e' he' hsends
        exact ⟨peerId, .append (.inl harrived), hidx⟩
      · obtain ⟨peerId, htoken, hidx⟩ := hsent' i e' he' hsends
        exact ⟨peerId, .append (.inr ⟨e, List.mem_singleton_self _, htoken⟩), hidx⟩

/-! ### From the request to the answer -/

def asking (request : String → RequestToNetwork) (id : String) (reply : MulReply) :
    ServiceEvent env × List (Effect env.relay) :=
  (.ask (request id) id reply, [.forward id (request id)])

/-- A run in which a request for `P` is forwarded, and nothing gets in its way after that. -/
structure Episode (q : Quorum env.relay) (request : String → RequestToNetwork) (id : String)
    (P : (env.relay.curve (request id).method.curve).Point) (result : NodeResponse env.relay) (svc₀ : Service env)
    (before : Trace env) (reply : MulReply) (after : Trace env) (svc : Service env) : Prop where
  idle : Idle q svc₀
  run : Run Step svc₀ (before ++ asking request id reply :: after) svc
  proper : Proper request (before ++ asking request id reply :: after)
  calm : ∀ e ∈ after, Calm id e.1
  distinct : Distinct env request id (askedIds (before ++ asking request id reply :: after))
  subgroup : InSubgroup env request
  point : (env.relay.curve (request id).method.curve).fromEncoded (request id).point = .ok P
  isResult : q.IsResult request id P result
  serializeProof : ∀ c proof, (env.relay.serializeProof c proof).isSome
  serializeRequest : (env.relay.serializeRequest (request id)).isSome
  threshold : 0 < q.t
  keys : ∀ peerId ∈ svc₀.node.relay.activeProvers.map ProverInfo.peerId,
    (svc₀.node.relay.keyOf peerId (request id).method).isSome

namespace Episode
variable {P : (env.relay.curve (request id).method.curve).Point} {result : NodeResponse env.relay} {svc₀ : Service env}
  {before after : Trace env} {reply : MulReply} (h : Episode q request id P result svc₀ before reply after svc)
include h

theorem exists_forward : ∃ (svc₁ : Service env) (out : MulOutcome env.relay), Run Step svc₀ before svc₁ ∧
    svc₁.node.handleMultiplicationRequest env.account env.prof env.rng (request id) id reply = .ok out ∧
    out.effects = [.forward id (request id)] ∧
    Run Step { svc₁ with
      node := out.node, requests := svc₁.requests ++ out.targets.map fun peerId => (peerId, id, request id) } after svc := by
  obtain ⟨svc₁, hbefore, svc₂, hask, hafter⟩ := Run.append_iff.1 h.run
  obtain ⟨effects, heffects, hask⟩ : ∃ effects, effects = [Effect.forward id (request id)] ∧
      Step svc₁ (.ask (request id) id reply, effects) svc₂ := ⟨_, rfl, hask⟩
  cases hask with
  | @ask _ _ _ out handled => exact ⟨svc₁, out, hbefore, handled, heffects, hafter⟩

theorem not_mem_askedIds : id ∉ askedIds before := by
  have hproper := h.proper
  rw [← List.singleton_append, ← List.append_assoc] at hproper
  exact hproper.of_append.fresh.2

theorem exists_progress (provers : Finset PeerId)
    (hprovers : ∀ peerId ∈ provers, peerId ∈ svc₀.node.relay.activeProvers.map ProverInfo.peerId) :
    ∃ trace, q.Serves request id provers svc.node.relay ∧
      q.Progress request id provers P result trace svc.node.relay ∧ publicationsTo id trace = resultsTo id after ∧
      (∀ peerId, Arrived id after peerId →
        peerId ∈ svc₀.node.relay.activeProvers.map ProverInfo.peerId ∧ ∃ e ∈ trace, q.IsAnswer request id P peerId e.1) ∧
      ∀ i, ∀ e ∈ trace, Quorum.Sends id i e.1 → ∃ peerId, Arrived id after peerId ∧ q.idx peerId = i := by
  obtain ⟨svc₁, out, hbefore, handled, heffects, hafter⟩ := h.exists_forward
  have hsound := h.idle.run h.subgroup h.proper.of_append hbefore
  have hshares : svc₁.node.relay.pubkeyShares = svc₀.node.relay.pubkeyShares :=
    (congrArg Relay.pubkeyShares (roster_of_run hbefore).2 :)
  have hforward := tracedStep_of_ask handled
  rw [heffects] at hforward
  have hforwarded : Run Step svc₀ (before ++ [asking request id reply]) _ :=
    Run.append_iff.2 ⟨svc₁, hbefore, show Run Step svc₁ [_] _ from ⟨_, heffects ▸ Step.ask handled, rfl⟩⟩
  have hid := h.not_mem_askedIds
  have hkeys : ∀ peerId ∈ provers, (svc₁.node.relay.keyOf peerId (request id).method).isSome := by
    intro peerId hmem
    rw [Relay.keyOf, hshares]
    exact h.keys peerId (hprovers peerId hmem)
  have hunbatched : ∀ hash, requestHash env.relay (request id) = some hash →
      svc₁.node.relay.batchCache.containsKey hash = false := by
    intro hash hhash
    by_contra hbatched
    obtain ⟨id', hid', heq⟩ := hsound.batched hash (Bool.not_eq_false _ ▸ hbatched)
    have hne : id' ≠ id := by
      rintro rfl
      exact hid hid'
    refine h.distinct id' ?_ hne (heq.trans hhash.symm)
    rw [askedIds, List.filterMap_append]
    exact List.mem_append_left _ hid'
  obtain ⟨hserves, hawaits, hnone⟩ := hsound.orderly.forward hforward
    ⟨not_imp_comm.1 (hsound.asked_of_cached id) hid, not_imp_comm.1 (hsound.asked_of_counted id) hid⟩ hunbatched hkeys
    h.threshold
  have happend : before ++ asking request id reply :: after = before ++ [asking request id reply] ++ after := by simp
  obtain ⟨trace, hrun, hresults, hanswers, hsent⟩ := h.idle.exists_relay_run h.subgroup (happend ▸ h.proper)
    (by rw [askedIds_append_singleton]; exact List.mem_append_right _ (List.mem_singleton_self id)) h.calm
    (happend ▸ h.distinct) hforwarded hafter
  obtain ⟨hserves, hprogress⟩ := hserves.run h.point (h.subgroup id P h.point) h.isResult h.serializeProof
    h.serializeRequest hawaits hnone hrun
  refine ⟨trace, hserves, hprogress, hresults, fun peerId harrived => ?_, hsent⟩
  obtain ⟨hactive, e, he, P', hP', hanswer⟩ := hanswers peerId harrived
  obtain rfl := Except.ok.inj (h.point.symm.trans hP')
  exact ⟨hactive, e, he, hanswer⟩

end Episode

section results
variable {P : (env.relay.curve (request id).method.curve).Point} {result : NodeResponse env.relay} {svc₀ : Service env}
  {before after : Trace env} {reply : MulReply} (h : Episode q request id P result svc₀ before reply after svc)
include h

theorem Episode.active_of_arrived {peerId : PeerId} (harrived : Arrived id after peerId) :
    peerId ∈ svc₀.node.relay.activeProvers.map ProverInfo.peerId := by
  obtain ⟨_, -, -, -, hanswers, -⟩ := h.exists_progress ∅ (fun _ hmem => absurd hmem (Finset.notMem_empty _))
  exact (hanswers peerId harrived).1

theorem Episode.results (hcard : q.t ≤ (arrived id after).card) : resultsTo id after = [(id, result)] := by
  have hprovers : ∀ peerId ∈ arrived id after, peerId ∈ svc₀.node.relay.activeProvers.map ProverInfo.peerId :=
    fun peerId hmem => h.active_of_arrived (mem_arrived.1 hmem)
  obtain ⟨trace, -, hprogress, hresults, hanswers, -⟩ := h.exists_progress (arrived id after) hprovers
  rw [← hresults]
  apply hprogress.published
  · rwa [Finset.card_image_of_injOn fun p hp p' hp' => h.idle.manned.idx_inj (hprovers p hp) (hprovers p' hp')]
  · exact fun peerId hmem => (hanswers peerId (mem_arrived.1 hmem)).2

end results

/-! ### The provers that are selected -/

variable (q) in
/-- The provers agree with the relay about the parameters and about each other, and every one has its share for the
method. -/
structure Staffed (m : Method) (svc : Service env) : Prop where
  entry : ∀ prover ∈ svc.node.relay.activeProvers, ∃ info,
    svc.node.relay.newProvers.get? prover.peerId = some (info, q.idx prover.peerId)
  covered : ∀ i ∈ svc.node.relay.newProvers.values.map Prod.snd, ∃ prover ∈ svc.node.relay.activeProvers,
    q.idx prover.peerId = i
  indices_nodup : (svc.node.relay.newProvers.values.map Prod.snd).Nodup
  indices_lt : ∀ i ∈ svc.node.relay.newProvers.values.map Prod.snd, i < 2 ^ 32
  enough : svc.node.relay.t + svc.node.relay.epsilon ≤ svc.node.relay.newProvers.len
  sum_lt : svc.node.relay.t + svc.node.relay.epsilon < 2 ^ 32
  parameters : ∀ prover ∈ svc.node.relay.activeProvers,
    (svc.provers prover.peerId).prover.t = svc.node.relay.t ∧
      (svc.provers prover.peerId).prover.epsilon = svc.node.relay.epsilon ∧
      (svc.provers prover.peerId).prover.currentEpoch = svc.node.relay.currentEpoch
  held : ∀ prover ∈ svc.node.relay.activeProvers, ((svc.provers prover.peerId).prover.newProvers.values.map Prod.snd).Perm
    (svc.node.relay.newProvers.values.map Prod.snd)
  shares : ∀ prover ∈ svc.node.relay.activeProvers,
    ((svc.provers prover.peerId).privateKeyshares.get? m.keyName).isSome

/-- The prover does not refuse the request. -/
def Selected (svc : Service env) (r : RequestToNetwork) (peerId : PeerId) : Prop :=
  (svc.provers peerId).prover.checkRequest env.prof env.rng r = .ok none

theorem mem_of_forwardTargets {prof : Profile} {rng : ChaCha8Rng} {s : Relay} {r : RequestToNetwork}
    {targets : List PeerId} (h : forwardTargets prof rng s r = .ok targets) (hsum : s.t + s.epsilon < 2 ^ 32)
    {nodes : List ℕ} (hnodes : (r.getNodes rng (s.t + s.epsilon)
      ((s.newProvers.values.map Prod.snd).insertionSort (· ≤ ·)) : Outcome Empty _) = .ok nodes)
    {prover : ProverInfo} (hprover : prover ∈ s.activeProvers) {info : ProverInfo} {i : ℕ}
    (hentry : s.newProvers.get? prover.peerId = some (info, i)) (hi : i ∈ nodes) (hlt : i < 2 ^ 32) :
    prover.peerId ∈ targets := by
  simp only [forwardTargets, addU32, if_pos hsum, bind_ok, hnodes] at h
  split at h
  · obtain rfl := Except.ok.inj h
    exact List.mem_map_of_mem hprover
  · obtain rfl := Except.ok.inj h
    refine List.mem_map_of_mem (List.mem_filter.2 ⟨hprover, decide_eq_true ?_⟩)
    rw [hentry, Option.map_some, Option.getD_some, Nat.mod_eq_of_lt hlt]
    exact hi

theorem Staffed.selected_of_drawn {m : Method} (h : Staffed q m svc) (hmanned : Manned q svc) {r : RequestToNetwork}
    {drawn : List ℕ} (hdrawn : List.draw ((env.rng.nextU64s (selectionSeed r.epoch r.requestPerUser)
      (svc.node.relay.t + svc.node.relay.epsilon)).map UInt64.toNat)
      ((svc.node.relay.newProvers.values.map Prod.snd).insertionSort (· ≤ ·)) = some drawn)
    (hepoch : r.epoch = svc.node.relay.currentEpoch) {prover : ProverInfo} (hprover : prover ∈ svc.node.relay.activeProvers)
    (hidx : q.idx prover.peerId ∈ drawn) : Selected svc r prover.peerId := by
  obtain ⟨ht, hepsilon, hcurrent⟩ := h.parameters prover hprover
  have hselected : (r.isForMyNode env.rng (svc.node.relay.t + svc.node.relay.epsilon) (q.idx prover.peerId)
      ((svc.provers prover.peerId).prover.newProvers.values.map Prod.snd) : Outcome Empty Bool) = .ok true := by
    rw [RequestToNetwork.isForMyNode, shouldBeSentToNode, insertionSort_eq_of_perm (h.held prover hprover),
      shouldBeSentLoop_of_draw hdrawn, decide_eq_true hidx]
  have hsum : (addU32 env.prof svc.node.relay.t svc.node.relay.epsilon : Outcome Empty ℕ) =
      .ok (svc.node.relay.t + svc.node.relay.epsilon) := if_pos h.sum_lt
  rw [Selected, Prover.checkRequest, ht, hepsilon, hcurrent, (hmanned.holds prover.peerId).idx, hsum, bind_ok, hselected,
    bind_ok, if_neg (by simp), if_neg (not_not.2 hepoch)]
  rfl

/-- At least `t` of the provers to which a request is forwarded find themselves selected for it. -/
theorem Staffed.selected {m : Method} (h : Staffed q m svc) (hmanned : Manned q svc) (ht : svc.node.relay.t = q.t)
    {r : RequestToNetwork} {targets : List PeerId}
    (htargets : forwardTargets env.prof env.rng svc.node.relay r = .ok targets)
    (hepoch : r.epoch = svc.node.relay.currentEpoch) :
    ∃ provers : Finset PeerId, q.t ≤ provers.card ∧ ∀ peerId ∈ provers, peerId ∈ targets ∧ Selected svc r peerId := by
  have hlen : svc.node.relay.t + svc.node.relay.epsilon ≤ (svc.node.relay.newProvers.values.map Prod.snd).length := by
    rw [List.length_map, HMap.length_values]
    exact h.enough
  obtain ⟨drawn, hdrawn⟩ := r.exists_draw_sorted env.rng hlen
  have hperm := List.perm_insertionSort (· ≤ ·) (svc.node.relay.newProvers.values.map Prod.snd)
  have hmem : ∀ i ∈ drawn, i ∈ svc.node.relay.newProvers.values.map Prod.snd := fun i hi =>
    hperm.subset ((List.subperm_of_draw hdrawn).subset hi)
  have hnodes : (r.getNodes env.rng (svc.node.relay.t + svc.node.relay.epsilon)
      ((svc.node.relay.newProvers.values.map Prod.snd).insertionSort (· ≤ ·)) : Outcome Empty _) = .ok drawn := by
    rw [RequestToNetwork.getNodes, calcNodesToSendTo, calcNodesLoop_of_draw hdrawn, List.nil_append,
      map_mod_eq_self fun i hi => h.indices_lt i (hmem i hi)]
  refine ⟨((svc.node.relay.activeProvers.filter fun prover => q.idx prover.peerId ∈ drawn).map
    ProverInfo.peerId).toFinset, ?_, fun peerId hpeer => ?_⟩
  · -- every index that is drawn is the one of an active prover
    have hsubset : drawn.toFinset ⊆ (((svc.node.relay.activeProvers.filter fun prover =>
        q.idx prover.peerId ∈ drawn).map ProverInfo.peerId).toFinset).image q.idx := by
      intro i hi
      rw [List.mem_toFinset] at hi
      obtain ⟨prover, hprover, rfl⟩ := h.covered i (hmem i hi)
      refine Finset.mem_image_of_mem _ (List.mem_toFinset.2 (List.mem_map_of_mem ?_))
      exact List.mem_filter.2 ⟨hprover, decide_eq_true hi⟩
    have hcard : drawn.toFinset.card = svc.node.relay.t + svc.node.relay.epsilon := by
      rw [List.toFinset_card_of_nodup (List.nodup_of_draw hdrawn (hperm.nodup_iff.2 h.indices_nodup)),
        List.length_of_draw hdrawn, List.length_map, ChaCha8Rng.length_nextU64s]
    have hle := (Finset.card_le_card hsubset).trans Finset.card_image_le
    omega
  · obtain ⟨prover, hprover, rfl⟩ := List.mem_map.1 (List.mem_toFinset.1 hpeer)
    obtain ⟨hprover, hidx⟩ := List.mem_filter.1 hprover
    have hidx := of_decide_eq_true hidx
    obtain ⟨info, hentry⟩ := h.entry prover hprover
    exact ⟨mem_of_forwardTargets htargets h.sum_lt hnodes hprover hentry hidx (h.indices_lt _ (hmem _ hidx)),
      h.selected_of_drawn hmanned hdrawn hepoch hprover hidx⟩

theorem Staffed.of_roster {m : Method} (h : Staffed q m svc) (hprovers : svc'.provers = svc.provers)
    (hroster : svc'.roster = svc.roster) : Staffed q m svc' := by
  have hactive : svc'.node.relay.activeProvers = svc.node.relay.activeProvers := (congrArg Relay.activeProvers hroster :)
  have hnew : svc'.node.relay.newProvers = svc.node.relay.newProvers := (congrArg Relay.newProvers hroster :)
  have ht : svc'.node.relay.t = svc.node.relay.t := (congrArg Relay.t hroster :)
  have hepsilon : svc'.node.relay.epsilon = svc.node.relay.epsilon := (congrArg Relay.epsilon hroster :)
  have hepoch : svc'.node.relay.currentEpoch = svc.node.relay.currentEpoch := (congrArg Relay.currentEpoch hroster :)
  constructor
  · rw [hactive, hnew]
    exact h.entry
  · rw [hactive, hnew]
    exact h.covered
  · rw [hnew]
    exact h.indices_nodup
  · rw [hnew]
    exact h.indices_lt
  · rw [ht, hepsilon, hnew]
    exact h.enough
  · rw [ht, hepsilon]
    exact h.sum_lt
  · rw [hactive, hprovers, ht, hepsilon, hepoch]
    exact h.parameters
  · rw [hactive, hprovers, hnew]
    exact h.held
  · rw [hactive, hprovers]
    exact h.shares

theorem errorsIn_new {C : Curve} {hs : Hashes} {draw : C.id.RandSpace} {P : C.Point} {x : C.FieldEl} :
    ErrorsIn (fun _ => False) (DLEQProof.new hs draw P x) :=
  ErrorsIn.bind ((ErrorsIn.mapM fun _ _ => .unwrap _ _).bind fun _ _ => .ok _) fun _ _ => .ok _

section serving
variable {peerId : PeerId} {keyshare : Bytes} {P : (env.relay.curve (request id).method.curve).Point}
  {draw : ∀ c : CurveId, c.RandSpace} (hmanned : Manned q svc) (hselected : Selected svc (request id) peerId)
  (hkeyshare : (svc.provers peerId).privateKeyshares.get? (request id).method.keyName = some keyshare)
  (hP : (env.relay.curve (request id).method.curve).fromEncoded (request id).point = .ok P)
include hmanned hselected hkeyshare hP

theorem processRequest_of_new {proof : DLEQProof (env.relay.curve (request id).method.curve)}
    (hproof : DLEQProof.new env.hs (networkDraw draw env.lib (request id).method.curve) P
      (q.share (request id).method peerId) = .ok proof) :
    ∃ response, processRequest env.hs env.lib env.prof env.rng draw peerId (svc.provers peerId) id (request id) =
      .ok [response] ∧ response.token? = some (peerId, id) := by
  obtain ⟨response, hresponse, htoken, -⟩ := newConstructedProof_told hproof (svc.provers peerId).prover.myNodeIdx peerId id
    (request id).method
  refine ⟨response, ?_, htoken⟩
  have hshare := (hmanned.holds peerId).share _ _ hkeyshare
  rw [processRequest_eq_handleRequest hselected hkeyshare, handleRequest]
  rw [show (networkCurve env.lib (request id).method.curve).id.fromBytes keyshare = _ from hshare]
  dsimp only
  rw [show (networkCurve env.lib (request id).method.curve).fromEncoded (request id).point = _ from hP]
  dsimp only
  rw [hproof]
  dsimp only
  rw [hresponse]
  rfl

theorem token_of_processRequest {responses : List (ProverResponse env.lib)}
    (h : processRequest env.hs env.lib env.prof env.rng draw peerId (svc.provers peerId) id (request id) = .ok responses) :
    (peerId, id) ∈ responses.filterMap ProverResponse.token? := by
  cases hnew : DLEQProof.new env.hs (networkDraw draw env.lib (request id).method.curve) P
      (q.share (request id).method peerId) with
  | ok proof =>
    obtain ⟨response, hresponse, htoken⟩ := processRequest_of_new hmanned hselected hkeyshare hP hnew
    obtain rfl := Except.ok.inj (hresponse.symm.trans h)
    exact List.mem_filterMap.2 ⟨response, List.mem_singleton_self _, htoken⟩
  | error fault =>
    cases fault with
    | error e => exact (errorsIn_new e hnew).elim
    | panic msg =>
      have hshare := (hmanned.holds peerId).share _ _ hkeyshare
      rw [processRequest_eq_handleRequest hselected hkeyshare, handleRequest] at h
      rw [show (networkCurve env.lib (request id).method.curve).id.fromBytes keyshare = _ from hshare] at h
      dsimp only at h
      rw [show (networkCurve env.lib (request id).method.curve).fromEncoded (request id).point = _ from hP] at h
      dsimp only at h
      rw [hnew] at h
      cases h

end serving

/-! ### Nothing is lost -/

theorem exists_toEvent {response : ProverResponse env.lib} {token : PeerId × String} (h : response.token? = some token)
    (redis : RedisReply) : ∃ e, response.toEvent env redis = some e := by
  cases response with
  | error => cases h
  | _ => exact ⟨_, rfl⟩

/-- A message of a selected prover stays on the way until its proof arrives. -/
theorem Sound.token_step (h : Sound q request asked svc) {e : ServiceEvent env × List (Effect env.relay)}
    (hstep : Step svc e svc') {peerId : PeerId}
    (hserve : ∀ draw responses, processRequest env.hs env.lib env.prof env.rng draw peerId (svc.provers peerId) id
      (request id) = .ok responses → (peerId, id) ∈ responses.filterMap ProverResponse.token?)
    (hmem : (peerId, id) ∈ svc.tokens) : (peerId, id) ∈ svc'.tokens ∨ Arrived id [e] peerId := by
  cases hstep with
  | ask handled =>
    left
    rcases List.mem_append.1 hmem with hmem | hmem
    · refine List.mem_append_left _ ?_
      rw [List.map_append]
      exact List.mem_append_left _ hmem
    · exact List.mem_append_right _ hmem
  | @serve peerId' id' r draw pre post responses sent handled =>
    left
    have hsent : (peerId', id', r) ∈ svc.requests := by
      rw [sent]
      exact List.mem_append_right _ List.mem_cons_self
    obtain rfl : r = request id' := h.requests _ hsent
    show _ ∈ (pre ++ post).map _ ++ (svc.responses ++ responses).filterMap _
    rw [List.filterMap_append]
    rcases List.mem_append.1 hmem with hmem | hmem
    · rw [sent, List.map_append, List.map_cons, List.mem_append, List.mem_cons] at hmem
      rcases hmem with hmem | heq | hmem
      · exact List.mem_append_left _ (by rw [List.map_append]; exact List.mem_append_left _ hmem)
      · obtain ⟨rfl, rfl⟩ := Prod.mk.inj heq
        exact List.mem_append_right _ (List.mem_append_right _ (hserve draw responses handled))
      · exact List.mem_append_left _ (by rw [List.map_append]; exact List.mem_append_right _ hmem)
    · exact List.mem_append_right _ (List.mem_append_left _ hmem)
  | @receive response redis e relay effects pre post sent told handled =>
    cases htoken : response.token? with
    | none =>
      obtain ⟨_, _, htoken', -⟩ := h.responses response (by rw [sent]; simp) redis e told
      rw [htoken] at htoken'
      cases htoken'
    | some token =>
      rcases List.mem_cons.1 ((perm_tokens sent htoken { svc.node with relay := relay }).subset hmem) with heq | hmem
      · exact .inr ⟨_, List.mem_singleton_self _, htoken.trans (congrArg some heq.symm)⟩
      · exact .inl hmem
  | @ignore response redis pre post sent told =>
    left
    have heq : svc.responses.filterMap ProverResponse.token? = (pre ++ post).filterMap ProverResponse.token? := by
      rw [sent, List.filterMap_append, List.filterMap_append, List.filterMap_cons_none (token?_eq_none told)]
    show _ ∈ svc.requests.map _ ++ (pre ++ post).filterMap ProverResponse.token?
    rw [← heq]
    exact hmem
  | expire => exact .inl hmem

theorem Idle.token_run {svc₀ svc₁ : Service env} (hidle : Idle q svc₀) (hsubgroup : InSubgroup env request)
    {before after : Trace env} (hproper : Proper request (before ++ after)) (hbefore : Run Step svc₀ before svc₁)
    (hafter : Run Step svc₁ after svc) {peerId : PeerId}
    (hserve : ∀ draw responses, processRequest env.hs env.lib env.prof env.rng draw peerId (svc₀.provers peerId) id
      (request id) = .ok responses → (peerId, id) ∈ responses.filterMap ProverResponse.token?)
    (hmem : (peerId, id) ∈ svc₁.tokens) : (peerId, id) ∈ svc.tokens ∨ Arrived id after peerId := by
  induction after using List.reverseRecOn generalizing svc with
  | nil =>
    obtain rfl := hafter
    exact .inl hmem
  | append_singleton after e ih =>
    obtain ⟨mid, hmid, last, hlast, rfl⟩ := Run.append_iff.1 hafter
    rw [← List.append_assoc] at hproper
    rcases ih hproper.of_append hmid with hmem | harrived
    · have hwhole : Run Step svc₀ (before ++ after) mid := Run.append_iff.2 ⟨svc₁, hbefore, hmid⟩
      have hsound := hidle.run hsubgroup hproper.of_append hwhole
      refine (hsound.token_step hlast ?_ hmem).imp_right fun harrived => .append (.inr harrived)
      rwa [(roster_of_run hwhole).1]
    · exact .inr (.append (.inl harrived))

theorem askedIds_append_quiet {trace more : Trace env} (hquiet : ∀ e ∈ more, askedId? e.1 = none) :
    askedIds (trace ++ more) = askedIds trace := by
  rw [askedIds, List.filterMap_append, List.filterMap_eq_nil_iff.2 hquiet, List.append_nil]
  rfl

namespace Episode
variable {P : (env.relay.curve (request id).method.curve).Point} {result : NodeResponse env.relay} {svc₀ : Service env}
  {before after : Trace env} {reply : MulReply} (h : Episode q request id P result svc₀ before reply after svc)
include h

theorem sound : Sound q request (askedIds (before ++ asking request id reply :: after)) svc :=
  h.idle.run h.subgroup h.proper h.run

theorem append {more : Trace env} (hrun : Run Step svc more svc')
    (hquiet : ∀ e ∈ more, askedId? e.1 = none ∧ Calm id e.1) :
    Episode q request id P result svc₀ before reply (after ++ more) svc' := by
  have happend : before ++ asking request id reply :: (after ++ more) =
      (before ++ asking request id reply :: after) ++ more := by simp
  have hasked : askedIds (before ++ asking request id reply :: (after ++ more)) =
      askedIds (before ++ asking request id reply :: after) := by
    rw [happend]
    exact askedIds_append_quiet fun e he => (hquiet e he).1
  refine { h with run := ?_, proper := ⟨fun r id' reply' effects hmem => ?_, ?_⟩, calm := fun e he => ?_, distinct := ?_ }
  · rw [happend]
    exact Run.append_iff.2 ⟨svc, h.run, hrun⟩
  · rw [happend] at hmem
    rcases List.mem_append.1 hmem with hmem | hmem
    · exact h.proper.requests r id' reply' effects hmem
    · cases (hquiet _ hmem).1
  · rw [hasked]
    exact h.proper.nodup
  · rcases List.mem_append.1 he with he | he
    · exact h.calm e he
    · exact (hquiet e he).2
  · rw [hasked]
    exact h.distinct

theorem exists_receive {peerId : PeerId} (hactive : peerId ∈ svc₀.node.relay.activeProvers.map ProverInfo.peerId)
    {response : ProverResponse env.lib} (hmem : response ∈ svc.responses) (htoken : response.token? = some (peerId, id)) :
    ∃ effects svc', Step svc (.receive response .ok, effects) svc' := by
  obtain ⟨pre, post, sent⟩ := List.append_of_mem hmem
  obtain ⟨e, told⟩ := exists_toEvent htoken .ok
  obtain ⟨peerId', id', htoken', ⟨P', hP', hanswer⟩, -⟩ := h.sound.serving h.subgroup sent told
  obtain ⟨rfl, rfl⟩ := Prod.mk.inj (Option.some.inj (htoken.symm.trans htoken'))
  obtain rfl := Except.ok.inj (h.point.symm.trans hP')
  have huncounted := h.sound.uncounted _ ((perm_tokens sent htoken svc.node).mem_iff.2 List.mem_cons_self)
  obtain ⟨trace, hserves, -⟩ := h.exists_progress {peerId} fun p hp => Finset.mem_singleton.1 hp ▸ hactive
  obtain ⟨⟨relay, effects⟩, handled⟩ := hserves.answer_handled h.point (h.subgroup id P h.point) h.isResult
    (Finset.mem_singleton_self peerId) huncounted hanswer
  exact ⟨effects, _, .receive sent told handled⟩

theorem exists_arrival {peerId : PeerId} (hactive : peerId ∈ svc₀.node.relay.activeProvers.map ProverInfo.peerId)
    (hserve : ∃ draw response, processRequest env.hs env.lib env.prof env.rng draw peerId (svc.provers peerId) id
      (request id) = .ok [response] ∧ response.token? = some (peerId, id)) (hmem : (peerId, id) ∈ svc.tokens) :
    ∃ more svc', Run Step svc more svc' ∧ (∀ e ∈ more, askedId? e.1 = none ∧ Calm id e.1) ∧ Arrived id more peerId := by
  rcases List.mem_append.1 hmem with hmem | hmem
  · -- the prover makes its proof first
    obtain ⟨⟨peerId', id', r⟩, hsent, heq⟩ := List.mem_map.1 hmem
    obtain ⟨rfl, rfl⟩ := Prod.mk.inj heq
    obtain rfl : r = request id' := h.sound.requests _ hsent
    obtain ⟨draw, response, handled, htoken⟩ := hserve
    obtain ⟨pre, post, sent⟩ := List.append_of_mem hsent
    have hserved : Step svc (.serve peerId' id' (request id') draw, []) _ := .serve sent handled
    have hquiet : ∀ e ∈ [((.serve peerId' id' (request id') draw, []) : ServiceEvent env × List (Effect env.relay))],
        askedId? e.1 = none ∧ Calm id' e.1 := by
      intro e he
      obtain rfl := List.mem_singleton.1 he
      exact ⟨rfl, trivial⟩
    have hepisode := h.append (show Run Step svc [_] _ from ⟨_, hserved, rfl⟩) hquiet
    obtain ⟨effects, svc', hreceived⟩ := hepisode.exists_receive hactive
      (List.mem_append_right _ (List.mem_singleton_self response)) htoken
    refine ⟨[_, _], svc', ⟨_, hserved, svc', hreceived, rfl⟩, fun e he => ?_, (.receive response .ok, effects), by simp,
      htoken⟩
    rcases List.mem_cons.1 he with rfl | he
    · exact ⟨rfl, trivial⟩
    · obtain rfl := List.mem_singleton.1 he
      exact ⟨rfl, fun _ _ => ⟨rfl, rfl⟩⟩
  · obtain ⟨response, hmem, htoken⟩ := List.mem_filterMap.1 hmem
    obtain ⟨effects, svc', hreceived⟩ := h.exists_receive hactive hmem htoken
    refine ⟨[_], svc', ⟨svc', hreceived, rfl⟩, fun e he => ?_, (.receive response .ok, effects), by simp, htoken⟩
    obtain rfl := List.mem_singleton.1 he
    exact ⟨rfl, fun _ _ => ⟨rfl, rfl⟩⟩

theorem exists_arrivals (provers : List PeerId)
    (hactive : ∀ peerId ∈ provers, peerId ∈ svc₀.node.relay.activeProvers.map ProverInfo.peerId)
    (hserve : ∀ peerId ∈ provers, ∀ draw responses, processRequest env.hs env.lib env.prof env.rng draw peerId
      (svc₀.provers peerId) id (request id) = .ok responses → (peerId, id) ∈ responses.filterMap ProverResponse.token?)
    (hproof : ∀ peerId ∈ provers, ∃ draw response, processRequest env.hs env.lib env.prof env.rng draw peerId
      (svc₀.provers peerId) id (request id) = .ok [response] ∧ response.token? = some (peerId, id))
    (hmem : ∀ peerId ∈ provers, (peerId, id) ∈ svc.tokens ∨ Arrived id after peerId) :
    ∃ more svc', Run Step svc more svc' ∧ Episode q request id P result svc₀ before reply (after ++ more) svc' ∧
      ∀ peerId ∈ provers, Arrived id (after ++ more) peerId := by
  induction provers generalizing after svc with
  | nil =>
    refine ⟨[], svc, rfl, ?_, fun _ hmem => absurd hmem List.not_mem_nil⟩
    rwa [List.append_nil]
  | cons peerId provers ih =>
    have hfirst : ∃ more svc₁, Run Step svc more svc₁ ∧ (∀ e ∈ more, askedId? e.1 = none ∧ Calm id e.1) ∧
        Arrived id (after ++ more) peerId := by
      rcases hmem peerId List.mem_cons_self with htoken | harrived
      · have hproof := hproof peerId List.mem_cons_self
        rw [← (roster_of_run h.run).1] at hproof
        obtain ⟨more, svc₁, hrun, hquiet, harrived⟩ :=
          h.exists_arrival (hactive peerId List.mem_cons_self) hproof htoken
        exact ⟨more, svc₁, hrun, hquiet, .append (.inr harrived)⟩
      · exact ⟨[], svc, rfl, fun _ hmem => absurd hmem List.not_mem_nil, .append (.inl harrived)⟩
    obtain ⟨more, svc₁, hrun, hquiet, harrived⟩ := hfirst
    have hepisode := h.append hrun hquiet
    have hproper := hepisode.proper
    rw [← List.cons_append, ← List.append_assoc] at hproper
    have hrest : ∀ p ∈ provers, (p, id) ∈ svc₁.tokens ∨ Arrived id (after ++ more) p := by
      intro p hp
      have hp' := List.mem_cons_of_mem peerId hp
      rcases hmem p hp' with htoken | harrived
      · exact (h.idle.token_run h.subgroup hproper h.run hrun (hserve p hp') htoken).imp_right fun h => .append (.inr h)
      · exact .inr (.append (.inl harrived))
    obtain ⟨more', svc', hrun', hepisode', harrived'⟩ := ih hepisode (fun p hp => hactive p (List.mem_cons_of_mem _ hp))
      (fun p hp => hserve p (List.mem_cons_of_mem _ hp)) (fun p hp => hproof p (List.mem_cons_of_mem _ hp)) hrest
    rw [List.append_assoc] at hepisode' harrived'
    refine ⟨more ++ more', svc', Run.append_iff.2 ⟨svc₁, hrun, hrun'⟩, hepisode', fun p hp => ?_⟩
    rcases List.mem_cons.1 hp with rfl | hp
    · rw [← List.append_assoc]
      exact .append (.inl harrived)
    · exact harrived' p hp

theorem exists_selected (hstaffed : Staffed q (request id).method svc₀) : ∃ provers : Finset PeerId, q.t ≤ provers.card ∧
    (∀ peerId ∈ provers, peerId ∈ svc₀.node.relay.activeProvers.map ProverInfo.peerId ∧
      Selected svc₀ (request id) peerId) ∧
    ∀ peerId ∈ provers, (peerId, id) ∈ svc.tokens ∨ Arrived id after peerId := by
  obtain ⟨svc₁, out, hbefore, handled, heffects, hafter⟩ := h.exists_forward
  obtain ⟨hprovers, hroster⟩ := roster_of_run hbefore
  have hsound := h.idle.run h.subgroup h.proper.of_append hbefore
  obtain ⟨readyNodes, hping⟩ := pingIfShort_eq svc₁.node.relay reply.ping
  rcases handle_cases handled with ⟨message, hpublish, -⟩ | ⟨-, hepoch, htargets⟩
  · rw [heffects] at hpublish
    cases hpublish
  rw [hping] at hepoch htargets
  obtain ⟨provers, hcard, hselected⟩ :=
    (hstaffed.of_roster hprovers hroster).selected hsound.manned hsound.orderly.stored.t htargets hepoch
  have hactive : svc₁.node.relay.activeProvers = svc₀.node.relay.activeProvers := (congrArg Relay.activeProvers hroster :)
  have hprover : ∀ peerId ∈ provers, peerId ∈ svc₀.node.relay.activeProvers.map ProverInfo.peerId ∧
      Selected svc₀ (request id) peerId := by
    intro peerId hmem
    obtain ⟨htarget, hselected⟩ := hselected peerId hmem
    rw [Selected, hprovers] at hselected
    exact ⟨hactive ▸ (targets_sublist handled).subset htarget, hselected⟩
  refine ⟨provers, hcard, hprover, fun peerId hmem => ?_⟩
  obtain ⟨htarget, -⟩ := hselected peerId hmem
  obtain ⟨hpeer, hselected⟩ := hprover peerId hmem
  obtain ⟨prover, hprover, rfl⟩ := List.mem_map.1 hpeer
  obtain ⟨keyshare, hkeyshare⟩ := Option.isSome_iff_exists.1 (hstaffed.shares prover hprover)
  have happend : before ++ asking request id reply :: after = before ++ [asking request id reply] ++ after := by simp
  have hasked : Run Step svc₀ (before ++ [asking request id reply]) _ :=
    Run.append_iff.2 ⟨svc₁, hbefore, show Run Step svc₁ [_] _ from ⟨_, heffects ▸ Step.ask handled, rfl⟩⟩
  refine h.idle.token_run h.subgroup (happend ▸ h.proper) hasked hafter
    (fun draw responses hresponses =>
      token_of_processRequest h.idle.manned hselected hkeyshare h.point hresponses) ?_
  refine List.mem_append_left _ ?_
  rw [List.map_append, List.map_map]
  exact List.mem_append_right _ (List.mem_map_of_mem htarget)

theorem exists_completion (hstaffed : Staffed q (request id).method svc₀)
    (hproofs : ∀ peerId ∈ svc₀.node.relay.activeProvers.map ProverInfo.peerId, ∃ draw proof,
      DLEQProof.new env.hs (networkDraw draw env.lib (request id).method.curve) P (q.share (request id).method peerId) =
        .ok proof) :
    ∃ more svc', Run Step svc more svc' ∧ Episode q request id P result svc₀ before reply (after ++ more) svc' ∧
      q.t ≤ (arrived id (after ++ more)).card := by
  obtain ⟨provers, hcard, hprovers, htokens⟩ := h.exists_selected hstaffed
  have hkeyshare : ∀ peerId ∈ provers, ∃ keyshare,
      (svc₀.provers peerId).privateKeyshares.get? (request id).method.keyName = some keyshare := by
    intro peerId hmem
    obtain ⟨prover, hprover, rfl⟩ := List.mem_map.1 (hprovers peerId hmem).1
    exact Option.isSome_iff_exists.1 (hstaffed.shares prover hprover)
  obtain ⟨more, svc', hrun, hepisode, harrived⟩ := h.exists_arrivals provers.toList
    (fun peerId hmem => (hprovers peerId (Finset.mem_toList.1 hmem)).1)
    (fun peerId hmem draw responses hresponses => by
      obtain ⟨keyshare, hkeyshare⟩ := hkeyshare peerId (Finset.mem_toList.1 hmem)
      have hselected := (hprovers peerId (Finset.mem_toList.1 hmem)).2
      exact token_of_processRequest h.idle.manned hselected hkeyshare h.point hresponses)
    (fun peerId hmem => by
      obtain ⟨keyshare, hkeyshare⟩ := hkeyshare peerId (Finset.mem_toList.1 hmem)
      obtain ⟨hactive, hselected⟩ := hprovers peerId (Finset.mem_toList.1 hmem)
      obtain ⟨draw, proof, hproof⟩ := hproofs peerId hactive
      exact ⟨draw, processRequest_of_new h.idle.manned hselected hkeyshare h.point hproof⟩)
    (fun peerId hmem => htokens peerId (Finset.mem_toList.1 hmem))
  have hsubset : provers ⊆ arrived id (after ++ more) := fun peerId hmem =>
    mem_arrived.2 (harrived peerId (Finset.mem_toList.2 hmem))
  exact ⟨more, svc', hrun, hepisode, hcard.trans (Finset.card_le_card hsubset)⟩

end Episode

end Service

/-! ### A run of the service -/

noncomputable def secpEnv : ServiceEnv where
  hs := byteHashes .secp256k1
  lib := .chosen
  prof := .release
  rng _ _ := 0
  serializeRequest r := some (bincodeRequest r)
  serializeProof _ _ := some []
  jwtLib := enclaveLib
  serialize r := .ok (bincodeRequest r)
  deserializeConditions _ := fail "io error: unexpected end of file"
  deserializeFrontendData _ := fail "io error: unexpected end of file"
  hexDecode _ := fail "Invalid character"
  keccak256 _ := []

noncomputable def secpQuorum : Quorum secpEnv.relay where
  t := 2
  idx := proverIdx
  sharing _ := line (5 : ℕ) (3 : ℕ)
  degree_lt _ := degree_line _ _

def secpRequest : RequestToNetwork := ⟨.oprfSecp256k1, Secp256k1.encode Secp256k1.generator, 0, 0, none, none⟩

noncomputable def secpShare (peerId : PeerId) : CurveId.Scalar .secp256k1 := secpQuorum.share .oprfSecp256k1 peerId

noncomputable def secpService : Service secpEnv where
  node := { RelayNode.servingNode with relay := { RelayNode.servingNode.relay with
    reqCache := ∅
    pubkeyShares := HMap.ofKeys ["prover1", "prover2", "prover3"] lineProvers_nodup fun peerId =>
      HMap.insert ∅ (Method.keyName .oprfSecp256k1)
        (Secp256k1.encode (secp256k1.scalarMul Secp256k1.generator (secpShare peerId))) } }
  provers peerId := {
    prover := ⟨0, 3, 2, 0, proverIdx peerId,
      HMap.ofKeys ["prover1", "prover2", "prover3"] lineProvers_nodup fun peerId =>
        (recordOf peerId (proverIdx peerId), proverIdx peerId)⟩
    privateKeyshares := HMap.insert ∅ (Method.keyName .oprfSecp256k1) (CurveId.toBytes .secp256k1 (secpShare peerId))
    entries := fun _ => none }
  requests := []
  responses := []

theorem keyName_eq_oprf {m : Method} (h : m.keyName = Method.keyName .oprfSecp256k1) : m = .oprfSecp256k1 := by
  cases m <;> first | rfl | exact absurd h (by decide)

theorem secpService_manned : Service.Manned secpQuorum secpService where
  holds peerId := by
    refine ⟨rfl, fun m keyshare h => ?_⟩
    change (HMap.insert ∅ _ _).get? m.keyName = some keyshare at h
    rw [HMap.get?_insert] at h
    split at h
    next hname =>
      obtain rfl := keyName_eq_oprf hname
      obtain rfl := Option.some.inj h
      exact CurveId.fromBytes_toBytes .secp256k1 (secpShare peerId)
    next => cases h
  distinct := by decide
  idx_inj := by
    have hactive : secpService.node.relay.activeProvers.map ProverInfo.peerId = ["prover1", "prover2", "prover3"] := rfl
    rw [hactive]
    show Set.InjOn proverIdx _
    intro p hp p' hp' heq
    simp only [Set.mem_ofPred_eq, List.mem_cons, List.not_mem_nil, or_false] at hp hp'
    rcases hp with rfl | rfl | rfl <;> rcases hp' with rfl | rfl | rfl <;> first | rfl | exact absurd heq (by decide)

theorem secpService_keyOf (peerId : PeerId) (m : Method) : secpService.node.relay.keyOf peerId m =
    if peerId ∈ ["prover1", "prover2", "prover3"] ∧ m = .oprfSecp256k1 then
      some (Secp256k1.encode (secp256k1.scalarMul Secp256k1.generator (secpShare peerId))) else none := by
  rw [Relay.keyOf, show secpService.node.relay.pubkeyShares = HMap.ofKeys _ lineProvers_nodup _ from rfl, HMap.get?_ofKeys]
  split
  next hmem =>
    rw [Option.bind_some, HMap.get?_insert]
    by_cases hm : m = .oprfSecp256k1
    · rw [if_pos (congrArg _ hm), if_pos ⟨hmem, hm⟩]
    · rw [if_neg fun h => hm (keyName_eq_oprf h), if_neg fun h => hm h.2]
      rfl
  next hmem => rw [Option.bind_none, if_neg fun h => hmem h.1]

theorem secpService_idle : Service.Idle secpQuorum secpService where
  manned := secpService_manned
  stored := by
    refine ⟨rfl, fun {peerId m key} h => ⟨proverIdx_valid peerId, ?_⟩⟩
    rw [secpService_keyOf] at h
    split at h
    next hmem =>
      obtain ⟨-, rfl⟩ := hmem
      obtain rfl := Option.some.inj h
      exact Secp256k1.fromEncoded_encode _
    next => cases h
  requests := rfl
  responses := rfl
  reqCache := rfl
  resCache := rfl
  batchCache := rfl

theorem secpService_staffed : Service.Staffed secpQuorum .oprfSecp256k1 secpService where
  entry prover hprover := by
    have hactive : secpService.node.relay.activeProvers = [⟨"prover1", 1⟩, ⟨"prover2", 2⟩, ⟨"prover3", 3⟩] := rfl
    simp only [hactive, List.mem_cons, List.not_mem_nil, or_false] at hprover
    rcases hprover with rfl | rfl | rfl <;> exact ⟨_, rfl⟩
  covered i hi := by
    have hvalues : secpService.node.relay.newProvers.values.map Prod.snd = [1, 2, 3] := rfl
    rw [hvalues] at hi
    simp only [List.mem_cons, List.not_mem_nil, or_false] at hi
    rcases hi with rfl | rfl | rfl
    · exact ⟨⟨"prover1", 1⟩, by decide, rfl⟩
    · exact ⟨⟨"prover2", 2⟩, by decide, rfl⟩
    · exact ⟨⟨"prover3", 3⟩, by decide, rfl⟩
  indices_nodup := by decide
  indices_lt := by decide
  enough := by decide
  sum_lt := by decide
  parameters _ _ := ⟨rfl, rfl, rfl⟩
  held _ _ := List.Perm.refl _
  shares prover _ := by
    change ((HMap.insert ∅ _ _).get? _).isSome
    rw [HMap.get?_insert_self]
    rfl

theorem exists_secpEpisode : ∃ (result : NodeResponse secpEnv.relay) (reply : MulReply) (svc : Service secpEnv),
    Service.Episode secpQuorum (fun _ => secpRequest) "request" Secp256k1.generator result secpService [] reply [] svc := by
  have hping : pingIfShort secpService.node.relay none = secpService.node.relay := if_neg (by decide)
  have hadmits : secpService.node.Admits secpEnv.prof secpEnv.rng secpRequest ⟨none, balanceReply 3⟩ := by
    rw [RelayNode.Admits, hping]
    exact ⟨by decide, rfl, forwardTargets_ok _ _ _ _ (by decide) (by decide)⟩
  have hunsigned : secpRequest.recover secpEnv.account = .error (.error "Request not signed") := rfl
  obtain ⟨out, handled, hserves, -⟩ := RelayNode.unsigned_served "request" hadmits hunsigned
  have heffects : out.effects = [.forward "request" secpRequest] := by
    rcases Service.handle_cases handled with ⟨message, hpublish, -⟩ | ⟨hforward, -⟩
    · rw [MulOutcome.Serves, hpublish] at hserves
      simp at hserves
    · exact hforward
  refine ⟨.verifiedProofSecp256k1 "request" (secp256k1.scalarMul Secp256k1.generator (secpQuorum.secret .oprfSecp256k1)),
    ⟨none, balanceReply 3⟩, _, {
    idle := secpService_idle
    run := ⟨_, heffects ▸ Service.Step.ask handled, rfl⟩
    proper := ⟨fun r id reply effects hmem => ?_, List.nodup_singleton _⟩
    calm := fun e he => absurd he List.not_mem_nil
    distinct := fun id hid hne => absurd (List.mem_singleton.1 hid) hne
    subgroup := fun id P _ => Secp256k1.order_nsmul P
    point := Secp256k1.fromEncoded_encode _
    isResult := ⟨_, rfl, .secp256k1 (Secp256k1.fromEncoded_encode _)⟩
    serializeProof := fun _ _ => rfl
    serializeRequest := rfl
    threshold := Nat.two_pos
    keys := fun peerId hmem => ?_ }⟩
  · obtain heq := List.mem_singleton.1 hmem
    cases heq
    rfl
  · rw [secpService_keyOf, if_pos ⟨hmem, rfl⟩]
    rfl

def secpDraws : (c : CurveId) → c.RandSpace
  | .secp256k1 => secpDraw
  | .babyJubJub => BabyJubJub.undrawn

theorem exists_secpProof (peerId : PeerId) : ∃ draw proof,
    DLEQProof.new secpEnv.hs (Service.networkDraw draw secpEnv.lib .secp256k1) Secp256k1.generator
      (secpQuorum.share .oprfSecp256k1 peerId) = .ok proof := by
  obtain ⟨proof, hproof⟩ := DLEQProof.exists_new (C := secp256k1) secpEnv.hs secpDraw Secp256k1.generator
    (secpShare peerId) Secp256k1.encode_isSome
  exact ⟨secpDraws, proof, hproof⟩

theorem published_products_three_provers : ∃ (trace : Service.Trace secpEnv) (svc : Service secpEnv)
    (response : ProverResponse secpEnv.lib) (redis : RedisReply) (effects : List (Effect secpEnv.relay))
    (result : NodeResponse secpEnv.relay), Run Service.Step secpService trace svc ∧
      (.receive response redis, effects) ∈ trace ∧ .publish "request" result ∈ effects ∧
      ∃ P, secp256k1.fromEncoded secpRequest.point = .ok P ∧
        secpQuorum.IsResult (fun _ => secpRequest) "request" P result := by
  obtain ⟨result, reply, svc, hepisode⟩ := exists_secpEpisode
  obtain ⟨trace, svc', -, hepisode, hcard⟩ := hepisode.exists_completion secpService_staffed fun peerId _ =>
    exists_secpProof peerId
  have hresult : ("request", result) ∈ Service.resultsTo "request" trace := by
    rw [show trace = [] ++ trace from rfl, hepisode.results hcard]
    exact List.mem_singleton_self _
  obtain ⟨⟨e, effects⟩, he, hpublish⟩ := List.mem_flatMap.1 (List.mem_of_mem_filter hresult)
  cases e with
  | receive response redis =>
    obtain ⟨effect, heffect, hpublish⟩ := List.mem_filterMap.1 hpublish
    obtain rfl : effect = .publish "request" result := by
      cases effect with
      | publish =>
        obtain ⟨rfl, rfl⟩ := Prod.mk.inj (Option.some.inj hpublish)
        rfl
      | _ => cases hpublish
    have hmem := List.mem_cons_of_mem (Service.asking (fun _ => secpRequest) "request" reply) he
    exact ⟨_, svc', response, redis, effects, result, hepisode.run, hmem, heffect,
      Service.published_products secpQuorum (fun _ => secpRequest) hepisode.subgroup secpService_idle hepisode.proper
        hepisode.run hmem heffect⟩
  | _ => cases hpublish

end HumanNetwork
