import HumanNetwork.MulRequest
import HumanNetwork.ProcessRequest
import HumanNetwork.RelayAnswers

/-!
# The service as a whole

A `Service` is the relay with its counters, the provers with their shares, and what is on the way between them: the
requests that the relay has forwarded and the responses that the provers have sent back. The steps are the handlers of the
nodes; a message is delivered at any time, in any order, or never.

`Service.Sound` is what holds in every run in which the provers hold the shares of one quorum and no id is used twice:
a message that is on the way belongs to a prover and a request of which the relay has counted no product yet, and a proof
that is on the way is an answer to its request. `published_products` is what the clients get of it.
-/

namespace HumanNetwork
open Outcome Polynomial

/-! ### The nodes and the messages -/

def networkCurve (lib : BabyJubJub.SquareRoots) : CurveId → Curve
  | .secp256k1 => secp256k1
  | .babyJubJub => babyJubJub lib

theorem networkCurve_id (lib : BabyJubJub.SquareRoots) (c : CurveId) : (networkCurve lib c).id = c := by
  cases c <;> rfl

structure ServiceEnv where
  hs : Hashes
  lib : BabyJubJub.SquareRoots
  prof : Profile
  rng : ChaCha8Rng
  serializeRequest : RequestToNetwork → Option Bytes
  serializeProof : ∀ c, DLEQProof (networkCurve lib c) → Option Bytes
  jwtLib : JwtLib
  serialize : RequestToNetwork → Outcome String Bytes
  deserializeConditions : Bytes → Outcome String (ElGamalCiphertextWithSignedConditions (babyJubJub lib))
  deserializeFrontendData : Bytes → Outcome String (FrontendData secp256k1)
  hexDecode : String → Outcome String Bytes
  keccak256 : Bytes → Bytes

namespace ServiceEnv

def account (env : ServiceEnv) : AccountEnv where
  hs := env.hs
  curve := networkCurve env.lib
  curve_id := networkCurve_id env.lib
  serializeRequest := env.serializeRequest
  serializeProof := env.serializeProof
  jwtLib := env.jwtLib
  serialize := env.serialize
  deserializeConditions := env.deserializeConditions
  deserializeFrontendData := env.deserializeFrontendData
  hexDecode := env.hexDecode
  keccak256 := env.keccak256

abbrev relay (env : ServiceEnv) : RelayEnv := env.account.toRelayEnv

variable (env : ServiceEnv) (c : CurveId)

instance : (env.relay.curve c).PrimeSubgroup := by
  cases c with
  | secp256k1 => exact inferInstanceAs secp256k1.PrimeSubgroup
  | babyJubJub => exact inferInstanceAs (babyJubJub env.lib).PrimeSubgroup

instance : (env.relay.curve c).FaithfulEncodings := by
  cases c with
  | secp256k1 => exact inferInstanceAs secp256k1.FaithfulEncodings
  | babyJubJub => exact inferInstanceAs (babyJubJub env.lib).FaithfulEncodings

end ServiceEnv

variable {env : ServiceEnv}

namespace ProverResponse

/-- What the relay is told when the response arrives. An error is only logged. -/
def toEvent (env : ServiceEnv) (redis : RedisReply) : ProverResponse env.lib → Option (Event env.relay)
  | .constructedProofSecp256k1 nodeIdx peerId requestId method proof =>
    some (.processReceivedProof .secp256k1 nodeIdx peerId requestId proof method redis)
  | .constructedProofBabyJubJub nodeIdx peerId requestId method proof =>
    some (.processReceivedProof .babyJubJub nodeIdx peerId requestId proof method redis)
  | .error _ _ => none

def token? {lib : BabyJubJub.SquareRoots} : ProverResponse lib → Option (PeerId × String)
  | .constructedProofSecp256k1 _ peerId requestId _ _ | .constructedProofBabyJubJub _ peerId requestId _ _ =>
    some (peerId, requestId)
  | .error _ _ => none

end ProverResponse

variable (env) in
structure Service where
  node : RelayNode
  provers : PeerId → KeyedProver
  requests : List (PeerId × String × RequestToNetwork)
  responses : List (ProverResponse env.lib)

variable (env) in
inductive ServiceEvent where
  | ask (request : RequestToNetwork) (id : String) (reply : MulReply)
  | serve (peerId : PeerId) (id : String) (request : RequestToNetwork) (draw : ∀ c : CurveId, c.RandSpace)
  | receive (response : ProverResponse env.lib) (redis : RedisReply)
  | expire (cache : Cache) (key : String)

namespace Service

/-- A handler runs to its end. What the relay publishes and forwards is recorded with the event. -/
inductive Step : Service env → ServiceEvent env × List (Effect env.relay) → Service env → Prop
  | ask {svc : Service env} {request : RequestToNetwork} {id : String} {reply : MulReply} {out : MulOutcome env.relay}
      (handled : svc.node.handleMultiplicationRequest env.account env.prof env.rng request id reply = .ok out) :
      Step svc (.ask request id reply, out.effects) { svc with
        node := out.node
        requests := svc.requests ++ out.targets.map fun peerId => (peerId, id, request) }
  | serve {svc : Service env} {peerId : PeerId} {id : String} {request : RequestToNetwork}
      {draw : ∀ c : CurveId, c.RandSpace} {pre post : List (PeerId × String × RequestToNetwork)}
      {responses : List (ProverResponse env.lib)} (sent : svc.requests = pre ++ (peerId, id, request) :: post)
      (handled : processRequest env.hs env.lib env.prof env.rng draw peerId (svc.provers peerId) id request =
        .ok responses) :
      Step svc (.serve peerId id request draw, []) { svc with
        requests := pre ++ post
        responses := svc.responses ++ responses }
  | receive {svc : Service env} {response : ProverResponse env.lib} {redis : RedisReply} {e : Event env.relay}
      {relay : Relay} {effects : List (Effect env.relay)} {pre post : List (ProverResponse env.lib)}
      (sent : svc.responses = pre ++ response :: post) (told : response.toEvent env redis = some e)
      (handled : handle env.relay svc.node.relay e = .ok (relay, effects)) :
      Step svc (.receive response redis, effects) { svc with
        node := { svc.node with relay := relay }
        responses := pre ++ post }
  | ignore {svc : Service env} {response : ProverResponse env.lib} {redis : RedisReply}
      {pre post : List (ProverResponse env.lib)} (sent : svc.responses = pre ++ response :: post)
      (told : response.toEvent env redis = none) :
      Step svc (.receive response redis, []) { svc with responses := pre ++ post }
  | expire {svc : Service env} {cache : Cache} {key : String} :
      Step svc (.expire cache key, []) { svc with
        node := { svc.node with relay := HumanNetwork.expire cache key svc.node.relay } }

end Service

/-! ### The answers of the provers -/

section answers
variable {hs : Hashes} {lib : BabyJubJub.SquareRoots} {C : Curve} {draw : C.id.RandSpace} {keyshare : Bytes} {id : String}
  {r : RequestToNetwork} {i : ℕ} {peerId : PeerId} {responses : List (ProverResponse lib)}

theorem handleRequest_eq_ok (h : handleRequest hs lib C draw keyshare id r i peerId = .ok responses) :
    responses = [] ∨ (∃ message, responses = [.error id message]) ∨
      ∃ share P proof response, C.id.fromBytes keyshare = .ok share ∧ C.fromEncoded r.point = .ok P ∧
        DLEQProof.new hs draw P share = .ok proof ∧
        ProverResponse.newConstructedProof lib i peerId id proof r.method = .ok response ∧ responses = [response] := by
  unfold handleRequest at h
  split at h
  next share hshare =>
    split at h
    next P hP =>
      split at h
      next proof hproof =>
        obtain ⟨response, hresponse, h⟩ := bind_eq_ok.1 h
        exact .inr (.inr ⟨share, P, proof, response, hshare, hP, hproof, unwrapOk_eq_ok.1 hresponse,
          (Except.ok.inj h).symm⟩)
      next => exact .inr (.inl ⟨_, (Except.ok.inj h).symm⟩)
      next => cases h
    next => exact .inr (.inl ⟨_, (Except.ok.inj h).symm⟩)
    next => cases h
  next => exact .inl (Except.ok.inj h).symm
  next => cases h

end answers

theorem newConstructedProof_told {c : CurveId} {draw : (networkCurve env.lib c).id.RandSpace}
    {P : (networkCurve env.lib c).Point} {x : (networkCurve env.lib c).FieldEl} {proof : DLEQProof (networkCurve env.lib c)}
    (hproof : DLEQProof.new env.hs draw P x = .ok proof) (i : ℕ) (peerId : PeerId) (id : String) (m : Method) :
    ∃ response, ProverResponse.newConstructedProof env.lib i peerId id proof m = .ok response ∧
      response.token? = some (peerId, id) ∧
      ∀ redis, response.toEvent env redis = some (.processReceivedProof c i peerId id proof m redis) := by
  cases c with
  | secp256k1 =>
    obtain ⟨json, htoJson, hfromJson⟩ := exists_json_of_new (C := secp256k1) secp256k1_readsBack hproof
    refine ⟨.constructedProofSecp256k1 i peerId id m proof, ?_, rfl, fun _ => rfl⟩
    rw [ProverResponse.newConstructedProof, show proof.toJson = .ok json from htoJson, bind_ok]
    dsimp only [networkCurve]
    rw [hfromJson]
    rfl
  | babyJubJub =>
    obtain ⟨json, htoJson, hfromJson⟩ := exists_json_of_new (C := babyJubJub env.lib) babyJubJub_readsBack hproof
    refine ⟨.constructedProofBabyJubJub i peerId id m proof, ?_, rfl, fun _ => rfl⟩
    rw [ProverResponse.newConstructedProof, show proof.toJson = .ok json from htoJson, bind_ok]
    dsimp only [networkCurve]
    rw [hfromJson]
    rfl

namespace Service
variable {q : Quorum env.relay} {request : String → RequestToNetwork}

variable (q) in
structure Holds (peerId : PeerId) (state : KeyedProver) : Prop where
  idx : state.prover.myNodeIdx = q.idx peerId
  share : ∀ m keyshare, state.privateKeyshares.get? m.keyName = some keyshare →
    (env.relay.curve m.curve).id.fromBytes keyshare = .ok (q.share m peerId)

variable (q request) in
def IsAnswerOf (peerId : PeerId) (id : String) (e : Event env.relay) : Prop :=
  ∃ P, (env.relay.curve (request id).method.curve).fromEncoded (request id).point = .ok P ∧
    q.IsAnswer request id P peerId e

theorem isAnswerOf_of_new {id : String} {c : CurveId} (hc : c = (request id).method.curve) {keyshare : Bytes}
    {peerId : PeerId}
    {draw : (env.relay.curve c).id.RandSpace} {x : (env.relay.curve c).FieldEl} {P : (env.relay.curve c).Point}
    {proof : DLEQProof (env.relay.curve c)} (hx : (env.relay.curve c).id.fromBytes keyshare = .ok x)
    (hshare : (env.relay.curve (request id).method.curve).id.fromBytes keyshare = .ok (q.share (request id).method peerId))
    (hP : (env.relay.curve c).fromEncoded (request id).point = .ok P)
    (hproof : DLEQProof.new env.hs draw P x = .ok proof) (redis : RedisReply) :
    IsAnswerOf q request peerId id
      (.processReceivedProof c (q.idx peerId) peerId id proof (request id).method redis) := by
  subst hc
  obtain rfl := Except.ok.inj (hx.symm.trans hshare)
  exact ⟨P, hP, draw, proof, redis, hproof, rfl⟩

def networkDraw (draw : ∀ c : CurveId, c.RandSpace) (lib : BabyJubJub.SquareRoots) :
    (c : CurveId) → (networkCurve lib c).id.RandSpace
  | .secp256k1 => draw .secp256k1
  | .babyJubJub => draw .babyJubJub

theorem processRequest_eq_handleRequest {hs : Hashes} {lib : BabyJubJub.SquareRoots} {prof : Profile} {rng : ChaCha8Rng}
    {draw : ∀ c : CurveId, c.RandSpace} {peerId : PeerId} {state : KeyedProver} {id : String} {r : RequestToNetwork}
    {keyshare : Bytes} (hcheck : state.prover.checkRequest prof rng r = .ok none)
    (hshare : state.privateKeyshares.get? r.method.keyName = some keyshare) :
    processRequest hs lib prof rng draw peerId state id r =
      handleRequest hs lib (networkCurve lib r.method.curve) (networkDraw draw lib r.method.curve) keyshare id r
        state.prover.myNodeIdx peerId := by
  rw [processRequest_of_share hcheck hshare]
  generalize r.method.curve = c
  cases c <;> rfl

/-- Whatever a prover with its share sends is an answer, and it sends one proof at most. -/
theorem Holds.processRequest {peerId : PeerId} {state : KeyedProver} (hholds : Holds q peerId state)
    {draw : ∀ c : CurveId, c.RandSpace} {id : String} {responses : List (ProverResponse env.lib)}
    (h : processRequest env.hs env.lib env.prof env.rng draw peerId state id (request id) = .ok responses) :
    (responses.filterMap ProverResponse.token?).Sublist [(peerId, id)] ∧
      ∀ response ∈ responses, ∀ redis e, response.toEvent env redis = some e →
        response.token? = some (peerId, id) ∧ IsAnswerOf q request peerId id e := by
  have herror : ∀ message, (([.error id message] : List (ProverResponse env.lib)).filterMap
      ProverResponse.token?).Sublist [(peerId, id)] ∧
      ∀ response ∈ ([.error id message] : List (ProverResponse env.lib)), ∀ redis e, response.toEvent env redis = some e →
        response.token? = some (peerId, id) ∧ IsAnswerOf q request peerId id e := by
    refine fun message => ⟨List.nil_sublist _, fun response hmem redis e he => ?_⟩
    obtain rfl := List.mem_singleton.1 hmem
    cases he
  obtain ⟨refusal, hcheck, hrest⟩ := bind_eq_ok.1 h
  cases refusal with
  | some message =>
    obtain rfl := (Except.ok.inj hrest).symm
    exact herror message
  | none =>
    obtain ⟨keyshare, hkeyshare, -⟩ := bind_eq_ok.1 hrest
    rw [unwrap_eq_ok] at hkeyshare
    rw [processRequest_eq_handleRequest hcheck hkeyshare, hholds.idx] at h
    rcases handleRequest_eq_ok h with rfl | ⟨message, rfl⟩ | ⟨x, P, proof, response, hx, hP, hproof, hresponse, rfl⟩
    · exact ⟨List.nil_sublist _, fun response hmem => absurd hmem List.not_mem_nil⟩
    · exact herror message
    · obtain ⟨response', hresponse', htoken, htold⟩ :=
        newConstructedProof_told hproof (q.idx peerId) peerId id (request id).method
      obtain rfl := Except.ok.inj (hresponse.symm.trans hresponse')
      refine ⟨?_, fun response' hmem redis e he => ?_⟩
      · rw [List.filterMap_cons_some htoken, List.filterMap_nil]
      · obtain rfl := List.mem_singleton.1 hmem
        obtain rfl := Option.some.inj ((htold redis).symm.trans he)
        exact ⟨htoken, isAnswerOf_of_new rfl hx (hholds.share _ _ hkeyshare) hP hproof redis⟩

/-! ### What is on the way -/

def tokens (svc : Service env) : List (PeerId × String) :=
  svc.requests.map (fun m => (m.1, m.2.1)) ++ svc.responses.filterMap ProverResponse.token?

variable (q) in
/-- The provers hold the shares of the quorum, and the relay knows them apart. -/
structure Manned (svc : Service env) : Prop where
  holds : ∀ peerId, Holds q peerId (svc.provers peerId)
  distinct : (svc.node.relay.activeProvers.map ProverInfo.peerId).Nodup
  idx_inj : Set.InjOn q.idx {peerId | peerId ∈ svc.node.relay.activeProvers.map ProverInfo.peerId}

variable (q request) in
/-- What holds when the ids `asked` have been used. -/
structure Sound (asked : List String) (svc : Service env) : Prop where
  manned : Manned q svc
  orderly : q.Orderly request svc.node.relay
  requests : ∀ m ∈ svc.requests, m.2.2 = request m.2.1
  responses : ∀ response ∈ svc.responses, ∀ redis e, response.toEvent env redis = some e →
    ∃ peerId id, response.token? = some (peerId, id) ∧ IsAnswerOf q request peerId id e
  nodup : svc.tokens.Nodup
  members : ∀ token ∈ svc.tokens, token.1 ∈ svc.node.relay.activeProvers.map ProverInfo.peerId
  uncounted : ∀ token ∈ svc.tokens, q.idx token.1 ∉ svc.node.relay.indices token.2
  asked_of_token : ∀ token ∈ svc.tokens, token.2 ∈ asked
  asked_of_counted : ∀ id, svc.node.relay.indices id ≠ [] → id ∈ asked
  asked_of_cached : ∀ id, svc.node.relay.requestOf id ≠ none → id ∈ asked
  batched : ∀ hash, svc.node.relay.batchCache.containsKey hash = true →
    ∃ id ∈ asked, requestHash env.relay (request id) = some hash

variable (request) in
def Fresh (asked : List String) : ServiceEvent env → Prop
  | .ask r id _ => r = request id ∧ id ∉ asked
  | _ => True

def askedId? : ServiceEvent env → Option String
  | .ask _ id _ => some id
  | _ => none

/-! ### The relay's part -/

theorem batched_of_proofStep {s s' : Relay} {c : CurveId} {i : ℕ} {peerId : PeerId} {id : String}
    {proof : DLEQProof (env.relay.curve c)} {method : Method} {redis : RedisReply} {effects : List (Effect env.relay)}
    (h : ProofStep env.relay s c i peerId id proof method redis s' effects)
    (hrequests : ∀ id r, s.requestOf id = some r → r = request id) {hash : String}
    (hhash : s'.batchCache.containsKey hash = true) : s.batchCache.containsKey hash = true ∨
      ∃ id, s.requestOf id ≠ none ∧ requestHash env.relay (request id) = some hash := by
  cases h with
  | @verified data _ hash' _ _ _ _ counts _ hashed =>
    rcases HMap.containsKey_insert.1 hhash with rfl | hhash
    · have hrequest : s.requestOf id = some data.request := by rw [Relay.requestOf, counts.request, Option.map_some]
      refine .inr ⟨id, by simp [hrequest], ?_⟩
      rwa [← hrequests id _ hrequest]
    · exact .inl hhash
  | _ => exact .inl hhash

variable {svc svc' : Service env} {asked : List String}

theorem sublist_of_forwardTargets {prof : Profile} {rng : ChaCha8Rng} {s : Relay} {r : RequestToNetwork}
    {targets : List PeerId} (h : forwardTargets prof rng s r = .ok targets) :
    targets.Sublist (s.activeProvers.map ProverInfo.peerId) := by
  obtain ⟨tPlusEpsilon, -, h⟩ := bind_eq_ok.1 h
  obtain ⟨indices, -, h⟩ := bind_eq_ok.1 h
  dsimp only at h
  split at h
  · obtain rfl := Except.ok.inj h
    exact List.Sublist.refl _
  · obtain rfl := Except.ok.inj h
    exact List.filter_sublist.map _

section asking
variable {node : RelayNode} {r : RequestToNetwork} {id : String} {reply : MulReply} {out : MulOutcome env.relay}
  (h : node.handleMultiplicationRequest env.account env.prof env.rng r id reply = .ok out)
include h

theorem handle_cases : (∃ message, out.effects = [.publish id (.error id message)] ∧ out.targets = []) ∨
    out.effects = [.forward id r] ∧ r.epoch = (pingIfShort node.relay reply.ping).currentEpoch ∧
      forwardTargets env.prof env.rng (pingIfShort node.relay reply.ping) r = .ok out.targets := by
  simp only [RelayNode.handleMultiplicationRequest] at h
  split at h
  · obtain rfl := Except.ok.inj h
    exact .inl ⟨_, rfl, rfl⟩
  split at h
  · obtain rfl := Except.ok.inj h
    exact .inl ⟨_, rfl, rfl⟩
  next hepoch =>
  obtain ⟨verdict, -, h⟩ := bind_eq_ok.1 h
  rcases verdict with message | ⟨counters, batchSize, credits⟩
  · obtain rfl := Except.ok.inj h
    exact .inl ⟨_, rfl, rfl⟩
  · obtain ⟨targets, htargets, h⟩ := bind_eq_ok.1 h
    obtain rfl := Except.ok.inj h
    exact .inr ⟨rfl, not_not.1 hepoch, htargets⟩

theorem relay_of_ask : ∃ readyNodes reqCache,
    (reqCache = node.relay.reqCache ∨ reqCache = node.relay.reqCache.orInsert id ⟨r, .submitted⟩) ∧
    out.node.relay = { node.relay with
      readyNodes := readyNodes, pubsubCache := node.relay.pubsubCache.insert id (), reqCache := reqCache } := by
  obtain ⟨reqCache, effect, hreq, -, heq⟩ := handleMultiplicationRequest_cases env.relay node.relay r id
    ⟨reply.ping, node.verdict env.account env.prof r reply.account⟩
  exact ⟨_, reqCache, hreq, (Prod.mk.inj ((RelayNode.handle_relay h).symm.trans heq)).1⟩

theorem targets_sublist : out.targets.Sublist (node.relay.activeProvers.map ProverInfo.peerId) := by
  rcases handle_cases h with ⟨_, -, htargets⟩ | ⟨-, -, htargets⟩
  · rw [htargets]
    exact List.nil_sublist _
  · obtain ⟨readyNodes, hping⟩ := pingIfShort_eq node.relay reply.ping
    rw [hping] at htargets
    exact sublist_of_forwardTargets htargets

theorem tracedStep_of_ask : Relay.TracedStep env.relay node.relay
    (.mulRequest r id ⟨reply.ping, node.verdict env.account env.prof r reply.account⟩, out.effects) out.node.relay :=
  congrArg Except.ok (RelayNode.handle_relay h)

theorem requestOf_of_ask {id' : String} (hid : out.node.relay.requestOf id' ≠ none) :
    node.relay.requestOf id' ≠ none ∨ id' = id := by
  obtain ⟨r', hr'⟩ := Option.ne_none_iff_exists'.1 hid
  obtain ⟨readyNodes, reqCache, hreq, heq⟩ := relay_of_ask h
  rw [heq] at hr'
  rcases hreq with rfl | rfl
  · exact .inl (Option.ne_none_iff_exists'.2 ⟨r', hr'⟩)
  · rcases requestOf_orInsert (s := node.relay) rfl hr' with hold | ⟨hid, -⟩
    · exact .inl (Option.ne_none_iff_exists'.2 ⟨r', hold⟩)
    · exact .inr hid

end asking

/-! ### Every step -/

theorem Manned.of_eq (h : Manned q svc) (hprovers : svc'.provers = svc.provers)
    (hactive : svc'.node.relay.activeProvers = svc.node.relay.activeProvers) : Manned q svc' := by
  refine ⟨?_, ?_, ?_⟩
  · rw [hprovers]
    exact h.holds
  · rw [hactive]
    exact h.distinct
  · rw [hactive]
    exact h.idx_inj

theorem Sound.ask (h : Sound q request asked svc) {r : RequestToNetwork} {id : String} {reply : MulReply}
    {out : MulOutcome env.relay}
    (handled : svc.node.handleMultiplicationRequest env.account env.prof env.rng r id reply = .ok out)
    (hfresh : r = request id ∧ id ∉ asked) :
    Sound q request (asked ++ [id]) { svc with
      node := out.node, requests := svc.requests ++ out.targets.map fun peerId => (peerId, id, r) } := by
  obtain ⟨rfl, hid⟩ := hfresh
  set svc' : Service env := { svc with
    node := out.node, requests := svc.requests ++ out.targets.map fun peerId => (peerId, id, request id) }
  obtain ⟨hactive, hindices, hbatch⟩ : svc'.node.relay.activeProvers = svc.node.relay.activeProvers ∧
      (∀ id', svc'.node.relay.indices id' = svc.node.relay.indices id') ∧
      svc'.node.relay.batchCache = svc.node.relay.batchCache := by
    obtain ⟨readyNodes, reqCache, -, heq⟩ := relay_of_ask handled
    show out.node.relay.activeProvers = _ ∧ (∀ id', out.node.relay.indices id' = _) ∧ out.node.relay.batchCache = _
    rw [heq]
    exact ⟨rfl, fun _ => rfl, rfl⟩
  have hperm : svc'.tokens.Perm (svc.tokens ++ out.targets.map fun peerId => (peerId, id)) := by
    have : svc'.tokens = svc.requests.map (fun m => (m.1, m.2.1)) ++ out.targets.map (fun peerId => (peerId, id)) ++
        svc.responses.filterMap ProverResponse.token? := by
      show List.map _ (svc.requests ++ out.targets.map _) ++ _ = _
      rw [List.map_append, List.map_map]
      rfl
    rw [this, tokens, List.append_assoc, List.append_assoc]
    exact List.perm_append_comm.append_left _
  have hmem : ∀ token ∈ svc'.tokens, token ∈ svc.tokens ∨ token.1 ∈ out.targets ∧ token.2 = id := by
    intro token htoken
    rcases List.mem_append.1 (hperm.subset htoken) with htoken | htoken
    · exact .inl htoken
    · obtain ⟨peerId, hpeer, rfl⟩ := List.mem_map.1 htoken
      exact .inr ⟨hpeer, rfl⟩
  have htargets := targets_sublist handled
  refine ⟨h.manned.of_eq rfl hactive, ?_, ?_, h.responses, ?_, ?_, ?_, ?_, ?_, ?_, ?_⟩
  · exact h.orderly.step (e := .mulRequest _ _ _) rfl trivial ⟨_, tracedStep_of_ask handled⟩
  · intro m hm
    rcases List.mem_append.1 hm with hm | hm
    · exact h.requests m hm
    · obtain ⟨peerId, -, rfl⟩ := List.mem_map.1 hm
      rfl
  · rw [hperm.nodup_iff, List.nodup_append]
    refine ⟨h.nodup, ?_, fun token htoken token' htoken' heq => ?_⟩
    · exact (h.manned.distinct.sublist htargets).map fun _ _ heq => (Prod.mk.inj heq).1
    · obtain ⟨peerId, -, rfl⟩ := List.mem_map.1 htoken'
      subst heq
      exact hid (h.asked_of_token _ htoken)
  · intro token htoken
    rw [hactive]
    rcases hmem token htoken with htoken | ⟨hpeer, -⟩
    · exact h.members token htoken
    · exact htargets.subset hpeer
  · intro token htoken
    rw [hindices]
    rcases hmem token htoken with htoken | ⟨-, hnew⟩
    · exact h.uncounted token htoken
    · rw [hnew, not_imp_comm.1 (h.asked_of_counted id) hid]
      exact List.not_mem_nil
  · intro token htoken
    rcases hmem token htoken with htoken | ⟨-, hnew⟩
    · exact List.mem_append_left _ (h.asked_of_token token htoken)
    · exact List.mem_append_right _ (List.mem_singleton.2 hnew)
  · intro id' hid'
    rw [hindices] at hid'
    exact List.mem_append_left _ (h.asked_of_counted id' hid')
  · intro id' hid'
    rcases requestOf_of_ask handled hid' with hold | rfl
    · exact List.mem_append_left _ (h.asked_of_cached id' hold)
    · exact List.mem_append_right _ (List.mem_singleton_self _)
  · intro hash hhash
    obtain ⟨id', hid', heq⟩ := h.batched hash (hbatch ▸ hhash)
    exact ⟨id', List.mem_append_left _ hid', heq⟩

theorem Sound.of_subperm (h : Sound q request asked svc) (hprovers : svc'.provers = svc.provers)
    (hrelay : svc'.node.relay = svc.node.relay) (hrequests : ∀ m ∈ svc'.requests, m ∈ svc.requests)
    (hresponses : ∀ response ∈ svc'.responses, ∀ redis e, response.toEvent env redis = some e →
      ∃ peerId id, response.token? = some (peerId, id) ∧ IsAnswerOf q request peerId id e)
    (htokens : svc'.tokens.Subperm svc.tokens) : Sound q request asked svc' where
  manned := h.manned.of_eq hprovers (by rw [hrelay])
  orderly := by
    rw [hrelay]
    exact h.orderly
  requests m hm := h.requests m (hrequests m hm)
  responses := hresponses
  nodup := by
    obtain ⟨l, hperm, hsublist⟩ := htokens
    exact hperm.nodup_iff.1 (h.nodup.sublist hsublist)
  members token htoken := by
    rw [hrelay]
    exact h.members token (htokens.subset htoken)
  uncounted token htoken := by
    rw [hrelay]
    exact h.uncounted token (htokens.subset htoken)
  asked_of_token token htoken := h.asked_of_token token (htokens.subset htoken)
  asked_of_counted id hid := by
    rw [hrelay] at hid
    exact h.asked_of_counted id hid
  asked_of_cached id hid := by
    rw [hrelay] at hid
    exact h.asked_of_cached id hid
  batched hash hhash := by
    rw [hrelay] at hhash
    exact h.batched hash hhash

theorem Sound.serve (h : Sound q request asked svc) {peerId : PeerId} {id : String} {r : RequestToNetwork}
    {draw : ∀ c : CurveId, c.RandSpace} {pre post : List (PeerId × String × RequestToNetwork)}
    {responses : List (ProverResponse env.lib)} (sent : svc.requests = pre ++ (peerId, id, r) :: post)
    (handled : processRequest env.hs env.lib env.prof env.rng draw peerId (svc.provers peerId) id r = .ok responses) :
    Sound q request asked { svc with requests := pre ++ post, responses := svc.responses ++ responses } := by
  have hmem : (peerId, id, r) ∈ svc.requests := by
    rw [sent]
    exact List.mem_append_right _ List.mem_cons_self
  obtain rfl : r = request id := h.requests _ hmem
  obtain ⟨htoken, hanswers⟩ := (h.manned.holds peerId).processRequest handled
  refine h.of_subperm rfl rfl (fun m hm => ?_) (fun response hresponse redis e he => ?_) ?_
  · rw [sent]
    exact ((List.sublist_cons_self _ _).append_left pre).subset hm
  · rcases List.mem_append.1 hresponse with hresponse | hresponse
    · exact h.responses response hresponse redis e he
    · obtain ⟨htoken, hanswer⟩ := hanswers response hresponse redis e he
      exact ⟨peerId, id, htoken, hanswer⟩
  · -- the token of the request becomes the one of the response, or is gone
    have hperm : (((pre ++ post).map fun m => (m.1, m.2.1)) ++ svc.responses.filterMap ProverResponse.token? ++
        [(peerId, id)]).Perm svc.tokens := by
      rw [tokens, sent, List.map_append, List.map_append, List.map_cons]
      exact (List.perm_append_singleton _ _).trans (List.perm_middle.symm.append_right _)
    refine List.Subperm.trans ?_ hperm.subperm
    show (_ ++ (svc.responses ++ responses).filterMap ProverResponse.token?).Subperm _
    rw [List.filterMap_append, ← List.append_assoc]
    exact (htoken.append_left _).subperm

theorem Sound.relay (h : Sound q request asked svc) {e : Event env.relay} {relay : Relay}
    {responses : List (ProverResponse env.lib)} (hstep : Relay.Step env.relay svc.node.relay e relay)
    (hfixed : Quorum.Fixed request e) (hown : q.OwnAnswers request svc.node.relay e)
    (hactive : relay.activeProvers = svc.node.relay.activeProvers) (hsublist : responses.Sublist svc.responses)
    (hcached : ∀ id, relay.requestOf id ≠ none → svc.node.relay.requestOf id ≠ none)
    (hbatched : ∀ hash, relay.batchCache.containsKey hash = true → svc.node.relay.batchCache.containsKey hash = true ∨
      ∃ id, svc.node.relay.requestOf id ≠ none ∧ requestHash env.relay (request id) = some hash)
    (hcounted : ∀ c i peerId id proof method redis, e = .processReceivedProof c i peerId id proof method redis →
      i = q.idx peerId ∧ (peerId, id) ∈ svc.tokens ∧
        (peerId, id) ∉ tokens { svc with node := { svc.node with relay := relay }, responses := responses }) :
    Sound q request asked { svc with node := { svc.node with relay := relay }, responses := responses } := by
  set svc' : Service env := { svc with node := { svc.node with relay := relay }, responses := responses }
  have htokens : svc'.tokens.Sublist svc.tokens := (hsublist.filterMap _).append_left _
  refine ⟨h.manned.of_eq rfl hactive, h.orderly.step hfixed hown hstep, h.requests, ?_, h.nodup.sublist htokens, ?_, ?_,
    ?_, ?_, fun id hid => h.asked_of_cached id (hcached id hid), fun hash hhash => ?_⟩
  · exact fun response hresponse => h.responses response (hsublist.subset hresponse)
  · intro token htoken
    show _ ∈ relay.activeProvers.map _
    rw [hactive]
    exact h.members token (htokens.subset htoken)
  · intro token htoken hmem
    rcases hstep.mem_indices hmem with hmem | ⟨c, peerId, proof, method, redis, P, out, rfl, -⟩
    · exact h.uncounted token (htokens.subset htoken) hmem
    · -- the product that is new belongs to the message that has arrived
      obtain ⟨hidx, hpeer, hgone⟩ := hcounted _ _ _ _ _ _ _ rfl
      obtain rfl : token.1 = peerId := h.manned.idx_inj (h.members _ (htokens.subset htoken)) (h.members _ hpeer) hidx
      exact hgone htoken
  · exact fun token htoken => h.asked_of_token token (htokens.subset htoken)
  · intro id hid
    obtain ⟨i, hi⟩ := List.exists_mem_of_ne_nil _ hid
    rcases hstep.mem_indices hi with hi | ⟨c, peerId, proof, method, redis, P, out, rfl, -⟩
    · exact h.asked_of_counted id (List.ne_nil_of_mem hi)
    · exact h.asked_of_token _ (hcounted _ _ _ _ _ _ _ rfl).2.1
  · rcases hbatched hash hhash with hhash | ⟨id, hid, heq⟩
    · exact h.batched hash hhash
    · exact ⟨id, h.asked_of_cached id hid, heq⟩

theorem Sound.expire (h : Sound q request asked svc) (cache : Cache) (key : String) :
    Sound q request asked
      { svc with node := { svc.node with relay := HumanNetwork.expire cache key svc.node.relay } } := by
  refine h.relay (e := .expire cache key) ⟨[], rfl⟩ rfl trivial ?_ (List.Sublist.refl _) ?_ ?_ ?_
  · cases cache <;> rfl
  · intro id hid
    obtain ⟨r, hr⟩ := Option.ne_none_iff_exists'.1 hid
    exact Option.ne_none_iff_exists'.2 ⟨r, requestOf_of_expire hr⟩
  · intro hash hhash
    left
    cases cache with
    | batch =>
      obtain ⟨v, hv⟩ := Option.isSome_iff_exists.1 hhash
      exact Option.isSome_iff_exists.2 ⟨v, HMap.get?_of_remove hv⟩
    | _ => exact hhash
  · intro c i peerId id proof method redis he
    cases he

section receive
variable {response : ProverResponse env.lib} {redis : RedisReply} {e : Event env.relay} {relay : Relay}
  {effects : List (Effect env.relay)} {pre post : List (ProverResponse env.lib)}

theorem perm_tokens {token : PeerId × String} (sent : svc.responses = pre ++ response :: post)
    (htoken : response.token? = some token) (node : RelayNode) :
    svc.tokens.Perm (token :: tokens { svc with node := node, responses := pre ++ post }) := by
  show (_ ++ svc.responses.filterMap _).Perm (token :: (_ ++ (pre ++ post).filterMap _))
  rw [sent, List.filterMap_append, List.filterMap_append, List.filterMap_cons_some htoken, ← List.append_assoc,
    ← List.append_assoc]
  exact List.perm_middle

variable (env request) in
/-- The points of the requests are in the subgroups of prime order. -/
def InSubgroup : Prop := ∀ id P, (env.relay.curve (request id).method.curve).fromEncoded (request id).point = .ok P →
  (env.relay.curve (request id).method.curve).id.order • P = 0

theorem Sound.serving (h : Sound q request asked svc) (hsubgroup : InSubgroup env request)
    (sent : svc.responses = pre ++ response :: post) (told : response.toEvent env redis = some e) :
    ∃ peerId id, response.token? = some (peerId, id) ∧ IsAnswerOf q request peerId id e ∧
      Quorum.Fixed request e ∧ q.OwnAnswers request svc.node.relay e := by
  have hmem : response ∈ svc.responses := by
    rw [sent]
    exact List.mem_append_right _ List.mem_cons_self
  obtain ⟨peerId, id, htoken, hanswer⟩ := h.responses response hmem redis e told
  have huncounted := h.uncounted _ ((perm_tokens sent htoken svc.node).mem_iff.2 List.mem_cons_self)
  refine ⟨peerId, id, htoken, hanswer, ?_⟩
  obtain ⟨P, hP, draw, proof, redis', hproof, rfl⟩ := hanswer
  refine ⟨DLEQProof.sound_new hproof, fun P' out hacc => ⟨rfl, huncounted, rfl, rfl, ?_⟩⟩
  obtain ⟨r, hr, hP'⟩ := hacc.request
  obtain rfl := h.orderly.collects.requests id r hr
  exact hsubgroup id P' hP'

theorem Sound.receive (h : Sound q request asked svc) (hsubgroup : InSubgroup env request)
    (sent : svc.responses = pre ++ response :: post) (told : response.toEvent env redis = some e)
    (handled : handle env.relay svc.node.relay e = .ok (relay, effects)) :
    Sound q request asked { svc with node := { svc.node with relay := relay }, responses := pre ++ post } := by
  obtain ⟨peerId, id, htoken, ⟨P, hP, draw, proof, redis', hproof, rfl⟩, hfixed, hown⟩ := h.serving hsubgroup sent told
  have hperm := perm_tokens sent htoken { svc.node with relay := relay }
  have hstep := processReceivedProof_step handled
  refine h.relay ⟨effects, handled⟩ hfixed hown ?_ ?_ ?_ ?_ ?_
  · have hsame := congrArg Relay.activeProvers (withoutCaches_of_processReceivedProof handled)
    exact hsame
  · rw [sent]
    exact (List.sublist_cons_self _ _).append_left pre
  · intro id' hid'
    rwa [hstep.keeps.requestOf] at hid'
  · exact fun hash hhash => batched_of_proofStep hstep h.orderly.collects.requests hhash
  · intro c i peerId' id' proof' method redis'' heq
    obtain ⟨-, rfl, rfl, rfl, -⟩ := Event.processReceivedProof.inj heq
    exact ⟨rfl, hperm.mem_iff.2 List.mem_cons_self, (List.nodup_cons.1 (hperm.nodup_iff.1 h.nodup)).1⟩

theorem Sound.ignore (h : Sound q request asked svc) (sent : svc.responses = pre ++ response :: post) :
    Sound q request asked { svc with responses := pre ++ post } := by
  have hsublist : (pre ++ post).Sublist svc.responses := by
    rw [sent]
    exact (List.sublist_cons_self _ _).append_left pre
  refine h.of_subperm rfl rfl (fun _ hm => hm) ?_ ?_
  · exact fun response hresponse => h.responses response (hsublist.subset hresponse)
  · exact ((hsublist.filterMap _).append_left _).subperm

end receive

theorem Sound.step (h : Sound q request asked svc) (hsubgroup : InSubgroup env request)
    {e : ServiceEvent env × List (Effect env.relay)} (hfresh : Fresh request asked e.1) (hstep : Step svc e svc') :
    Sound q request (asked ++ (askedId? e.1).toList) svc' := by
  cases hstep with
  | ask handled => exact h.ask handled hfresh
  | serve sent handled => exact (List.append_nil asked).symm ▸ h.serve sent handled
  | receive sent told handled => exact (List.append_nil asked).symm ▸ h.receive hsubgroup sent told handled
  | ignore sent => exact (List.append_nil asked).symm ▸ h.ignore sent
  | expire => exact (List.append_nil asked).symm ▸ h.expire _ _

/-! ### Runs -/

def askedIds (trace : List (ServiceEvent env × List (Effect env.relay))) : List String :=
  trace.filterMap fun e => askedId? e.1

theorem askedIds_append_singleton (trace : List (ServiceEvent env × List (Effect env.relay)))
    (e : ServiceEvent env × List (Effect env.relay)) :
    askedIds (trace ++ [e]) = askedIds trace ++ (askedId? e.1).toList := by
  rw [askedIds, List.filterMap_append]
  cases hid : askedId? e.1 <;> simp [askedIds, hid]

variable (q) in
/-- Before anybody asks, nothing is on the way, and the relay has the keys of the quorum. -/
structure Idle (svc : Service env) : Prop where
  manned : Manned q svc
  stored : q.Stored svc.node.relay
  requests : svc.requests = []
  responses : svc.responses = []
  reqCache : svc.node.relay.reqCache = ∅
  resCache : svc.node.relay.resCache = ∅
  batchCache : svc.node.relay.batchCache = ∅

theorem Idle.sound (h : Idle q svc) : Sound q request [] svc := by
  have htokens : svc.tokens = [] := by
    rw [tokens, h.requests, h.responses]
    rfl
  have hindices : ∀ id, svc.node.relay.indices id = [] := by
    intro id
    rw [Relay.indices, h.resCache]
    rfl
  have hrequests : ∀ id, svc.node.relay.requestOf id = none := by
    intro id
    rw [Relay.requestOf, h.reqCache]
    rfl
  refine ⟨h.manned, ⟨h.stored, Relay.collects_of_empty (fun id r hr => ?_) h.resCache, fun id r hr => ?_⟩, ?_, ?_, ?_, ?_,
    ?_, ?_, ?_, ?_, ?_⟩
  · rw [hrequests] at hr
    cases hr
  · rw [h.resCache] at hr
    cases hr
  · rw [h.requests]
    exact fun _ hm => absurd hm List.not_mem_nil
  · rw [h.responses]
    exact fun _ hm => absurd hm List.not_mem_nil
  · rw [htokens]
    exact List.nodup_nil
  · rw [htokens]
    exact fun _ hm => absurd hm List.not_mem_nil
  · rw [htokens]
    exact fun _ hm => absurd hm List.not_mem_nil
  · rw [htokens]
    exact fun _ hm => absurd hm List.not_mem_nil
  · exact fun id hid => absurd (hindices id) hid
  · exact fun id hid => absurd (hrequests id) hid
  · intro hash hhash
    rw [h.batchCache] at hhash
    cases hhash

variable (request) in
/-- Every id belongs to one request. -/
structure Proper (trace : List (ServiceEvent env × List (Effect env.relay))) : Prop where
  requests : ∀ r id reply effects, (.ask r id reply, effects) ∈ trace → r = request id
  nodup : (askedIds trace).Nodup

theorem Proper.of_append {trace trace' : List (ServiceEvent env × List (Effect env.relay))}
    (h : Proper request (trace ++ trace')) : Proper request trace where
  requests r id reply effects hmem := h.requests r id reply effects (List.mem_append_left _ hmem)
  nodup := by
    have := h.nodup
    rw [askedIds, List.filterMap_append] at this
    exact (List.nodup_append.1 this).1

theorem Proper.fresh {trace : List (ServiceEvent env × List (Effect env.relay))}
    {e : ServiceEvent env × List (Effect env.relay)} (h : Proper request (trace ++ [e])) :
    Fresh request (askedIds trace) e.1 := by
  obtain ⟨e, effects⟩ := e
  cases e with
  | ask r id reply =>
    refine ⟨h.requests r id reply effects (by simp), fun hmem => ?_⟩
    have := h.nodup
    rw [askedIds, List.filterMap_append] at this
    exact (List.nodup_append.1 this).2.2 id hmem id (by simp [askedId?]) rfl
  | _ => trivial

theorem Idle.run (h : Idle q svc) (hsubgroup : InSubgroup env request)
    {trace : List (ServiceEvent env × List (Effect env.relay))} (hproper : Proper request trace)
    (hrun : Run Step svc trace svc') : Sound q request (askedIds trace) svc' := by
  induction trace using List.reverseRecOn generalizing svc' with
  | nil =>
    obtain rfl := hrun
    exact h.sound
  | append_singleton trace e ih =>
    obtain ⟨mid, hrun, last, hlast, rfl⟩ := Run.append_iff.1 hrun
    have hsound := (ih hproper.of_append hrun).step hsubgroup hproper.fresh hlast
    rwa [← askedIds_append_singleton] at hsound

theorem isResult_of_publish {s s' : Relay} (h : q.Orderly request s') {c : CurveId} {i : ℕ} {peerId : PeerId} {id : String}
    {proof : DLEQProof (env.relay.curve c)} {method : Method} {redis : RedisReply} {effects : List (Effect env.relay)}
    (hstep : processReceivedProof env.relay c s i peerId id proof method redis = .ok (s', effects)) {id' : String}
    {result : NodeResponse env.relay} (hpublish : .publish id' result ∈ effects) :
    ∃ P, (env.relay.curve (request id').method.curve).fromEncoded (request id').point = .ok P ∧
      q.IsResult request id' P result := by
  have hmem : (id', result) ∈ effects.filterMap Effect.publish? := List.mem_filterMap.2 ⟨_, hpublish, rfl⟩
  cases processReceivedProof_publishes hstep with
  | none _ published =>
    rw [published] at hmem
    cases hmem
  | result response _ _ published reconstructs =>
    rw [published, List.mem_singleton] at hmem
    obtain ⟨rfl, rfl⟩ := Prod.mk.inj hmem
    obtain ⟨r, b, hr, hb, -, hresponse⟩ := reconstructs.point
    obtain ⟨P, hP, hcollected⟩ := h.collects.collected id' r hr
    exact ⟨P, hP, b, hcollected.reconstructed b hb, hresponse _ (h.curves id' r hr)⟩

/-- In whatever order the clients ask, the provers answer and their answers arrive, a result that the relay publishes is
the product of the point of the request with the secret of its method. -/
theorem published_products (q : Quorum env.relay) (request : String → RequestToNetwork)
    (hsubgroup : InSubgroup env request) {svc₀ svc : Service env} (hidle : Idle q svc₀)
    {trace : List (ServiceEvent env × List (Effect env.relay))} (hproper : Proper request trace)
    (hrun : Run Step svc₀ trace svc) {response : ProverResponse env.lib} {redis : RedisReply}
    {effects : List (Effect env.relay)} (hmem : (.receive response redis, effects) ∈ trace) {id : String}
    {result : NodeResponse env.relay} (hpublish : .publish id result ∈ effects) :
    ∃ P, (env.relay.curve (request id).method.curve).fromEncoded (request id).point = .ok P ∧
      q.IsResult request id P result := by
  obtain ⟨pre, post, rfl⟩ := List.append_of_mem hmem
  obtain ⟨mid, hbefore, mid', hstep, -⟩ := Run.append_iff.1 hrun
  have hsound := hidle.run hsubgroup hproper.of_append hbefore
  cases hstep with
  | receive sent told handled =>
    have hafter := hsound.receive hsubgroup sent told handled
    obtain ⟨_, _, -, ⟨_, _, _, _, _, -, rfl⟩, -⟩ := hsound.serving hsubgroup sent told
    exact isResult_of_publish hafter.orderly handled hpublish
  | ignore => cases hpublish

end Service

end HumanNetwork
