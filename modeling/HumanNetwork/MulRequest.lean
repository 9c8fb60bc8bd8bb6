import HumanNetwork.Accounting
import HumanNetwork.NodeSelection

/-!
# Serving a request (`handle_multiplication_request`)

`RelayNode.handleMultiplicationRequest` is the whole handler of the relay: it waits for enough ready nodes and
the right epoch, accounts the request to its signer, selects the provers and forwards. A request whose signer
cannot be recovered skips the accounting and goes on.

`handle_relay` connects it to the relay's own state machine, where the verdict of the accounting is part of the
message, so that what is proved about runs of the relay holds for runs of this handler.
-/

namespace HumanNetwork
open Outcome

structure RelayNode where
  relay : Relay
  counters : Counters
  batchSize : ℕ

structure MulReply where
  ping : Option (Finset ℕ)
  account : AccountReply

structure MulOutcome (env : RelayEnv) where
  node : RelayNode
  effects : List (Effect env)
  credits : Option UserCreditsByMethod
  targets : List PeerId

def MulOutcome.Serves {env : RelayEnv} (out : MulOutcome env) (request : RequestToNetwork) (requestId : String) : Prop :=
  .forward requestId request ∈ out.effects ∧ (out.node.relay.reqCache.get? requestId).isSome

/-- The provers that get a request. When the selection finds too few of them active, all do. -/
def forwardTargets (prof : Profile) (rng : ChaCha8Rng) (state : Relay) (request : RequestToNetwork) :
    Outcome Empty (List PeerId) := do
  let newProverIdxes := (state.newProvers.values.map Prod.snd).insertionSort (· ≤ ·)
  let tPlusEpsilon ← addU32 prof state.t state.epsilon
  let indices ← request.getNodes rng tPlusEpsilon newProverIdxes
  let idxOf := fun peerId => ((state.newProvers.get? peerId).map Prod.snd).getD 0
  let selectedNodes := state.activeProvers.filter fun prover => idxOf prover.peerId % 2 ^ 32 ∈ indices
  if selectedNodes.length % 2 ^ 32 ≤ state.t then return state.activeProvers.map ProverInfo.peerId
  return selectedNodes.map ProverInfo.peerId

theorem forwardTargets_ok (prof : Profile) (rng : ChaCha8Rng) (state : Relay) (request : RequestToNetwork)
    (hle : state.t + state.epsilon ≤ state.newProvers.len) (hlt : state.t + state.epsilon < 2 ^ 32) :
    ∃ targets, forwardTargets prof rng state request = .ok targets := by
  have hlen : state.t + state.epsilon ≤ (state.newProvers.values.map Prod.snd).length := by
    rwa [List.length_map, HMap.length_values]
  obtain ⟨nodes, hnodes⟩ := request.exists_getNodes (ε := Empty) rng hlen
  simp only [forwardTargets, addU32, if_pos hlt, bind_ok, hnodes]
  split
  · exact ⟨_, rfl⟩
  · exact ⟨_, rfl⟩

namespace RelayNode
variable (env : AccountEnv) (prof : Profile) (rng : ChaCha8Rng)

/-- The accounting of a request: the error to publish, or the counters, the batch and the message it leaves. -/
def accountIfSigned (node : RelayNode) (request : RequestToNetwork) (reply : AccountReply) :
    Outcome Empty (Except String (Counters × ℕ × Option UserCreditsByMethod)) :=
  match request.recover env with
  | .error (.panic msg) => crash msg
  -- `if let Ok(usr)`: without a signer there is nothing to account to
  | .error (.error _) => .ok (.ok (node.counters, node.batchSize, none))
  | .ok usr =>
    match request.accountRequestFromSigner env prof node.counters reply true with
    | .error (.panic msg) => crash msg
    | .error (.error err) => .ok (.error s!"Usr: {usr.display} Error: {err}")
    | .ok acc => do
      let batchSize ← addU32 prof node.batchSize acc.increment
      return .ok (acc.counters, batchSize, acc.kafka)

def handleMultiplicationRequest (node : RelayNode) (request : RequestToNetwork) (requestId : String)
    (reply : MulReply) : Outcome Empty (MulOutcome env.toRelayEnv) :=
  let relay := pingIfShort node.relay reply.ping
  let relay := { relay with pubsubCache := relay.pubsubCache.insert requestId () }
  let refuse := fun message : String =>
    (⟨{ node with relay }, [.publish requestId (.error requestId message)], none, []⟩ : MulOutcome env.toRelayEnv)
  let count := relay.readyNodes.card
  if count < relay.t then .ok (refuse s!"Network is not ready. Total ready nodes {count}")
  else if request.epoch ≠ relay.currentEpoch then .ok (refuse "Invalid Epoch")
  else do
    match ← accountIfSigned env prof node request reply.account with
    | .error message => return refuse message
    | .ok (counters, batchSize, credits) =>
      let targets ← forwardTargets prof rng relay request
      let relay := { relay with reqCache := relay.reqCache.orInsert requestId ⟨request, .submitted⟩ }
      return ⟨⟨relay, counters, batchSize⟩, [.forward requestId request], credits, targets⟩

variable {env prof rng} {node : RelayNode} {request : RequestToNetwork} {requestId : String} {reply : MulReply}
  {out : MulOutcome env.toRelayEnv} {counters : Counters} {batchSize : ℕ} {credits : Option UserCreditsByMethod}

variable (prof rng) in
def Admits (node : RelayNode) (request : RequestToNetwork) (reply : MulReply) : Prop :=
  let relay := pingIfShort node.relay reply.ping
  relay.t ≤ relay.readyNodes.card ∧ request.epoch = relay.currentEpoch ∧
    ∃ targets, forwardTargets prof rng relay request = .ok targets

variable (requestId) in
theorem handle_of_admits (hadmits : node.Admits prof rng request reply)
    (haccount : node.accountIfSigned env prof request reply.account = .ok (.ok (counters, batchSize, credits))) :
    ∃ out, node.handleMultiplicationRequest env prof rng request requestId reply = .ok out ∧
      out.Serves request requestId ∧ out.node.counters = counters ∧ out.node.batchSize = batchSize := by
  obtain ⟨hready, hepoch, targets, htargets⟩ := hadmits
  simp only [handleMultiplicationRequest]
  rw [if_neg (Nat.not_lt.2 hready), if_neg (not_not.2 hepoch), haccount, bind_ok]
  -- the selection does not read the cache that was written in between
  refine ⟨_, bind_eq_ok.2 ⟨targets, htargets, rfl⟩, ⟨List.mem_singleton.2 rfl, ?_⟩, rfl, rfl⟩
  simp [HMap.get?_orInsert]

theorem handle_serves (h : node.handleMultiplicationRequest env prof rng request requestId reply = .ok out)
    (hserves : out.Serves request requestId) : node.Admits prof rng request reply ∧
      ∃ credits, node.accountIfSigned env prof request reply.account =
        .ok (.ok (out.node.counters, out.node.batchSize, credits)) := by
  simp only [handleMultiplicationRequest] at h
  by_cases hready : (pingIfShort node.relay reply.ping).readyNodes.card < (pingIfShort node.relay reply.ping).t
  · rw [if_pos hready] at h
    obtain rfl := Except.ok.inj h
    simp [MulOutcome.Serves] at hserves
  rw [if_neg hready] at h
  by_cases hepoch : request.epoch = (pingIfShort node.relay reply.ping).currentEpoch
  · rw [if_neg (not_not.2 hepoch)] at h
    obtain ⟨verdict, hverdict, h⟩ := bind_eq_ok.1 h
    rcases verdict with message | ⟨counters, batchSize, credits⟩
    · obtain rfl := Except.ok.inj h
      simp [MulOutcome.Serves] at hserves
    · obtain ⟨targets, htargets, h⟩ := bind_eq_ok.1 h
      obtain rfl := Except.ok.inj h
      exact ⟨⟨Nat.not_lt.1 hready, hepoch, targets, htargets⟩, credits, hverdict⟩
  · rw [if_pos hepoch] at h
    obtain rfl := Except.ok.inj h
    simp [MulOutcome.Serves] at hserves

theorem accountIfSigned_cases (h : node.accountIfSigned env prof request reply.account =
      .ok (.ok (counters, batchSize, credits))) :
    (∃ e, request.recover env = .error (.error e)) ∨
      ∃ acc, request.accountRequestFromSigner env prof node.counters reply.account true = .ok acc ∧
        (addU32 prof node.batchSize acc.increment : Outcome Empty ℕ) = .ok batchSize := by
  unfold accountIfSigned at h
  split at h
  · cases h
  next e he => exact .inl ⟨e, he⟩
  · split at h
    · cases h
    · cases h
    next acc hacc =>
      obtain ⟨_, hadd, h⟩ := bind_eq_ok.1 h
      simp only [pure_eq_ok, Except.ok.injEq, Prod.mk.injEq] at h
      obtain ⟨-, rfl, -⟩ := h
      exact .inr ⟨acc, hacc, hadd⟩

theorem increment_eq_one {acc : Accounted} {accountReply : AccountReply}
    (h : request.accountRequestFromSigner env prof counters accountReply true = .ok acc) : acc.increment = 1 := by
  obtain ⟨-, -, -, -, -, -, -, rfl⟩ := account_eq_ok.1 h
  rfl

theorem signer_of_account {acc : Accounted} {accountReply : AccountReply}
    (h : request.accountRequestFromSigner env prof counters accountReply true = .ok acc) :
    ∃ user, request.recover env = .ok user := by
  obtain ⟨user, _, _, _, hchecked, -⟩ := account_eq_ok.1 h
  exact ⟨user, hchecked.signer⟩

variable (requestId) in
theorem unsigned_served {e : String} (hadmits : node.Admits prof rng request reply)
    (he : request.recover env = .error (.error e)) :
    ∃ out, node.handleMultiplicationRequest env prof rng request requestId reply = .ok out ∧
      out.Serves request requestId ∧ out.node.counters = node.counters ∧ out.node.batchSize = node.batchSize := by
  have haccount : node.accountIfSigned env prof request reply.account = .ok (.ok (node.counters, node.batchSize, none)) := by
    simp only [accountIfSigned, he]
  exact handle_of_admits requestId hadmits haccount

/-- A request that is served has been accounted, and the batch has grown by what the accounting returned,
exactly if every request that is admitted has a signer, and the counter of the batch does not wrap. -/
theorem served_accounted_iff (env : AccountEnv) (prof : Profile) (rng : ChaCha8Rng) (node : RelayNode)
    (request : RequestToNetwork) (requestId : String) (reply : MulReply) :
    (∀ out, node.handleMultiplicationRequest env prof rng request requestId reply = .ok out →
        out.Serves request requestId →
        ∃ acc, request.accountRequestFromSigner env prof node.counters reply.account true = .ok acc ∧
          out.node.batchSize = node.batchSize + acc.increment) ↔
      (node.Admits prof rng request reply →
        (∀ e, request.recover env ≠ .error (.error e)) ∧
          ((∃ acc, request.accountRequestFromSigner env prof node.counters reply.account true = .ok acc) →
            node.batchSize + 1 < 2 ^ 32 ∨ prof = .debug)) := by
  constructor
  · intro h hadmits
    constructor
    · intro e he
      obtain ⟨out, hout, hserves, -⟩ := unsigned_served requestId hadmits he
      obtain ⟨acc, hacc, -⟩ := h out hout hserves
      obtain ⟨user, hsigner⟩ := signer_of_account hacc
      rw [hsigner] at he
      cases he
    · rintro ⟨acc, hacc⟩
      by_contra hwrap
      obtain ⟨hge, hprof⟩ := not_or.1 hwrap
      have hrelease : prof = .release := by cases prof <;> simp_all
      obtain ⟨user, hsigner⟩ := signer_of_account hacc
      have hadd : (addU32 prof node.batchSize acc.increment : Outcome Empty ℕ) =
          .ok ((node.batchSize + acc.increment) % 2 ^ 32) := by
        rw [addU32_eq_ok, increment_eq_one hacc]
        exact .inr ⟨Nat.not_lt.1 hge, hrelease, rfl⟩
      have haccount : node.accountIfSigned env prof request reply.account =
          .ok (.ok (acc.counters, (node.batchSize + acc.increment) % 2 ^ 32, acc.kafka)) := by
        simp only [accountIfSigned, hsigner, hacc, hadd, bind_ok, pure_eq_ok]
      obtain ⟨out, hout, hserves, -, hbatch⟩ := handle_of_admits requestId hadmits haccount
      obtain ⟨acc', hacc', hbatch'⟩ := h out hout hserves
      -- a counter that has wrapped is not larger than before
      rw [hbatch, increment_eq_one hacc, increment_eq_one hacc'] at hbatch'
      omega
  · intro h out hout hserves
    obtain ⟨hadmits, credits, haccount⟩ := handle_serves hout hserves
    obtain ⟨hsigner, hbatch⟩ := h hadmits
    rcases accountIfSigned_cases haccount with ⟨e, he⟩ | ⟨acc, hacc, hadd⟩
    · exact absurd he (hsigner e)
    · refine ⟨acc, hacc, ?_⟩
      have hincr := increment_eq_one hacc
      rcases addU32_eq_ok.1 hadd with ⟨-, heq⟩ | ⟨hge, hrelease, -⟩
      · exact heq
      · rcases hbatch ⟨acc, hacc⟩ with hlt | hdebug
        · omega
        · rw [hdebug] at hrelease; cases hrelease

def servingNode : RelayNode where
  relay := { lineRelay with newProvers := HMap.ofKeys ["prover1", "prover2", "prover3"] lineProvers_nodup fun peerId =>
    (⟨peerId, proverIdx peerId⟩, proverIdx peerId) }
  counters := ∅
  batchSize := 0

theorem servingNode_admits (prof : Profile) (rng : ChaCha8Rng) (reply : MulReply) :
    servingNode.Admits prof rng lineRequest reply := by
  have hping : pingIfShort servingNode.relay reply.ping = servingNode.relay := if_neg (by decide)
  rw [Admits, hping]
  exact ⟨by decide, rfl, forwardTargets_ok prof rng _ _ (by decide) (by decide)⟩

/-- An unsigned request goes to the provers, and no accounting has accepted it. -/
theorem unsigned_request_served : ∃ out,
    servingNode.handleMultiplicationRequest userAccounts .release (fun _ _ => 0) lineRequest "id"
        ⟨none, balanceReply 3⟩ = .ok out ∧
      out.Serves lineRequest "id" ∧ out.node.counters = servingNode.counters ∧
      out.node.batchSize = servingNode.batchSize ∧
      ¬ ∃ acc, lineRequest.accountRequestFromSigner userAccounts .release servingNode.counters (balanceReply 3) true =
        .ok acc := by
  have hunsigned : lineRequest.recover userAccounts = .error (.error "Request not signed") := rfl
  obtain ⟨out, hout, hserves, hcounters, hbatch⟩ := unsigned_served "id" (servingNode_admits .release _ ⟨none, balanceReply 3⟩)
    hunsigned
  refine ⟨out, hout, hserves, hcounters, hbatch, ?_⟩
  rintro ⟨acc, hacc⟩
  obtain ⟨user, hsigner⟩ := signer_of_account hacc
  rw [hunsigned] at hsigner
  cases hsigner

/-! ### The relay's own state -/

def verdict (env : AccountEnv) (prof : Profile) (node : RelayNode) (request : RequestToNetwork) (reply : AccountReply) :
    Option (String × Except String ℕ) :=
  match request.recover env with
  | .error _ => none
  | .ok usr =>
    match request.accountRequestFromSigner env prof node.counters reply true with
    | .ok acc => some (usr.display, .ok acc.increment)
    | .error (.error err) => some (usr.display, .error err)
    | .error (.panic _) => none

theorem verdict_of_error {message : String}
    (h : node.accountIfSigned env prof request reply.account = .ok (.error message)) :
    ∃ usr err, node.verdict env prof request reply.account = some (usr, .error err) ∧
      message = s!"Usr: {usr} Error: {err}" := by
  unfold accountIfSigned at h
  split at h
  · cases h
  · cases h
  next usr husr =>
    split at h
    · cases h
    next err herr =>
      refine ⟨usr.display, err, ?_, (Except.error.inj (Except.ok.inj h)).symm⟩
      simp only [verdict, husr, herr]
    · obtain ⟨_, -, h⟩ := bind_eq_ok.1 h
      cases h

theorem verdict_of_ok (h : node.accountIfSigned env prof request reply.account = .ok (.ok (counters, batchSize, credits)))
    (usr err : String) : node.verdict env prof request reply.account ≠ some (usr, .error err) := by
  unfold verdict
  rcases accountIfSigned_cases h with ⟨e, he⟩ | ⟨acc, hacc, -⟩
  · simp [he]
  · obtain ⟨user, hsigner⟩ := signer_of_account hacc
    simp [hsigner, hacc]

/-- What the handler does to the relay is the step of the relay's state machine for the verdict. -/
theorem handle_relay (h : node.handleMultiplicationRequest env prof rng request requestId reply = .ok out) :
    HumanNetwork.handleMultiplicationRequest env.toRelayEnv node.relay request requestId
      ⟨reply.ping, node.verdict env prof request reply.account⟩ = (out.node.relay, out.effects) := by
  simp only [handleMultiplicationRequest] at h
  simp only [HumanNetwork.handleMultiplicationRequest]
  by_cases hready : (pingIfShort node.relay reply.ping).readyNodes.card < (pingIfShort node.relay reply.ping).t
  · rw [if_pos hready] at h ⊢
    rw [← Except.ok.inj h]
  rw [if_neg hready] at h ⊢
  by_cases hepoch : request.epoch = (pingIfShort node.relay reply.ping).currentEpoch
  · rw [if_neg (not_not.2 hepoch)] at h ⊢
    obtain ⟨result, hresult, h⟩ := bind_eq_ok.1 h
    rcases result with message | ⟨counters, batchSize, credits⟩
    · obtain ⟨usr, err, hverdict, rfl⟩ := verdict_of_error hresult
      rw [hverdict, ← Except.ok.inj h]
    · obtain ⟨targets, -, h⟩ := bind_eq_ok.1 h
      have hverdict := verdict_of_ok hresult
      rw [← Except.ok.inj h]
      split
      next usr err heq => exact absurd heq (hverdict usr err)
      · rfl
  · rw [if_pos hepoch] at h ⊢
    rw [← Except.ok.inj h]

end RelayNode

end HumanNetwork
