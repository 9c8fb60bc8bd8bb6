import HumanNetwork.Lib.Tickets
import HumanNetwork.MulRequest
import HumanNetwork.RateLimit

/-!
# The signer (`handle_secp256k1_request_to_network`)

The signer takes requests of end users, numbers and signs them with its own wallet and waits for the network's answer.
Its handlers run at the same time and share the counters, the epoch and the connection to Redis, each behind a lock of
its own, so that between any two of a handler's steps the others can make theirs.

`signer_requests`: no two requests for a method carry the same number, and a relay that serves one of them takes it
from the credits of the wallet, in the epoch that the signer read when it was started. The signer reads the epoch only
then. `signer_returns`: a handler is done after at most fourteen steps of its own, and nothing stops it before.
-/

namespace HumanNetwork
open Outcome

/-! ### Signing -/

/-- A `LocalWallet`: its signatures are recovered to its address. -/
structure Wallet (env : AccountEnv) where
  address : Address
  signMessage : Bytes → Outcome String Bytes
  recovers : ∀ {message sig}, signMessage message = .ok sig → env.jwtLib.recover sig message = .ok address

def RequestToNetwork.signed {env : AccountEnv} (self : RequestToNetwork) (wallet : Wallet env) :
    Outcome String RequestToNetwork := do
  ensure self.signature.isNone "Request already signed"
  let message ← env.serialize self
  let sig ← wallet.signMessage message
  return { self with signature := some sig }

theorem RequestToNetwork.signed_eq_ok {env : AccountEnv} {self request : RequestToNetwork} {wallet : Wallet env}
    (h : self.signed wallet = .ok request) :
    request.recover env = .ok wallet.address ∧ ∃ sig, request = { self with signature := some sig } := by
  obtain ⟨_, hnone, h⟩ := bind_eq_ok.1 h
  obtain ⟨message, hmessage, h⟩ := bind_eq_ok.1 h
  obtain ⟨sig, hsig, h⟩ := bind_eq_ok.1 h
  obtain rfl := Except.ok.inj h
  rw [ensure_eq_ok, Option.isNone_iff_eq_none] at hnone
  -- the signature is taken out again before the signer is recovered
  have hself : { self with signature := none } = self := by rw [← hnone]
  refine ⟨bind_eq_ok.2 ⟨message, ?_, wallet.recovers hsig⟩, sig, rfl⟩
  rw [← hmessage]
  exact congrArg env.serialize hself

/-! ### The state of the relay, as the signer asks for it -/

inductive StateResponse where
  | success (epoch : ℕ) (method : Method) (requestsFromUser : ℕ)
  | error (message : String)

/-- `handle_state_request` of a relay: a count that cannot be read is zero. -/
def RelayNode.handleStateRequest (node : RelayNode) (method : Method) (user : Address) (getError : Option String) :
    StateResponse :=
  let requestsFromUser := if getError.isSome then 0 else (node.counters.get? (totalCountKey method user)).getD 0
  .success node.relay.currentEpoch method requestsFromUser

namespace Signer

/-! ### What the handlers share -/

structure State where
  nextRequestNumberJwtprf : ℕ
  nextRequestNumberOprfSecp256k1 : ℕ
  nextRequestNumberOprfBabyjubjub : ℕ
  epochNum : ℕ
  /-- The keys `rate_limit:` of Redis, by identifier. -/
  limits : String → RateStore
  /-- The requests that have gone to the network. -/
  sent : List RequestToNetwork

/-- The number last given to a request of the method. A decryption gets none. -/
def State.number? (s : State) : Method → Option ℕ
  | .jwtprfSecp256k1 => some s.nextRequestNumberJwtprf
  | .oprfSecp256k1 => some s.nextRequestNumberOprfSecp256k1
  | .oprfBabyJubJub => some s.nextRequestNumberOprfBabyjubjub
  | .decryptBabyJubJub => none

def State.setNumber (s : State) (method : Method) (n : ℕ) : State :=
  match method with
  | .jwtprfSecp256k1 => { s with nextRequestNumberJwtprf := n }
  | .oprfSecp256k1 => { s with nextRequestNumberOprfSecp256k1 := n }
  | .oprfBabyJubJub => { s with nextRequestNumberOprfBabyjubjub := n }
  | .decryptBabyJubJub => s

/-- `main`: the numbers and the epoch are fetched one method after the other, and an error leaves what is there. -/
def State.start (fetchState : Method → StateResponse) (now : ℕ) : State :=
  [Method.jwtprfSecp256k1, .oprfSecp256k1, .oprfBabyJubJub].foldl
    (fun s method => match fetchState method with
      | .success epoch _ requestsFromUser => { s.setNumber method requestsFromUser with epochNum := epoch }
      | .error _ => s)
    ⟨1, 1, 1, 0, fun _ => ⟨now, none⟩, []⟩

structure Config where
  allowedMethods : List Method
  rateLimitEnabled : Bool
  rate : RateConfig
  prof : Profile

/-! ### One handler -/

structure Call where
  rtn : RequestToNetwork
  session : Option String
  stableIp : String

inductive AppErrorWithStatus where
  | badRequest (message : String)
  | internalError (message : String)

inductive JsonResponse (env : AccountEnv) where
  | verifiedProofSecp256k1 (point : (env.curve .secp256k1).Point)
  | verifiedProofBabyJubJub (greatest : Bool) (y : Bytes)

/-- What the network answers. Of an answer that it does not expect the signer only prints the text. -/
inductive Answer (env : AccountEnv) where
  | submitted (requestId : String)
  | response (res : NodeResponse env.toRelayEnv) (debug : String)
  | other (debug : String)

inductive Handler (env : AccountEnv) where
  | idle
  | limitUser (call : Call) (userId : String) (pc : RateCall)
  | limitIp (call : Call) (pc : RateCall)
  | numbering (rtn : RequestToNetwork)
  | reading (rtn : RequestToNetwork)
  | signing (rtn : RequestToNetwork)
  | submitting (method : Method)
  | fetching (method : Method) (retryCount : ℕ) (requestId : String)
  | returned (result : Except AppErrorWithStatus (JsonResponse env))
  | panicked

inductive Event (env : AccountEnv) where
  | call (call : Call)
  | rate (e : RateEvent)
  | number
  | epoch
  | sign
  | answer (reply : Except String (Answer env))

def maxRetries : ℕ := 5

variable {env : AccountEnv}

def badRequest (message : String) : Handler env := .returned (.error (.badRequest message))

def internalError (message : String) : Handler env := .returned (.error (.internalError message))

def checkCall (cfg : Config) (call : Call) : Handler env :=
  if cfg.allowedMethods.isEmpty ∨ call.rtn.method ∉ cfg.allowedMethods then
    badRequest s!"Method not allowed: {call.rtn.method.asStr}"
  else if call.rtn.method = .jwtprfSecp256k1 ∧ call.session.isNone then
    badRequest "Authentication required for JWTPRFSecp256k1"
  else if cfg.rateLimitEnabled then
    match call.session with
    | some userId => .limitUser call userId .called
    | none => .limitIp call .called
  else .numbering call.rtn

/-- Where a handler is when its call of `rate_limit` is at `pc`. -/
def afterLimit (waiting : RateCall → Handler env) (next : Handler env) (refusal : String) :
    RateCall → Handler env
  | .returned (.ok ()) => next
  | .returned (.error _) => internalError refusal
  | .panicked => .panicked
  | pc => waiting pc

def limit (cfg : Config) (s : State) (identifier : String) (pc : RateCall) (e : RateEvent)
    (after : RateCall → Handler env) : Option (State × Handler env) :=
  ((rateLimit cfg.rate).act (s.limits identifier) pc e).map fun (store, pc) =>
    ({ s with limits := Function.update s.limits identifier store }, after pc)

def takeNumber (prof : Profile) (s : State) (rtn : RequestToNetwork) : State × Handler env :=
  match s.number? rtn.method with
  | none => (s, badRequest "Unsupported Human Network Method")
  | some n =>
    let next := s.setNumber rtn.method ((n + 1) % 2 ^ 128)
    -- `+= 1` on a `u128`
    if n + 1 < 2 ^ 128 ∨ prof = .release then (next, .reading { rtn with requestPerUser := (n + 1) % 2 ^ 128 })
    else (s, .panicked)

def verified (method : Method) : NodeResponse env.toRelayEnv → Option (JsonResponse env)
  | .verifiedProofSecp256k1 _ point =>
    if method = .oprfBabyJubJub then none else some (.verifiedProofSecp256k1 point)
  | .verifiedProofBabyJubJub _ greatest y =>
    if method = .oprfBabyJubJub then some (.verifiedProofBabyJubJub greatest y) else none
  | .error _ _ => none

def unexpected (debug : String) : Handler env :=
  badRequest s!"Unexpected response from Human Network: {debug}"

def finish (method : Method) : Answer env → Handler env
  | .submitted _ => badRequest s!"Request still pending after {maxRetries} retries"
  | .response res debug => ((verified method res).map fun json => .returned (.ok json)).getD (unexpected debug)
  | .other debug => unexpected debug

def poll (method : Method) (retryCount : ℕ) : Answer env → Handler env
  | .submitted requestId =>
    if retryCount < maxRetries then .fetching method (retryCount + 1) requestId
    else finish method (.submitted requestId)
  -- a verified proof returns from the loop and any other answer leaves it, which comes to the same
  | res => finish method res

/-- The answer to one of the two calls, each with a timeout. -/
def receive (method : Method) (retryCount : ℕ) : Except String (Answer env) → Handler env
  | .error e => internalError e
  | .ok res => poll method retryCount res

/-- The handlers of the signer; the environment is the clock of Redis. -/
def signer (cfg : Config) (wallet : Wallet env) :
    Threads State (Handler env) (Event env) ℕ where
  act
    | s, .idle, .call call => some (s, checkCall cfg call)
    | s, .limitUser call userId pc, .rate e =>
      limit cfg s userId pc e
        (afterLimit (.limitUser call userId) (.limitIp call .called) s!"Rate limit exceeded for user_id: {userId}")
    | s, .limitIp call pc, .rate e =>
      limit cfg s call.stableIp pc e
        (afterLimit (.limitIp call) (.numbering call.rtn) s!"Rate limit exceeded for IP: {call.stableIp}")
    | s, .numbering rtn, .number => some (takeNumber cfg.prof s rtn)
    | s, .reading rtn, .epoch => some (s, .signing { rtn with epoch := s.epochNum })
    | s, .signing rtn, .sign =>
      match rtn.signed wallet with
      | .error (.panic _) => some (s, .panicked)
      | .error (.error e) => some (s, internalError e)
      | .ok signed => some ({ s with sent := s.sent ++ [signed] }, .submitting signed.method)
    | s, .submitting method, .answer reply => some (s, receive method 0 reply)
    | s, .fetching method retryCount _, .answer reply => some (s, receive method retryCount reply)
    | _, _, _ => none
  env s d := { s with limits := fun identifier => (s.limits identifier).advance d }

/-! ### What a step does -/

def key (request : RequestToNetwork) : Method × ℕ := (request.method, request.requestPerUser)

def rateRank : RateCall → ℕ
  | .idle => 3
  | .called => 2
  | .created => 1
  | .returned _ => 0
  | .panicked => 0

namespace Handler

/-- The number that a handler has taken for a request that it has not sent yet. -/
def held : Handler env → Option (Method × ℕ)
  | .reading rtn => some (key rtn)
  | .signing rtn => some (key rtn)
  | _ => none

/-- The request of a handler, until it is sent, is for an allowed method, and its call of `rate_limit` has not
returned. -/
def Proper (cfg : Config) : Handler env → Prop
  | .limitUser call _ pc => call.rtn.method ∈ cfg.allowedMethods ∧ 0 < rateRank pc
  | .limitIp call pc => call.rtn.method ∈ cfg.allowedMethods ∧ 0 < rateRank pc
  | .numbering rtn => rtn.method ∈ cfg.allowedMethods
  | .reading rtn => rtn.method ∈ cfg.allowedMethods
  | .signing rtn => rtn.method ∈ cfg.allowedMethods
  | _ => True

/-- How many steps a handler can have left. -/
def rank : Handler env → ℕ
  | .idle => 14
  | .limitUser _ _ pc => 11 + rateRank pc
  | .limitIp _ pc => 9 + rateRank pc
  | .numbering _ => 9
  | .reading _ => 8
  | .signing _ => 7
  | .submitting _ => maxRetries + 1
  | .fetching _ retryCount _ => maxRetries - retryCount + 1
  | .returned _ => 0
  | .panicked => 0

end Handler

structure Quiet (cfg : Config) (p p' : Handler env) : Prop where
  held : p'.held = none
  proper : p.Proper cfg → p'.Proper cfg
  rank : p'.rank < p.rank

/-- What a step can do to the numbers, the epoch and the requests that are sent. -/
inductive Does (cfg : Config) (wallet : Wallet env) (s : State) : Handler env → State → Handler env → Prop
  | quiet {p s' p'} (hnumber : s'.number? = s.number?) (hepoch : s'.epochNum = s.epochNum) (hsent : s'.sent = s.sent)
      (hquiet : Quiet cfg p p') : Does cfg wallet s p s' p'
  | take {rtn n} (hn : s.number? rtn.method = some n) :
      Does cfg wallet s (.numbering rtn) (s.setNumber rtn.method ((n + 1) % 2 ^ 128))
        (.reading { rtn with requestPerUser := (n + 1) % 2 ^ 128 })
  | read {rtn} : Does cfg wallet s (.reading rtn) s (.signing { rtn with epoch := s.epochNum })
  | send {rtn request} (h : rtn.signed wallet = .ok request) :
      Does cfg wallet s (.signing rtn) { s with sent := s.sent ++ [request] } (.submitting request.method)

variable {cfg : Config} {wallet : Wallet env} {s s' start : State} {p p' : Handler env} {a : Event env}
  {c c' : Threads.Config State (Handler env)} {es : List (Threads.Event (Event env) ℕ)}
  {rtn request : RequestToNetwork} {method : Method} {n : ℕ}

theorem quiet_returned {result : Except AppErrorWithStatus (JsonResponse env)} (h : 0 < p.rank) :
    Quiet cfg p (.returned result) := ⟨rfl, fun _ => trivial, h⟩

theorem quiet_panicked (h : 0 < p.rank) : Quiet cfg p .panicked := ⟨rfl, fun _ => trivial, h⟩

theorem quiet_checkCall (call : Call) : Quiet cfg .idle (checkCall cfg call : Handler env) := by
  have hidle : 0 < (Handler.idle : Handler env).rank := Nat.succ_pos _
  unfold checkCall
  split
  next => exact quiet_returned hidle
  next h =>
    have hallowed : call.rtn.method ∈ cfg.allowedMethods := not_not.1 (not_or.1 h).2
    split
    · exact quiet_returned hidle
    · split
      · split
        · exact ⟨rfl, fun _ => ⟨hallowed, Nat.succ_pos _⟩, Nat.lt_succ_self 13⟩
        · exact ⟨rfl, fun _ => ⟨hallowed, Nat.succ_pos _⟩, show 11 < 14 by decide⟩
      · exact ⟨rfl, fun _ => hallowed, show 9 < 14 by decide⟩

theorem quiet_finish (method : Method) (res : Answer env) (h : 0 < p.rank) : Quiet cfg p (finish method res) := by
  cases res with
  | submitted => exact quiet_returned h
  | other => exact quiet_returned h
  | response res debug =>
    rw [finish]
    cases verified method res with
    | none => exact quiet_returned h
    | some json => exact quiet_returned h

theorem quiet_receive (method : Method) {retryCount : ℕ} (reply : Except String (Answer env))
    (h : p.rank = maxRetries - retryCount + 1) : Quiet cfg p (receive method retryCount reply) := by
  have hpos : 0 < p.rank := h ▸ Nat.succ_pos _
  cases reply with
  | error e => exact quiet_returned hpos
  | ok res =>
    cases res with
    | submitted requestId =>
      simp only [receive, poll]
      split
      · refine ⟨rfl, fun _ => trivial, ?_⟩
        rw [h, Handler.rank]
        omega
      · exact quiet_finish method _ hpos
    | response res debug => exact quiet_finish method (.response res debug) hpos
    | other debug => exact quiet_finish method (.other debug) hpos

theorem rateRank_lt {rate : RateConfig} {store store' : RateStore} {pc pc' : RateCall} {e : RateEvent}
    (h : (rateLimit rate).act store pc e = some (store', pc')) : rateRank pc' < rateRank pc := by
  unfold rateLimit at h
  dsimp only at h
  split at h
  next =>
    obtain ⟨rfl, rfl⟩ := Prod.mk.inj (Option.some.inj h)
    exact Nat.lt_succ_self 2
  next =>
    split at h
    all_goals
      obtain ⟨-, rfl⟩ := Prod.mk.inj (Option.some.inj h)
      simp [rateRank]
  next =>
    split at h
    all_goals
      obtain ⟨-, rfl⟩ := Prod.mk.inj (Option.some.inj h)
      simp [rateRank]
  next => cases h

theorem does_limit {identifier refusal : String} {pc : RateCall} {e : RateEvent} {waiting : RateCall → Handler env}
    {next : Handler env} (h : limit cfg s identifier pc e (afterLimit waiting next refusal) = some (s', p'))
    (hwaiting : ∀ pc', 0 < rateRank pc' → rateRank pc' < rateRank pc → Quiet cfg p (waiting pc'))
    (hnext : 0 < rateRank pc → Quiet cfg p next) (hpos : 0 < p.rank) : Does cfg wallet s p s' p' := by
  obtain ⟨⟨store, pc'⟩, hact, h⟩ := Option.map_eq_some_iff.1 h
  obtain ⟨rfl, rfl⟩ := Prod.mk.inj h
  have hlt := rateRank_lt hact
  refine .quiet rfl rfl rfl ?_
  cases pc' with
  | idle => exact hwaiting _ (Nat.succ_pos _) hlt
  | called => exact hwaiting _ (Nat.succ_pos _) hlt
  | created => exact hwaiting _ (Nat.succ_pos _) hlt
  | returned result =>
    cases result with
    | ok => exact hnext (Nat.zero_lt_of_lt hlt)
    | error => exact quiet_returned hpos
  | panicked => exact quiet_panicked hpos

theorem does_of_act (h : (signer cfg wallet).act s p a = some (s', p')) : Does cfg wallet s p s' p' := by
  unfold signer at h
  dsimp only at h
  split at h
  next call =>
    obtain ⟨rfl, rfl⟩ := Prod.mk.inj (Option.some.inj h)
    exact .quiet rfl rfl rfl (quiet_checkCall call)
  next =>
    refine does_limit h (fun pc' hpos hlt => ⟨rfl, fun hp => ⟨hp.1, hpos⟩, Nat.add_lt_add_left hlt 11⟩)
      (fun hpos => ⟨rfl, fun hp => ⟨hp.1, Nat.succ_pos _⟩, Nat.lt_add_of_pos_right hpos⟩) ?_
    exact Nat.add_pos_left (Nat.succ_pos _) _
  next =>
    refine does_limit h (fun pc' hpos hlt => ⟨rfl, fun hp => ⟨hp.1, hpos⟩, Nat.add_lt_add_left hlt 9⟩)
      (fun hpos => ⟨rfl, fun hp => hp.1, Nat.lt_add_of_pos_right hpos⟩) ?_
    exact Nat.add_pos_left (Nat.succ_pos _) _
  next rtn =>
    have h := Option.some.inj h
    unfold takeNumber at h
    split at h
    next =>
      obtain ⟨rfl, rfl⟩ := Prod.mk.inj h
      exact .quiet rfl rfl rfl (quiet_returned (Nat.succ_pos _))
    next n hn =>
      dsimp only at h
      split at h
      · obtain ⟨rfl, rfl⟩ := Prod.mk.inj h
        exact .take hn
      · obtain ⟨rfl, rfl⟩ := Prod.mk.inj h
        exact .quiet rfl rfl rfl (quiet_panicked (Nat.succ_pos _))
  next =>
    obtain ⟨rfl, rfl⟩ := Prod.mk.inj (Option.some.inj h)
    exact .read
  next rtn =>
    split at h
    next =>
      obtain ⟨rfl, rfl⟩ := Prod.mk.inj (Option.some.inj h)
      exact .quiet rfl rfl rfl (quiet_panicked (Nat.succ_pos _))
    next =>
      obtain ⟨rfl, rfl⟩ := Prod.mk.inj (Option.some.inj h)
      exact .quiet rfl rfl rfl (quiet_returned (Nat.succ_pos _))
    next request hsigned =>
      obtain ⟨rfl, rfl⟩ := Prod.mk.inj (Option.some.inj h)
      exact .send hsigned
  next reply =>
    obtain ⟨rfl, rfl⟩ := Prod.mk.inj (Option.some.inj h)
    exact .quiet rfl rfl rfl (quiet_receive _ reply rfl)
  next reply =>
    obtain ⟨rfl, rfl⟩ := Prod.mk.inj (Option.some.inj h)
    exact .quiet rfl rfl rfl (quiet_receive _ reply rfl)
  next => cases h

/-! ### Numbers along a run -/

theorem number?_setNumber (h : s.number? method = some n) (next : ℕ) (method' : Method) :
    (s.setNumber method next).number? method' = if method' = method then some next else s.number? method' := by
  cases method <;> cases method' <;> first | rfl | cases h

@[simp] theorem epochNum_setNumber : (s.setNumber method n).epochNum = s.epochNum := by cases method <;> rfl

@[simp] theorem sent_setNumber : (s.setNumber method n).sent = s.sent := by cases method <;> rfl

def Given (start s : State) (x : Method × ℕ) : Prop :=
  ∃ first last, start.number? x.1 = some first ∧ s.number? x.1 = some last ∧ first < x.2 ∧ x.2 ≤ last

/-- So many more numbers can be given out before a counter wraps. -/
def Room (s : State) (k : ℕ) : Prop :=
  ∀ method n, s.number? method = some n → n + k < 2 ^ 128

def Later (start s : State) : Prop :=
  ∀ method n, s.number? method = some n → ∃ first, start.number? method = some first ∧ first ≤ n

structure Numbered (cfg : Config) (wallet : Wallet env) (start : State)
    (c : Threads.Config State (Handler env)) : Prop where
  epoch : c.shared.epochNum = start.epochNum
  later : Later start c.shared
  proper : ∀ i, (c.pc i).Proper cfg
  signing : ∀ i rtn, c.pc i = .signing rtn → rtn.epoch = start.epochNum
  tickets : Tickets {x | Given start c.shared x} (Handler.held ∘ c.pc) (c.shared.sent.map key)
  sent : ∀ request ∈ c.shared.sent, request.recover env = .ok wallet.address ∧
    request.method ∈ cfg.allowedMethods ∧ request.epoch = start.epochNum

theorem Given.congr {x : Method × ℕ} (h : Given start s x) (hnumber : s'.number? = s.number?) : Given start s' x := by
  unfold Given
  rw [hnumber]
  exact h

theorem Given.take {x : Method × ℕ} (h : Given start s x) (hn : s.number? method = some n) :
    Given start (s.setNumber method (n + 1)) x ∧ x ≠ (method, n + 1) := by
  obtain ⟨first, last, hfirst, hlast, hlt, hle⟩ := h
  by_cases hmethod : x.1 = method
  · subst hmethod
    obtain rfl := Option.some.inj (hn.symm.trans hlast)
    refine ⟨⟨first, n + 1, hfirst, by rw [number?_setNumber hn, if_pos rfl], hlt, by omega⟩, ?_⟩
    intro hx
    have hnumber : x.2 = n + 1 := congrArg Prod.snd hx
    omega
  · refine ⟨⟨first, last, hfirst, by rw [number?_setNumber hn, if_neg hmethod, hlast], hlt, hle⟩, ?_⟩
    rintro rfl
    exact hmethod rfl

theorem Later.given (h : Later start s) (hn : s.number? method = some n) :
    Given start (s.setNumber method (n + 1)) (method, n + 1) := by
  obtain ⟨first, hfirst, hle⟩ := h method n hn
  exact ⟨first, n + 1, hfirst, by rw [number?_setNumber hn, if_pos rfl], by omega, le_rfl⟩

theorem Later.take (h : Later start s) (hn : s.number? method = some n) :
    Later start (s.setNumber method (n + 1)) := by
  intro method' n' hn'
  rw [number?_setNumber hn] at hn'
  split at hn'
  next heq =>
    subst heq
    obtain ⟨first, hfirst, hle⟩ := h _ n hn
    obtain rfl := Option.some.inj hn'
    exact ⟨first, hfirst, by omega⟩
  next => exact h method' n' hn'

theorem Room.take {k : ℕ} (h : Room s (k + 1)) (hn : s.number? method = some n) :
    Room (s.setNumber method (n + 1)) k := by
  intro method' n' hn'
  rw [number?_setNumber hn] at hn'
  split at hn'
  next =>
    have hlt := h method n hn
    obtain rfl := Option.some.inj hn'
    omega
  next =>
    have hlt := h method' n' hn'
    omega

theorem Room.congr {k : ℕ} (h : Room s (k + 1)) (hnumber : s'.number? = s.number?) : Room s' k := by
  intro method n hn
  rw [hnumber] at hn
  have hlt := h method n hn
  omega

namespace Numbered
variable {i : ℕ}

theorem initial (hsent : start.sent = []) : Numbered cfg wallet start ⟨start, fun _ => .idle⟩ where
  epoch := rfl
  later _ n hn := ⟨n, hn, le_rfl⟩
  proper _ := trivial
  signing _ _ h := by cases h
  tickets := by
    rw [hsent]
    exact .initial
  sent := by simp [hsent]

theorem proper_update (h : Numbered cfg wallet start c) (hp : p'.Proper cfg) :
    ∀ j, (Function.update c.pc i p' j).Proper cfg :=
  (Function.forall_update_iff c.pc fun _ p => p.Proper cfg).2 ⟨hp, fun j _ => h.proper j⟩

theorem signing_update (h : Numbered cfg wallet start c)
    (hp : ∀ rtn, p' = .signing rtn → rtn.epoch = start.epochNum) :
    ∀ j rtn, Function.update c.pc i p' j = .signing rtn → rtn.epoch = start.epochNum :=
  (Function.forall_update_iff c.pc fun _ p => ∀ rtn, p = .signing rtn → rtn.epoch = start.epochNum).2
    ⟨hp, fun j _ => h.signing j⟩

theorem does (h : Numbered cfg wallet start c) {k : ℕ} (hroom : Room c.shared (k + 1))
    (hdoes : Does cfg wallet c.shared (c.pc i) s' p') :
    Numbered cfg wallet start ⟨s', Function.update c.pc i p'⟩ ∧ Room s' k := by
  have hi := h.proper i
  generalize hp : c.pc i = p at hdoes hi
  cases hdoes with
  | quiet hnumber hepoch hsent hquiet =>
    obtain ⟨hheld, hproper, -⟩ := hquiet
    refine ⟨⟨hepoch.trans h.epoch, ?_, h.proper_update (hproper hi), h.signing_update ?_, ?_, ?_⟩, hroom.congr hnumber⟩
    · intro method n hn
      exact h.later method n (hnumber ▸ hn)
    · rintro rtn rfl
      cases hheld
    · rw [Function.comp_update, hheld, hsent]
      exact (h.tickets.drop i).mono fun x hx => hx.congr hnumber
    · rw [hsent]
      exact h.sent
  | @take rtn n hn =>
    have hlt := hroom _ n hn
    rw [Nat.mod_eq_of_lt (show n + 1 < 2 ^ 128 by omega)]
    refine ⟨⟨by simpa using h.epoch, h.later.take hn, h.proper_update hi, h.signing_update (by simp), ?_, ?_⟩,
      hroom.take hn⟩
    · -- the number that is taken is larger than all that have been given out
      have hfresh : (rtn.method, n + 1) ∉ {x | Given start c.shared x} := fun hx => (hx.take hn).2 rfl
      rw [Function.comp_update, sent_setNumber]
      refine (h.tickets.take hfresh i).mono (Set.insert_subset (h.later.given hn) ?_)
      exact fun x hx => (hx.take hn).1
    · rw [sent_setNumber]
      exact h.sent
  | @read rtn =>
    refine ⟨⟨h.epoch, h.later, h.proper_update hi, h.signing_update ?_, ?_, h.sent⟩, hroom.congr rfl⟩
    · rintro _ ⟨⟩
      exact h.epoch
    · have hsame : (Handler.signing { rtn with epoch := c.shared.epochNum } : Handler env).held =
          (Handler.held ∘ c.pc) i := by
        rw [Function.comp_apply, hp]
        rfl
      rw [Function.comp_update, hsame, Function.update_eq_self]
      exact h.tickets
  | @send rtn request hsigned =>
    obtain ⟨hrecover, sig, rfl⟩ := RequestToNetwork.signed_eq_ok hsigned
    refine ⟨⟨h.epoch, h.later, h.proper_update trivial, h.signing_update (by simp), ?_, ?_⟩, hroom.congr rfl⟩
    · have hheld : (Handler.held ∘ c.pc) i = some (key rtn) := by
        rw [Function.comp_apply, hp]
        rfl
      rw [Function.comp_update, List.map_append]
      exact h.tickets.spend hheld
    · intro request hmem
      rcases List.mem_append.1 hmem with hmem | hmem
      · exact h.sent request hmem
      · obtain rfl := List.mem_singleton.1 hmem
        exact ⟨hrecover, hi, h.signing i rtn hp⟩

theorem step {k : ℕ} {e : Threads.Event (Event env) ℕ} (h : Numbered cfg wallet start c)
    (hroom : Room c.shared (k + 1)) (hstep : (signer cfg wallet).Step c e c') :
    Numbered cfg wallet start c' ∧ Room c'.shared k := by
  cases hstep with
  | act hact => exact h.does hroom (does_of_act hact)
  | env => exact ⟨⟨h.epoch, h.later, h.proper, h.signing, h.tickets, h.sent⟩, hroom.congr rfl⟩

theorem run (h : Numbered cfg wallet start c) (hroom : Room c.shared es.length)
    (hrun : Run (signer cfg wallet).Step c es c') : Numbered cfg wallet start c' := by
  induction es generalizing c with
  | nil =>
    obtain rfl := hrun
    exact h
  | cons e es ih =>
    obtain ⟨mid, hstep, hrun⟩ := hrun
    obtain ⟨hmid, hroom⟩ := h.step hroom hstep
    exact ih hmid hroom hrun

end Numbered

/-! ### Requests at the relay -/

/-- A relay that serves a signed request takes it from the credits of the address that signed it. -/
theorem served_of_signed {prof : Profile} {rng : ChaCha8Rng} {node : RelayNode} {requestId : String} {reply : MulReply}
    {out : MulOutcome env.toRelayEnv} {user : Address} (hrecover : request.recover env = .ok user)
    (h : node.handleMultiplicationRequest env prof rng request requestId reply = .ok out)
    (hserves : out.Serves request requestId) :
    node.relay.currentEpoch = request.epoch ∧
      ∃ credits stored new, Checked env node.counters request reply.account user credits stored ∧
        (addU32 prof stored 1 : Outcome String ℕ) = .ok new ∧ new ≤ credits % 2 ^ 32 ∧
        out.node.counters = node.counters.insert (totalCountKey request.method user) new := by
  obtain ⟨⟨-, hepoch, -⟩, used, haccount⟩ := RelayNode.handle_serves h hserves
  have hcurrent : (pingIfShort node.relay reply.ping).currentEpoch = node.relay.currentEpoch := by
    unfold pingIfShort
    split
    · rfl
    · rfl
  refine ⟨hcurrent.symm.trans hepoch.symm, ?_⟩
  unfold RelayNode.accountIfSigned at haccount
  rw [hrecover] at haccount
  dsimp only at haccount
  split at haccount
  next => cases haccount
  next => cases haccount
  next acc hacc =>
    obtain ⟨user', credits, stored, new, hchecked, hadd, hle, rfl⟩ := account_eq_ok.1 hacc
    obtain rfl : user = user' := Except.ok.inj (hrecover.symm.trans hchecked.signer)
    obtain ⟨_, -, haccount⟩ := bind_eq_ok.1 haccount
    simp only [pure_eq_ok, Except.ok.injEq, Prod.mk.injEq] at haccount
    exact ⟨credits, stored, new, hchecked, hadd, hle, haccount.1.symm⟩

/-- The signer after it has asked a relay for the state, once for each method. -/
def State.asking (relay : Method → RelayNode) (user : Address) (getError : Method → Option String) (now : ℕ) : State :=
  .start (fun method => (relay method).handleStateRequest method user (getError method)) now

/-- Two requests for a method never have the same number. A relay that serves a request of the signer takes it from the
credits of the signer's wallet, and it is still in the epoch in which the relay was when the signer was started. -/
theorem signer_requests (cfg : Config) (wallet : Wallet env) (relay : Method → RelayNode)
    (getError : Method → Option String) (now : ℕ)
    (hroom : Room (.asking relay wallet.address getError now) es.length)
    (hrun : Run (signer cfg wallet).Step ⟨.asking relay wallet.address getError now, fun _ => .idle⟩ es c) :
    (c.shared.sent.map key).Nodup ∧ ∀ request ∈ c.shared.sent, request.method ∈ cfg.allowedMethods ∧
      Given (.asking relay wallet.address getError now) c.shared (key request) ∧
      ∀ prof rng node requestId reply out,
        RelayNode.handleMultiplicationRequest env prof rng node request requestId reply = .ok out →
        out.Serves request requestId →
        node.relay.currentEpoch = (relay .oprfBabyJubJub).relay.currentEpoch ∧
          ∃ credits stored new, Checked env node.counters request reply.account wallet.address credits stored ∧
            (addU32 prof stored 1 : Outcome String ℕ) = .ok new ∧ new ≤ credits % 2 ^ 32 ∧
            out.node.counters = node.counters.insert (totalCountKey request.method wallet.address) new := by
  have hstart : Numbered cfg wallet (.asking relay wallet.address getError now)
      ⟨.asking relay wallet.address getError now, fun _ => .idle⟩ := .initial rfl
  have hnumbered := hstart.run hroom hrun
  refine ⟨hnumbered.tickets.nodup, fun request hmem => ?_⟩
  obtain ⟨hrecover, hallowed, hepoch⟩ := hnumbered.sent request hmem
  refine ⟨hallowed, hnumbered.tickets.mem_issued _ (List.mem_map_of_mem hmem), ?_⟩
  intro prof rng node requestId reply out hout hserves
  obtain ⟨hcurrent, hcharged⟩ := served_of_signed hrecover hout hserves
  -- the last of the three answers decides on the epoch
  exact ⟨hcurrent.trans hepoch, hcharged⟩

def userWallet : Wallet userAccounts where
  address := userAddress
  signMessage message := do
    ensure (message = bincodeRequest oprfRequest) "the key is on another device"
    okOr oprfRequest.signature "not signed"
  recovers := by
    intro message sig h
    obtain ⟨_, hmessage, hsig⟩ := bind_eq_ok.1 h
    rw [ensure_eq_ok] at hmessage
    rw [okOr_eq_ok] at hsig
    simp only [userAccounts, hmessage, hsig, and_self, if_true]

theorem signed_userWallet : ({ oprfRequest with signature := none } : RequestToNetwork).signed userWallet = .ok oprfRequest := by
  obtain ⟨sig, hsig⟩ : ∃ sig, oprfRequest.signature = some sig := ⟨_, rfl⟩
  have hmessage : userWallet.signMessage (bincodeRequest oprfRequest) = .ok sig := by
    simp only [userWallet, ensure, if_true, hsig, okOr, bind_ok]
  have hrequest : ({ oprfRequest with signature := some sig } : RequestToNetwork) = oprfRequest := by rw [← hsig]
  simp only [RequestToNetwork.signed, Option.isNone_none, ensure, if_true, bind_ok]
  show (userWallet.signMessage (bincodeRequest oprfRequest) >>= fun sig => pure { oprfRequest with signature := some sig }) = _
  rw [hmessage, bind_ok, hrequest]
  rfl

def userRelay : RelayNode := { RelayNode.servingNode with relay := { RelayNode.servingNode.relay with currentEpoch := 123 } }

def oprfConfig : Config := ⟨[.oprfSecp256k1], true, ⟨86400, 100⟩, .release⟩

/-- What the user sends to the signer: the number and the epoch are not theirs to choose. -/
def oprfCall : Call := ⟨{ oprfRequest with signature := none, epoch := 0, requestPerUser := 7 }, none, "1.2.3.4"⟩

def oprfStart : State := .asking (fun _ => userRelay) userAddress (fun _ => none) 0

def oprfSteps : List (Event userAccounts) :=
  [.call oprfCall, .rate (.set .ok), .rate (.incr .ok), .number, .epoch, .sign]

theorem run_oprfSteps : ∃ c, Run (signer oprfConfig userWallet).Step ⟨oprfStart, fun _ => .idle⟩
    (oprfSteps.map (.act 0)) c ∧ c.shared.sent = [oprfRequest] := by
  obtain ⟨s, hs, hsent⟩ : ∃ s, (signer oprfConfig userWallet).acts oprfStart .idle
      [.call oprfCall, .rate (.set .ok), .rate (.incr .ok), .number, .epoch] =
        some (s, .signing { oprfRequest with signature := none }) ∧ s.sent = [] := ⟨_, rfl, rfl⟩
  have hsteps : (signer oprfConfig userWallet).acts oprfStart .idle oprfSteps =
      some ({ s with sent := s.sent ++ [oprfRequest] }, .submitting oprfRequest.method) := by
    rw [show oprfSteps = [.call oprfCall, .rate (.set .ok), .rate (.incr .ok), .number, .epoch] ++ [.sign] from rfl,
      Threads.acts_append, hs]
    simp only [Threads.acts, signer, signed_userWallet, Option.bind_some]
  refine ⟨_, Threads.run_acts hsteps, ?_⟩
  rw [hsent]
  rfl

theorem account_oprfRequest : ∃ acc, oprfRequest.accountRequestFromSigner userAccounts .release ∅ (balanceReply 3) true =
    .ok acc := by
  have hchecked := checked_oprfRequest (show 3 < 2 ^ 128 by decide) ∅ rfl (by decide)
  exact ⟨_, account_eq_ok.2 ⟨_, 3, 0, 1, hchecked, rfl, by decide, rfl⟩⟩

theorem userRelay_serves : ∃ out,
    userRelay.handleMultiplicationRequest userAccounts .release (fun _ _ => 0) oprfRequest "id" ⟨none, balanceReply 3⟩ =
      .ok out ∧ out.Serves oprfRequest "id" := by
  have hping : pingIfShort userRelay.relay none = userRelay.relay := if_neg (by decide)
  have hadmits : userRelay.Admits .release (fun _ _ => 0) oprfRequest ⟨none, balanceReply 3⟩ := by
    rw [RelayNode.Admits, hping]
    exact ⟨by decide, rfl, forwardTargets_ok _ _ _ _ (by decide) (by decide)⟩
  obtain ⟨acc, hacc⟩ := account_oprfRequest
  have hadd : (addU32 .release 0 acc.increment : Outcome Empty ℕ) = .ok 1 := by
    rw [RelayNode.increment_eq_one hacc]
    rfl
  have haccount : userRelay.accountIfSigned userAccounts .release oprfRequest (balanceReply 3) =
      .ok (.ok (acc.counters, 1, acc.kafka)) := by
    have hcounters : userRelay.counters = ∅ := rfl
    have hbatch : userRelay.batchSize = 0 := rfl
    simp only [RelayNode.accountIfSigned, recover_oprfRequest, hcounters, hbatch, hacc, hadd, bind_ok, pure_eq_ok]
  obtain ⟨out, hout, hserves, -⟩ := RelayNode.handle_of_admits "id" hadmits haccount
  exact ⟨out, hout, hserves⟩

theorem signer_requests_one : ∃ c, Run (signer oprfConfig userWallet).Step ⟨oprfStart, fun _ => .idle⟩
    (oprfSteps.map (.act 0)) c ∧ c.shared.sent = [oprfRequest] ∧ Given oprfStart c.shared (.oprfSecp256k1, 1) ∧
      ∃ out, userRelay.handleMultiplicationRequest userAccounts .release (fun _ _ => 0) oprfRequest "id"
          ⟨none, balanceReply 3⟩ = .ok out ∧
        ∃ new, out.node.counters = userRelay.counters.insert (totalCountKey .oprfSecp256k1 userAddress) new := by
  obtain ⟨c, hrun, hsent⟩ := run_oprfSteps
  have hroom : Room oprfStart (oprfSteps.map (Threads.Event.act (β := ℕ) 0)).length := by
    intro method n hn
    cases method <;> cases hn <;> decide
  obtain ⟨-, hrequests⟩ := signer_requests oprfConfig userWallet (fun _ => userRelay) (fun _ => none) 0 hroom hrun
  obtain ⟨-, hgiven, hcharged⟩ := hrequests oprfRequest (by rw [hsent]; exact List.mem_singleton.2 rfl)
  obtain ⟨out, hout, hserves⟩ := userRelay_serves
  obtain ⟨-, _, _, new, -, -, -, hcounters⟩ := hcharged _ _ _ _ _ _ hout hserves
  exact ⟨c, hrun, hsent, hgiven, out, hout, new, hcounters⟩

/-! ### Every handler returns -/

theorem rank_lt_of_act (h : (signer cfg wallet).act s p a = some (s', p')) : p'.rank < p.rank := by
  cases does_of_act h with
  | quiet _ _ _ hquiet => exact hquiet.rank
  | take => exact Nat.lt_succ_self 8
  | read => exact Nat.lt_succ_self 7
  | send => exact Nat.lt_succ_self 6

theorem proper_of_act (h : (signer cfg wallet).act s p a = some (s', p')) (hp : p.Proper cfg) : p'.Proper cfg := by
  cases does_of_act h with
  | quiet _ _ _ hquiet => exact hquiet.proper hp
  | take => exact hp
  | read => exact hp
  | send => exact trivial

theorem exists_rate_act (rate : RateConfig) (store : RateStore) {pc : RateCall} (h : 0 < rateRank pc) :
    ∃ e, ((rateLimit rate).act store pc e).isSome := by
  cases pc with
  | idle => exact ⟨.call, rfl⟩
  | called =>
    refine ⟨.set .ok, ?_⟩
    simp only [rateLimit]
    cases store.setNxEx rate.interval <;> rfl
  | created =>
    refine ⟨.incr .ok, ?_⟩
    simp only [rateLimit]
    cases store.incr <;> rfl
  | returned => cases h
  | panicked => cases h

theorem exists_act (wallet : Wallet env) (s : State) (hp : p.Proper cfg) (hrank : 0 < p.rank) :
    ∃ a, ((signer cfg wallet).act s p a).isSome := by
  cases p with
  | idle => exact ⟨.call ⟨⟨.oprfSecp256k1, [], 0, 0, none, none⟩, none, ""⟩, rfl⟩
  | limitUser call userId pc =>
    obtain ⟨e, he⟩ := exists_rate_act cfg.rate (s.limits userId) hp.2
    exact ⟨.rate e, by simpa [signer, limit] using he⟩
  | limitIp call pc =>
    obtain ⟨e, he⟩ := exists_rate_act cfg.rate (s.limits call.stableIp) hp.2
    exact ⟨.rate e, by simpa [signer, limit] using he⟩
  | numbering => exact ⟨.number, rfl⟩
  | reading => exact ⟨.epoch, rfl⟩
  | signing rtn =>
    refine ⟨.sign, ?_⟩
    simp only [signer]
    split <;> rfl
  | submitting => exact ⟨.answer (.error ""), rfl⟩
  | fetching => exact ⟨.answer (.error ""), rfl⟩
  | returned => cases hrank
  | panicked => cases hrank

/-- In every interleaving a handler has made at most fourteen steps, and it has returned or can make another one. -/
theorem signer_returns (cfg : Config) (wallet : Wallet env) (start : State)
    (hrun : Run (signer cfg wallet).Step ⟨start, fun _ => .idle⟩ es c) (i : ℕ) :
    es.countP (·.isActOf i) + (c.pc i).rank ≤ 14 ∧
      ((∃ result, c.pc i = .returned result) ∨ c.pc i = .panicked ∨
        ∃ a c', (signer cfg wallet).Step c (.act i a) c') := by
  refine ⟨Threads.count_add_rank_le rank_lt_of_act hrun i, ?_⟩
  by_cases hrank : 0 < (c.pc i).rank
  · obtain ⟨a, ha⟩ := exists_act wallet c.shared (Threads.forall_pc_of_run proper_of_act hrun (fun _ => trivial) i) hrank
    obtain ⟨⟨s, p⟩, hact⟩ := Option.isSome_iff_exists.1 ha
    exact .inr (.inr ⟨a, _, .act hact⟩)
  · cases hp : c.pc i with
    | returned result => exact .inl ⟨result, rfl⟩
    | panicked => exact .inr (.inl rfl)
    | _ =>
      rw [hp] at hrank
      exact absurd (by simp [Handler.rank]) hrank

theorem signer_returns_one : ∃ c, Run (signer oprfConfig userWallet).Step ⟨oprfStart, fun _ => .idle⟩
    (oprfSteps.map (.act 0)) c ∧ (c.pc 0).rank ≤ 8 := by
  obtain ⟨c, hrun, -⟩ := run_oprfSteps
  obtain ⟨hle, -⟩ := signer_returns oprfConfig userWallet oprfStart hrun 0
  have hcount : (oprfSteps.map (Threads.Event.act (β := ℕ) 0)).countP (·.isActOf 0) = 6 := rfl
  exact ⟨c, hrun, by omega⟩

end Signer
end HumanNetwork
