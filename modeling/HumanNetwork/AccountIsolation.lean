import HumanNetwork.Accounting
import HumanNetwork.Lib.Projection

/-!
# Accounting per user and method

Calls of `account_request_from_signer` are interleaved, one after the other on the connection to Redis.
`RequestToNetwork.accountM` is the function as a sequence of commands on Redis, which keeps what it has been told when
the call fails later on. The accounting of one user and method is a machine of its own, `PairCall.account`, on the
counter of the pair alone: it is a component of the whole accounting (`pair_projects`), since the keys of two pairs
differ and every check comes before the write.
-/

namespace HumanNetwork
open Outcome

/-- Commands on Redis that end with the first error. -/
abbrev RedisM := ExceptT (Fault String) (StateM Counters)

namespace RedisM

def ofOutcome {α : Type} (x : Outcome String α) : RedisM α := ExceptT.mk (pure x)

def getCount (reply : AccountReply) (key : String) : RedisM ℕ := do
  let counters ← get
  ofOutcome (getCounter reply counters key)

def setCount (reply : AccountReply) (key : String) (count : ℕ) : RedisM Unit := do
  let counters ← get
  let counters ← ofOutcome (setCounter reply counters key count)
  set counters

def exec {α : Type} (m : RedisM α) (counters : Counters) : Outcome String α × Counters := m.run.run counters

variable {α β : Type} (counters : Counters)

theorem exec_bind (m : RedisM α) (f : α → RedisM β) : exec (m >>= f) counters =
    match exec m counters with
    | (.ok a, counters) => exec (f a) counters
    | (.error e, counters) => (.error e, counters) := by
  show (ExceptT.bindCont f (m.run.run counters).1).run (m.run.run counters).2 = _
  rw [exec]
  rcases m.run.run counters with ⟨_ | _, _⟩ <;> rfl

theorem exec_ofOutcome (x : Outcome String α) : exec (ofOutcome x) counters = (x, counters) := rfl

theorem exec_getCount (reply : AccountReply) (key : String) :
    exec (getCount reply key) counters = (getCounter reply counters key, counters) := rfl

theorem exec_setCount (reply : AccountReply) (key : String) (count : ℕ) : exec (setCount reply key count) counters =
    match setCounter reply counters key count with
    | .ok counters => (.ok (), counters)
    | .error e => (.error e, counters) := by
  show exec (get >>= fun counters => ofOutcome (setCounter reply counters key count) >>= set) counters = _
  rw [exec_bind]
  show exec (ofOutcome (setCounter reply counters key count) >>= set) counters = _
  rw [exec_bind, exec_ofOutcome]
  cases setCounter reply counters key count <;> rfl

end RedisM

abbrev Decision := ℕ × Option UserCreditsByMethod

def RequestToNetwork.accountM (env : AccountEnv) (prof : Profile) (self : RequestToNetwork) (reply : AccountReply)
    (record : Bool) : RedisM Decision := do
  let user ← .ofOutcome (self.recover env)
  let credits ← .ofOutcome
    (self.method.getUserCredits env reply.chain reply.web reply.conn user self.point self.extraData)
  let storedRequestsPerUser ← .getCount reply (totalCountKey self.method user)
  let newCreditsPerUser ← .ofOutcome (addU32 prof storedRequestsPerUser 1)
  .ofOutcome (ensure (newCreditsPerUser ≤ credits % 2 ^ 32)
    s!"No credits for a request: acquired {credits} credits but used {storedRequestsPerUser}")
  if record then
    .setCount reply (totalCountKey self.method user) newCreditsPerUser
    return (1, some ⟨"0x" ++ hexEncode user, self.method.asStr, self.requestPerUser⟩)
  else return (1, none)

structure AccountCall where
  request : RequestToNetwork
  reply : AccountReply
  record : Bool

def AccountCall.run (env : AccountEnv) (prof : Profile) (counters : Counters) (c : AccountCall) :
    Outcome String Decision × Counters :=
  (c.request.accountM env prof c.reply c.record).exec counters

/-- The write is the last command that can fail, so a call that fails has not written. -/
theorem AccountCall.run_eq (env : AccountEnv) (prof : Profile) (counters : Counters) (c : AccountCall) :
    c.run env prof counters =
      match c.request.accountRequestFromSigner env prof counters c.reply c.record with
      | .ok acc => (.ok (acc.increment, acc.kafka), acc.counters)
      | .error e => (.error e, counters) := by
  unfold run RequestToNetwork.accountM RequestToNetwork.accountRequestFromSigner
  simp only [RedisM.exec_bind, RedisM.exec_ofOutcome, RedisM.exec_getCount]
  cases c.request.recover env with
  | error e => rfl
  | ok user =>
  dsimp only [bind_ok]
  cases c.request.method.getUserCredits env c.reply.chain c.reply.web c.reply.conn user c.request.point
      c.request.extraData with
  | error e => rfl
  | ok credits =>
  dsimp only [bind_ok]
  cases getCounter c.reply counters (totalCountKey c.request.method user) with
  | error e => rfl
  | ok stored =>
  dsimp only [bind_ok]
  cases (addU32 prof stored 1 : Outcome String ℕ) with
  | error e => rfl
  | ok new =>
  dsimp only [bind_ok]
  cases (ensure (new ≤ credits % 2 ^ 32) _ : Outcome String Unit) with
  | error e => rfl
  | ok _ =>
  cases c.record with
  | false => rfl
  | true =>
  simp only [if_true, bind_ok, RedisM.exec_bind, RedisM.exec_setCount]
  cases setCounter c.reply counters (totalCountKey c.request.method user) new <;> rfl

/-! ### One user and method -/

/-- What a call of a known user is to the accounting of this user: the request, the credits that it is found to have
and whether Redis answers. -/
structure PairCall where
  request : RequestToNetwork
  record : Bool
  credits : Outcome String ℕ
  getError : Option String
  setError : Option String

def AccountCall.ofPair (env : AccountEnv) (user : Address) (method : Method) (c : AccountCall) : Option PairCall :=
  match c.request.recover env with
  | .ok signer =>
    if signer = user ∧ c.request.method = method then
      some
        { request := c.request
          record := c.record
          credits := method.getUserCredits env c.reply.chain c.reply.web c.reply.conn user c.request.point
            c.request.extraData
          getError := c.reply.getError
          setError := c.reply.setError }
    else none
  | .error _ => none

namespace PairCall

def newCount (prof : Profile) (count : Option ℕ) (c : PairCall) : Outcome String ℕ := do
  let credits ← c.credits
  ensure c.getError.isNone (c.getError.getD "")
  let stored := count.getD 0
  ensure (stored < 2 ^ 32) "Response was of incompatible type"
  let new ← addU32 prof stored 1
  ensure (new ≤ credits % 2 ^ 32) s!"No credits for a request: acquired {credits} credits but used {stored}"
  if c.record then ensure c.setError.isNone (c.setError.getD "")
  return new

def account (prof : Profile) (user : Address) (method : Method) (count : Option ℕ) (c : PairCall) :
    Outcome String Decision × Option ℕ :=
  match c.newCount prof count with
  | .ok new =>
    if c.record then (.ok (1, some ⟨"0x" ++ hexEncode user, method.asStr, c.request.requestPerUser⟩), some new)
    else (.ok (1, none), count)
  | .error e => (.error e, count)

end PairCall

variable {env : AccountEnv} {prof : Profile} {user : Address} {method : Method} {counters : Counters}

theorem AccountCall.ofPair_eq_some {c : AccountCall} {d : PairCall} (h : c.ofPair env user method = some d) :
    c.request.recover env = .ok user ∧ c.request.method = method ∧
      d = ⟨c.request, c.record, method.getUserCredits env c.reply.chain c.reply.web c.reply.conn user c.request.point
        c.request.extraData, c.reply.getError, c.reply.setError⟩ := by
  unfold ofPair at h
  split at h
  next signer hsigner =>
    split at h
    next hpair =>
      obtain ⟨rfl, hmethod⟩ := hpair
      exact ⟨hsigner, hmethod, (Option.some.inj h).symm⟩
    next => cases h
  next => cases h

theorem accountRequestFromSigner_eq {c : AccountCall} {d : PairCall} (h : c.ofPair env user method = some d) :
    c.request.accountRequestFromSigner env prof counters c.reply c.record =
      (d.newCount prof (counters.get? (totalCountKey method user)) >>= fun new =>
        pure (if c.record then
            ⟨1, counters.insert (totalCountKey method user) new,
              some ⟨"0x" ++ hexEncode user, method.asStr, c.request.requestPerUser⟩⟩
          else ⟨1, counters, none⟩)) := by
  obtain ⟨hsigner, rfl, rfl⟩ := AccountCall.ofPair_eq_some h
  unfold RequestToNetwork.accountRequestFromSigner PairCall.newCount getCounter setCounter
  rw [hsigner]
  cases c.record <;> simp only [bind_ok, bind_assoc, pure_bind, if_true, if_false, Bool.false_eq_true]

theorem counters_of_accepted {c : AccountCall} {acc : Accounted}
    (h : c.request.accountRequestFromSigner env prof counters c.reply c.record = .ok acc) :
    ∃ signer, c.request.recover env = .ok signer ∧
      (c.record = false ∧ acc.counters = counters ∨
        c.record = true ∧ ∃ new, acc.counters = counters.insert (totalCountKey c.request.method signer) new) := by
  obtain ⟨signer, hsigner, -⟩ := bind_eq_ok.1 h
  obtain ⟨d, hd⟩ : ∃ d, c.ofPair env signer c.request.method = some d := by
    simp only [AccountCall.ofPair, hsigner, and_self, if_true, Option.some.injEq, exists_eq']
  rw [accountRequestFromSigner_eq hd] at h
  obtain ⟨new, -, h⟩ := bind_eq_ok.1 h
  obtain rfl := Except.ok.inj h
  cases hrecord : c.record with
  | false => exact ⟨signer, hsigner, .inl ⟨rfl, rfl⟩⟩
  | true => exact ⟨signer, hsigner, .inr ⟨rfl, new, rfl⟩⟩

theorem ofPair_of_recover {c : AccountCall} (hsigner : c.request.recover env = .ok user)
    (hmethod : c.request.method = method) : c.ofPair env user method ≠ none := by
  simp [AccountCall.ofPair, hsigner, hmethod]

/-- The accounting of a pair is a component of the accounting. -/
theorem pair_projects (env : AccountEnv) (prof : Profile) (user : Address) (method : Method) :
    Machine.Projects (AccountCall.run env prof) (PairCall.account prof user method)
      (fun counters => counters.get? (totalCountKey method user)) (AccountCall.ofPair env user method) where
  other counters c hother := by
    rw [c.run_eq]
    cases hacc : c.request.accountRequestFromSigner env prof counters c.reply c.record with
    | error e => rfl
    | ok acc =>
      obtain ⟨signer, hsigner, ⟨-, hcounters⟩ | ⟨-, new, hcounters⟩⟩ := counters_of_accepted hacc
      · exact congrArg (HMap.get? · _) hcounters
      · -- a call of another pair writes another key
        have hkey : totalCountKey method user ≠ totalCountKey c.request.method signer := by
          rw [Ne, totalCountKey_inj]
          rintro ⟨rfl, rfl⟩
          exact ofPair_of_recover hsigner rfl hother
        dsimp only
        rw [hcounters, HMap.get?_insert_of_ne _ _ hkey]
  own counters c d hown := by
    rw [c.run_eq, accountRequestFromSigner_eq hown, PairCall.account]
    obtain ⟨-, -, rfl⟩ := AccountCall.ofPair_eq_some hown
    cases PairCall.newCount prof (counters.get? (totalCountKey method user)) _ with
    | error e => exact ⟨rfl, rfl⟩
    | ok new =>
      cases c.record with
      | false => exact ⟨rfl, rfl⟩
      | true => exact ⟨rfl, HMap.get?_insert_self _ _ _⟩

theorem run_counters (env : AccountEnv) (prof : Profile) (counters : Counters) (c : AccountCall)
    (h : (∀ decision, (c.run env prof counters).1 ≠ .ok decision) ∨ c.record = false) :
    (c.run env prof counters).2 = counters := by
  rw [c.run_eq] at h ⊢
  cases hacc : c.request.accountRequestFromSigner env prof counters c.reply c.record with
  | error e => rfl
  | ok acc =>
    rw [hacc] at h
    rcases h with hrejected | hrecord
    · exact absurd rfl (hrejected _)
    · obtain ⟨signer, -, ⟨-, hcounters⟩ | ⟨hrecord', -⟩⟩ := counters_of_accepted hacc
      · exact hcounters
      · rw [hrecord] at hrecord'
        cases hrecord'

def decisionsFor (env : AccountEnv) (prof : Profile) (user : Address) (method : Method) (counters : Counters)
    (calls : List AccountCall) : List (Outcome String Decision) :=
  Machine.outputsOf (AccountCall.run env prof) (AccountCall.ofPair env user method) counters calls

/-- Two runs that have the same counter and the same calls of a user and method, with the same credits found for
them, answer them alike; and only accepted calls that are recorded change counters. -/
theorem accounting_isolated (env : AccountEnv) (prof : Profile) (user : Address) (method : Method)
    (counters counters' : Counters) (calls calls' : List AccountCall)
    (hstart : counters.get? (totalCountKey method user) = counters'.get? (totalCountKey method user))
    (hsame : calls.filterMap (AccountCall.ofPair env user method) = calls'.filterMap (AccountCall.ofPair env user method)) :
    decisionsFor env prof user method counters calls = decisionsFor env prof user method counters' calls' ∧
      ∀ (counters : Counters) (c : AccountCall),
        (∀ decision, (c.run env prof counters).1 ≠ .ok decision) ∨ c.record = false →
          (c.run env prof counters).2 = counters :=
  ⟨(pair_projects env prof user method).outputsOf_congr hstart hsame, run_counters env prof⟩

def oprfCall : AccountCall := ⟨oprfRequest, balanceReply 2, true⟩

def loginCall : AccountCall := ⟨loginRequest, balanceReply 1, true⟩

theorem loginCall_ofPair : loginCall.ofPair userAccounts userAddress .oprfSecp256k1 = none := by
  have hrequest : loginCall.request = loginRequest := rfl
  have hmethod : loginRequest.method ≠ .oprfSecp256k1 := by decide
  rw [AccountCall.ofPair, hrequest, recover_loginRequest]
  exact if_neg fun h => hmethod h.2

theorem accounting_isolated_of_login :
    [oprfCall, loginCall, oprfCall].filterMap (AccountCall.ofPair userAccounts userAddress .oprfSecp256k1) =
      [oprfCall, oprfCall].filterMap (AccountCall.ofPair userAccounts userAddress .oprfSecp256k1) ∧
    decisionsFor userAccounts .release userAddress .oprfSecp256k1 ∅ [oprfCall, loginCall, oprfCall] =
      decisionsFor userAccounts .release userAddress .oprfSecp256k1 ∅ [oprfCall, oprfCall] := by
  have hsame : [oprfCall, loginCall, oprfCall].filterMap (AccountCall.ofPair userAccounts userAddress .oprfSecp256k1) =
      [oprfCall, oprfCall].filterMap (AccountCall.ofPair userAccounts userAddress .oprfSecp256k1) := by
    cases hcall : oprfCall.ofPair userAccounts userAddress .oprfSecp256k1 with
    | none => simp only [List.filterMap_cons_none hcall, List.filterMap_cons_none loginCall_ofPair]
    | some d => simp only [List.filterMap_cons_some hcall, List.filterMap_cons_none loginCall_ofPair]
  exact ⟨hsame, (accounting_isolated userAccounts .release userAddress .oprfSecp256k1 ∅ ∅ _ _ rfl hsame).1⟩

end HumanNetwork
