import HumanNetwork.Credits
import HumanNetwork.Lib.Reach

/-!
# Accounting of requests (`network_utils.rs`)

`accountRequestFromSigner` recovers the user who signed a request, asks for the user's credits and compares
them with a counter in Redis, one for each user and method. An accepted request adds one to the counter. The
number that the request carries is not compared with anything, and the credits are narrowed to 32 bits before
the comparison.

A `Ledger` is the counters together with what has happened: the accepted requests and the balances that were
seen. `Counts` relates the two along every run.
-/

namespace HumanNetwork
open Outcome

def addU32 {ε : Type} (prof : Profile) (a b : ℕ) : Outcome ε ℕ :=
  if a + b < 2 ^ 32 then .ok (a + b)
  else match prof with
    | .debug => crash "attempt to add with overflow"
    | .release => .ok ((a + b) % 2 ^ 32)

def Method.asStr : Method → String
  | oprfSecp256k1 => "OPRFSecp256k1"
  | oprfBabyJubJub => "OPRFBabyJubJub"
  | decryptBabyJubJub => "DecryptBabyJubJub"
  | jwtprfSecp256k1 => "JWTPRFSecp256k1"

def totalCountKey (method : Method) (user : Address) : String :=
  "total_count:" ++ method.asStr ++ ":0x" ++ hexEncode user

/-- What one call finds outside: chain, web, cached keys, and whether Redis reads and writes. -/
structure AccountReply where
  chain : Chain
  web : Web
  conn : RedisGet
  getError : Option String
  setError : Option String

abbrev Counters := HMap String ℕ

structure UserCreditsByMethod where
  user : String
  method : String
  exhaustedCredits : ℕ
deriving DecidableEq, Repr

/-- The increment that an accepted request returns, the counters it leaves and what it sends to Kafka. -/
structure Accounted where
  increment : ℕ
  counters : Counters
  kafka : Option UserCreditsByMethod

/-- `GET` as an `Option<u32>`, zero if there is none. -/
def getCounter (reply : AccountReply) (counters : Counters) (key : String) : Outcome String ℕ := do
  ensure reply.getError.isNone (reply.getError.getD "")
  let stored := (counters.get? key).getD 0
  ensure (stored < 2 ^ 32) "Response was of incompatible type"
  return stored

def setCounter (reply : AccountReply) (counters : Counters) (key : String) (count : ℕ) : Outcome String Counters := do
  ensure reply.setError.isNone (reply.setError.getD "")
  return counters.insert key count

namespace RequestToNetwork
variable (env : AccountEnv) (prof : Profile) (self : RequestToNetwork)

def recover : Outcome String Address :=
  match self.signature with
  | some s => do
    let message ← env.serialize { self with signature := none }
    env.jwtLib.recover s message
  | none => fail "Request not signed"

def accountRequestFromSigner (counters : Counters) (reply : AccountReply) (record : Bool) : Outcome String Accounted := do
  let user ← self.recover env
  let credits ← self.method.getUserCredits env reply.chain reply.web reply.conn user self.point self.extraData
  let storedRequestsPerUser ← getCounter reply counters (totalCountKey self.method user)
  let newCreditsPerUser ← addU32 prof storedRequestsPerUser 1
  ensure (newCreditsPerUser ≤ credits % 2 ^ 32)
    s!"No credits for a request: acquired {credits} credits but used {storedRequestsPerUser}"
  if record then
    let counters ← setCounter reply counters (totalCountKey self.method user) newCreditsPerUser
    return ⟨1, counters, some ⟨"0x" ++ hexEncode user, self.method.asStr, self.requestPerUser⟩⟩
  else return ⟨1, counters, none⟩

end RequestToNetwork

/-! ### The keys of the counters -/

theorem hexEncode_injective : Function.Injective hexEncode := by
  intro bytes bytes' h
  have hdigit : ∀ a < 16, ∀ b < 16, Nat.digitChar a = Nat.digitChar b → a = b := by decide
  have hlist := String.ofList_injective h
  induction bytes generalizing bytes' with
  | nil =>
    cases bytes' with
    | nil => rfl
    | cons b bytes' => cases hlist
  | cons b bytes ih =>
    cases bytes' with
    | nil => cases hlist
    | cons b' bytes' =>
      simp only [List.flatMap_cons, List.cons_append, List.nil_append, List.cons.injEq] at hlist
      obtain ⟨hhigh, hlow, hrest⟩ := hlist
      have hb := b.toNat_lt
      have hb' := b'.toNat_lt
      have h1 := hdigit _ (by omega) _ (by omega) hhigh
      have h2 := hdigit _ (by omega) _ (by omega) hlow
      obtain rfl : b = b' := UInt8.toNat_inj.1 (by omega)
      rw [ih (congrArg String.ofList hrest) hrest]

theorem totalCountKey_inj {m m' : Method} {u u' : Address} :
    totalCountKey m u = totalCountKey m' u' ↔ m = m' ∧ u = u' := by
  constructor
  · intro h
    simp only [totalCountKey, String.append_assoc, String.append_right_inj] at h
    have hlist := congrArg String.toList h
    rw [String.toList_append, String.toList_append] at hlist
    cases m <;> cases m' <;> simp [Method.asStr] at hlist
    all_goals exact ⟨rfl, hexEncode_injective (String.toList_inj.1 hlist)⟩
  · rintro ⟨rfl, rfl⟩; rfl

/-! ### What an accepted request has passed -/

theorem addU32_eq_ok {ε : Type} {prof : Profile} {a b c : ℕ} : (addU32 prof a b : Outcome ε ℕ) = .ok c ↔
    a + b < 2 ^ 32 ∧ c = a + b ∨ 2 ^ 32 ≤ a + b ∧ prof = .release ∧ c = (a + b) % 2 ^ 32 := by
  unfold addU32
  split
  next h =>
    rw [Except.ok.injEq]
    omega
  next h =>
    cases prof with
    | debug =>
      simp only [crash, reduceCtorEq, false_and, and_false, or_false, false_iff]
      omega
    | release =>
      simp only [Except.ok.injEq, true_and]
      omega

/-- The signer, the credits and the counter of a request that passes all checks but the comparison. -/
structure Checked (env : AccountEnv) (counters : Counters) (request : RequestToNetwork) (reply : AccountReply)
    (user : Address) (credits stored : ℕ) : Prop where
  signer : request.recover env = .ok user
  credits : request.method.getUserCredits env reply.chain reply.web reply.conn user request.point request.extraData =
    .ok credits
  counter : getCounter reply counters (totalCountKey request.method user) = .ok stored
  writes : reply.setError = none

def Funded (prof : Profile) (credits stored : ℕ) : Prop :=
  ∃ new, (addU32 prof stored 1 : Outcome String ℕ) = .ok new ∧ new ≤ credits % 2 ^ 32

section account
variable {env : AccountEnv} {prof : Profile} {counters : Counters} {request : RequestToNetwork} {reply : AccountReply}
  {user : Address} {credits stored : ℕ} {acc : Accounted}

theorem getCounter_eq_ok {key : String} : getCounter reply counters key = .ok stored ↔
    reply.getError = none ∧ stored < 2 ^ 32 ∧ stored = (counters.get? key).getD 0 := by
  simp only [getCounter, bind_eq_ok, ensure_eq_ok, pure_eq_ok, Except.ok.injEq, Option.isNone_iff_eq_none,
    exists_const]
  constructor
  · rintro ⟨hget, hlt, rfl⟩; exact ⟨hget, hlt, rfl⟩
  · rintro ⟨hget, hlt, rfl⟩; exact ⟨hget, hlt, rfl⟩

theorem setCounter_eq_ok {key : String} {count : ℕ} {counters' : Counters} :
    setCounter reply counters key count = .ok counters' ↔
      reply.setError = none ∧ counters' = counters.insert key count := by
  simp only [setCounter, bind_eq_ok, ensure_eq_ok, pure_eq_ok, Except.ok.injEq, Option.isNone_iff_eq_none,
    exists_const]
  constructor
  · rintro ⟨hset, rfl⟩; exact ⟨hset, rfl⟩
  · rintro ⟨hset, rfl⟩; exact ⟨hset, rfl⟩

theorem account_eq_ok : request.accountRequestFromSigner env prof counters reply true = .ok acc ↔
    ∃ user credits stored new, Checked env counters request reply user credits stored ∧
      (addU32 prof stored 1 : Outcome String ℕ) = .ok new ∧ new ≤ credits % 2 ^ 32 ∧
      acc = ⟨1, counters.insert (totalCountKey request.method user) new,
        some ⟨"0x" ++ hexEncode user, request.method.asStr, request.requestPerUser⟩⟩ := by
  simp only [RequestToNetwork.accountRequestFromSigner, bind_eq_ok, ensure_eq_ok, if_true, setCounter_eq_ok,
    pure_eq_ok, Except.ok.injEq]
  constructor
  · rintro ⟨user, hsigner, credits, hcredits, stored, hcounter, new, hadd, -, hle, _, ⟨hwrites, rfl⟩, rfl⟩
    exact ⟨user, credits, stored, new, ⟨hsigner, hcredits, hcounter, hwrites⟩, hadd, hle, rfl⟩
  · rintro ⟨user, credits, stored, new, hchecked, hadd, hle, rfl⟩
    exact ⟨user, hchecked.signer, credits, hchecked.credits, stored, hchecked.counter, new, hadd, (), hle, _,
      ⟨hchecked.writes, rfl⟩, rfl⟩

theorem Checked.unique {user' : Address} {credits' stored' : ℕ}
    (h : Checked env counters request reply user credits stored)
    (h' : Checked env counters request reply user' credits' stored') :
    user = user' ∧ credits = credits' ∧ stored = stored' := by
  obtain rfl : user = user' := Except.ok.inj (h.signer.symm.trans h'.signer)
  exact ⟨rfl, Except.ok.inj (h.credits.symm.trans h'.credits), Except.ok.inj (h.counter.symm.trans h'.counter)⟩

theorem funded_iff : Funded prof credits stored ↔
    stored + 1 < 2 ^ 32 ∧ stored + 1 ≤ credits % 2 ^ 32 ∨
      2 ^ 32 ≤ stored + 1 ∧ prof = .release ∧ (stored + 1) % 2 ^ 32 ≤ credits % 2 ^ 32 := by
  simp only [Funded, addU32_eq_ok]
  constructor
  · rintro ⟨new, ⟨hlt, rfl⟩ | ⟨hge, hprof, rfl⟩, hle⟩
    · exact .inl ⟨hlt, hle⟩
    · exact .inr ⟨hge, hprof, hle⟩
  · rintro (⟨hlt, hle⟩ | ⟨hge, hprof, hle⟩)
    · exact ⟨_, .inl ⟨hlt, rfl⟩, hle⟩
    · exact ⟨_, .inr ⟨hge, hprof, rfl⟩, hle⟩

end account

/-! ### Requests of one user

The user with the key 2 signs a request without further data and a request for a web login, whose point is not
the output of its mask proof. -/

def Method.variantIndex : Method → ℕ
  | oprfSecp256k1 => 0
  | oprfBabyJubJub => 1
  | decryptBabyJubJub => 2
  | jwtprfSecp256k1 => 3

/-- `bincode` of a request without its signature. -/
def bincodeRequest (r : RequestToNetwork) : Bytes :=
  Bytes.toLe 4 r.method.variantIndex ++ Bytes.toLe 8 r.point.length ++ r.point ++ Bytes.toLe 4 r.epoch ++
    Bytes.toLe 16 r.requestPerUser ++ [0] ++
    match r.extraData with
    | none => [0]
    | some data => 1 :: Bytes.toLe 8 data.length ++ data

def userAddress : Address :=
  [0x2b, 0x5a, 0xd5, 0xc4, 0x79, 0x5c, 0x02, 0x65, 0x14, 0xf8, 0x31, 0x7c, 0x7a, 0x21, 0x5e, 0x21, 0x8d, 0xcc, 0xd6, 0xcf]

def oprfRequest : RequestToNetwork where
  method := .oprfSecp256k1
  point := [123]
  epoch := 123
  requestPerUser := 1
  signature := some
    [249, 48, 138, 1, 146, 88, 195, 16, 73, 52, 79, 133, 248, 157, 82, 41, 181, 49, 200, 69, 131, 111, 153, 176,
     134, 1, 241, 19, 188, 224, 54, 249, 29, 231, 40, 242, 186, 124, 165, 168, 7, 16, 250, 86, 252, 222, 54, 118,
     78, 154, 63, 5, 153, 173, 14, 240, 77, 70, 42, 118, 186, 211, 28, 231, 28]
  extraData := none

def zeroProof (c : CurveId) (hashed : c.Scalar) : DLEQProof (scalarCurve c) :=
  ⟨hashed, (1 : c.Scalar), hashed, (0 : c.Scalar), (0 : c.Scalar), 0, 0⟩

def loginData : FrontendData (scalarCurve .secp256k1) := ⟨enclaveToken "I", 0, zeroProof .secp256k1 (116 : ℕ)⟩

/-- `bincode` of a string, and of the data of a login: points and scalars are strings of hex digits. -/
def bincodeString (s : String) : Bytes := Bytes.toLe 8 (asBytes s).length ++ asBytes s

def bincodeFrontendData (fd : FrontendData (scalarCurve .secp256k1)) : Bytes :=
  let proof := fd.maskProof
  bincodeString fd.jwt ++ Bytes.toLe 8 fd.keyIdx ++
    ([proof.inputPoint, proof.pubkey, proof.outputPoint, proof.rPub, proof.rIn].flatMap fun p =>
      bincodeString (hexEncode (scalarBytes .secp256k1 p))) ++
    [proof.challenge, proof.response].flatMap fun s => bincodeString (hexEncode (CurveId.toBytes .secp256k1 s))

def loginRequest : RequestToNetwork where
  method := .jwtprfSecp256k1
  point := scalarBytes .secp256k1 (5 : ℕ)
  epoch := 123
  requestPerUser := 1
  signature := some
    [228, 147, 219, 241, 193, 13, 128, 243, 88, 30, 73, 4, 147, 11, 20, 4, 204, 108, 19, 144, 14, 224, 117, 132,
     116, 250, 148, 171, 232, 196, 205, 19, 56, 75, 112, 168, 222, 222, 26, 42, 88, 43, 179, 88, 162, 60, 224, 94,
     246, 163, 196, 201, 143, 112, 240, 248, 30, 118, 158, 254, 182, 26, 62, 59, 27]
  extraData := some (bincodeFrontendData loginData)

def userAccounts : AccountEnv where
  toRelayEnv := scalarRelay
  jwtLib := { enclaveLib with
    recover := fun sig message =>
      if some sig = oprfRequest.signature ∧ message = bincodeRequest oprfRequest then .ok userAddress
      else if some sig = loginRequest.signature ∧ message = bincodeRequest loginRequest then .ok userAddress
      else enclaveLib.recover sig message }
  serialize r := .ok (bincodeRequest r)
  deserializeConditions _ := fail "io error: unexpected end of file"
  deserializeFrontendData raw :=
    if raw = bincodeFrontendData loginData then .ok loginData else fail "io error: unexpected end of file"
  hexDecode s :=
    if s = enclaveMask "02" then .ok (scalarBytes .secp256k1 (1 : ℕ)) else fail "Invalid character"
  keccak256 _ := []

def balanceReply (balance : ℕ) : AccountReply where
  chain := ⟨fun _ => .ok balance, fun _ _ _ => .ok false⟩
  web := offline
  conn _ := fail "Response was of incompatible type"
  getError := none
  setError := none

theorem recover_of_signature {r : RequestToNetwork} {sig : Bytes} (hsig : r.signature = some sig)
    (h : userAccounts.jwtLib.recover sig (bincodeRequest r) = .ok userAddress) : r.recover userAccounts = .ok userAddress := by
  rw [RequestToNetwork.recover, hsig]
  exact h

theorem recover_oprfRequest : oprfRequest.recover userAccounts = .ok userAddress := by
  obtain ⟨sig, hsig⟩ : ∃ sig, oprfRequest.signature = some sig := ⟨_, rfl⟩
  apply recover_of_signature hsig
  simp only [userAccounts, hsig, and_self, if_true]

theorem recover_loginRequest : loginRequest.recover userAccounts = .ok userAddress := by
  obtain ⟨sig, hsig⟩ : ∃ sig, loginRequest.signature = some sig := ⟨_, rfl⟩
  have hne : some sig ≠ oprfRequest.signature := by
    rw [← hsig]
    decide
  apply recover_of_signature hsig
  simp only [userAccounts, hsig, hne, false_and, if_false, and_self, if_true]

theorem standardCredits_balanceReply {balance : ℕ} (h : balance < 2 ^ 128) (user : Address) :
    standardCredits (balanceReply balance).chain user = .ok balance := by
  simp only [standardCredits, balanceReply, mapErr, bind_ok, check_of h, pure_eq_ok]

theorem checked_oprfRequest {balance : ℕ} (hbalance : balance < 2 ^ 128) (counters : Counters) {stored : ℕ}
    (hstored : stored = (counters.get? (totalCountKey .oprfSecp256k1 userAddress)).getD 0) (hlt : stored < 2 ^ 32) :
    Checked userAccounts counters oprfRequest (balanceReply balance) userAddress balance stored where
  signer := recover_oprfRequest
  credits := standardCredits_balanceReply hbalance userAddress
  counter := getCounter_eq_ok.2 ⟨rfl, hlt, hstored⟩
  writes := rfl

/-! ### Runs -/

structure Call where
  request : RequestToNetwork
  reply : AccountReply

/-- The counters with the history: accepted requests and balances, the latest first. -/
structure Ledger where
  counters : Counters
  accepted : List (Address × RequestToNetwork)
  balances : List (Address × Method × ℕ)

namespace Ledger
variable (env : AccountEnv) (prof : Profile)

def init (counters : Counters) : Ledger := ⟨counters, [], []⟩

def seen (c : Call) : Option (Address × Method × ℕ) :=
  match c.request.recover env with
  | .ok user =>
    match c.request.method.getUserCredits env c.reply.chain c.reply.web c.reply.conn user c.request.point
        c.request.extraData with
    | .ok credits => some (user, c.request.method, credits)
    | .error _ => none
  | .error _ => none

def account (l : Ledger) (c : Call) : Ledger :=
  let balances := (seen env c).toList ++ l.balances
  match c.request.accountRequestFromSigner env prof l.counters c.reply true, c.request.recover env with
  | .ok acc, .ok user => ⟨acc.counters, (user, c.request) :: l.accepted, balances⟩
  | _, _ => { l with balances }

def Step (l : Ledger) (c : Call) (l' : Ledger) : Prop := l' = l.account env prof c

def Accepts (l : Ledger) (c : Call) : Prop :=
  ∃ acc, c.request.accountRequestFromSigner env prof l.counters c.reply true = .ok acc

def count (l : Ledger) (method : Method) (user : Address) : ℕ :=
  l.accepted.countP fun e => e.1 = user ∧ e.2.method = method

def largest (l : Ledger) (method : Method) (user : Address) : ℕ :=
  ((l.balances.filter fun b => b.1 = user ∧ b.2.1 = method).map fun b => b.2.2).foldr max 0

variable {env prof} {l l' : Ledger} {c : Call} {user : Address} {credits stored : ℕ} {method : Method}

theorem accepts_iff (h : Checked env l.counters c.request c.reply user credits stored) :
    l.Accepts env prof c ↔ Funded prof credits stored := by
  constructor
  · rintro ⟨acc, hacc⟩
    obtain ⟨user', credits', stored', new, h', hadd, hle, -⟩ := account_eq_ok.1 hacc
    obtain ⟨rfl, rfl, rfl⟩ := h.unique h'
    exact ⟨new, hadd, hle⟩
  · rintro ⟨new, hadd, hle⟩
    exact ⟨_, account_eq_ok.2 ⟨user, credits, stored, new, h, hadd, hle, rfl⟩⟩

theorem seen_of_checked (h : Checked env l.counters c.request c.reply user credits stored) :
    seen env c = some (user, c.request.method, credits) := by
  simp only [seen, h.signer, h.credits]

theorem account_of_funded {new : ℕ} (h : Checked env l.counters c.request c.reply user credits stored)
    (hadd : (addU32 prof stored 1 : Outcome String ℕ) = .ok new) (hle : new ≤ credits % 2 ^ 32) :
    l.account env prof c = ⟨l.counters.insert (totalCountKey c.request.method user) new, (user, c.request) :: l.accepted,
      (user, c.request.method, credits) :: l.balances⟩ := by
  have hok := account_eq_ok.2 ⟨user, credits, stored, new, h, hadd, hle, rfl⟩
  simp only [account, hok, h.signer, seen_of_checked h, Option.toList_some, List.singleton_append]

theorem account_of_not_accepts (h : ¬ l.Accepts env prof c) :
    l.account env prof c = { l with balances := (seen env c).toList ++ l.balances } := by
  unfold account
  split
  next acc _ hok _ => exact absurd ⟨acc, hok⟩ h
  next => rfl

theorem step_cases (h : Step env prof l c l') :
    (∃ user credits stored new, Checked env l.counters c.request c.reply user credits stored ∧
      (addU32 prof stored 1 : Outcome String ℕ) = .ok new ∧ new ≤ credits % 2 ^ 32 ∧
      l' = ⟨l.counters.insert (totalCountKey c.request.method user) new, (user, c.request) :: l.accepted,
        (user, c.request.method, credits) :: l.balances⟩) ∨
    (¬ l.Accepts env prof c ∧ l' = { l with balances := (seen env c).toList ++ l.balances }) := by
  rw [Step] at h
  by_cases hacc : l.Accepts env prof c
  · obtain ⟨acc, hok⟩ := hacc
    obtain ⟨user, credits, stored, new, hchecked, hadd, hle, -⟩ := account_eq_ok.1 hok
    exact .inl ⟨user, credits, stored, new, hchecked, hadd, hle, h.trans (account_of_funded hchecked hadd hle)⟩
  · exact .inr ⟨hacc, h.trans (account_of_not_accepts hacc)⟩

/-! ### The counter and the history -/

def counter (l : Ledger) (method : Method) (user : Address) : ℕ := (l.counters.get? (totalCountKey method user)).getD 0

theorem counter_of_checked (h : Checked env l.counters c.request c.reply user credits stored) :
    stored = l.counter c.request.method user ∧ stored < 2 ^ 32 := by
  obtain ⟨-, hlt, rfl⟩ := getCounter_eq_ok.1 h.counter
  exact ⟨rfl, hlt⟩

theorem counter_insert (l : Ledger) (m : Method) (u : Address) (new : ℕ)
    (accepted : List (Address × RequestToNetwork)) (balances : List (Address × Method × ℕ)) :
    counter ⟨l.counters.insert (totalCountKey m u) new, accepted, balances⟩ method user =
      if method = m ∧ user = u then new else l.counter method user := by
  simp only [counter, HMap.get?_insert, totalCountKey_inj]
  split <;> rfl

theorem count_cons (counters : Counters) (u : Address) (r : RequestToNetwork)
    (balances : List (Address × Method × ℕ)) :
    count ⟨counters, (u, r) :: l.accepted, balances⟩ method user =
      l.count method user + if method = r.method ∧ user = u then 1 else 0 := by
  simp only [count, List.countP_cons, decide_eq_true_eq]
  congr 1
  apply if_congr _ rfl rfl
  constructor <;> rintro ⟨rfl, rfl⟩ <;> exact ⟨rfl, rfl⟩

theorem largest_cons (counters : Counters) (accepted : List (Address × RequestToNetwork)) (u : Address) (m : Method)
    (credits : ℕ) : largest ⟨counters, accepted, (u, m, credits) :: l.balances⟩ method user =
      if method = m ∧ user = u then max credits (l.largest method user) else l.largest method user := by
  by_cases h : method = m ∧ user = u
  · obtain ⟨rfl, rfl⟩ := h
    simp [largest]
  · have h' : ¬ (u = user ∧ m = method) := fun ⟨hu, hm⟩ => h ⟨hm.symm, hu.symm⟩
    rw [if_neg h, largest, List.filter_cons_of_neg (by simpa using h')]
    rfl

theorem largest_le_append (l : Ledger) (more : List (Address × Method × ℕ)) :
    l.largest method user ≤ largest { l with balances := more ++ l.balances } method user := by
  induction more with
  | nil => exact le_rfl
  | cons b more ih =>
    obtain ⟨u, m, credits⟩ := b
    refine ih.trans ?_
    have hcons := @largest_cons { l with balances := more ++ l.balances } user method l.counters l.accepted u m credits
    rw [List.cons_append, hcons]
    split
    · exact le_max_right _ _
    · exact le_rfl

variable (env prof) in
/-- No counter wraps around: a checked call finds it below its maximum, or an overflow panics. -/
def NoWrap (l : Ledger) (c : Call) : Prop :=
  ∀ user credits stored, Checked env l.counters c.request c.reply user credits stored →
    stored + 1 < 2 ^ 32 ∨ prof = .debug

/-- As long as no counter wraps around, it is the number of accepted requests, and at most a balance. -/
structure Counts (l : Ledger) : Prop where
  eq : ∀ method user, l.counter method user = l.count method user
  le : ∀ method user, l.count method user ≤ l.largest method user

theorem counts_init : (init ∅).Counts := ⟨fun _ _ => rfl, fun _ _ => le_rfl⟩

theorem Counts.step (h : l.Counts) (hwrap : l.NoWrap env prof c) (hstep : Step env prof l c l') : l'.Counts := by
  rcases step_cases hstep with ⟨user, credits, stored, new, hchecked, hadd, hle, rfl⟩ | ⟨-, rfl⟩
  · obtain ⟨rfl, hlt⟩ := counter_of_checked hchecked
    obtain rfl : new = l.counter c.request.method user + 1 := by
      rcases addU32_eq_ok.1 hadd with ⟨-, rfl⟩ | ⟨hge, hrel, -⟩
      · rfl
      · rcases hwrap _ _ _ hchecked with h' | h'
        · omega
        · rw [h'] at hrel; cases hrel
    constructor
    · intro method u
      rw [counter_insert, count_cons, ← h.eq]
      by_cases hpair : method = c.request.method ∧ u = user
      · obtain ⟨rfl, rfl⟩ := hpair
        rw [if_pos ⟨rfl, rfl⟩, if_pos ⟨rfl, rfl⟩]
      · rw [if_neg hpair, if_neg hpair, Nat.add_zero]
    · intro method u
      rw [count_cons, largest_cons, ← h.eq]
      by_cases hpair : method = c.request.method ∧ u = user
      · obtain ⟨rfl, rfl⟩ := hpair
        rw [if_pos ⟨rfl, rfl⟩, if_pos ⟨rfl, rfl⟩]
        exact (hle.trans (Nat.mod_le _ _)).trans (le_max_left _ _)
      · rw [if_neg hpair, if_neg hpair, Nat.add_zero, h.eq]
        exact h.le method u
  · exact ⟨h.eq, fun method u => (h.le method u).trans (largest_le_append l _)⟩

def Fits (credits stored : ℕ) : Prop := credits < 2 ^ 32 ∨ stored < credits % 2 ^ 32

theorem funded_iff_lt_iff (hlt : stored < 2 ^ 32) (hwrap : stored + 1 < 2 ^ 32 ∨ prof = .debug) :
    (Funded prof credits stored ↔ stored < credits) ↔ Fits credits stored := by
  rw [funded_iff, Fits]
  rcases hwrap with hwrap | rfl
  · omega
  · simp only [reduceCtorEq, false_and, and_false, or_false]
    omega

variable (env prof) in
def ExactAt (l : Ledger) (c : Call) : Prop :=
  ∀ user credits stored, Checked env l.counters c.request c.reply user credits stored →
    (stored + 1 < 2 ^ 32 ∨ prof = .debug) ∧ Fits credits stored

/-- Along every run whose calls meet the condition, a checked request is accepted exactly if fewer requests were
accepted than there are credits, and never more are accepted than the largest balance that was seen. Where the
credits do not fit, the first fails. -/
theorem accounting_exact (env : AccountEnv) (prof : Profile) (l : Ledger)
    (hrun : Reach (Step env prof) (ExactAt env prof) (init ∅) l) :
    (∀ c user credits stored, Checked env l.counters c.request c.reply user credits stored →
      stored + 1 < 2 ^ 32 ∨ prof = .debug →
        ((l.Accepts env prof c ↔ l.count c.request.method user < credits) ↔ Fits credits stored)) ∧
      ∀ method user, l.count method user ≤ l.largest method user := by
  have hcounts : l.Counts := hrun.invariant counts_init fun h hexact hstep =>
    h.step (fun user credits stored hchecked => (hexact user credits stored hchecked).1) hstep
  refine ⟨?_, hcounts.le⟩
  intro c user credits stored hchecked hwrap
  obtain ⟨rfl, hlt⟩ := counter_of_checked hchecked
  rw [accepts_iff hchecked, ← hcounts.eq]
  exact funded_iff_lt_iff hlt hwrap

def oprfCall (balance : ℕ) : Call := ⟨oprfRequest, balanceReply balance⟩

theorem accounting_refuses_large_balance :
    ¬ ((init ∅).Accepts userAccounts .release (oprfCall (2 ^ 32)) ↔
      (init ∅).count (oprfCall (2 ^ 32)).request.method userAddress < 2 ^ 32) := by
  have hchecked : Checked userAccounts ∅ oprfRequest (balanceReply (2 ^ 32)) userAddress (2 ^ 32) 0 :=
    checked_oprfRequest (by norm_num) ∅ rfl (by norm_num)
  rw [accepts_iff (l := init ∅) (c := oprfCall (2 ^ 32)) hchecked, funded_iff]
  decide

theorem accounting_exact_after_one :
    let l := (init ∅).account userAccounts .release (oprfCall 3)
    (∀ c user credits stored, Checked userAccounts l.counters c.request c.reply user credits stored →
      stored + 1 < 2 ^ 32 ∨ Profile.release = .debug →
        ((l.Accepts userAccounts .release c ↔ l.count c.request.method user < credits) ↔ Fits credits stored)) ∧
      ∀ method user, l.count method user ≤ l.largest method user := by
  refine accounting_exact userAccounts .release _ (Reach.refl.tail (e := oprfCall 3) ?_ rfl)
  intro user credits stored h
  have hchecked : Checked userAccounts ∅ oprfRequest (balanceReply 3) userAddress 3 0 :=
    checked_oprfRequest (by norm_num) ∅ rfl (by norm_num)
  obtain ⟨-, rfl, rfl⟩ := h.unique hchecked
  exact ⟨.inl (by norm_num), .inl (by norm_num)⟩

/-! ### Replays -/

def Increasing (l : Ledger) : Prop :=
  l.accepted.Pairwise fun later earlier => earlier.1 = later.1 → earlier.2.method = later.2.method →
    earlier.2.requestPerUser < later.2.requestPerUser

variable (env) in
/-- The request is signed by the user, and the chain and the web can answer such that it has credits. -/
def Creditable (user : Address) (r : RequestToNetwork) : Prop :=
  r.recover env = .ok user ∧ ∃ chain web conn credits,
    r.method.getUserCredits env chain web conn user r.point r.extraData = .ok credits

variable (env) in
def Numbered (requests : List RequestToNetwork) : Prop :=
  requests.Pairwise fun earlier later => ∀ user, Creditable env user earlier → Creditable env user later →
    earlier.method = later.method → earlier.requestPerUser < later.requestPerUser

theorem accepted_of_run {counters : Counters} {calls : List Call} (h : Run (Step env prof) (init counters) calls l) :
    ∀ e ∈ l.accepted, Creditable env e.1 e.2 ∧ e.2 ∈ calls.map Call.request := by
  refine h.invariant_of_mem (I := fun l => ∀ e ∈ l.accepted, Creditable env e.1 e.2 ∧ e.2 ∈ calls.map Call.request)
    (fun e he => by cases he) fun hc hl hstep => ?_
  rcases step_cases hstep with ⟨user, credits, stored, new, hchecked, -, -, rfl⟩ | ⟨-, rfl⟩
  · intro e he
    rcases List.mem_cons.1 he with rfl | he
    · exact ⟨⟨hchecked.signer, _, _, _, credits, hchecked.credits⟩, List.mem_map_of_mem hc⟩
    · exact hl e he
  · exact hl

theorem increasing_of_numbered {counters : Counters} {calls : List Call} (hnumbered : Numbered env (calls.map Call.request))
    (h : Run (Step env prof) (init counters) calls l) : l.Increasing := by
  refine h.invariant_of_split List.Pairwise.nil fun pre c post mid mid' hsplit hpre hmid hstep => ?_
  rcases step_cases hstep with ⟨user, credits, stored, new, hchecked, -, -, rfl⟩ | ⟨-, rfl⟩
  · refine List.pairwise_cons.2 ⟨fun e he huser hmethod => ?_, hmid⟩
    obtain ⟨hcreditable, hmem⟩ := accepted_of_run hpre e he
    rw [hsplit, List.map_append, List.map_cons, Numbered, List.pairwise_append] at hnumbered
    refine hnumbered.2.2 e.2 hmem c.request List.mem_cons_self user ?_ ?_ hmethod
    · have huser : e.1 = user := huser
      rw [← huser]
      exact hcreditable
    · exact ⟨hchecked.signer, _, _, _, credits, hchecked.credits⟩
  · exact hmid

/-! The condition is exact: the number is not looked at, so any two requests of a user and method can be the only ones that
are accepted. -/

structure Paid (env : AccountEnv) (c : Call) (user : Address) (credits : ℕ) : Prop where
  signer : c.request.recover env = .ok user
  credits : c.request.method.getUserCredits env c.reply.chain c.reply.web c.reply.conn user c.request.point
    c.request.extraData = .ok credits
  reads : c.reply.getError = none
  writes : c.reply.setError = none

variable (prof) in
theorem Paid.account (h : Paid env c user credits) {count : ℕ} (hcount : l.counter c.request.method user = count)
    (hlt : count + 1 < 2 ^ 32) (hle : count + 1 ≤ credits % 2 ^ 32) :
    l.account env prof c = ⟨l.counters.insert (totalCountKey c.request.method user) (count + 1),
      (user, c.request) :: l.accepted, (user, c.request.method, credits) :: l.balances⟩ := by
  have hchecked : Checked env l.counters c.request c.reply user credits count :=
    ⟨h.signer, h.credits, getCounter_eq_ok.2 ⟨h.reads, by omega, hcount.symm⟩, h.writes⟩
  exact account_of_funded hchecked (addU32_eq_ok.2 (.inl ⟨hlt, rfl⟩)) hle

variable (prof) in
theorem accepted_two {c' : Call} (h : Paid env c user credits) (h' : Paid env c' user credits)
    (hmethod : c.request.method = c'.request.method) (hle : 2 ≤ credits % 2 ^ 32) :
    (((init ∅).account env prof c).account env prof c').accepted = [(user, c'.request), (user, c.request)] := by
  have hzero : (init ∅).counter c.request.method user = 0 := rfl
  have hfirst := h.account prof hzero (by norm_num) (by omega)
  have hcount : ((init ∅).account env prof c).counter c'.request.method user = 1 := by
    rw [hfirst, counter_insert, if_pos ⟨hmethod.symm, rfl⟩]
  rw [h'.account prof hcount (by norm_num) hle, hfirst]
  rfl

theorem Creditable.exists_paid {r : RequestToNetwork} (h : Creditable env user r) :
    ∃ c : Call, c.request = r ∧ Paid env c user 2 := by
  obtain ⟨hsigner, chain, web, conn, credits, hcredits⟩ := h
  obtain ⟨chain', hcredits'⟩ := Method.exists_getUserCredits_eq hcredits (by norm_num : 2 < 2 ^ 128)
  exact ⟨⟨r, ⟨chain', web, conn, none, none⟩⟩, rfl, hsigner, hcredits', rfl, rfl⟩

def unread (r : RequestToNetwork) : Call := ⟨r, { balanceReply 0 with getError := some "broken pipe" }⟩

theorem not_accepts_unread (l : Ledger) (r : RequestToNetwork) : ¬ l.Accepts env prof (unread r) := by
  rintro ⟨acc, hacc⟩
  obtain ⟨user, credits, stored, new, hchecked, -⟩ := account_eq_ok.1 hacc
  cases (getCounter_eq_ok.1 hchecked.counter).1

/-- The balances that were seen decide nothing. -/
def Same (l l' : Ledger) : Prop := l.counters = l'.counters ∧ l.accepted = l'.accepted

theorem Same.account (h : Same l l') (c : Call) : Same (l.account env prof c) (l'.account env prof c) := by
  obtain ⟨counters, accepted, balances⟩ := l
  obtain ⟨counters', accepted', balances'⟩ := l'
  obtain ⟨rfl, rfl⟩ : counters = counters' ∧ accepted = accepted' := h
  simp only [Ledger.account]
  split <;> exact ⟨rfl, rfl⟩

theorem exists_run_of_sublist {calls : List Call} {requests : List RequestToNetwork} {l₀ : Ledger}
    (hrun : Run (Step env prof) l₀ calls l') (hsame : Same l₀ l) (h : List.Sublist (calls.map Call.request) requests) :
    ∃ calls' l'', calls'.map Call.request = requests ∧ Run (Step env prof) l calls' l'' ∧ Same l' l'' := by
  generalize hmap : calls.map Call.request = some at h
  induction h generalizing calls l₀ l with
  | slnil =>
    obtain rfl := List.map_eq_nil_iff.1 hmap
    obtain rfl := hrun
    exact ⟨[], l, rfl, rfl, hsame⟩
  | cons r h ih =>
    have hskipped : Same l₀ (l.account env prof (unread r)) := by
      rw [account_of_not_accepts (not_accepts_unread l r)]
      exact hsame
    obtain ⟨calls', l'', hcalls', hrun', hsame'⟩ := ih hrun hskipped hmap
    exact ⟨unread r :: calls', l'', by rw [List.map_cons, hcalls']; rfl, ⟨_, rfl, hrun'⟩, hsame'⟩
  | cons_cons r h ih =>
    obtain ⟨c, calls, rfl, rfl, rfl⟩ := List.map_eq_cons_iff.1 hmap
    obtain ⟨mid, rfl, hrun⟩ := hrun
    obtain ⟨calls', l'', hcalls', hrun', hsame'⟩ := ih hrun (hsame.account c) rfl
    exact ⟨c :: calls', l'', by rw [List.map_cons, hcalls'], ⟨_, rfl, hrun'⟩, hsame'⟩

theorem numbered_of_increasing {requests : List RequestToNetwork}
    (h : ∀ calls l, calls.map Call.request = requests → Run (Step env prof) (init ∅) calls l → l.Increasing) :
    Numbered env requests := by
  refine List.pairwise_iff_forall_sublist.2 fun {earlier later} hsub user hearlier hlater hmethod => ?_
  obtain ⟨c, rfl, hc⟩ := hearlier.exists_paid
  obtain ⟨c', rfl, hc'⟩ := hlater.exists_paid
  have haccepted := accepted_two prof hc hc' hmethod (by norm_num)
  have htwo : Run (Step env prof) (init ∅) [c, c'] _ := ⟨_, rfl, _, rfl, rfl⟩
  obtain ⟨calls, l, hcalls, hrun, hsame⟩ := exists_run_of_sublist htwo (l := init ∅) ⟨rfl, rfl⟩ hsub
  have hincreasing := h calls l hcalls hrun
  rw [Increasing, ← hsame.2, haccepted] at hincreasing
  exact (List.pairwise_cons.1 hincreasing).1 _ (List.mem_singleton.2 rfl) rfl hmethod

/-- Whatever the chain, the web and Redis answer, the accepted numbers of every user and method increase along a run if the
submitted requests of the user and method that can have credits have increasing numbers. Of no other list of requests is
this true of all answers. -/
theorem replay_protection (env : AccountEnv) (prof : Profile) :
    (∀ counters calls l, Numbered env (calls.map Call.request) → Run (Step env prof) (init counters) calls l →
      l.Increasing) ∧
    ∀ requests, (∀ calls l, calls.map Call.request = requests → Run (Step env prof) (init ∅) calls l → l.Increasing) →
      Numbered env requests :=
  ⟨fun _ _ _ hnumbered hrun => increasing_of_numbered hnumbered hrun, fun _ h => numbered_of_increasing h⟩

def trustingAccounts : AccountEnv :=
  { userAccounts with jwtLib := { userAccounts.jwtLib with recover := fun _ _ => .ok userAddress } }

def numberedCall (n : ℕ) : Call := ⟨{ oprfRequest with requestPerUser := n }, balanceReply 3⟩

theorem paid_numberedCall (n : ℕ) : Paid trustingAccounts (numberedCall n) userAddress 3 :=
  ⟨rfl, standardCredits_balanceReply (by norm_num) userAddress, rfl, rfl⟩

theorem replay_protection_two : ∃ l, Run (Step trustingAccounts .release) (init ∅) [numberedCall 1, numberedCall 2] l ∧
    l.accepted = [(userAddress, (numberedCall 2).request), (userAddress, (numberedCall 1).request)] ∧ l.Increasing := by
  have hrun : Run (Step trustingAccounts .release) (init ∅) [numberedCall 1, numberedCall 2]
      (((init ∅).account trustingAccounts .release (numberedCall 1)).account trustingAccounts .release (numberedCall 2)) :=
    ⟨_, rfl, _, rfl, rfl⟩
  refine ⟨_, hrun, accepted_two _ (paid_numberedCall 1) (paid_numberedCall 2) rfl (by norm_num), ?_⟩
  refine (replay_protection trustingAccounts .release).1 ∅ _ _ ?_ hrun
  refine List.pairwise_pair.2 fun _ _ _ _ => ?_
  show 1 < 2
  exact Nat.one_lt_two

theorem replay_accepted : ¬ (((init ∅).account userAccounts .release (oprfCall 3)).account userAccounts .release
    (oprfCall 3)).Increasing := by
  have hpaid : Paid userAccounts (oprfCall 3) userAddress 3 :=
    ⟨recover_oprfRequest, standardCredits_balanceReply (by norm_num) userAddress, rfl, rfl⟩
  rw [Increasing, accepted_two _ hpaid hpaid rfl (by norm_num)]
  intro h
  exact absurd ((List.pairwise_cons.1 h).1 _ (List.mem_singleton.2 rfl) rfl rfl) (lt_irrefl _)

end Ledger

/-! ### A login with another point -/

theorem scalarBytes_zero (c : CurveId) : ∃ l, scalarBytes c 0 = l ++ [0] := by
  have h : Bytes.toBe 32 0 = List.replicate 31 0 ++ [0] := by decide
  rw [scalarBytes, ZMod.val_zero, h]
  cases c with
  | secp256k1 => exact ⟨2 :: List.replicate 31 0, rfl⟩
  | babyJubJub => exact ⟨0 :: (Bytes.toLe 8 32 ++ List.replicate 31 0), rfl⟩

theorem challengeHash_zero (c : CurveId) (a b d e : c.Scalar) :
    challengeHash (byteHashes c) (scalarCurve c) a b d e (0 : c.Scalar) = .ok (0 : c.Scalar) := by
  obtain ⟨l, hl⟩ := scalarBytes_zero c
  have hmapM : ∀ ps : List c.Scalar, (ps.mapM fun pt => unwrap ((scalarCurve c).encode pt) unwrapNone :
      Outcome Error _) = .ok (ps.map (scalarBytes c)) := fun ps => mapM_eq_ok_map fun p _ => rfl
  have hlast : ∀ m : Bytes, Bytes.ofBe ((byteHashes c).hash512 (m ++ [0])) = 0 := by
    intro m
    have h0 : Bytes.ofBe (Bytes.toBe 64 0) = 0 := by decide
    simpa [byteHashes] using h0
  have hflat : (([(1 : c.Scalar), a, b, d, e, 0]).map (scalarBytes c)).flatten =
      (([(1 : c.Scalar), a, b, d, e]).map (scalarBytes c)).flatten ++ l ++ [0] := by
    simp [hl]
  simp only [challengeHash, hmapM, bind_ok, hflat, hlast, Nat.zero_mod]
  exact congrArg Except.ok Nat.cast_zero

theorem verify_zeroProof (c : CurveId) (H : c.Scalar) :
    (zeroProof c H).verifyAndGetOutput (byteHashes c) (1 : c.Scalar) H = .ok H := by
  have hzero : ∀ p q : c.Scalar, (scalarCurve c).addSelf ((scalarCurve c).scalarMul p 0)
      ((scalarCurve c).scalarMul q 0) = (0 : c.Scalar) := by
    intro p q
    rw [Curve.scalarMul_zero, Curve.scalarMul_zero]
    exact add_zero (0 : c.Scalar)
  have hRA : (scalarCurve c).addSelf ((scalarCurve c).scalarMul (scalarCurve c).basePointOrGenerator (zeroProof c H).response)
    ((scalarCurve c).scalarMul (zeroProof c H).pubkey (zeroProof c H).challenge) = (0 : c.Scalar) := hzero _ _
  have hRB : (scalarCurve c).addSelf ((scalarCurve c).scalarMul (zeroProof c H).inputPoint (zeroProof c H).response)
    ((scalarCurve c).scalarMul (zeroProof c H).outputPoint (zeroProof c H).challenge) = (0 : c.Scalar) := hzero _ _
  simp only [DLEQProof.verifyAndGetOutput, hRA, hRB]
  rw [challengeHash_zero, bind_ok]
  exact if_pos ⟨rfl, rfl, rfl⟩

theorem sound_zeroProof (c : CurveId) (hashed : c.Scalar) : (zeroProof c hashed).Sound (byteHashes c) := by
  intro x P out h
  obtain ⟨hinput, hpubkey, hout⟩ := DLEQProof.verifyAndGetOutput_eq_ok h
  rw [scalarCurve_scalarMul_generator] at hpubkey
  rw [← hout, ← hinput, ← hpubkey]
  exact ((scalarCurve_scalarMul c hashed 1).trans (one_mul hashed)).symm

theorem verifyJwt_loginData (web : Web) (keyIdx : ℕ) (cache : Option RedisGet) :
    verifyJwt userAccounts.jwtLib web loginData.jwt keyIdx cache = .ok ("a,i,u,human-default-salt", enclaveMask "02") := by
  have hne : some enclaveSignature ≠ oprfRequest.signature ∧ some enclaveSignature ≠ loginRequest.signature := by decide
  have hrecover : userAccounts.jwtLib.recover enclaveSignature (asBytes "a,i,u,human-default-salt") =
      .ok enclaveAddress := by
    simp only [userAccounts, hne.1, hne.2, false_and, if_false, enclaveLib_recover]
  have hpayload : ∀ payload, JWTClaims.ofPayload userAccounts.jwtLib payload = JWTClaims.ofPayload enclaveLib payload :=
    fun _ => rfl
  have hbase64 : userAccounts.jwtLib.base64StandardNoPad = enclaveLib.base64StandardNoPad := rfl
  have hclaims := (hpayload (enclavePayload "I")).trans ofPayload_enclavePayload_I
  have hsig : userAccounts.jwtLib.base64StandardNoPad enclaveSignatureText = .ok enclaveSignature := by
    rw [hbase64, enclaveLib_signature]
  exact (enclaveToken_accepted (by decide) hclaims hsig hrecover rfl).2 web keyIdx cache

theorem login_proven (conn : RedisGet) : MaskProven userAccounts offline conn loginRequest.extraData loginData
    "a,i,u,human-default-salt" (1 : CurveId.Scalar .secp256k1) ((116 : ℕ) : CurveId.Scalar .secp256k1) where
  data := ⟨_, rfl, by simp only [userAccounts, if_true]⟩
  token := by
    refine ⟨enclaveMask "02", scalarBytes .secp256k1 1, verifyJwtRetrying_of_ok (verifyJwt_loginData _ _ _), ?_,
      scalarCurve_fromEncoded_bytes _ 1⟩
    simp only [userAccounts, if_true, Nat.cast_one]
  hash := hashToCurve_byteHashes .secp256k1 (b := 116) (by decide)
  proof := verify_zeroProof .secp256k1 _

theorem checked_loginRequest : Checked userAccounts ∅ loginRequest (balanceReply 3) userAddress 3 0 where
  signer := recover_loginRequest
  credits := jwtPrfCredits_eq_ok.2
    ⟨standardCredits_balanceReply (by norm_num) userAddress, _, _, _, _, login_proven (balanceReply 3).conn⟩
  counter := getCounter_eq_ok.2 ⟨rfl, by norm_num, rfl⟩
  writes := rfl

theorem loginRequest_accepted :
    ∃ acc, loginRequest.accountRequestFromSigner userAccounts .release ∅ (balanceReply 3) true = .ok acc :=
  ⟨_, account_eq_ok.2 ⟨_, _, _, 1, checked_loginRequest, rfl, by norm_num, rfl⟩⟩

theorem loginRequest_not_masked : ¬ MaskedInput (scalarCurve .secp256k1) (1 : CurveId.Scalar .secp256k1)
    ((116 : ℕ) : CurveId.Scalar .secp256k1) loginRequest.point := by
  rintro ⟨r, hr, henc⟩
  rw [scalarCurve_scalarMul_generator] at hr
  rw [hr, Curve.scalarMul_one, scalarCurve_encode] at henc
  have heq := scalarBytes_injective .secp256k1 (Option.some.inj henc)
  exact absurd ((CurveId.natCast_inj .secp256k1 (by decide) (by decide)).1 heq) (by decide)

/-! ### The point of a web login -/

/-- The point of an accepted request for a web login is the masked input of its token exactly if it is the
output of the mask proof sent along, which nothing checks: with another point the request is accepted as well. -/
theorem account_jwtprf_point_iff (env : AccountEnv) [(env.curve .secp256k1).PrimeOrder] (prof : Profile)
    (request : RequestToNetwork) (counters : Counters) (reply : AccountReply) (record : Bool) (acc : Accounted)
    (hmethod : request.method = .jwtprfSecp256k1)
    (hok : request.accountRequestFromSigner env prof counters reply record = .ok acc) :
    ∃ fd uniqueStr mask hashed, MaskProven env reply.web reply.conn request.extraData fd uniqueStr mask hashed ∧
      (fd.maskProof.Sound env.hs →
        (MaskedInput (env.curve .secp256k1) mask hashed request.point ↔
          (env.curve .secp256k1).encode fd.maskProof.outputPoint = some request.point)) ∧
      ∀ point signature, ({ request with point, signature } : RequestToNetwork).recover env = request.recover env →
        ({ request with point, signature } : RequestToNetwork).accountRequestFromSigner env prof counters reply
          record = .ok acc := by
  simp only [RequestToNetwork.accountRequestFromSigner, hmethod, Method.getUserCredits] at hok ⊢
  obtain ⟨user, hsigner, hrest⟩ := bind_eq_ok.1 hok
  obtain ⟨credits, hcredits, -⟩ := bind_eq_ok.1 hrest
  obtain ⟨-, fd, uniqueStr, mask, hashed, hproven⟩ := jwtPrfCredits_eq_ok.1 hcredits
  refine ⟨fd, uniqueStr, mask, hashed, hproven, fun hsound => maskedInput_iff hsound hproven.proof _, ?_⟩
  intro point signature hrecover
  rw [hrecover]
  exact hok

/-- A request for the point 5 is accepted with a mask proof for the point 116. -/
theorem account_jwtprf_other_point :
    (∃ acc, loginRequest.accountRequestFromSigner userAccounts .release ∅ (balanceReply 3) true = .ok acc) ∧
      MaskProven userAccounts offline (balanceReply 3).conn loginRequest.extraData loginData
        "a,i,u,human-default-salt" (1 : CurveId.Scalar .secp256k1) ((116 : ℕ) : CurveId.Scalar .secp256k1) ∧
      loginData.maskProof.Sound userAccounts.hs ∧
      ¬ MaskedInput (scalarCurve .secp256k1) (1 : CurveId.Scalar .secp256k1)
        ((116 : ℕ) : CurveId.Scalar .secp256k1) loginRequest.point :=
  ⟨loginRequest_accepted, login_proven _, sound_zeroProof _ _, loginRequest_not_masked⟩

theorem account_jwtprf_point_login : ∃ acc fd uniqueStr mask hashed,
    MaskProven userAccounts offline (balanceReply 3).conn loginRequest.extraData fd uniqueStr mask hashed ∧
      (fd.maskProof.Sound userAccounts.hs →
        (MaskedInput (userAccounts.curve .secp256k1) mask hashed loginRequest.point ↔
          (userAccounts.curve .secp256k1).encode fd.maskProof.outputPoint = some loginRequest.point)) ∧
      ∀ point signature,
        ({ loginRequest with point, signature } : RequestToNetwork).recover userAccounts =
          loginRequest.recover userAccounts →
        ({ loginRequest with point, signature } : RequestToNetwork).accountRequestFromSigner userAccounts .release ∅
          (balanceReply 3) true = .ok acc := by
  have hprime : (userAccounts.curve .secp256k1).PrimeOrder :=
    inferInstanceAs (scalarCurve .secp256k1).PrimeOrder
  obtain ⟨acc, hacc⟩ := loginRequest_accepted
  exact ⟨acc, account_jwtprf_point_iff userAccounts .release loginRequest ∅ (balanceReply 3) true acc rfl hacc⟩

end HumanNetwork
