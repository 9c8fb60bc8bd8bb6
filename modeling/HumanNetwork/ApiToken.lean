import HumanNetwork.Lib.Threads
import HumanNetwork.Relay

/-!
# The one-time token (`fetch_key_share`)

A call looks at the flag of the token, compares the token, asks the actor for the shares and sets the flag when it has
them, each under a lock of its own or after an await. A resharing that ends with the node among the new provers resets the
flag. Between two resets more than one call returns the shares exactly if one that has passed the check of the flag is
overtaken by another: `fetch_key_share_once_iff`.
-/

namespace HumanNetwork

/-! ### Calls -/

structure ApiToken where
  token : String
  used : Bool

inductive FetchResponse where
  | keyshare (shares : HMap String String)
  | error (requestId message : String)
  | rpcError (code : ℕ) (message data : String)

/-- The lock or await that a call has come to, with what it has read. -/
inductive FetchCall where
  | idle
  | called (apiToken : String)
  | unused (apiToken : String)
  | valid
  | waiting
  | received (shares : HMap String String)
  | dropped
  | returned (response : FetchResponse)
  | panicked

/-- What becomes of the message to the actor; its reply port is not used, so nothing is waited for. -/
inductive SendOutcome where
  | noActor
  | failed (e : String)
  | sent

/-- `handle` is the actor: a prover answers with the shares that it reads from its database, any other node drops the
channel. -/
inductive FetchEvent where
  | call (apiToken : String)
  | checkUsed
  | checkToken
  | send (outcome : SendOutcome)
  | handle (stored : Option (HMap String Bytes))
  | mark
  | giveUp

/-- A round 3 that is done: whether it was one of a resharing, and whether the node is among the new provers. -/
structure Round3 where
  isResharing : Bool
  isNewProver : Bool
deriving DecidableEq

/-- The calls of `fetch_key_share`, and `handle_round3` as far as it touches the token. -/
def fetchKeyShare : Threads ApiToken FetchCall FetchEvent Round3 where
  act
    | token, .idle, .call apiToken => some (token, .called apiToken)
    | token, .called apiToken, .checkUsed =>
      some (token, if token.used then .returned (.error "" "API token has already been used") else .unused apiToken)
    | token, .unused apiToken, .checkToken =>
      some (token, if token.token ≠ apiToken then .returned (.error "" "Invalid API token") else .valid)
    | token, .valid, .send .noActor => some (token, .panicked)
    | token, .valid, .send (.failed e) => some (token, .returned (.rpcError 1 e ""))
    | token, .valid, .send .sent => some (token, .waiting)
    | token, .waiting, .handle (some shares) => some (token, .received (shares.mapVal fun _ => hexEncode))
    | token, .waiting, .handle none => some (token, .dropped)
    | token, .received shares, .mark => some ({ token with used := true }, .returned (.keyshare shares))
    | token, .dropped, .giveUp =>
      some (token, .returned (.error "" "Something went wrong while processing the request"))
    | _, _, _ => none
  env token round := if round.isResharing && round.isNewProver then { token with used := false } else token

namespace FetchKeyShare

abbrev Event := Threads.Event FetchEvent Round3

abbrev Config := Threads.Config ApiToken FetchCall

def initial (token : String) : Config := ⟨⟨token, false⟩, fun _ => .idle⟩

def Returns : Event → Bool
  | .act _ .mark => true
  | _ => false

def Resets : Event → Bool
  | .env round => round.isResharing && round.isNewProver
  | _ => false

def OncePerReset (es : List Event) : Prop :=
  ∀ part, part <:+: es → (∀ e ∈ part, Resets e = false) → part.countP Returns ≤ 1

/-- A call returns the shares although another one has returned them since its check of the flag, and no reset came in
between. -/
def Overtaken (es : List Event) : Prop :=
  ∃ (i j : ℕ) (a b c d : List Event),
    es = a ++ .act i .checkUsed :: b ++ .act j .mark :: c ++ .act i .mark :: d ∧ ∀ e ∈ c, Resets e = false

def Passed : FetchCall → Prop
  | .unused _ | .valid | .waiting | .received _ => True
  | _ => False

/-! ### One step -/

/-- A call sets the flag when it has received the shares. Any other step leaves the token alone, and only the check of a
flag that is not set gets a call past the check. -/
theorem act_cases {token token' : ApiToken} {p p' : FetchCall} {a : FetchEvent}
    (h : fetchKeyShare.act token p a = some (token', p')) :
    (a = .mark ∧ Passed p ∧ token'.used = true ∧ ¬ Passed p') ∨
      (a ≠ .mark ∧ token' = token ∧ (¬ Passed p → Passed p' → a = .checkUsed ∧ token.used = false)) := by
  simp only [fetchKeyShare] at h
  split at h
  case h_2 apiToken =>
    obtain ⟨rfl, rfl⟩ := Prod.mk.inj (Option.some.inj h)
    refine .inr ⟨by simp, rfl, fun _ hp' => ⟨rfl, ?_⟩⟩
    by_contra hused
    rw [if_pos (by simpa using hused)] at hp'
    exact hp'
  case h_9 shares =>
    obtain ⟨rfl, rfl⟩ := Prod.mk.inj (Option.some.inj h)
    exact .inl ⟨rfl, trivial, rfl, id⟩
  case h_11 => cases h
  all_goals
    obtain ⟨rfl, rfl⟩ := Prod.mk.inj (Option.some.inj h)
    refine .inr ⟨by simp, rfl, fun hp hp' => ?_⟩
    first
      | exact absurd trivial hp
      | exact hp'.elim

variable {c c' c'' : Config} {e : Event} {es : List Event} {i j : ℕ}

theorem used_of_step (h : fetchKeyShare.Step c e c') (he : Resets e = false) (hused : c.shared.used = true) :
    c'.shared.used = true := by
  cases h with
  | @env round =>
    show (if _ then _ else _ : ApiToken).used = true
    rwa [if_neg (by simpa [Resets] using he)]
  | act h =>
    rcases act_cases h with ⟨-, -, hmark, -⟩ | ⟨-, rfl, -⟩
    · exact hmark
    · exact hused

theorem mark_of_step (h : fetchKeyShare.Step c (.act i .mark) c') :
    Passed (c.pc i) ∧ c'.shared.used = true ∧ ¬ Passed (c'.pc i) ∧ ∀ j ≠ i, c'.pc j = c.pc j := by
  cases h with
  | @act _ _ _ p h =>
    rcases act_cases h with ⟨-, hp, hused, hp'⟩ | ⟨hne, -⟩
    · refine ⟨hp, hused, ?_, fun j hj => Function.update_of_ne hj _ _⟩
      dsimp only
      rwa [Function.update_self]
    · exact absurd rfl hne

/-! ### Runs -/

theorem used_of_run (h : Run fetchKeyShare.Step c es c') (hes : ∀ e ∈ es, Resets e = false) (hused : c.shared.used = true) :
    c'.shared.used = true :=
  h.invariant_of_mem (I := fun c => c.shared.used = true) hused fun he hused hstep => used_of_step hstep (hes _ he) hused

theorem not_passed_of_run (h : Run fetchKeyShare.Step c es c') (hes : ∀ e ∈ es, Resets e = false)
    (hused : c.shared.used = true) (hi : ¬ Passed (c.pc i)) : ¬ Passed (c'.pc i) := by
  intro hpassed
  obtain ⟨pre, a, post, mid, token, p, rfl, hpre, hmid, hact, hp⟩ := Threads.exists_enter h hi hpassed
  have hmidUsed := used_of_run hpre (fun e he => hes e (List.mem_append_left _ he)) hused
  rcases act_cases hact with ⟨-, -, -, hno⟩ | ⟨-, -, hcheck⟩
  · exact hno hp
  · rw [(hcheck hmid hp).2] at hmidUsed
    cases hmidUsed

theorem checkUsed_of_passed {token : String} (h : Run fetchKeyShare.Step (initial token) es c) (hi : Passed (c.pc i)) :
    ∃ a b, es = a ++ .act i .checkUsed :: b := by
  obtain ⟨pre, a, post, mid, token, p, rfl, -, hmid, hact, hp⟩ := Threads.exists_enter (P := Passed) h id hi
  rcases act_cases hact with ⟨-, -, -, hno⟩ | ⟨-, -, hcheck⟩
  · exact absurd hp hno
  · obtain ⟨rfl, -⟩ := hcheck hmid hp
    exact ⟨pre, post, rfl⟩

/-- Of two calls that return the shares without a reset in between, the second had passed the check before the first
returned. -/
theorem overtaken_of_returns {token : String} {a b d : List Event}
    (h : Run fetchKeyShare.Step (initial token) (a ++ .act j .mark :: b ++ .act i .mark :: d) c)
    (hb : ∀ e ∈ b, Resets e = false) : ∃ a₁ a₂, a = a₁ ++ .act i .checkUsed :: a₂ := by
  obtain ⟨c₃, hrun, c₄, hsecond, -⟩ := Run.append_iff.1 h
  obtain ⟨c₁, hrun, c₂, hfirst, hbetween⟩ := Run.append_iff.1 hrun
  obtain ⟨-, hused, hreturned, hframe⟩ := mark_of_step hfirst
  have hpassed : Passed (c₂.pc i) := by
    by_contra hno
    exact not_passed_of_run hbetween hb hused hno (mark_of_step hsecond).1
  have hij : i ≠ j := by
    rintro rfl
    exact hreturned hpassed
  rw [hframe i hij] at hpassed
  exact checkUsed_of_passed hrun hpassed

theorem returns_iff : Returns e = true ↔ ∃ i, e = .act i .mark := by
  constructor
  · intro h
    unfold Returns at h
    split at h
    next i => exact ⟨i, rfl⟩
    next => cases h
  · rintro ⟨i, rfl⟩
    rfl

theorem exists_returns_of_countP {part : List Event} (h : 1 < part.countP Returns) :
    ∃ (i j : ℕ) (a b d : List Event), part = a ++ .act j .mark :: b ++ .act i .mark :: d := by
  induction part with
  | nil => cases h
  | cons e part ih =>
    by_cases he : Returns e = true
    · rw [List.countP_cons_of_pos he] at h
      obtain ⟨e', hmem, he'⟩ := List.countP_pos_iff.1 (Nat.lt_of_succ_lt_succ h)
      obtain ⟨b, d, rfl⟩ := List.append_of_mem hmem
      obtain ⟨j, rfl⟩ := returns_iff.1 he
      obtain ⟨i, rfl⟩ := returns_iff.1 he'
      exact ⟨i, j, [], b, d, rfl⟩
    · rw [List.countP_cons_of_neg he] at h
      obtain ⟨i, j, a, b, d, rfl⟩ := ih h
      exact ⟨i, j, e :: a, b, d, rfl⟩

end FetchKeyShare

open FetchKeyShare

/-- For every interleaving of the calls and of the ends of key generations and resharings: between two resets at most one
call returns the shares, if and only if no call that has passed the check of the flag is overtaken by another. -/
theorem fetch_key_share_once_iff (token : String) (es : List FetchKeyShare.Event) (c : FetchKeyShare.Config)
    (h : Run fetchKeyShare.Step (initial token) es c) : OncePerReset es ↔ ¬ Overtaken es := by
  constructor
  · rintro honce ⟨i, j, a, b, mid, d, rfl, hmid⟩
    have hpart : ∀ e ∈ .act j .mark :: (mid ++ [.act i .mark]), Resets e = false := by
      intro e he
      rcases List.mem_cons.1 he with rfl | he
      · rfl
      rcases List.mem_append.1 he with he | he
      · exact hmid e he
      · rw [List.mem_singleton.1 he]
        rfl
    have hcount := honce _ ⟨a ++ .act i .checkUsed :: b, d, by simp⟩ hpart
    rw [List.countP_cons_of_pos rfl, List.countP_append, List.countP_singleton,
      if_pos (returns_iff.2 ⟨i, rfl⟩)] at hcount
    omega
  · intro hno part hsub hpart
    by_contra hcount
    obtain ⟨i, j, a, b, d, rfl⟩ := exists_returns_of_countP (not_le.1 hcount)
    obtain ⟨pre, post, rfl⟩ := hsub
    have hrun : Run fetchKeyShare.Step (initial token) ((pre ++ a) ++ .act j .mark :: b ++ .act i .mark :: (d ++ post)) c := by
      simpa using h
    obtain ⟨a₁, a₂, ha⟩ := overtaken_of_returns hrun fun e he => hpart e (by simp [he])
    refine hno ⟨i, j, a₁, a₂, b, d ++ post, ?_, fun e he => hpart e (by simp [he])⟩
    simp [← ha]

/-! ### Two calls -/

def storedShare : HMap String Bytes := HMap.insert ∅ "OPRFSecp256k1" [7]

def hexShare : HMap String String := HMap.insert ∅ "OPRFSecp256k1" "07"

def callEvents (i : ℕ) : List FetchKeyShare.Event :=
  [.act i (.call "token"), .act i .checkUsed, .act i .checkToken, .act i (.send .sent), .act i (.handle (some storedShare))]

def oneAfterTheOther : List FetchKeyShare.Event :=
  callEvents 0 ++ [.act 0 .mark, .act 1 (.call "token"), .act 1 .checkUsed]

theorem not_overtaken_oneAfterTheOther : ¬ Overtaken oneAfterTheOther := by
  rintro ⟨i, j, a, b, mid, d, heq, -⟩
  have hcount := congrArg (List.countP Returns) heq
  simp only [List.countP_append, List.countP_cons_of_pos (returns_iff.2 ⟨_, rfl⟩)] at hcount
  have hone : oneAfterTheOther.countP Returns = 1 := by decide
  omega

theorem fetch_key_share_once_sequential : ∃ c, Run fetchKeyShare.Step (initial "token") oneAfterTheOther c ∧
    c.pc 0 = .returned (.keyshare hexShare) ∧ c.pc 1 = .returned (.error "" "API token has already been used") ∧
    OncePerReset oneAfterTheOther := by
  have hrun : Run fetchKeyShare.Step (initial "token") oneAfterTheOther _ :=
    ⟨_, .act rfl, _, .act rfl, _, .act rfl, _, .act rfl, _, .act rfl, _, .act rfl, _, .act rfl, _, .act rfl, rfl⟩
  refine ⟨_, hrun, rfl, rfl, ?_⟩
  exact (fetch_key_share_once_iff "token" oneAfterTheOther _ hrun).2 not_overtaken_oneAfterTheOther

/-- Both calls have read the flag before either sets it. -/
def overlapping : List FetchKeyShare.Event := callEvents 0 ++ callEvents 1 ++ [.act 0 .mark, .act 1 .mark]

theorem fetch_key_share_twice : ∃ c, Run fetchKeyShare.Step (initial "token") overlapping c ∧
    c.pc 0 = .returned (.keyshare hexShare) ∧ c.pc 1 = .returned (.keyshare hexShare) ∧ ¬ OncePerReset overlapping := by
  refine ⟨_, ⟨_, .act rfl, _, .act rfl, _, .act rfl, _, .act rfl, _, .act rfl, _, .act rfl, _, .act rfl, _, .act rfl, _,
    .act rfl, _, .act rfl, _, .act rfl, _, .act rfl, rfl⟩, rfl, rfl, fun honce => ?_⟩
  have hcount := honce overlapping List.infix_rfl (by decide)
  exact absurd hcount (by decide)

end HumanNetwork
