import HumanNetwork.Lib.Threads
import Mathlib.Algebra.Group.Nat.Defs

/-!
# The rate limiter of the signer (`rate_limit`)

A call creates the counter of its identifier with an expiry if there is none, and then increments it, in two commands
with a lock each. If the counter expires in between, the increment creates it again, and this time without an expiry. A
counter that has one is gone after the interval (`Recovers`), and every counter has one exactly if every increment finds
the counter that it increments: `rate_limit_recovers_iff`. A counter without one stays for good: `locked_of_run`.
-/

namespace HumanNetwork

/-! ### Redis -/

structure RedisKey where
  value : ℕ
  expiry : Option ℕ
deriving DecidableEq

/-- The counter of one identifier. Times are in milliseconds. -/
structure RateStore where
  now : ℕ
  key : Option RedisKey
deriving DecidableEq

namespace RateStore

/-- A key is there until its time is over. -/
def advance (s : RateStore) (d : ℕ) : RateStore where
  now := s.now + d
  key := s.key.filter fun k => k.expiry.all fun e => s.now + d ≤ e

/-- `SET key 0 NX EX interval`: Redis refuses an interval of zero. -/
def setNxEx (s : RateStore) (interval : ℕ) : Option RateStore :=
  if interval = 0 then none
  else match s.key with
    | some _ => some s
    | none => some { s with key := some ⟨0, some (s.now + 1000 * interval)⟩ }

/-- `INCR key`: a key that is not there counts as zero, and the expiry stays as it is. -/
def incr (s : RateStore) : Option (ℕ × RateStore) :=
  match s.key with
  | none => some (1, { s with key := some ⟨1, none⟩ })
  | some k =>
    if k.value + 1 < 2 ^ 63 then some (k.value + 1, { s with key := some { k with value := k.value + 1 } }) else none

end RateStore

/-! ### Calls -/

/-- `RATE_LIMIT_TIME_INTERVAL`, in seconds, and `RATE_LIMIT_NUM_REQUESTS`. -/
structure RateConfig where
  interval : ℕ
  numRequests : ℕ

/-- What the connection says to a command: a command that fails may have been executed all the same. -/
inductive CommandReply where
  | ok
  | failed (executed : Bool) (e : String)
deriving DecidableEq

def CommandReply.executed : CommandReply → Bool
  | ok => true
  | failed executed _ => executed

inductive RateCall where
  | idle
  | called
  | created
  | returned (result : Except String Unit)
  | panicked

inductive RateEvent where
  | call
  | set (reply : CommandReply)
  | incr (reply : CommandReply)
deriving DecidableEq

def RateConfig.answer (cfg : RateConfig) (count : ℕ) : Except String Unit :=
  if count > cfg.numRequests then .error "Rate limit exceeded" else .ok ()

/-- The calls of `rate_limit` for one identifier; the environment is the clock. -/
def rateLimit (cfg : RateConfig) : Threads RateStore RateCall RateEvent ℕ where
  act
    | s, .idle, .call => some (s, .called)
    | s, .called, .set reply =>
      match s.setNxEx cfg.interval, reply with
      | some s', .ok => some (s', .created)
      -- `execute` unwraps
      | some s', .failed executed _ => some (if executed then s' else s, .panicked)
      | none, _ => some (s, .panicked)
    | s, .created, .incr reply =>
      match s.incr, reply with
      | some (count, s'), .ok => some (s', .returned (cfg.answer count))
      | some (_, s'), .failed executed e => some (if executed then s' else s, .returned (.error e))
      | none, _ => some (s, .returned (.error "increment or decrement would overflow"))
    | _, _, _ => none
  env := RateStore.advance

namespace RateLimit

abbrev Event := Threads.Event RateEvent ℕ

abbrev Config := Threads.Config RateStore RateCall

def initial (now : ℕ) : Config := ⟨⟨now, none⟩, fun _ => .idle⟩

/-- The key of the identifier, if there is one, expires within the interval. -/
def Expires (cfg : RateConfig) (s : RateStore) : Prop :=
  ∀ k, s.key = some k → ∃ e, k.expiry = some e ∧ e ≤ s.now + 1000 * cfg.interval

def AcceptsAgain (cfg : RateConfig) (c : Config) : Prop :=
  ∀ d i, 1000 * cfg.interval < d → c.pc i = .idle → 0 < cfg.interval →
    ∃ c', Run (rateLimit cfg).Step c [.env d, .act i .call, .act i (.set .ok), .act i (.incr .ok)] c' ∧
      c'.pc i = .returned (cfg.answer 1)

structure Recovers (cfg : RateConfig) (c : Config) : Prop where
  expires : Expires cfg c.shared
  acceptsAgain : AcceptsAgain cfg c

variable {cfg : RateConfig} {s s' : RateStore} {c c' : Config} {es : List Event} {i d : ℕ}

/-! ### One command -/

theorem Expires.advance (h : Expires cfg s) (d : ℕ) : Expires cfg (s.advance d) := by
  intro k hk
  obtain ⟨hkey, -⟩ := Option.filter_eq_some_iff.1 hk
  obtain ⟨e, he, hle⟩ := h k hkey
  refine ⟨e, he, ?_⟩
  show e ≤ s.now + d + 1000 * cfg.interval
  omega

theorem Expires.setNxEx (h : Expires cfg s) (hset : s.setNxEx cfg.interval = some s') : Expires cfg s' := by
  unfold RateStore.setNxEx at hset
  split at hset
  · cases hset
  split at hset
  · obtain rfl := Option.some.inj hset
    exact h
  · obtain rfl := Option.some.inj hset
    intro k hk
    obtain rfl := Option.some.inj hk
    exact ⟨_, rfl, Nat.le_refl _⟩

theorem Expires.incr {count : ℕ} (h : Expires cfg s) (hkey : s.key ≠ none) (hincr : s.incr = some (count, s')) :
    Expires cfg s' := by
  unfold RateStore.incr at hincr
  split at hincr
  next hnone => exact absurd hnone hkey
  next k hk =>
    split at hincr
    · obtain ⟨-, rfl⟩ := Prod.mk.inj (Option.some.inj hincr)
      intro k' hk'
      obtain rfl := Option.some.inj hk'
      exact h k hk
    · cases hincr

theorem Expires.key_advance (h : Expires cfg s) (hd : 1000 * cfg.interval < d) : (s.advance d).key = none := by
  refine Option.filter_eq_none_iff.2 fun k hk => ?_
  obtain ⟨e, he, hle⟩ := h k hk
  simp only [he, Option.all_some, decide_eq_true_eq]
  omega

/-- A step of a call creates the key if there is none, or leaves it alone, or increments it; only the last accepts the
call. -/
theorem act_cases {p p' : RateCall} {a : RateEvent} (h : (rateLimit cfg).act s p a = some (s', p')) :
    ((s' = s ∨ s.setNxEx cfg.interval = some s') ∧ p' ≠ .returned (.ok ())) ∨
      ∃ reply count, a = .incr reply ∧ reply.executed = true ∧ s.incr = some (count, s') ∧
        (p' = .returned (.ok ()) → count ≤ cfg.numRequests) := by
  simp only [rateLimit] at h
  split at h
  next =>
    obtain ⟨rfl, rfl⟩ := Prod.mk.inj (Option.some.inj h)
    exact .inl ⟨.inl rfl, by simp⟩
  next reply =>
    split at h
    next s₁ hset =>
      obtain ⟨rfl, rfl⟩ := Prod.mk.inj (Option.some.inj h)
      exact .inl ⟨.inr hset, by simp⟩
    next s₁ executed e hset =>
      obtain ⟨rfl, rfl⟩ := Prod.mk.inj (Option.some.inj h)
      cases executed with
      | true => exact .inl ⟨.inr hset, by simp⟩
      | false => exact .inl ⟨.inl rfl, by simp⟩
    next =>
      obtain ⟨rfl, rfl⟩ := Prod.mk.inj (Option.some.inj h)
      exact .inl ⟨.inl rfl, by simp⟩
  next reply =>
    split at h
    next count s₁ hincr =>
      obtain ⟨rfl, rfl⟩ := Prod.mk.inj (Option.some.inj h)
      refine .inr ⟨.ok, count, rfl, rfl, hincr, fun hok => ?_⟩
      by_contra hcount
      rw [RateConfig.answer, if_pos (by omega)] at hok
      cases hok
    next count s₁ executed e hincr =>
      obtain ⟨rfl, rfl⟩ := Prod.mk.inj (Option.some.inj h)
      cases executed with
      | true => exact .inr ⟨_, count, rfl, rfl, hincr, fun hok => by cases hok⟩
      | false => exact .inl ⟨.inl rfl, by simp⟩
    next =>
      obtain ⟨rfl, rfl⟩ := Prod.mk.inj (Option.some.inj h)
      exact .inl ⟨.inl rfl, by simp⟩
  next => cases h

theorem incr_of_act {p p' : RateCall} {reply : CommandReply} (h : (rateLimit cfg).act s p (.incr reply) = some (s', p'))
    (hreply : reply.executed = true) (hkey : s.key = none) : s'.key = some ⟨1, none⟩ := by
  have hincr : s.incr = some (1, { s with key := some ⟨1, none⟩ }) := by rw [RateStore.incr, hkey]
  cases p with
  | created =>
    simp only [rateLimit, hincr] at h
    cases reply with
    | ok =>
      obtain ⟨rfl, -⟩ := Prod.mk.inj (Option.some.inj h)
      rfl
    | failed executed e =>
      obtain rfl : executed = true := hreply
      obtain ⟨rfl, -⟩ := Prod.mk.inj (Option.some.inj h)
      rfl
  | _ => cases h

theorem Expires.step {e : Event} (h : Expires cfg c.shared) (hstep : (rateLimit cfg).Step c e c')
    (he : ∀ i reply, e = .act i (.incr reply) → reply.executed = true → c.shared.key ≠ none) : Expires cfg c'.shared := by
  cases hstep with
  | env => exact h.advance _
  | @act i a s p hact =>
    rcases act_cases hact with ⟨rfl | hset, -⟩ | ⟨reply, count, rfl, hreply, hincr, -⟩
    · exact h
    · exact h.setNxEx hset
    · exact h.incr (he i reply rfl hreply) hincr

theorem step_set {pc : ℕ → RateCall} (hkey : s.key = none) (hinterval : 0 < cfg.interval) (hpc : pc i = .called) :
    (rateLimit cfg).Step ⟨s, pc⟩ (.act i (.set .ok))
      ⟨{ s with key := some ⟨0, some (s.now + 1000 * cfg.interval)⟩ }, Function.update pc i .created⟩ := by
  have hset : s.setNxEx cfg.interval = some { s with key := some ⟨0, some (s.now + 1000 * cfg.interval)⟩ } := by
    rw [RateStore.setNxEx, if_neg (by omega), hkey]
  refine .act ?_
  simp only [rateLimit, hpc, hset]

theorem step_incr {pc : ℕ → RateCall} {e : ℕ} (hkey : s.key = some ⟨0, some e⟩) (hpc : pc i = .created) :
    (rateLimit cfg).Step ⟨s, pc⟩ (.act i (.incr .ok))
      ⟨{ s with key := some ⟨1, some e⟩ }, Function.update pc i (.returned (cfg.answer 1))⟩ := by
  have hincr : s.incr = some (1, { s with key := some ⟨1, some e⟩ }) := by
    rw [RateStore.incr, hkey]
    rfl
  refine .act ?_
  simp only [rateLimit, hpc, hincr]

theorem Expires.acceptsAgain (h : Expires cfg c.shared) : AcceptsAgain cfg c := by
  intro d i hd hidle hinterval
  have hcall : (rateLimit cfg).act (c.shared.advance d) (c.pc i) .call = some (c.shared.advance d, .called) := by
    rw [hidle]
    rfl
  exact ⟨_, ⟨_, .env, _, .act hcall, _, step_set (h.key_advance hd) hinterval (Function.update_self ..), _,
    step_incr rfl (Function.update_self ..), rfl⟩, Function.update_self ..⟩

/-! ### A key without an expiry -/

def Locked (v : ℕ) (s : RateStore) : Prop := ∃ v', v ≤ v' ∧ s.key = some ⟨v', none⟩

theorem Locked.step {v : ℕ} {e : Event} (h : Locked v c.shared) (hstep : (rateLimit cfg).Step c e c') :
    Locked v c'.shared := by
  obtain ⟨v', hv', hkey⟩ := h
  cases hstep with
  | env =>
    refine ⟨v', hv', ?_⟩
    show c.shared.key.filter _ = _
    rw [hkey]
    rfl
  | @act i a s p hact =>
    rcases act_cases hact with ⟨rfl | hset, -⟩ | ⟨reply, count, -, -, hincr, -⟩
    · exact ⟨v', hv', hkey⟩
    · rw [RateStore.setNxEx, hkey] at hset
      split at hset
      · cases hset
      · obtain rfl := Option.some.inj hset
        exact ⟨v', hv', hkey⟩
    · rw [RateStore.incr, hkey] at hincr
      dsimp only at hincr
      split at hincr
      · obtain ⟨-, rfl⟩ := Prod.mk.inj (Option.some.inj hincr)
        exact ⟨v' + 1, by omega, rfl⟩
      · cases hincr

/-- Once the key has no expiry and the limit is reached, no call is accepted any more. -/
theorem locked_of_run {v : ℕ} (h : Run (rateLimit cfg).Step c es c') (hkey : Locked v c.shared) (hv : cfg.numRequests ≤ v)
    (hi : c.pc i ≠ .returned (.ok ())) : c'.pc i ≠ .returned (.ok ()) := by
  suffices hend : Locked v c'.shared ∧ c'.pc i ≠ .returned (.ok ()) from hend.2
  refine h.invariant (I := fun c => Locked v c.shared ∧ c.pc i ≠ .returned (.ok ())) ⟨hkey, hi⟩ ?_
  rintro c e c' ⟨hlocked, hi⟩ hstep
  refine ⟨hlocked.step hstep, fun hok => ?_⟩
  obtain ⟨a, s, p, rfl, hact, rfl⟩ := hstep.act_of_enter (P := (· = .returned (.ok ()))) hi hok
  obtain ⟨v', hv', hkey'⟩ := hlocked
  rcases act_cases hact with ⟨-, hne⟩ | ⟨reply, count, -, -, hincr, hcount⟩
  · exact hne rfl
  · have hle := hcount rfl
    rw [RateStore.incr, hkey'] at hincr
    dsimp only at hincr
    split at hincr
    · obtain ⟨rfl, -⟩ := Prod.mk.inj (Option.some.inj hincr)
      omega
    · cases hincr

end RateLimit

open RateLimit

/-- For every interleaving of calls for one identifier with the clock: every key on the way expires, and is followed by a
new window after the interval, if and only if every increment that Redis executes finds its key. -/
theorem rate_limit_recovers_iff (cfg : RateConfig) (now : ℕ) (es : List RateLimit.Event) (c : RateLimit.Config)
    (h : Run (rateLimit cfg).Step (initial now) es c) :
    (∀ pre post mid, es = pre ++ post → Run (rateLimit cfg).Step (initial now) pre mid → Recovers cfg mid) ↔
      ∀ pre post i reply mid, es = pre ++ .act i (.incr reply) :: post →
        Run (rateLimit cfg).Step (initial now) pre mid → reply.executed = true → mid.shared.key ≠ none := by
  constructor
  · intro hrecovers pre post i reply mid hsplit hrun hreply hkey
    rw [hsplit] at h
    obtain ⟨mid', hrun', next, hstep, -⟩ := Run.append_iff.1 h
    obtain rfl := hrun.unique hrun' Threads.Step.unique
    have hnext : Run (rateLimit cfg).Step (initial now) (pre ++ [.act i (.incr reply)]) next :=
      Run.append_iff.2 ⟨mid, hrun, next, hstep, rfl⟩
    have hexpires := (hrecovers _ post next (by rw [hsplit]; simp) hnext).expires
    cases hstep with
    | act hact =>
      obtain ⟨e, he, -⟩ := hexpires _ (incr_of_act hact hreply hkey)
      cases he
  · intro hfinds pre post mid hsplit hrun
    have hexpires : Expires cfg mid.shared := by
      refine hrun.invariant_of_split (I := fun c => Expires cfg c.shared) (fun k hk => by cases hk) ?_
      intro pre' e post' c₁ c₂ hsplit' hrun' hexpires hstep
      refine hexpires.step hstep fun i reply he hreply => ?_
      subst he
      exact hfinds pre' (post' ++ post) i reply c₁ (by rw [hsplit, hsplit']; simp) hrun' hreply
    exact ⟨hexpires, hexpires.acceptsAgain⟩

def soloCall (i : ℕ) : List RateLimit.Event := [.act i .call, .act i (.set .ok), .act i (.incr .ok)]

theorem rate_limit_recovers_solo : ∃ c, Run (rateLimit ⟨86400, 100⟩).Step (initial 0) (soloCall 0) c ∧
    c.pc 0 = .returned (.ok ()) ∧
    ∀ pre post mid, soloCall 0 = pre ++ post → Run (rateLimit ⟨86400, 100⟩).Step (initial 0) pre mid →
      Recovers ⟨86400, 100⟩ mid := by
  have hset : Run (rateLimit ⟨86400, 100⟩).Step (initial 0) [.act 0 .call, .act 0 (.set .ok)] _ :=
    ⟨_, .act rfl, _, .act rfl, rfl⟩
  have hrun : Run (rateLimit ⟨86400, 100⟩).Step (initial 0) (soloCall 0) _ :=
    ⟨_, .act rfl, _, .act rfl, _, .act rfl, rfl⟩
  refine ⟨_, hrun, rfl, (rate_limit_recovers_iff ⟨86400, 100⟩ 0 (soloCall 0) _ hrun).2 ?_⟩
  intro pre post i reply mid hsplit hpre hreply
  obtain rfl : pre = [.act 0 .call, .act 0 (.set .ok)] := by
    rcases pre with _ | ⟨_, _ | ⟨_, _ | ⟨_, _⟩⟩⟩
    · cases hsplit
    · cases hsplit
    · cases hsplit
      rfl
    · simp [soloCall] at hsplit
  obtain rfl := hpre.unique hset Threads.Step.unique
  simp [initial]

/-- The second call sets nothing, since the key of the first is still there, and the key expires before the increment. -/
def racingCalls : List RateLimit.Event :=
  soloCall 0 ++ [.env 86400000, .act 1 .call, .act 1 (.set .ok), .env 1, .act 1 (.incr .ok)]

/-- With a limit of one request a day, the key that is left has no expiry, and no call after it is ever accepted. -/
theorem rate_limit_locks_out : ∃ c, Run (rateLimit ⟨86400, 1⟩).Step (initial 0) racingCalls c ∧
    c.shared.key = some ⟨1, none⟩ ∧ ¬ Recovers ⟨86400, 1⟩ c ∧
    ∀ es c' i, Run (rateLimit ⟨86400, 1⟩).Step c es c' → c.pc i = .idle → c'.pc i ≠ .returned (.ok ()) := by
  have hrun : Run (rateLimit ⟨86400, 1⟩).Step (initial 0) racingCalls _ :=
    ⟨_, .act rfl, _, .act rfl, _, .act rfl, _, .env, _, .act rfl, _, .act rfl, _, .env, _, .act rfl, rfl⟩
  refine ⟨_, hrun, rfl, fun h => ?_, fun es c' i hrest hidle => ?_⟩
  · obtain ⟨e, he, -⟩ := h.expires _ rfl
    cases he
  · refine locked_of_run hrest ⟨1, Nat.le_refl 1, rfl⟩ (Nat.le_refl 1) ?_
    rw [hidle]
    simp

end HumanNetwork
