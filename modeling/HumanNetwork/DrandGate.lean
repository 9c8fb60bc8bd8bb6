import HumanNetwork.Election

/-!
# The beacon check of a prover (`CheckReElectedStatus`)

A prover that hears of a re-election compares the gossiped answer of the randomness beacon with one that it fetches
itself, and joins the re-election if the check lets the message pass. `Gated` says what a message that passes should
have shown. The check is skipped when the prover has no valid answer of its own, and it panics where a gossiped
string is not hexadecimal or, in a debug build, where the gossiped round is the later one.
-/

namespace HumanNetwork
open Outcome

def subU64 {ε : Type} (prof : Profile) (a b : ℕ) : Outcome ε ℕ :=
  if b ≤ a then .ok (a - b)
  else match prof with
    | .debug => crash "attempt to subtract with overflow"
    | .release => .ok (a + 2 ^ 64 - b)

def drandRoundThresholdTolerance : ℕ := 3

variable (env : ElectionEnv)

def unwrapHex (s : String) : Outcome String Bytes :=
  match env.hexDecode s with
  | .ok bytes => .ok bytes
  | .error e => crash ("called `Result::unwrap()` on an `Err` value: " ++ e)

namespace DrandResponse

/-- `verify_drand` on the signatures of an answer. -/
def verify (data : DrandResponse) : Outcome String Bool := do
  let previousSignature ← unwrapHex env data.previousSignature
  let signature ← unwrapHex env data.signature
  return env.verifyDrand data.round previousSignature signature

def Decodes (data : DrandResponse) : Prop :=
  ∃ previousSignature signature, env.hexDecode data.previousSignature = .ok previousSignature ∧
    env.hexDecode data.signature = .ok signature

def Verifies (data : DrandResponse) : Prop :=
  ∃ previousSignature signature, env.hexDecode data.previousSignature = .ok previousSignature ∧
    env.hexDecode data.signature = .ok signature ∧ env.verifyDrand data.round previousSignature signature = true

end DrandResponse

/-- Whether the message is handed on, by the answer that the prover fetched and the gossiped one. -/
def drandCheck (prof : Profile) (fetched : Option DrandResponse) (gossiped : DrandResponse) : Outcome String Bool :=
  match fetched with
  | none => .ok true
  | some data => do
    let valid ← data.verify env
    if valid then
      let age ← subU64 prof data.round gossiped.round
      if age ≥ drandRoundThresholdTolerance then pure false else gossiped.verify env
    else pure true

def ElectionEngine.onCheckReElectedStatus (prof : Profile) (self : ElectionEngine env.f64)
    (fetched : Option DrandResponse) (electionInfo : ElectionInfo) (tstarProvers newProvers : QuorumMap)
    (groupKeys : HMap String Bytes) (drandResponse : DrandResponse) :
    Outcome String (ElectionEngine env.f64 × List ElectionCast) := do
  let pass ← drandCheck env prof fetched drandResponse
  if pass then return self.handleCheckReElectedStatus electionInfo tstarProvers newProvers groupKeys
  else return (self, [])

def Gated (fetched : Option DrandResponse) (gossiped : DrandResponse) : Prop :=
  ∃ own, fetched = some own ∧ own.Verifies env ∧ gossiped.Verifies env ∧
    own.round < gossiped.round + drandRoundThresholdTolerance ∧ gossiped.round < own.round + drandRoundThresholdTolerance

/-- Against a verified answer of the prover: an older message is checked only if it is not too old, and has then to
be hexadecimal; the difference to a later one wraps around, which is at least the tolerance unless it wraps around
completely. -/
def CheckedAgainst (prof : Profile) (own gossiped : DrandResponse) : Prop :=
  if gossiped.round ≤ own.round then
    own.round < gossiped.round + drandRoundThresholdTolerance → gossiped.Decodes env
  else prof = .release ∧
    (own.round + 2 ^ 64 < gossiped.round + drandRoundThresholdTolerance → gossiped.Decodes env ∧ ¬ gossiped.Verifies env)

/-! ### The check -/

theorem subU64_of_le {ε : Type} {prof : Profile} {a b : ℕ} (h : b ≤ a) : (subU64 prof a b : Outcome ε ℕ) = .ok (a - b) :=
  if_pos h

theorem subU64_debug {ε : Type} {a b : ℕ} (h : a < b) :
    (subU64 .debug a b : Outcome ε ℕ) = crash "attempt to subtract with overflow" :=
  if_neg (Nat.not_le.2 h)

theorem subU64_release {ε : Type} {a b : ℕ} (h : a < b) : (subU64 .release a b : Outcome ε ℕ) = .ok (a + 2 ^ 64 - b) :=
  if_neg (Nat.not_le.2 h)

variable {env}

theorem DrandResponse.verify_cases (env : ElectionEnv) (data : DrandResponse) :
    (¬ data.Decodes env ∧ ∃ msg, data.verify env = .error (.panic msg)) ∨
      (data.Verifies env ∧ data.Decodes env ∧ data.verify env = .ok true) ∨
      (¬ data.Verifies env ∧ data.Decodes env ∧ data.verify env = .ok false) := by
  unfold Decodes Verifies verify unwrapHex
  cases env.hexDecode data.previousSignature with
  | error e => exact .inl ⟨by simp, _, rfl⟩
  | ok previousSignature =>
    cases env.hexDecode data.signature with
    | error e => exact .inl ⟨by simp, _, rfl⟩
    | ok signature =>
      right
      cases hverify : env.verifyDrand data.round previousSignature signature with
      | true => exact .inl ⟨⟨_, _, rfl, rfl, hverify⟩, ⟨_, _, rfl, rfl⟩, congrArg Except.ok hverify⟩
      | false =>
        refine .inr ⟨?_, ⟨_, _, rfl, rfl⟩, congrArg Except.ok hverify⟩
        rintro ⟨_, _, ⟨⟩, ⟨⟩, h⟩
        rw [hverify] at h
        cases h

theorem verify_unless_old {gossiped : DrandResponse} {age : ℕ} {P : Prop} {x : Outcome String Bool}
    (hx : x = if age ≥ drandRoundThresholdTolerance then pure false else gossiped.verify env) :
    (x = .ok true → gossiped.Verifies env ∧ P) ∧ NoPanic x ↔
      (age < drandRoundThresholdTolerance → gossiped.Decodes env ∧ (gossiped.Verifies env → P)) := by
  subst hx
  by_cases hage : age ≥ drandRoundThresholdTolerance
  · rw [if_pos hage]
    exact iff_of_true ⟨nofun, .ok false⟩ fun h => absurd hage (Nat.not_le.2 h)
  rw [if_neg hage]
  rw [Nat.not_le] at hage
  simp only [hage, true_imp_iff]
  rcases gossiped.verify_cases env with ⟨hdecodes, msg, h⟩ | ⟨hverifies, hdecodes, h⟩ | ⟨hverifies, hdecodes, h⟩
  · rw [h]
    exact iff_of_false (fun hx => hx.2 msg rfl) fun hx => hdecodes hx.1
  · rw [h]
    constructor
    · rintro ⟨hpass, -⟩
      exact ⟨hdecodes, fun _ => (hpass rfl).2⟩
    · rintro ⟨-, hP⟩
      exact ⟨fun _ => ⟨hverifies, hP hverifies⟩, .ok true⟩
  · rw [h]
    exact iff_of_true ⟨nofun, .ok false⟩ ⟨hdecodes, fun h => absurd h hverifies⟩

theorem drandCheck_some {prof : Profile} {own gossiped : DrandResponse} (hown : own.verify env = .ok true) :
    (drandCheck env prof (some own) gossiped = .ok true →
        gossiped.Verifies env ∧ own.round < gossiped.round + drandRoundThresholdTolerance ∧
          gossiped.round < own.round + drandRoundThresholdTolerance) ∧ NoPanic (drandCheck env prof (some own) gossiped) ↔
      CheckedAgainst env prof own gossiped := by
  have hcheck : drandCheck env prof (some own) gossiped = (subU64 prof own.round gossiped.round >>= fun age =>
      if age ≥ drandRoundThresholdTolerance then pure false else gossiped.verify env) := by
    simp only [drandCheck, hown]
    rfl
  unfold CheckedAgainst
  split
  next hle =>
    rw [subU64_of_le hle, bind_ok] at hcheck
    rw [verify_unless_old hcheck]
    unfold drandRoundThresholdTolerance
    constructor
    · exact fun h hage => (h (by omega)).1
    · exact fun h hage => ⟨h (by omega), fun _ => ⟨by omega, by omega⟩⟩
  next hlt =>
    rw [Nat.not_le] at hlt
    cases prof with
    | debug =>
      rw [hcheck, subU64_debug hlt]
      exact iff_of_false (fun h => h.2 _ rfl) fun h => nomatch h.1
    | release =>
      rw [subU64_release hlt, bind_ok] at hcheck
      rw [verify_unless_old hcheck]
      unfold drandRoundThresholdTolerance
      constructor
      · refine fun h => ⟨rfl, fun hage => ?_⟩
        obtain ⟨hdecodes, hwithin⟩ := h (by omega)
        refine ⟨hdecodes, fun hverifies => ?_⟩
        have := hwithin hverifies
        omega
      · rintro ⟨-, h⟩ hage
        obtain ⟨hdecodes, hverifies⟩ := h (by omega)
        exact ⟨hdecodes, fun h => absurd h hverifies⟩

theorem ElectionEngine.onCheckReElectedStatus_eq_ok {prof : Profile} {self : ElectionEngine env.f64}
    {fetched : Option DrandResponse} {electionInfo : ElectionInfo} {tstarProvers newProvers : QuorumMap}
    {groupKeys : HMap String Bytes} {gossiped : DrandResponse} :
    self.onCheckReElectedStatus env prof fetched electionInfo tstarProvers newProvers groupKeys gossiped =
        .ok (self.handleCheckReElectedStatus electionInfo tstarProvers newProvers groupKeys) ↔
      drandCheck env prof fetched gossiped = .ok true := by
  unfold onCheckReElectedStatus
  constructor
  · intro h
    obtain ⟨pass, hpass, h⟩ := bind_eq_ok.1 h
    cases pass with
    | true => exact hpass
    | false => exact absurd (Prod.mk.inj (Except.ok.inj h)).2 (by simp)
  · intro h
    rw [h]
    rfl

theorem ElectionEngine.noPanic_onCheckReElectedStatus {prof : Profile} {self : ElectionEngine env.f64}
    {fetched : Option DrandResponse} {electionInfo : ElectionInfo} {tstarProvers newProvers : QuorumMap}
    {groupKeys : HMap String Bytes} {gossiped : DrandResponse} :
    NoPanic (self.onCheckReElectedStatus env prof fetched electionInfo tstarProvers newProvers groupKeys gossiped) ↔
      NoPanic (drandCheck env prof fetched gossiped) := by
  rw [onCheckReElectedStatus, noPanic_bind]
  refine and_iff_left fun pass _ => ?_
  cases pass with
  | true => exact .ok _
  | false => exact .ok _

/-- The prover joins a re-election only behind the beacon, and does not panic, exactly if it has a verified answer of
its own and the message is one that the check can deal with. -/
theorem re_election_gated_iff (env : ElectionEnv) (prof : Profile) (self : ElectionEngine env.f64)
    (fetched : Option DrandResponse) (electionInfo : ElectionInfo) (tstarProvers newProvers : QuorumMap)
    (groupKeys : HMap String Bytes) (gossiped : DrandResponse) :
    ((self.onCheckReElectedStatus env prof fetched electionInfo tstarProvers newProvers groupKeys gossiped =
        .ok (self.handleCheckReElectedStatus electionInfo tstarProvers newProvers groupKeys) →
      Gated env fetched gossiped) ∧
      NoPanic (self.onCheckReElectedStatus env prof fetched electionInfo tstarProvers newProvers groupKeys gossiped)) ↔
    ∃ own, fetched = some own ∧ own.Verifies env ∧ CheckedAgainst env prof own gossiped := by
  rw [ElectionEngine.onCheckReElectedStatus_eq_ok, ElectionEngine.noPanic_onCheckReElectedStatus]
  cases fetched with
  | none =>
    refine iff_of_false (fun h => ?_) fun ⟨_, h, _⟩ => nomatch h
    obtain ⟨_, h, -⟩ := h.1 rfl
    cases h
  | some own =>
    have hgated : Gated env (some own) gossiped ↔ own.Verifies env ∧ gossiped.Verifies env ∧
        own.round < gossiped.round + drandRoundThresholdTolerance ∧
        gossiped.round < own.round + drandRoundThresholdTolerance := by
      simp [Gated]
    rcases own.verify_cases env with ⟨hdecodes, msg, h⟩ | ⟨hverifies, -, h⟩ | ⟨hverifies, -, h⟩
    · -- the prover cannot read its own answer
      refine iff_of_false (fun hx => hx.2 msg ?_) ?_
      · rw [drandCheck, h]
        rfl
      · rintro ⟨_, ⟨⟩, ⟨prev, sig, hprev, hsig, -⟩, -⟩
        exact hdecodes ⟨prev, sig, hprev, hsig⟩
    · rw [hgated, and_iff_right hverifies, drandCheck_some h]
      simp [hverifies]
    · -- its own answer is not valid, and the message is handed on
      refine iff_of_false (fun hx => hverifies ?_) fun ⟨_, heq, hx, _⟩ => hverifies (Option.some.inj heq ▸ hx)
      exact (hgated.1 (hx.1 (by rw [drandCheck, h]; rfl))).1

def trustingBeacon : ElectionEnv :=
  { openElection with
    hexDecode := fun s => if s = "zz" then .error "InvalidHexCharacter" else .ok []
    verifyDrand := fun _ _ _ => true }

/-- Without an answer of the beacon a prover joins for a gossiped answer that does not verify. With one, a gossiped
round that is one later panics in a debug build, and so does a gossiped signature that is not hexadecimal. -/
theorem re_election_ungated :
    (ElectionEngine.onCheckReElectedStatus openElection .release (freshEngine "a") none ⟨2, 1, 3⟩ ∅ ∅ ∅ default =
        .ok ((freshEngine "a").handleCheckReElectedStatus ⟨2, 1, 3⟩ ∅ ∅ ∅) ∧
      ¬ DrandResponse.Verifies openElection default) ∧
    (ElectionEngine.onCheckReElectedStatus trustingBeacon .debug (freshEngine "a") (some ⟨10, "", "", ""⟩) ⟨2, 1, 3⟩
        ∅ ∅ ∅ ⟨11, "", "", ""⟩ = crash "attempt to subtract with overflow" ∧
      DrandResponse.Verifies trustingBeacon ⟨11, "", "", ""⟩) ∧
    ElectionEngine.onCheckReElectedStatus trustingBeacon .release (freshEngine "a") (some ⟨10, "", "", ""⟩) ⟨2, 1, 3⟩
      ∅ ∅ ∅ ⟨10, "", "zz", "zz"⟩ = crash "called `Result::unwrap()` on an `Err` value: InvalidHexCharacter" := by
  refine ⟨⟨rfl, ?_⟩, ⟨rfl, [], [], rfl, rfl, rfl⟩, rfl⟩
  rintro ⟨_, _, h, -⟩
  cases h

end HumanNetwork
