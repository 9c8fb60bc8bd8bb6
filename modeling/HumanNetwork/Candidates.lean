import HumanNetwork.Election

/-!
# The candidates of an election

The first two positions of the registry belong to the bootstrap node and the relay. `Registry.candidates` are the
provers that an election should choose from: the valid entries at the other positions, without the excluded ones.
The source drops the first two of the entries that it could read, which are the first two positions only if both of
them can be read, and the first election does not look at the exclusion list.
-/

namespace HumanNetwork
open Outcome

variable (env : ElectionEnv)

/-- The entry at a position, if it parses and the chain answers with its stake. -/
def Registry.validEntry (registry : Registry) (idx : ℕ) (peer : Peer) : Option ProverRecord := do
  let info ← parseProverInfo env idx peer
  let votingPower ← registry.votingPower info.evmAddress
  return ⟨info, votingPower⟩

def Registry.validEntries (registry : Registry) : List ProverRecord :=
  registry.peers.zipIdx.filterMap fun entry => registry.validEntry env entry.2 entry.1

def Registry.candidates (registry : Registry) (excluded : Finset PeerId) : List ProverRecord :=
  (registry.validEntries env).filter fun p => 2 ≤ p.idx ∧ p.peerId ∉ excluded

def Registry.StakesKnown (registry : Registry) : Prop :=
  ∀ idx peer info, registry.peers[idx]? = some peer → parseProverInfo env idx peer = some info →
    registry.votingPower info.evmAddress ≠ none

def ElectionEngine.firstElectionConsiders (self : ElectionEngine env.f64) (registry : Registry) :
    Outcome String (List ProverRecord) := do
  let self ← self.conductElection env registry
  return self.electedProvers

/-- The provers that a re-election pings. While it waits for more provers it considers none. -/
def ElectionEngine.reElectionConsiders (self : ElectionEngine env.f64) (registry : Registry) :
    Outcome String (List ProverRecord) := do
  let some provers ← waitParticipating env [registry] | return []
  return self.participating env provers

/-! ### What the loop over the registry reads -/

variable {env} {registry : Registry}

theorem validEntry_idx {idx : ℕ} {peer : Peer} {p : ProverRecord} (h : registry.validEntry env idx peer = some p) :
    p.idx = idx := by
  simp only [Registry.validEntry, Option.bind_eq_bind, Option.bind_eq_some_iff] at h
  obtain ⟨info, hinfo, _, -, h⟩ := h
  obtain rfl := Option.some.inj h
  exact (parseProverInfo_eq_some hinfo).2

theorem fetchProver_eq_ok {idx : ℕ} {peer : Peer} {kept : Option ProverRecord} :
    fetchProver env registry idx peer = .ok kept ↔
      (∀ info, parseProverInfo env idx peer = some info → registry.votingPower info.evmAddress ≠ none) ∧
        kept = registry.validEntry env idx peer := by
  unfold fetchProver Registry.validEntry
  cases parseProverInfo env idx peer with
  | none => simp [eq_comm]
  | some info =>
    cases hpower : registry.votingPower info.evmAddress with
    | none =>
      simp only [getProverStake, hpower]
      constructor
      · intro h; cases h
      · rintro ⟨h, -⟩
        exact absurd hpower (h info rfl)
    | some power =>
      simp only [getProverStake, hpower, Option.bind_eq_bind, Option.bind_some]
      constructor
      · intro h
        refine ⟨?_, (Except.ok.inj h).symm⟩
        rintro _ ⟨⟩
        rw [hpower]
        exact Option.some_ne_none _
      · rintro ⟨-, rfl⟩
        rfl

theorem fetchLoop_eq_ok {peers : List Peer} {k : ℕ} {provers : List ProverRecord} :
    fetchLoop env registry peers k = .ok provers ↔
      (∀ entry ∈ peers.zipIdx k, ∀ info, parseProverInfo env entry.2 entry.1 = some info →
        registry.votingPower info.evmAddress ≠ none) ∧
      provers = (peers.zipIdx k).filterMap fun entry => registry.validEntry env entry.2 entry.1 := by
  induction peers generalizing k provers with
  | nil => simp [fetchLoop, eq_comm]
  | cons peer peers ih =>
    simp only [fetchLoop, bind_eq_ok, pure_eq_ok, Except.ok.injEq, fetchProver_eq_ok, ih, List.zipIdx_cons,
      List.forall_mem_cons]
    constructor
    · rintro ⟨_, ⟨hpeer, rfl⟩, _, ⟨hpeers, rfl⟩, rfl⟩
      refine ⟨⟨hpeer, hpeers⟩, ?_⟩
      rw [List.filterMap_cons]
      cases registry.validEntry env k peer <;> rfl
    · rintro ⟨⟨hpeer, hpeers⟩, rfl⟩
      refine ⟨_, ⟨hpeer, rfl⟩, _, ⟨hpeers, rfl⟩, ?_⟩
      rw [List.filterMap_cons]
      cases registry.validEntry env k peer <;> rfl

theorem fetchProversV2_iff {provers : List ProverRecord} : fetchProversV2 env registry = .ok provers ↔
    registry.StakesKnown env ∧ registry.validEntries env ≠ [] ∧ provers = registry.validEntries env := by
  have hknown : (∀ entry ∈ registry.peers.zipIdx, ∀ info, parseProverInfo env entry.2 entry.1 = some info →
      registry.votingPower info.evmAddress ≠ none) ↔ registry.StakesKnown env := by
    constructor
    · intro h idx peer info hpeer
      exact h (peer, idx) (List.mem_zipIdx_iff_getElem?.2 hpeer) info
    · rintro h ⟨peer, idx⟩ hentry info
      exact h idx peer info (List.mem_zipIdx_iff_getElem?.1 hentry)
  simp only [fetchProversV2, bind_eq_ok, pure_eq_ok, Except.ok.injEq, fetchLoop_eq_ok, hknown, check_eq_ok]
  constructor
  · rintro ⟨_, ⟨hstakes, rfl⟩, _, hne, rfl⟩
    exact ⟨hstakes, hne, rfl⟩
  · rintro ⟨hstakes, hne, rfl⟩
    exact ⟨_, ⟨hstakes, rfl⟩, (), hne, rfl⟩

/-! ### Dropping two entries and dropping two positions -/

theorem validEntries_increasing : (registry.validEntries env).Pairwise fun p q => p.idx < q.idx := by
  have hzip : ∀ (peers : List Peer) (k : ℕ), (peers.zipIdx k).Pairwise fun a b => a.2 < b.2 := by
    intro peers
    induction peers with
    | nil => exact fun _ => .nil
    | cons peer peers ih => exact fun k => .cons (fun _ hb => List.le_snd_of_mem_zipIdx hb) (ih (k + 1))
  refine List.Pairwise.filterMap _ ?_ (hzip registry.peers 0)
  intro a b hlt p hp q hq
  rwa [validEntry_idx hp, validEntry_idx hq]

theorem le_idx_of_mem_drop {provers : List ProverRecord} (h : provers.Pairwise fun p q => p.idx < q.idx) (n k : ℕ)
    (hk : ∀ p ∈ provers, k ≤ p.idx) : ∀ p ∈ provers.drop n, k + n ≤ p.idx := by
  induction n generalizing k provers with
  | zero => exact hk
  | succ n ih =>
    cases provers with
    | nil => exact fun p hp => absurd hp List.not_mem_nil
    | cons q provers =>
      obtain ⟨hq, hprovers⟩ := List.pairwise_cons.1 h
      intro p hp
      have hnext : ∀ r ∈ provers, k + 1 ≤ r.idx := by
        intro r hr
        have := hk q List.mem_cons_self
        have := hq r hr
        omega
      have := ih hprovers (k + 1) hnext p hp
      omega

theorem drop_eq_filter_iff {α : Type} {l : List α} (hl : l.Nodup) (n : ℕ) (q : α → Bool) :
    l.drop n = l.filter q ↔ (∀ a ∈ l.take n, q a = false) ∧ ∀ a ∈ l.drop n, q a = true := by
  constructor
  · intro h
    refine ⟨fun a ha => ?_, fun a ha => ?_⟩
    · by_contra hq
      have hdrop : a ∈ l.drop n := by
        rw [h, List.mem_filter]
        exact ⟨List.mem_of_mem_take ha, by simpa using hq⟩
      exact List.disjoint_take_drop hl le_rfl ha hdrop
    · rw [h, List.mem_filter] at ha
      exact ha.2
  · rintro ⟨htake, hdrop⟩
    conv_rhs => rw [← List.take_append_drop n l, List.filter_append]
    rw [List.filter_eq_nil_iff.2 fun a ha => by simp [htake a ha], List.filter_eq_self.2 hdrop, List.nil_append]

theorem drop_eq_candidates {excluded : Finset PeerId} :
    (registry.validEntries env).drop 2 = registry.candidates env excluded ↔
      (∀ p ∈ (registry.validEntries env).take 2, p.idx < 2 ∨ p.peerId ∈ excluded) ∧
        ∀ p ∈ (registry.validEntries env).drop 2, p.peerId ∉ excluded := by
  have hincreasing : (registry.validEntries env).Pairwise fun p q => p.idx < q.idx := validEntries_increasing
  have hnodup : (registry.validEntries env).Nodup := hincreasing.imp fun hlt heq => (heq ▸ hlt).false
  have hle := le_idx_of_mem_drop hincreasing 2 0 fun _ _ => Nat.zero_le _
  rw [Registry.candidates, drop_eq_filter_iff hnodup]
  refine and_congr (forall₂_congr fun p _ => ?_) (forall₂_congr fun p hp => ?_)
  · rw [decide_eq_false_iff_not, not_and_or, not_not, Nat.not_le]
  · have := hle p hp
    simp only [decide_eq_true_eq, and_iff_right_iff_imp]
    omega

/-! ### The two elections -/

namespace ElectionEngine
variable {self : ElectionEngine env.f64} {provers : List ProverRecord}

theorem firstElectionConsiders_eq_ok : self.firstElectionConsiders env registry = .ok provers ↔
    registry.StakesKnown env ∧ 2 ≤ (registry.validEntries env).length ∧ provers = (registry.validEntries env).drop 2 := by
  simp only [firstElectionConsiders, conductElection, skipBootstrap, bind_eq_ok, pure_eq_ok, Except.ok.injEq,
    fetchProversV2_iff, check_eq_ok]
  constructor
  · rintro ⟨_, ⟨_, ⟨hstakes, -, rfl⟩, _, ⟨_, hlen, rfl⟩, rfl⟩, rfl⟩
    exact ⟨hstakes, hlen, rfl⟩
  · rintro ⟨hstakes, hlen, rfl⟩
    have hne : registry.validEntries env ≠ [] := List.ne_nil_of_length_pos (by omega)
    exact ⟨_, ⟨_, ⟨hstakes, hne, rfl⟩, _, ⟨(), hlen, rfl⟩, rfl⟩, rfl⟩

theorem reElectionConsiders_eq_ok : self.reElectionConsiders env registry = .ok provers ↔
    registry.StakesKnown env ∧ registry.validEntries env ≠ [] ∧
      provers = ((registry.validEntries env).drop 2).filter fun p => p.peerId ∉ self.exclusionList := by
  have hread : ∀ found, fetchProversV2 env registry = .ok found →
      self.reElectionConsiders env registry = .ok ((found.drop 2).filter fun p => p.peerId ∉ self.exclusionList) := by
    intro found hfound
    have hwait : waitParticipating env [registry] = .ok (if found.length ≤ 2 then none else some found) := by
      rw [waitParticipating, hfound]
      show (if found.length ≤ 2 then _ else _) = _
      split <;> rfl
    rw [reElectionConsiders, hwait]
    by_cases hlen : found.length ≤ 2
    · rw [List.drop_of_length_le hlen, if_pos hlen]
      rfl
    · rw [if_neg hlen]
      rfl
  constructor
  · intro h
    obtain ⟨answer, hanswer, -⟩ := bind_eq_ok.1 h
    obtain ⟨found, hfound, -⟩ := bind_eq_ok.1 hanswer
    rw [hread found hfound] at h
    obtain ⟨hstakes, hne, rfl⟩ := fetchProversV2_iff.1 hfound
    exact ⟨hstakes, hne, (Except.ok.inj h).symm⟩
  · rintro ⟨hstakes, hne, rfl⟩
    exact hread _ (fetchProversV2_iff.2 ⟨hstakes, hne, rfl⟩)

end ElectionEngine

/-- Both elections consider exactly the candidates if all stakes are known, at least two entries are valid, the first
two valid ones stand at the first two positions or are excluded, and none of the others is excluded. -/
theorem elections_consider_candidates_iff (env : ElectionEnv) (self : ElectionEngine env.f64) (registry : Registry) :
    (self.firstElectionConsiders env registry = .ok (registry.candidates env self.exclusionList) ∧
      self.reElectionConsiders env registry = .ok (registry.candidates env self.exclusionList)) ↔
    registry.StakesKnown env ∧ 2 ≤ (registry.validEntries env).length ∧
      (∀ p ∈ (registry.validEntries env).take 2, p.idx < 2 ∨ p.peerId ∈ self.exclusionList) ∧
      ∀ p ∈ (registry.validEntries env).drop 2, p.peerId ∉ self.exclusionList := by
  rw [ElectionEngine.firstElectionConsiders_eq_ok, ElectionEngine.reElectionConsiders_eq_ok]
  constructor
  · rintro ⟨⟨hstakes, hlen, hdrop⟩, -⟩
    exact ⟨hstakes, hlen, drop_eq_candidates.1 hdrop.symm⟩
  · rintro ⟨hstakes, hlen, hfirst, hrest⟩
    have hne : registry.validEntries env ≠ [] := List.ne_nil_of_length_pos (by omega)
    have hdrop := drop_eq_candidates.2 ⟨hfirst, hrest⟩
    refine ⟨⟨hstakes, hlen, hdrop.symm⟩, hstakes, hne, ?_⟩
    -- nothing is left for the exclusion list to remove
    rw [List.filter_eq_self.2 fun p hp => decide_eq_true (hrest p hp), hdrop]

def brokenBootstrap : ElectionEnv := { openElection with parsePeerId := fun p => if p = "" then none else some p }

/-- With an entry at position 0 that does not parse, no election considers `"a"` at position 2. With `"a"` excluded,
the first election considers it all the same. -/
theorem elections_skip_candidate :
    (registryOf ["", "relay", "a", "b"]).candidates brokenBootstrap ∅ = [recordOf "a" 2, recordOf "b" 3] ∧
    (freshEngine "relay").firstElectionConsiders brokenBootstrap (registryOf ["", "relay", "a", "b"]) =
      .ok [recordOf "b" 3] ∧
    (freshEngine "relay").reElectionConsiders brokenBootstrap (registryOf ["", "relay", "a", "b"]) =
      .ok [recordOf "b" 3] ∧
    (registryOf ["boot", "relay", "a", "b"]).candidates openElection {"a"} = [recordOf "b" 3] ∧
    ElectionEngine.firstElectionConsiders openElection { freshEngine "relay" with exclusionList := {"a"} }
      (registryOf ["boot", "relay", "a", "b"]) = .ok [recordOf "a" 2, recordOf "b" 3] := by
  refine ⟨by decide +kernel, rfl, rfl, by decide +kernel, rfl⟩

end HumanNetwork
