import HumanNetwork.Election
import HumanNetwork.Lib.Barrier
import HumanNetwork.Lib.Reach

/-!
# The barriers between phases (`Record…NodeStatus` in `election_actor.rs`)

The nodes report the end of a phase to the relay, and the relay gossips the start of the next one when as many
have reported as it waits for. There are eight such handlers: `barrier` and `recorded` read each of them as a
barrier that compares sizes, and what the handlers do follows from that of the barrier.

`RelayElection` is the election actor of the relay with the reports since the last trigger. A re-election clears
all reports, so that its barriers wait for everybody (`resharing_barriers_wait`). A first election does not clear
`election_status` (`dkg_barriers_wait_iff`). A barrier that has opened is evaluated again at the next report
(`starts_once_iff`).
-/

namespace HumanNetwork
open Outcome

inductive Phase where
  | election
  | reElection
  | dkgInit
  | resharingInit
  | dkgRound1
  | resharingRound1
  | dkgRound2
  | resharingRound2
deriving DecidableEq, Repr

inductive StartMessage where
  | startDkgInit
  | startResharingInit
  | startDkgRound1
  | startResharingRound1
  | startDkgRound2
  | startResharingRound2
  | startDkgRound3
  | startResharingRound3
deriving DecidableEq, Repr

namespace Phase

def isResharing : Phase → Bool
  | election | dkgInit | dkgRound1 | dkgRound2 => false
  | reElection | resharingInit | resharingRound1 | resharingRound2 => true

def start : Phase → StartMessage
  | election => .startDkgInit
  | reElection => .startResharingInit
  | dkgInit => .startDkgRound1
  | resharingInit => .startResharingRound1
  | dkgRound1 => .startDkgRound2
  | resharingRound1 => .startResharingRound2
  | dkgRound2 => .startDkgRound3
  | resharingRound2 => .startResharingRound3

theorem start_injective : Function.Injective start := by
  intro phase phase' h
  cases phase <;> cases phase' <;> first | rfl | cases h

theorem start_surjective : Function.Surjective start := by
  intro message
  cases message with
  | startDkgInit => exact ⟨election, rfl⟩
  | startResharingInit => exact ⟨reElection, rfl⟩
  | startDkgRound1 => exact ⟨dkgInit, rfl⟩
  | startResharingRound1 => exact ⟨resharingInit, rfl⟩
  | startDkgRound2 => exact ⟨dkgRound1, rfl⟩
  | startResharingRound2 => exact ⟨resharingRound1, rfl⟩
  | startDkgRound3 => exact ⟨dkgRound2, rfl⟩
  | startResharingRound3 => exact ⟨resharingRound2, rfl⟩

end Phase

/-! ### The handlers -/

/-- A handler of the key generation, from its `HashSet`. -/
def recordStatus (status : Finset PeerId) (isMember : Bool) (target : ℕ) (start : StartMessage) (peerId : PeerId) :
    Finset PeerId × List StartMessage :=
  let status := if isMember then insert peerId status else status
  (status, if status.card = target then [start] else [])

/-- A handler of a resharing, from its `HashMap`: a peer that has reported is skipped. -/
def recordStatusOnce (status : HMap PeerId RelectionStatus) (mark : RelectionStatus) (isMember : Bool) (target : ℕ)
    (start : StartMessage) (peerId : PeerId) : HMap PeerId RelectionStatus × List StartMessage :=
  if status.containsKey peerId ∧ status.get? peerId = some mark then (status, [])
  else
    let status := if isMember then status.insert peerId mark else status
    (status, if status.len = target then [start] else [])

def peerIds (provers : List ProverRecord) : Finset PeerId := (provers.map fun prover => prover.peerId).toFinset

/-- The first prover of each peer id that is not among those seen. -/
def uniqueProvers : Finset PeerId → List ProverRecord → List ProverRecord
  | _, [] => []
  | seen, prover :: provers =>
    if prover.peerId ∈ seen then uniqueProvers seen provers
    else prover :: uniqueProvers (insert prover.peerId seen) provers

namespace ElectionEngine
variable {f64 : F64} (self : ElectionEngine f64) (peerId : PeerId)

def isElected : Bool := self.electedProvers.any fun prover => prover.peerId = peerId

def recordElectionNodeStatus : ElectionEngine f64 × List StartMessage :=
  let electedPeerIds := peerIds self.electedProvers
  let recorded := recordStatus self.electionStatus (peerId ∈ electedPeerIds) electedPeerIds.card .startDkgInit peerId
  ({ self with electionStatus := recorded.1 }, recorded.2)

def recordRelectionNodeStatus : ElectionEngine f64 × List StartMessage :=
  let listResharingInitPeers := peerIds (self.electedProvers ++ self.tstarProvers)
  let recorded := recordStatusOnce self.reElectionStatus .reElected (peerId ∈ listResharingInitPeers)
    listResharingInitPeers.card .startResharingInit peerId
  ({ self with reElectionStatus := recorded.1 }, recorded.2)

def recordDkgInitNodeStatus : ElectionEngine f64 × List StartMessage :=
  let recorded := recordStatus self.dkgInitStatus (self.isElected peerId) self.electedProvers.length .startDkgRound1 peerId
  ({ self with dkgInitStatus := recorded.1 }, recorded.2)

def recordResharingInitNodeStatus : ElectionEngine f64 × List StartMessage :=
  let uniqueProvers := uniqueProvers ∅ (self.tstarProvers ++ self.electedProvers)
  let recorded := recordStatusOnce self.reSharingInitStatus .resharingInit
    (uniqueProvers.any fun prover => prover.peerId = peerId) uniqueProvers.length .startResharingRound1 peerId
  ({ self with reSharingInitStatus := recorded.1 }, recorded.2)

def recordDkgRound1NodeStatus : ElectionEngine f64 × List StartMessage :=
  let recorded := recordStatus self.dkgRound1Status (self.isElected peerId) self.electedProvers.length .startDkgRound2 peerId
  ({ self with dkgRound1Status := recorded.1 }, recorded.2)

def recordResharingRound1NodeStatus : ElectionEngine f64 × List StartMessage :=
  let recorded := recordStatusOnce self.reSharingRound1Status .resharingRound1 (self.isElected peerId)
    self.electedProvers.length .startResharingRound2 peerId
  ({ self with reSharingRound1Status := recorded.1 }, recorded.2)

def recordDkgRound2NodeStatus : ElectionEngine f64 × List StartMessage :=
  let recorded := recordStatus self.dkgRound2Status (self.isElected peerId) self.electedProvers.length .startDkgRound3 peerId
  ({ self with dkgRound2Status := recorded.1 }, recorded.2)

def recordResharingRound2NodeStatus : ElectionEngine f64 × List StartMessage :=
  let recorded := recordStatusOnce self.reSharingRound2Status .resharingRound2 (self.isElected peerId)
    self.electedProvers.length .startResharingRound3 peerId
  ({ self with reSharingRound2Status := recorded.1 }, recorded.2)

def record : Phase → PeerId → ElectionEngine f64 × List StartMessage
  | .election => self.recordElectionNodeStatus
  | .reElection => self.recordRelectionNodeStatus
  | .dkgInit => self.recordDkgInitNodeStatus
  | .resharingInit => self.recordResharingInitNodeStatus
  | .dkgRound1 => self.recordDkgRound1NodeStatus
  | .resharingRound1 => self.recordResharingRound1NodeStatus
  | .dkgRound2 => self.recordDkgRound2NodeStatus
  | .resharingRound2 => self.recordResharingRound2NodeStatus

def recordAll (self : ElectionEngine f64) : List (Phase × PeerId) → ElectionEngine f64 × List StartMessage
  | [] => (self, [])
  | (phase, peerId) :: reports =>
    let recorded := self.record phase peerId
    let rest := recorded.1.recordAll reports
    (rest.1, recorded.2 ++ rest.2)

def awaited : Phase → List ProverRecord
  | .reElection | .resharingInit => self.tstarProvers ++ self.electedProvers
  | .election | .dkgInit | .dkgRound1 | .resharingRound1 | .dkgRound2 | .resharingRound2 => self.electedProvers

/-- How many reports the handler compares with: of the three that deduplicate, the number of peers. -/
def target (phase : Phase) : ℕ :=
  match phase with
  | .election | .reElection | .resharingInit => (peerIds (self.awaited phase)).card
  | .dkgInit | .dkgRound1 | .resharingRound1 | .dkgRound2 | .resharingRound2 => self.electedProvers.length

def barrier (phase : Phase) : Barrier PeerId := ⟨peerIds (self.awaited phase), self.target phase, phase.isResharing⟩

def recorded : Phase → Finset PeerId
  | .election => self.electionStatus
  | .reElection => self.reElectionStatus.keys.toFinset
  | .dkgInit => self.dkgInitStatus
  | .resharingInit => self.reSharingInitStatus.keys.toFinset
  | .dkgRound1 => self.dkgRound1Status
  | .resharingRound1 => self.reSharingRound1Status.keys.toFinset
  | .dkgRound2 => self.dkgRound2Status
  | .resharingRound2 => self.reSharingRound2Status.keys.toFinset

end ElectionEngine

/-- Each map of a resharing holds the status of its own phase only. -/
structure ElectionEngine.Marked {f64 : F64} (engine : ElectionEngine f64) : Prop where
  reElection : ∀ p status, engine.reElectionStatus.get? p = some status → status = .reElected
  resharingInit : ∀ p status, engine.reSharingInitStatus.get? p = some status → status = .resharingInit
  resharingRound1 : ∀ p status, engine.reSharingRound1Status.get? p = some status → status = .resharingRound1
  resharingRound2 : ∀ p status, engine.reSharingRound2Status.get? p = some status → status = .resharingRound2

/-! ### The handlers are barriers -/

theorem mem_peerIds {provers : List ProverRecord} {p : PeerId} : p ∈ peerIds provers ↔ ∃ r ∈ provers, r.peerId = p := by
  simp [peerIds]

theorem card_peerIds_le (provers : List ProverRecord) : (peerIds provers).card ≤ provers.length := by
  have h := List.toFinset_card_le (provers.map fun prover => prover.peerId)
  rwa [List.length_map] at h

theorem peerIds_append_comm (provers provers' : List ProverRecord) :
    peerIds (provers ++ provers') = peerIds (provers' ++ provers) := by
  apply Finset.ext
  intro p
  simp only [mem_peerIds, List.mem_append, or_comm]

theorem peerIds_cons (prover : ProverRecord) (provers : List ProverRecord) :
    peerIds (prover :: provers) = insert prover.peerId (peerIds provers) := by
  simp [peerIds]

theorem peerIds_uniqueProvers (seen : Finset PeerId) (provers : List ProverRecord) :
    peerIds (uniqueProvers seen provers) = peerIds provers \ seen ∧
      (uniqueProvers seen provers).length = (peerIds provers \ seen).card := by
  induction provers generalizing seen with
  | nil => simp [uniqueProvers, peerIds]
  | cons prover provers ih =>
    unfold uniqueProvers
    rw [peerIds_cons]
    split
    next hseen =>
      rw [Finset.insert_sdiff_of_mem _ hseen]
      exact ih seen
    next hseen =>
      obtain ⟨hids, hlen⟩ := ih (insert prover.peerId seen)
      have hsdiff : insert prover.peerId (peerIds provers) \ seen =
          insert prover.peerId (peerIds provers \ insert prover.peerId seen) := by
        apply Finset.ext
        intro p
        by_cases hp : p = prover.peerId
        · simp [hp, hseen]
        · simp [hp]
      have hnot : prover.peerId ∉ peerIds provers \ insert prover.peerId seen := by simp
      rw [peerIds_cons, hids, List.length_cons, hlen, hsdiff, Finset.card_insert_of_notMem hnot]
      exact ⟨rfl, rfl⟩

section handlers
variable {b : Barrier PeerId} {isMember : Bool} {p : PeerId} (start : StartMessage)

theorem recordStatus_eq {status : Finset PeerId} (honce : b.once = false) (hmember : isMember = true ↔ p ∈ b.members) :
    recordStatus status isMember b.target start p =
      (b.record status p, if b.Fires status p then [start] else []) := by
  have hrecord : (if isMember then insert p status else status) = b.record status p := by
    simp only [Barrier.record, hmember]
  have hfires : b.Fires status p ↔ (b.record status p).card = b.target := by
    simp [Barrier.Fires, honce]
  simp only [recordStatus, hrecord, hfires]

variable (status : HMap PeerId RelectionStatus) (mark : RelectionStatus)

theorem keys_recordStatusOnce (hmember : isMember = true ↔ p ∈ b.members) :
    (recordStatusOnce status mark isMember b.target start p).1.keys.toFinset = b.record status.keys.toFinset p := by
  unfold recordStatusOnce
  split
  next hskip =>
    have hmem : p ∈ status.keys.toFinset := List.mem_toFinset.2 (HMap.get?_isSome.1 hskip.1)
    rw [Barrier.record, Finset.insert_eq_of_mem hmem, ite_self]
  next =>
    simp only [Barrier.record, ← hmember]
    split
    · apply Finset.ext
      simp [HMap.mem_keys_insert]
    · rfl

variable {start status mark}

theorem card_of_mem_recordStatusOnce (hmember : isMember = true ↔ p ∈ b.members)
    (h : start ∈ (recordStatusOnce status mark isMember b.target start p).2) :
    (b.record status.keys.toFinset p).card = b.target := by
  rw [← keys_recordStatusOnce start status mark hmember, HMap.card_keys]
  unfold recordStatusOnce at h ⊢
  split at h
  · cases h
  next hskip =>
    rw [if_neg hskip]
    by_contra hne
    dsimp only at h hne
    rw [if_neg hne] at h
    cases h

theorem sent_recordStatusOnce (honce : b.once = true) (hmember : isMember = true ↔ p ∈ b.members)
    (hmark : ∀ q s, status.get? q = some s → s = mark) :
    (recordStatusOnce status mark isMember b.target start p).2 =
      if b.Fires status.keys.toFinset p then [start] else [] := by
  have hskip : status.containsKey p ∧ status.get? p = some mark ↔ p ∈ status.keys := by
    constructor
    · exact fun h => HMap.get?_isSome.1 h.1
    · intro h
      obtain ⟨s, hs⟩ := HMap.exists_get? h
      exact ⟨HMap.get?_isSome.2 h, by rw [hs, hmark p s hs]⟩
  have hkeys := keys_recordStatusOnce start status mark hmember
  unfold recordStatusOnce at hkeys ⊢
  by_cases hp : p ∈ status.keys
  · have hnot : ¬ b.Fires status.keys.toFinset p := fun h => h.1 ⟨honce, List.mem_toFinset.2 hp⟩
    rw [if_pos (hskip.2 hp), if_neg hnot]
  · have hfires : b.Fires status.keys.toFinset p ↔ (b.record status.keys.toFinset p).card = b.target := by
      simp [Barrier.Fires, hp]
    rw [if_neg fun h => hp (hskip.1 h)] at hkeys ⊢
    simp only [hfires, ← hkeys, HMap.card_keys]

theorem mark_recordStatusOnce (target : ℕ) (hmark : ∀ q s, status.get? q = some s → s = mark) (q : PeerId)
    (s : RelectionStatus) (h : (recordStatusOnce status mark isMember target start p).1.get? q = some s) : s = mark := by
  unfold recordStatusOnce at h
  split at h
  · exact hmark q s h
  · split at h
    · rw [HMap.get?_insert] at h
      split at h
      · exact (Option.some.inj h).symm
      · exact hmark q s h
    · exact hmark q s h

end handlers

namespace ElectionEngine
variable {f64 : F64} {self : ElectionEngine f64} {phase : Phase} {p : PeerId}

theorem isElected_eq_true : self.isElected p = true ↔ p ∈ peerIds self.electedProvers := by
  simp [isElected, mem_peerIds]

theorem card_members_le_target (self : ElectionEngine f64) (phase : Phase) :
    (self.barrier phase).members.card ≤ (self.barrier phase).target := by
  cases phase <;> first | exact le_refl _ | exact card_peerIds_le _

theorem recordResharingInit_eq (self : ElectionEngine f64) (p : PeerId) :
    self.recordResharingInitNodeStatus p =
      let recorded := recordStatusOnce self.reSharingInitStatus .resharingInit (p ∈ peerIds (self.awaited .resharingInit))
        (self.target .resharingInit) .startResharingRound1 p
      ({ self with reSharingInitStatus := recorded.1 }, recorded.2) := by
  obtain ⟨hids, hlen⟩ := peerIds_uniqueProvers ∅ (self.tstarProvers ++ self.electedProvers)
  rw [Finset.sdiff_empty] at hids hlen
  have hany : ((uniqueProvers ∅ (self.tstarProvers ++ self.electedProvers)).any fun prover => prover.peerId = p) =
      decide (p ∈ peerIds (self.tstarProvers ++ self.electedProvers)) := by
    rw [← hids, Bool.eq_iff_iff]
    simp [mem_peerIds]
  simp only [recordResharingInitNodeStatus, hany, hlen]
  rfl

theorem recordRelection_eq (self : ElectionEngine f64) (p : PeerId) :
    self.recordRelectionNodeStatus p =
      let recorded := recordStatusOnce self.reElectionStatus .reElected (p ∈ peerIds (self.awaited .reElection))
        (self.target .reElection) .startResharingInit p
      ({ self with reElectionStatus := recorded.1 }, recorded.2) := by
  simp only [recordRelectionNodeStatus, peerIds_append_comm self.electedProvers]
  rfl

theorem recorded_record (self : ElectionEngine f64) (phase phase' : Phase) (p : PeerId) :
    (self.record phase p).1.recorded phase' =
      if phase' = phase then (self.barrier phase).record (self.recorded phase) p else self.recorded phase' := by
  by_cases h : phase' = phase
  · subst h
    rw [if_pos rfl]
    cases phase' with
    | election => exact congrArg Prod.fst (recordStatus_eq (b := self.barrier .election) .startDkgInit rfl decide_eq_true_iff)
    | reElection =>
      rw [record, recordRelection_eq]
      exact keys_recordStatusOnce (b := self.barrier .reElection) _ _ _ decide_eq_true_iff
    | dkgInit => exact congrArg Prod.fst (recordStatus_eq (b := self.barrier .dkgInit) .startDkgRound1 rfl isElected_eq_true)
    | resharingInit =>
      rw [record, recordResharingInit_eq]
      exact keys_recordStatusOnce (b := self.barrier .resharingInit) _ _ _ decide_eq_true_iff
    | dkgRound1 => exact congrArg Prod.fst (recordStatus_eq (b := self.barrier .dkgRound1) .startDkgRound2 rfl isElected_eq_true)
    | resharingRound1 => exact keys_recordStatusOnce (b := self.barrier .resharingRound1) _ _ _ isElected_eq_true
    | dkgRound2 => exact congrArg Prod.fst (recordStatus_eq (b := self.barrier .dkgRound2) .startDkgRound3 rfl isElected_eq_true)
    | resharingRound2 => exact keys_recordStatusOnce (b := self.barrier .resharingRound2) _ _ _ isElected_eq_true
  · rw [if_neg h]
    cases phase <;> cases phase' <;> first | rfl | exact absurd rfl h

theorem barrier_record (self : ElectionEngine f64) (phase phase' : Phase) (p : PeerId) :
    (self.record phase p).1.barrier phase' = self.barrier phase' := by
  cases phase <;> rfl

theorem awaited_record (self : ElectionEngine f64) (phase phase' : Phase) (p : PeerId) :
    (self.record phase p).1.awaited phase' = self.awaited phase' := by
  cases phase <;> rfl

theorem sent_record_dkg (self : ElectionEngine f64) (p : PeerId) (hdkg : phase.isResharing = false) :
    (self.record phase p).2 = if (self.barrier phase).Fires (self.recorded phase) p then [phase.start] else [] := by
  cases phase with
  | election => exact congrArg Prod.snd (recordStatus_eq (b := self.barrier .election) .startDkgInit rfl decide_eq_true_iff)
  | dkgInit => exact congrArg Prod.snd (recordStatus_eq (b := self.barrier .dkgInit) .startDkgRound1 rfl isElected_eq_true)
  | dkgRound1 => exact congrArg Prod.snd (recordStatus_eq (b := self.barrier .dkgRound1) .startDkgRound2 rfl isElected_eq_true)
  | dkgRound2 => exact congrArg Prod.snd (recordStatus_eq (b := self.barrier .dkgRound2) .startDkgRound3 rfl isElected_eq_true)
  | reElection | resharingInit | resharingRound1 | resharingRound2 => cases hdkg

theorem card_of_mem_sent (h : phase.start ∈ (self.record phase p).2) :
    ((self.barrier phase).record (self.recorded phase) p).card = (self.barrier phase).target := by
  cases phase with
  | reElection =>
    rw [record, recordRelection_eq] at h
    exact card_of_mem_recordStatusOnce (b := self.barrier .reElection) decide_eq_true_iff h
  | resharingInit =>
    rw [record, recordResharingInit_eq] at h
    exact card_of_mem_recordStatusOnce (b := self.barrier .resharingInit) decide_eq_true_iff h
  | resharingRound1 => exact card_of_mem_recordStatusOnce (b := self.barrier .resharingRound1) isElected_eq_true h
  | resharingRound2 => exact card_of_mem_recordStatusOnce (b := self.barrier .resharingRound2) isElected_eq_true h
  | election | dkgInit | dkgRound1 | dkgRound2 =>
    rw [sent_record_dkg self p rfl] at h
    by_contra hne
    rw [if_neg fun hfires => hne hfires.2] at h
    cases h

theorem Marked.sent_record (hself : self.Marked) (phase : Phase) (p : PeerId) :
    (self.record phase p).2 = if (self.barrier phase).Fires (self.recorded phase) p then [phase.start] else [] := by
  cases phase with
  | reElection =>
    rw [record, recordRelection_eq]
    exact sent_recordStatusOnce (b := self.barrier .reElection) rfl decide_eq_true_iff hself.reElection
  | resharingInit =>
    rw [record, recordResharingInit_eq]
    exact sent_recordStatusOnce (b := self.barrier .resharingInit) rfl decide_eq_true_iff hself.resharingInit
  | resharingRound1 =>
    exact sent_recordStatusOnce (b := self.barrier .resharingRound1) rfl isElected_eq_true hself.resharingRound1
  | resharingRound2 =>
    exact sent_recordStatusOnce (b := self.barrier .resharingRound2) rfl isElected_eq_true hself.resharingRound2
  | election | dkgInit | dkgRound1 | dkgRound2 => exact sent_record_dkg self p rfl

theorem Marked.record (hself : self.Marked) (phase : Phase) (p : PeerId) : (self.record phase p).1.Marked := by
  cases phase with
  | reElection => exact { hself with reElection := mark_recordStatusOnce _ hself.reElection }
  | resharingInit => exact { hself with resharingInit := mark_recordStatusOnce _ hself.resharingInit }
  | resharingRound1 => exact { hself with resharingRound1 := mark_recordStatusOnce _ hself.resharingRound1 }
  | resharingRound2 => exact { hself with resharingRound2 := mark_recordStatusOnce _ hself.resharingRound2 }
  | election | dkgInit | dkgRound1 | dkgRound2 => exact { hself with }

/-! Sequences of reports. -/

def reporters (phase : Phase) (reports : List (Phase × PeerId)) : List PeerId :=
  reports.filterMap fun report => if report.1 = phase then some report.2 else none

theorem mem_reporters {reports : List (Phase × PeerId)} : p ∈ reporters phase reports ↔ (phase, p) ∈ reports := by
  simp only [reporters, List.mem_filterMap, Option.ite_none_right_eq_some, Option.some.injEq]
  constructor
  · rintro ⟨⟨_, _⟩, hmem, rfl, rfl⟩
    exact hmem
  · exact fun hmem => ⟨(phase, p), hmem, rfl, rfl⟩

theorem reporters_map (phase : Phase) (as : List PeerId) : reporters phase (as.map fun a => (phase, a)) = as := by
  simp [reporters, List.filterMap_map]

theorem reporters_cons (phase : Phase) (report : Phase × PeerId) (reports : List (Phase × PeerId)) :
    reporters phase (report :: reports) =
      if phase = report.1 then report.2 :: reporters phase reports else reporters phase reports := by
  rw [reporters, List.filterMap_cons]
  by_cases h : phase = report.1
  · rw [if_pos h, if_pos h.symm]
    rfl
  · rw [if_neg h, if_neg (Ne.symm h)]
    rfl

theorem recordAll_cons (self : ElectionEngine f64) (report : Phase × PeerId) (reports : List (Phase × PeerId)) :
    self.recordAll (report :: reports) =
      (((self.record report.1 report.2).1.recordAll reports).1,
        (self.record report.1 report.2).2 ++ ((self.record report.1 report.2).1.recordAll reports).2) := rfl

theorem barrier_recordAll (self : ElectionEngine f64) (reports : List (Phase × PeerId)) (phase : Phase) :
    (self.recordAll reports).1.barrier phase = self.barrier phase := by
  induction reports generalizing self with
  | nil => rfl
  | cons report reports ih => exact (ih _).trans (barrier_record self report.1 phase report.2)

theorem recorded_recordAll (self : ElectionEngine f64) (reports : List (Phase × PeerId)) (phase : Phase) :
    (self.recordAll reports).1.recorded phase =
      (self.barrier phase).recordAll (self.recorded phase) (reporters phase reports) := by
  induction reports generalizing self with
  | nil => rfl
  | cons report reports ih =>
    rw [recordAll_cons, ih, barrier_record, recorded_record, reporters_cons]
    split
    next h =>
      subst h
      rfl
    next => rfl

theorem awaited_recordAll (self : ElectionEngine f64) (reports : List (Phase × PeerId)) (phase : Phase) :
    (self.recordAll reports).1.awaited phase = self.awaited phase := by
  induction reports generalizing self with
  | nil => rfl
  | cons report reports ih => exact (ih _).trans (awaited_record self report.1 phase report.2)

/-- If only reports of those that are waited for are recorded, all of them have reported when the next phase is
started. -/
theorem all_reported {reports : List (Phase × PeerId)}
    (hrecorded : self.recorded phase ⊆ (reporters phase reports).toFinset ∩ (self.barrier phase).members)
    (hsent : phase.start ∈ (self.record phase p).2) :
    ∀ r ∈ self.awaited phase, (phase, r.peerId) ∈ reports ++ [(phase, p)] := by
  intro r hr
  have hsub := Barrier.subset_of_card_eq hrecorded (card_members_le_target self phase) (card_of_mem_sent hsent)
  have hmem : r.peerId ∈ (self.barrier phase).members := mem_peerIds.2 ⟨r, hr, rfl⟩
  rw [List.mem_append, List.mem_singleton]
  rcases Finset.mem_insert.1 (hsub hmem) with h | h
  · exact .inr (by rw [h])
  · exact .inl (mem_reporters.1 (List.mem_toFinset.1 h))

theorem Marked.count_recordAll (hself : self.Marked) (reports : List (Phase × PeerId)) (phase : Phase) :
    (self.recordAll reports).2.count phase.start =
      (self.barrier phase).fires (self.recorded phase) (reporters phase reports) := by
  induction reports generalizing self with
  | nil => rfl
  | cons report reports ih =>
    rw [recordAll_cons, List.count_append, ih (hself.record report.1 report.2), barrier_record, recorded_record,
      hself.sent_record, reporters_cons]
    by_cases h : phase = report.1
    · subst h
      rw [if_pos rfl, if_pos rfl, Barrier.fires]
      split
      · rw [List.count_singleton_self]
      · rw [List.count_nil]
    · rw [if_neg h, if_neg h]
      have hstart : report.1.start ≠ phase.start := fun heq => h (Phase.start_injective heq).symm
      split
      · rw [List.count_singleton, beq_false_of_ne hstart]
        simp
      · rw [List.count_nil, Nat.zero_add]

end ElectionEngine

/-! ### Histories of the relay -/

/-- The state of an actor that failed and was started again: the globals of the process stay where nothing is
saved. -/
def ElectionEngine.reboot {f64 : F64} (self : ElectionEngine f64) : ElectionEngine f64 :=
  { ElectionEngine.preStart f64 self.peerId self.relayNode self.saved with
    globals :=
      { threshold := self.saved.params.threshold.getD self.globals.threshold
        epsilon := self.saved.params.epsilon.getD self.globals.epsilon
        minNodes := self.saved.params.minNodes.getD self.globals.minNodes } }

/-- The election actor of the relay. `reports` are those since the last trigger, which no actor keeps. -/
structure RelayElection (f64 : F64) where
  engine : ElectionEngine f64
  reports : List (Phase × PeerId)

inductive RelayElectionEvent (env : ElectionEnv) where
  | updateElectionParams (params : ElectionParams env.f64) (written : Bool × Bool × Bool)
  | firstElection (reply : FirstElectionReply)
  | reElection (prevElectedProvers : List ProverInfo) (reply : ReElectionReply)
  | report (phase : Phase) (peerId : PeerId)
  | restart

namespace RelayElection
open ElectionEngine

def init (f64 : F64) (peerId relayNode : PeerId) (saved : SavedElection f64) : RelayElection f64 :=
  ⟨.preStart f64 peerId relayNode saved, []⟩

inductive Step (env : ElectionEnv) : RelayElection env.f64 → RelayElectionEvent env → RelayElection env.f64 → Prop
  | updateElectionParams {s params written engine} (h : s.engine.updateElectionParams params written = .ok engine) :
    Step env s (.updateElectionParams params written) { s with engine := engine }
  | firstElection {s reply engine casts} (h : s.engine.handleTriggerElection env reply = .ok (some (engine, casts))) :
    Step env s (.firstElection reply) ⟨engine, []⟩
  | firstElectionFailed {s reply fault} (h : s.engine.handleTriggerElection env reply = .error fault) :
    Step env s (.firstElection reply) ⟨s.engine.reboot, []⟩
  | reElection {s prev reply engine casts} (h : s.engine.triggerReElection env prev reply = .ok (some (engine, casts))) :
    Step env s (.reElection prev reply) ⟨engine, []⟩
  | reElectionFailed {s prev reply fault} (h : s.engine.triggerReElection env prev reply = .error fault) :
    Step env s (.reElection prev reply) ⟨s.engine.reboot, []⟩
  | report {s phase p} : Step env s (.report phase p) ⟨(s.engine.record phase p).1, s.reports ++ [(phase, p)]⟩
  | restart {s} : Step env s .restart
      { s with engine := .preStart env.f64 s.engine.peerId s.engine.relayNode s.engine.saved }

variable {env : ElectionEnv} {s s₀ s₁ : RelayElection env.f64} {e : RelayElectionEvent env}

def NoFirstElection (_ : RelayElection env.f64) : RelayElectionEvent env → Prop
  | .firstElection _ => False
  | _ => True

/-- What is recorded of a resharing was reported since the trigger, by those that are waited for. -/
def Reported (s : RelayElection env.f64) : Prop :=
  ∀ phase, phase.isResharing = true → s.engine.recorded phase ⊆
    (reporters phase s.reports).toFinset ∩ (s.engine.barrier phase).members

theorem reported_of_empty (h : ∀ phase, s.engine.recorded phase = ∅) : s.Reported := by
  intro phase _
  rw [h phase]
  exact Finset.empty_subset _

theorem recorded_reElection {self self' : ElectionEngine env.f64} {prev : List ProverInfo} {reply : ReElectionReply}
    {casts : List ElectionCast} (h : self.triggerReElection env prev reply = .ok (some (self', casts))) (phase : Phase) :
    self'.recorded phase = ∅ := by
  rcases triggerReElection_cases h with ⟨rfl, -⟩ | ⟨_, _, _, hann⟩
  · cases phase <;> rfl
  · rw [hann.engine]
    cases phase <;> rfl

theorem recorded_preStart (peerId relayNode : PeerId) (saved : SavedElection env.f64) (phase : Phase) :
    (ElectionEngine.preStart env.f64 peerId relayNode saved).recorded phase = ∅ := by
  cases phase <;> rfl

theorem recorded_reboot (self : ElectionEngine env.f64) (phase : Phase) : self.reboot.recorded phase = ∅ := by
  cases phase <;> rfl

theorem Reported.report (hs : s.Reported) (phase : Phase) (p : PeerId) :
    Reported ⟨(s.engine.record phase p).1, s.reports ++ [(phase, p)]⟩ := by
  intro phase' hphase'
  show (s.engine.record phase p).1.recorded phase' ⊆
    (reporters phase' (s.reports ++ [(phase, p)])).toFinset ∩ ((s.engine.record phase p).1.barrier phase').members
  have hold := hs phase' hphase'
  rw [recorded_record, barrier_record]
  intro q hq
  have hreported : q ∈ s.engine.recorded phase' ∨ phase' = phase ∧ q = p ∧ q ∈ (s.engine.barrier phase').members := by
    split at hq
    next h =>
      subst h
      rw [Barrier.record_eq, Finset.mem_union, Finset.mem_inter, Finset.mem_singleton] at hq
      exact hq.imp_right fun hq => ⟨rfl, hq⟩
    next => exact .inl hq
  rw [Finset.mem_inter, List.mem_toFinset, mem_reporters, List.mem_append, List.mem_singleton]
  rcases hreported with hq | ⟨rfl, rfl, hmem⟩
  · have hq := Finset.mem_inter.1 (hold hq)
    exact ⟨.inl (mem_reporters.1 (List.mem_toFinset.1 hq.1)), hq.2⟩
  · exact ⟨.inr rfl, hmem⟩

theorem Reported.step (hs : s.Reported) (hok : NoFirstElection s e) (h : Step env s e s₁) : s₁.Reported := by
  cases h with
  | updateElectionParams h =>
    obtain ⟨-, _, _, rfl⟩ := ElectionEngine.updateElectionParams_eq_ok h
    intro phase hphase
    have hold := hs phase hphase
    cases phase <;> exact hold
  | firstElection h => exact hok.elim
  | firstElectionFailed h => exact hok.elim
  | reElection h => exact reported_of_empty (recorded_reElection h)
  | reElectionFailed h => exact reported_of_empty (recorded_reboot _)
  | report => exact hs.report _ _
  | restart => exact reported_of_empty (recorded_preStart _ _ _)

/-- After a re-election, and as long as no first election comes, the next phase of a resharing is started only when all
that it waits for have reported the phase before since the last trigger. -/
theorem resharing_barriers_wait (env : ElectionEnv) (s₀ s₁ s : RelayElection env.f64) (prev : List ProverInfo)
    (reply : ReElectionReply) (htrigger : Step env s₀ (.reElection prev reply) s₁)
    (hrun : Reach (Step env) NoFirstElection s₁ s) (phase : Phase) (hphase : phase.isResharing = true) (p : PeerId)
    (hsent : phase.start ∈ (s.engine.record phase p).2) :
    ∀ r ∈ s.engine.awaited phase, (phase, r.peerId) ∈ s.reports ++ [(phase, p)] := by
  have hstart : s₁.Reported := by
    cases htrigger with
    | reElection h => exact reported_of_empty (recorded_reElection h)
    | reElectionFailed h => exact reported_of_empty (recorded_reboot _)
  have hs : s.Reported := hrun.invariant hstart fun hs hok hstep => hs.step hok hstep
  exact all_reported (hs phase hphase) hsent

theorem reach_reports {ok : RelayElection env.f64 → RelayElectionEvent env → Prop} (hok : ∀ s phase p, ok s (.report phase p))
    (s : RelayElection env.f64) (reports : List (Phase × PeerId)) :
    Reach (Step env) ok s ⟨(s.engine.recordAll reports).1, s.reports ++ reports⟩ := by
  induction reports generalizing s with
  | nil =>
    rw [List.append_nil]
    exact Reach.refl
  | cons report reports ih =>
    have h := ih ⟨(s.engine.record report.1 report.2).1, s.reports ++ [report]⟩
    rw [List.append_assoc] at h
    exact Reach.head (hok s report.1 report.2) .report h

def freshRelay : RelayElection openElection.f64 := init exactF64 "relay" "relay" ⟨none, ⟨none, none, none⟩⟩

/-- A re-election from `a`, `b`, `c` to `d`, `e`, `f`, in which `b` and `c` can be reached. -/
def movedRelay : ElectionEngine openElection.f64 :=
  { freshRelay.engine with
    tstarProvers := [recordOf "b" 5, recordOf "c" 6], electedProvers := [recordOf "d" 2, recordOf "e" 3, recordOf "f" 4] }

theorem movedRelay_elected : Step openElection freshRelay
    (.reElection (threeProvers.map fun p => p.toProverInfo) (allAnswer ["boot", "relay", "d", "e", "f", "b", "c"]))
    ⟨movedRelay, []⟩ :=
  .reElection rfl

theorem resharing_barriers_wait_movedRelay :
    let reports := [(Phase.reElection, "b"), (.reElection, "d"), (.reElection, "c"), (.reElection, "e")]
    StartMessage.startResharingInit ∈ ((movedRelay.recordAll reports).1.record .reElection "f").2 ∧
      ∀ r ∈ (movedRelay.recordAll reports).1.awaited .reElection,
        (Phase.reElection, r.peerId) ∈ reports ++ [(.reElection, "f")] := by
  intro reports
  have hsent : StartMessage.startResharingInit ∈ ((movedRelay.recordAll reports).1.record .reElection "f").2 := by decide
  have hrun : Reach (Step openElection) NoFirstElection ⟨movedRelay, []⟩ _ :=
    reach_reports (fun _ _ _ => trivial) ⟨movedRelay, []⟩ reports
  exact ⟨hsent, resharing_barriers_wait openElection _ _ _ _ _ movedRelay_elected hrun .reElection rfl "f" hsent⟩

/-! ### First elections -/

theorem recorded_firstElection {self self' : ElectionEngine env.f64} {reply : FirstElectionReply} {casts : List ElectionCast}
    (h : self.handleTriggerElection env reply = .ok (some (self', casts))) :
    self'.recorded .election = self.electionStatus ∧
      ∀ phase, phase.isResharing = false → phase ≠ .election → self'.recorded phase = ∅ := by
  obtain ⟨_, _, _, -, -, -, -, rfl, -⟩ := handleTriggerElection_eq_ok h
  refine ⟨rfl, fun phase hdkg hne => ?_⟩
  cases phase with
  | election => exact absurd rfl hne
  | dkgInit | dkgRound1 | dkgRound2 => rfl
  | reElection | resharingInit | resharingRound1 | resharingRound2 => cases hdkg

theorem waits_of_empty {f64 : F64} {self : ElectionEngine f64} {phase : Phase} (hempty : self.recorded phase = ∅)
    (reports : List (Phase × PeerId)) (p : PeerId)
    (hsent : phase.start ∈ ((self.recordAll reports).1.record phase p).2) :
    ∀ r ∈ self.awaited phase, (phase, r.peerId) ∈ reports ++ [(phase, p)] := by
  have hrecorded : (self.recordAll reports).1.recorded phase ⊆
      (reporters phase reports).toFinset ∩ ((self.recordAll reports).1.barrier phase).members := by
    rw [barrier_recordAll, recorded_recordAll, hempty, Barrier.recordAll_eq, Finset.empty_union]
  have hreported := all_reported hrecorded hsent
  rwa [awaited_recordAll] at hreported

/-- After a first election, the phases of the key generation are started only when all elected provers have reported
the phase before since the election, whatever is reported, exactly if `election_status` was empty before the
election, or larger than the new quorum. -/
theorem dkg_barriers_wait_iff (env : ElectionEnv) (self self' : ElectionEngine env.f64) (reply : FirstElectionReply)
    (casts : List ElectionCast) (h : self.handleTriggerElection env reply = .ok (some (self', casts))) :
    (∀ reports phase p, phase.isResharing = false → phase.start ∈ ((self'.recordAll reports).1.record phase p).2 →
      ∀ r ∈ self'.electedProvers, (phase, r.peerId) ∈ reports ++ [(phase, p)]) ↔
    self.electionStatus = ∅ ∨ (peerIds self'.electedProvers).card < self.electionStatus.card := by
  obtain ⟨helection, hcleared⟩ := recorded_firstElection h
  constructor
  · intro hwaits
    by_contra hcond
    obtain ⟨hne, hle⟩ := not_or.1 hcond
    rw [← helection] at hne hle
    obtain ⟨as, a, hfires, m, hm, has, ha⟩ := Barrier.exists_early (b := self'.barrier .election) rfl
      (Finset.nonempty_iff_ne_empty.2 hne) (not_lt.1 hle)
    obtain ⟨r, hr, rfl⟩ := mem_peerIds.1 hm
    have hsent : Phase.start .election ∈ ((self'.recordAll (as.map fun a => (.election, a))).1.record .election a).2 := by
      rw [sent_record_dkg _ a rfl, barrier_recordAll, recorded_recordAll, reporters_map, if_pos hfires]
      exact List.mem_singleton.2 rfl
    rcases List.mem_append.1 (hwaits _ .election a rfl hsent r hr) with hmem | hmem
    · exact has (by simpa using hmem)
    · exact ha (by simpa using hmem)
  · intro hcond reports phase p hdkg hsent r hr
    have hr : r ∈ self'.awaited phase := by
      cases phase with
      | election | dkgInit | dkgRound1 | dkgRound2 => exact hr
      | reElection | resharingInit | resharingRound1 | resharingRound2 => cases hdkg
    by_cases hphase : phase = .election
    · subst hphase
      rcases hcond with hempty | hlt
      · exact waits_of_empty (helection.trans hempty) reports p hsent r hr
      · -- more are recorded than the barrier waits for
        have hcard := card_of_mem_sent hsent
        rw [barrier_recordAll, recorded_recordAll, helection] at hcard
        have hle : self.electionStatus.card ≤ (self'.barrier .election).target := by
          rw [← hcard]
          exact Finset.card_le_card ((Barrier.subset_recordAll _ _).trans (Barrier.subset_record _ p))
        exact absurd hlt (not_lt.2 hle)
    · exact waits_of_empty (hcleared phase hdkg hphase) reports p hsent r hr

def electedRelay (electionStatus : Finset PeerId) (elected : List ProverRecord) : ElectionEngine openElection.f64 :=
  { freshRelay.engine with
    currentState := .quorumElected
    electedProvers := elected
    currentThreshold := calculateThreshold exactF64 3 (60 : ℚ)
    electionStatus := electionStatus }

def firstReply (names : List PeerId) : FirstElectionReply := ⟨registryOf names, [fun _ => true]⟩

theorem freshRelay_elects : ∃ casts, freshRelay.engine.handleTriggerElection openElection
    (firstReply ["boot", "relay", "a", "b", "c"]) = .ok (some (electedRelay ∅ threeProvers, casts)) := ⟨_, rfl⟩

theorem dkg_barriers_wait_iff_fresh :
    freshRelay.engine.electionStatus = ∅ ∧ ∀ reports phase p, phase.isResharing = false →
      phase.start ∈ (((electedRelay ∅ threeProvers).recordAll reports).1.record phase p).2 →
      ∀ r ∈ threeProvers, (phase, r.peerId) ∈ reports ++ [(phase, p)] := by
  obtain ⟨casts, h⟩ := freshRelay_elects
  exact ⟨rfl, (dkg_barriers_wait_iff openElection _ _ _ casts h).2 (.inl rfl)⟩

/-- A key generation that is restarted with `b`, `c` and `d` after `a`, `b` and `c` had reported their election: the
first report starts it. -/
theorem restarted_dkg_starts_early : ∃ s₁ s₂ s₃ : RelayElection openElection.f64,
    Step openElection freshRelay (.firstElection (firstReply ["boot", "relay", "a", "b", "c"])) s₁ ∧
    Reach (Step openElection) (fun _ e => ∃ p, e = .report .election p) s₁ s₂ ∧
    Step openElection s₂ (.firstElection (firstReply ["boot", "relay", "b", "c", "d"])) s₃ ∧
    s₃.engine.electedProvers = [recordOf "b" 2, recordOf "c" 3, recordOf "d" 4] ∧
    StartMessage.startDkgInit ∈ (s₃.engine.record .election "b").2 ∧ (Phase.election, "c") ∉ s₃.reports := by
  obtain ⟨casts, hfirst⟩ := freshRelay_elects
  have h₁ : Step openElection freshRelay (.firstElection (firstReply ["boot", "relay", "a", "b", "c"]))
      ⟨electedRelay ∅ threeProvers, []⟩ := .firstElection hfirst
  let restarted : RelayElection openElection.f64 :=
    ⟨electedRelay {"c", "b", "a"} [recordOf "b" 2, recordOf "c" 3, recordOf "d" 4], []⟩
  have h₂ : Reach (Step openElection) (fun _ e => ∃ p, e = .report .election p) ⟨electedRelay ∅ threeProvers, []⟩
      ⟨electedRelay {"c", "b", "a"} threeProvers, _⟩ :=
    ((Reach.refl.tail ⟨"a", rfl⟩ .report).tail ⟨"b", rfl⟩ .report).tail ⟨"c", rfl⟩ .report
  exact ⟨_, _, restarted, h₁, h₂, .firstElection rfl, rfl, by decide, by decide⟩

/-! ### One start for each phase -/

theorem marked_of_empty {engine : ElectionEngine env.f64} (h : ∀ phase, engine.recorded phase = ∅) : engine.Marked := by
  have hnone : ∀ {m : HMap PeerId RelectionStatus} {p status}, m.keys.toFinset = ∅ → m.get? p ≠ some status := by
    intro m p status hm hp
    have hmem : p ∈ m.keys.toFinset := List.mem_toFinset.2 (HMap.get?_isSome.1 (by rw [hp]; rfl))
    rw [hm] at hmem
    exact Finset.notMem_empty p hmem
  exact ⟨fun _ _ hp => absurd hp (hnone (h .reElection)), fun _ _ hp => absurd hp (hnone (h .resharingInit)),
    fun _ _ hp => absurd hp (hnone (h .resharingRound1)), fun _ _ hp => absurd hp (hnone (h .resharingRound2))⟩

theorem marked_step {s s' : RelayElection env.f64} (hs : s.engine.Marked) (h : Step env s e s') : s'.engine.Marked := by
  cases h with
  | updateElectionParams h =>
    obtain ⟨-, _, _, rfl⟩ := ElectionEngine.updateElectionParams_eq_ok h
    exact { hs with }
  | firstElection h =>
    obtain ⟨_, _, _, -, -, -, -, rfl, -⟩ := handleTriggerElection_eq_ok h
    exact { hs with }
  | firstElectionFailed h => exact marked_of_empty (recorded_reboot _)
  | reElection h => exact marked_of_empty (recorded_reElection h)
  | reElectionFailed h => exact marked_of_empty (recorded_reboot _)
  | report => exact hs.record _ _
  | restart => exact marked_of_empty (recorded_preStart _ _ _)

inductive Trigger where
  | firstElection (reply : FirstElectionReply)
  | reElection (prevElectedProvers : List ProverInfo) (reply : ReElectionReply)

def Elects (env : ElectionEnv) (self : ElectionEngine env.f64) (engine : ElectionEngine env.f64) : Trigger → Prop
  | .firstElection reply => ∃ casts, self.handleTriggerElection env reply = .ok (some (engine, casts))
  | .reElection prev reply => ∃ casts, self.triggerReElection env prev reply = .ok (some (engine, casts))

/-- The reports from before the election that the handlers still count. -/
def leftover {f64 : F64} (self : ElectionEngine f64) : Trigger → Phase → Finset PeerId
  | .firstElection _, .dkgInit | .firstElection _, .dkgRound1 | .firstElection _, .dkgRound2 => ∅
  | .firstElection _, phase => self.recorded phase
  | .reElection _ _, _ => ∅

theorem Elects.recorded {self engine : ElectionEngine env.f64} {trigger : Trigger} (h : Elects env self engine trigger)
    (phase : Phase) : engine.recorded phase = leftover self trigger phase := by
  cases trigger with
  | firstElection reply =>
    obtain ⟨casts, h⟩ := h
    obtain ⟨_, _, _, -, -, -, -, rfl, -⟩ := handleTriggerElection_eq_ok h
    cases phase <;> rfl
  | reElection prev reply =>
    obtain ⟨casts, h⟩ := h
    exact recorded_reElection h phase

theorem Elects.marked {engine : ElectionEngine env.f64} {trigger : Trigger} (hs : s.engine.Marked)
    (h : Elects env s.engine engine trigger) : engine.Marked := by
  cases trigger with
  | firstElection reply =>
    obtain ⟨casts, h⟩ := h
    exact marked_step hs (.firstElection h)
  | reElection prev reply =>
    obtain ⟨casts, h⟩ := h
    exact marked_step hs (.reElection h)

/-- The messages of an election: each phase is started once at most exactly if its reports are quiet. The condition counts
the status sets before the election and the reports of those that the phase waits for. -/
theorem starts_once_iff (env : ElectionEnv) (peerId relayNode : PeerId) (saved : SavedElection env.f64)
    (s : RelayElection env.f64) (hrun : Reach (Step env) (fun _ _ => True) (init env.f64 peerId relayNode saved) s)
    (trigger : Trigger) (engine : ElectionEngine env.f64) (helects : Elects env s.engine engine trigger)
    (reports : List (Phase × PeerId)) :
    (∀ start, (engine.recordAll reports).2.count start ≤ 1) ↔
      ∀ phase, (engine.barrier phase).Quiet (leftover s.engine trigger phase) (reporters phase reports) := by
  have hmarked : s.engine.Marked :=
    hrun.invariant (I := fun s => s.engine.Marked) (marked_of_empty (recorded_preStart _ _ _)) fun hs _ hstep => marked_step hs hstep
  simp only [← helects.recorded, ← Barrier.fires_le_one_iff, ← (helects.marked hmarked).count_recordAll]
  constructor
  · exact fun h phase => h phase.start
  · intro h start
    obtain ⟨phase, rfl⟩ := Phase.start_surjective start
    exact h phase

theorem electedRelay_reached : Reach (Step openElection) (fun _ _ => True)
    freshRelay ⟨electedRelay ∅ threeProvers, []⟩ := by
  obtain ⟨casts, hfirst⟩ := freshRelay_elects
  exact Reach.refl.tail trivial (.firstElection hfirst)

theorem starts_once_iff_electedRelay :
    let sent := ((electedRelay ∅ threeProvers).recordAll [(.dkgInit, "a"), (.dkgInit, "b"), (.dkgInit, "c")]).2
    sent = [.startDkgRound1] ∧ ∀ start, sent.count start ≤ 1 := by
  let trigger : Trigger := .firstElection (firstReply ["boot", "relay", "a", "b", "c"])
  have helects : Elects openElection freshRelay.engine (electedRelay ∅ threeProvers) trigger := freshRelay_elects
  refine ⟨by decide, (starts_once_iff openElection "relay" "relay" _ freshRelay .refl trigger _ helects _).2 fun phase => ?_⟩
  have hempty : leftover freshRelay.engine trigger phase = ∅ := by
    cases phase <;> rfl
  rw [hempty, Barrier.quiet_empty_iff (by cases phase <;> decide) (by cases phase <;> decide)]
  -- nobody reports after all three have
  intro before p after hsplit hsub
  have hcard : 3 ≤ before.length := by
    have hle := (Finset.card_le_card hsub).trans (List.toFinset_card_le before)
    exact le_trans (by cases phase <;> decide) hle
  have hlen : (reporters phase [(.dkgInit, "a"), (.dkgInit, "b"), (.dkgInit, "c")]).length ≤ 3 := List.length_filterMap_le _ _
  rw [hsplit, List.length_append, List.length_cons] at hlen
  omega

/-- A repeated report starts a round of the key generation again, and the report of an outsider a resharing. -/
theorem started_twice :
    (∃ s, Reach (Step openElection) (fun _ _ => True) freshRelay s ∧
      s.engine.electedProvers = threeProvers ∧
      (s.engine.recordAll [(.dkgInit, "a"), (.dkgInit, "b"), (.dkgInit, "c"), (.dkgInit, "c")]).2 =
        [.startDkgRound1, .startDkgRound1]) ∧
    ∃ s, Step openElection freshRelay (.reElection (threeProvers.map fun p => p.toProverInfo)
        (allAnswer ["boot", "relay", "d", "e", "f", "b", "c"])) s ∧
      (s.engine.recordAll [(.reElection, "b"), (.reElection, "c"), (.reElection, "d"), (.reElection, "e"),
        (.reElection, "f"), (.reElection, "x")]).2 = [.startResharingInit, .startResharingInit] := by
  exact ⟨⟨_, electedRelay_reached, rfl, by decide⟩, _, movedRelay_elected, by decide⟩

end RelayElection

end HumanNetwork
