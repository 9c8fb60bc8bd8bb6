import HumanNetwork.Election
import HumanNetwork.QuorumRelay

/-!
# The quorum monitor (`monitor_quorum_formation` in `app_state_actor.rs`)

The monitor is a task beside the actor. Once a second it compares the counter of stored ksets with the number of
active provers at its start, and after 120 comparisons that fail it gives up. `Monitor.run` is the task under a
schedule, that is the order in which its ticks and the ksets at the actor happen.

During a resharing the active provers at the start are those of the old quorum: `monitor_decides_iff` says for which
relays the monitor decides every schedule by the ksets of the new quorum.
-/

namespace HumanNetwork

inductive MonitorCast where
  | saveCurrentState
  | gossipSaveCurrentState
  | firstElection
  | rollbackToPreviousState
  | gossipRollbackToPreviousState
  | preResharing (afterSecs : ℕ)
  | quorumResharingStatus (success : Bool) (multipliers : List ProverInfo)
deriving DecidableEq, Repr

def dkgResharingWaitTime : ℕ := 120
def maxResharingAttemptsAtATime : ℕ := 3
def resharingReattemptWaitTime : ℕ := 60 * 60

structure Monitor where
  event : MonitorEvent
  noOfSharesToMonitor : ℕ
  timeElapsed : ℕ

inductive MonitorStep where
  | kset (peerId : PeerId) (shares : PubkeyShares) (idx : ℕ)
  | tick

namespace Monitor

def succeed (state : QuorumRelay) : QuorumRelay × List MonitorCast :=
  (state, [.saveCurrentState, .gossipSaveCurrentState, .quorumResharingStatus true state.relay.activeProvers])

def timeOut (event : MonitorEvent) (state : QuorumRelay) : QuorumRelay × List MonitorCast :=
  let state := { state with noOfSharesReceived := 0 }
  let status := MonitorCast.quorumResharingStatus false state.relay.activeProvers
  match event with
  | .dkg => (state, [.firstElection])
  | .resharing =>
    if state.resharingFailureCount ≤ maxResharingAttemptsAtATime then
      ({ state with resharingFailureCount := state.resharingFailureCount + 1 },
        [.rollbackToPreviousState, .gossipRollbackToPreviousState, .preResharing resharingReattemptWaitTime, status])
    else (state, [.rollbackToPreviousState, .gossipRollbackToPreviousState, status])

/-- The loop of the monitor: the state and the messages with which it ends, if it does. -/
def run (monitor : Monitor) (state : QuorumRelay) : List MonitorStep → Option (QuorumRelay × List MonitorCast)
  | [] => none
  | .kset peerId shares idx :: steps => run monitor (state.storeResharingKset peerId shares idx) steps
  | .tick :: steps =>
    if state.noOfSharesReceived = monitor.noOfSharesToMonitor then some (succeed state)
    else if monitor.timeElapsed + 1 ≥ dkgResharingWaitTime then some (timeOut monitor.event state)
    else run { monitor with timeElapsed := monitor.timeElapsed + 1 } state steps

end Monitor

def monitorQuorumFormation (event : MonitorEvent) (state : QuorumRelay) (steps : List MonitorStep) :
    Option (QuorumRelay × List MonitorCast) :=
  Monitor.run ⟨event, state.relay.activeProvers.length, 0⟩ state steps

namespace MonitorStep

def isTick : MonitorStep → Bool
  | kset .. => false
  | tick => true

/-- The steps that happen before the given number of ticks is reached. -/
def before : ℕ → List MonitorStep → List MonitorStep
  | _, [] => []
  | ticks, kset peerId shares idx :: steps => kset peerId shares idx :: before ticks steps
  | ticks, tick :: steps => if ticks ≤ 1 then [] else tick :: before (ticks - 1) steps

end MonitorStep

namespace QuorumRelay

def stored (state : QuorumRelay) : Finset PeerId := state.relay.pubkeyShares.keys.toFinset
def elected (state : QuorumRelay) : Finset PeerId := proverIds state.relay.newCachedElectedProvers

def deliver (state : QuorumRelay) : MonitorStep → QuorumRelay
  | .kset peerId shares idx => state.storeResharingKset peerId shares idx
  | .tick => state

def deliverAll (state : QuorumRelay) (steps : List MonitorStep) : QuorumRelay := steps.foldl deliver state

variable {state : QuorumRelay} {peerId : PeerId} {shares : PubkeyShares} {idx : ℕ} {steps : List MonitorStep}

variable (state peerId shares idx) in
theorem elected_storeResharingKset : (state.storeResharingKset peerId shares idx).elected = state.elected := by
  rw [elected, relay_storeResharingKset, storeResharingKset_eq]
  split <;> rfl

variable (state peerId shares idx) in
theorem stored_storeResharingKset : (state.storeResharingKset peerId shares idx).stored =
    if state.relay.acceptsResharingKset peerId shares then insert peerId state.stored else state.stored := by
  rw [stored, relay_storeResharingKset, storeResharingKset_eq]
  split
  · ext p
    simp [stored, HMap.mem_keys_insert]
  · rfl

/-- A kset of a usual size sets the counter, whoever sent it. -/
theorem noOfSharesReceived_storeResharingKset (hmemory : checkMemoryUsage shares 100 = true) :
    (state.storeResharingKset peerId shares idx).noOfSharesReceived =
      (state.storeResharingKset peerId shares idx).stored.card := by
  rw [stored, HMap.card_keys]
  unfold storeResharingKset
  rw [if_neg (not_not.2 hmemory)]

theorem subset_stored_deliver (step : MonitorStep) : state.stored ⊆ (state.deliver step).stored := by
  cases step with
  | tick => exact subset_rfl
  | kset peerId shares idx =>
    rw [deliver, stored_storeResharingKset]
    split
    · exact Finset.subset_insert _ _
    · exact subset_rfl

theorem subset_stored_deliverAll : state.stored ⊆ (state.deliverAll steps).stored := by
  induction steps generalizing state with
  | nil => exact subset_rfl
  | cons step steps ih => exact (subset_stored_deliver step).trans ih

/-- Every member of the new quorum has stored its kset when the steps have happened. -/
def QuorumStored (state : QuorumRelay) (steps : List MonitorStep) : Prop := state.elected ⊆ (state.deliverAll steps).stored

end QuorumRelay

/-- The messages of a resharing's monitor that say whether it was successful. -/
structure Reports (casts : List MonitorCast) (success : Prop) : Prop where
  saves : MonitorCast.saveCurrentState ∈ casts ↔ success
  rollsBack : MonitorCast.rollbackToPreviousState ∈ casts ↔ ¬ success
  status : ∀ ok multipliers, MonitorCast.quorumResharingStatus ok multipliers ∈ casts → (ok = true ↔ success)

theorem reports_succeed {state : QuorumRelay} {success : Prop} (h : success) : Reports (Monitor.succeed state).2 success := by
  refine ⟨?_, ?_, fun ok multipliers hmem => ?_⟩
  · simp [Monitor.succeed, h]
  · simp [Monitor.succeed, h]
  · simp only [Monitor.succeed, List.mem_cons, reduceCtorEq, MonitorCast.quorumResharingStatus.injEq, List.not_mem_nil,
      or_false, false_or] at hmem
    simp [hmem.1, h]

theorem reports_timeOut {state : QuorumRelay} {success : Prop} (h : ¬ success) :
    Reports (Monitor.timeOut .resharing state).2 success := by
  unfold Monitor.timeOut
  dsimp only
  split
  all_goals
    refine ⟨?_, ?_, fun ok multipliers hmem => ?_⟩
    · simp [h]
    · simp [h]
    · simp only [List.mem_cons, reduceCtorEq, MonitorCast.quorumResharingStatus.injEq, List.not_mem_nil,
        or_false, false_or] at hmem
      simp [hmem.1, h]

/-- The counter tells whether the new quorum has stored its ksets. -/
structure Exact (target : ℕ) (state : QuorumRelay) : Prop where
  size : (state.stored ∪ state.elected).card = target
  counter : state.noOfSharesReceived = target ↔ state.elected ⊆ state.stored

namespace Exact
variable {target : ℕ} {state : QuorumRelay}

theorem card_stored_iff (hsize : (state.stored ∪ state.elected).card = target) :
    state.stored.card = target ↔ state.elected ⊆ state.stored := by
  rw [← hsize]
  constructor
  · intro hcard
    have hsub : state.stored ⊆ state.stored ∪ state.elected := Finset.subset_union_left
    rw [Finset.eq_of_subset_of_card_le hsub hcard.ge]
    exact Finset.subset_union_right
  · intro hsub
    rw [Finset.union_eq_left.2 hsub]

theorem storeResharingKset (h : Exact target state) (peerId : PeerId) (shares : PubkeyShares) (idx : ℕ) :
    Exact target (state.storeResharingKset peerId shares idx) := by
  by_cases hmemory : checkMemoryUsage shares 100 = true
  · have hsize : ((state.storeResharingKset peerId shares idx).stored ∪
        (state.storeResharingKset peerId shares idx).elected).card = target := by
      rw [QuorumRelay.elected_storeResharingKset, QuorumRelay.stored_storeResharingKset, ← h.size]
      split
      next haccepts =>
        rw [Finset.insert_union, Finset.insert_eq_of_mem]
        exact Finset.mem_union_right _ (Relay.mem_of_acceptsResharingKset haccepts)
      next => rfl
    refine ⟨hsize, ?_⟩
    rw [QuorumRelay.noOfSharesReceived_storeResharingKset hmemory]
    exact card_stored_iff hsize
  · rw [QuorumRelay.storeResharingKset, if_pos hmemory]
    exact h

end Exact

namespace Monitor
open MonitorStep
variable {monitor : Monitor} {state : QuorumRelay} {steps : List MonitorStep} {left : ℕ}

/-- With an exact counter the monitor decides by the ksets that are there at its last tick. -/
theorem run_of_exact (hevent : monitor.event = .resharing) (hleft : monitor.timeElapsed + left = dkgResharingWaitTime)
    (hpos : 0 < left) (hexact : Exact monitor.noOfSharesToMonitor state) (hticks : left ≤ steps.countP isTick) :
    ∃ state' casts, monitor.run state steps = some (state', casts) ∧
      Reports casts (state.QuorumStored (before left steps)) := by
  induction steps generalizing monitor state left with
  | nil => exact absurd (hpos.trans_le hticks) (Nat.lt_irrefl 0)
  | cons step steps ih =>
    cases step with
    | kset peerId shares idx =>
      have hstored : state.QuorumStored (before left (.kset peerId shares idx :: steps)) ↔
          (state.storeResharingKset peerId shares idx).QuorumStored (before left steps) := by
        rw [QuorumRelay.QuorumStored, QuorumRelay.QuorumStored, QuorumRelay.elected_storeResharingKset]
        rfl
      rw [hstored]
      exact ih hevent hleft hpos (hexact.storeResharingKset peerId shares idx) hticks
    | tick =>
      rw [run]
      by_cases hcount : state.noOfSharesReceived = monitor.noOfSharesToMonitor
      · rw [if_pos hcount]
        exact ⟨_, _, rfl, reports_succeed ((hexact.counter.1 hcount).trans QuorumRelay.subset_stored_deliverAll)⟩
      rw [if_neg hcount]
      have hmissing := mt hexact.counter.2 hcount
      by_cases hlast : left = 1
      · subst hlast
        rw [if_pos hleft.ge, hevent]
        exact ⟨_, _, rfl, reports_timeOut hmissing⟩
      have hmore : ¬ monitor.timeElapsed + 1 ≥ dkgResharingWaitTime := by omega
      have hbefore : before left (.tick :: steps) = .tick :: before (left - 1) steps := if_neg (by omega)
      rw [if_neg hmore, hbefore]
      refine ih hevent ?_ (by omega) hexact ?_
      · show monitor.timeElapsed + 1 + (left - 1) = dkgResharingWaitTime
        omega
      · rw [List.countP_cons_of_pos rfl] at hticks
        omega

theorem run_ticks (hleft : monitor.timeElapsed + (left + 1) = dkgResharingWaitTime) :
    monitor.run state (List.replicate (left + 1) .tick) = some
      (if state.noOfSharesReceived = monitor.noOfSharesToMonitor then succeed state else timeOut monitor.event state) := by
  by_cases hcount : state.noOfSharesReceived = monitor.noOfSharesToMonitor
  · rw [List.replicate_succ, run, if_pos hcount, if_pos hcount]
  rw [if_neg hcount]
  induction left generalizing monitor with
  | zero => rw [List.replicate_succ, run, if_neg hcount, if_pos hleft.ge]
  | succ left ih =>
    rw [List.replicate_succ, run, if_neg hcount, if_neg (by omega)]
    exact ih (by dsimp only; omega) hcount

theorem run_append_ksets {ksets : List MonitorStep} (hksets : ∀ step ∈ ksets, step.isTick = false) :
    monitor.run state (ksets ++ steps) = monitor.run (state.deliverAll ksets) steps := by
  induction ksets generalizing state with
  | nil => rfl
  | cons step ksets ih =>
    obtain ⟨hstep, hrest⟩ := List.forall_mem_cons.1 hksets
    cases step with
    | tick => cases hstep
    | kset peerId shares idx => exact ih hrest

end Monitor

/-! ### All schedules -/

namespace MonitorStep

def ksetsOf (peerIds : List PeerId) : List MonitorStep := peerIds.map fun peerId => kset peerId ∅ 0

theorem isTick_ksetsOf (peerIds : List PeerId) : ∀ step ∈ ksetsOf peerIds, step.isTick = false := by
  intro step hstep
  obtain ⟨peerId, -, rfl⟩ := List.mem_map.1 hstep
  rfl

theorem deliverAll_before_ticks (state : QuorumRelay) {ksets : List MonitorStep}
    (hksets : ∀ step ∈ ksets, step.isTick = false) (left ticks : ℕ) :
    state.deliverAll (before left (ksets ++ List.replicate ticks tick)) = state.deliverAll ksets := by
  induction ksets generalizing state with
  | nil =>
    induction ticks generalizing left with
    | zero => rfl
    | succ ticks ih =>
      rw [List.nil_append, List.replicate_succ, before]
      split
      · rfl
      · exact ih (left - 1)
  | cons step ksets ih =>
    obtain ⟨hstep, hrest⟩ := List.forall_mem_cons.1 hksets
    cases step with
    | tick => cases hstep
    | kset peerId shares idx => exact ih (state.storeResharingKset peerId shares idx) hrest

end MonitorStep

namespace QuorumRelay
open MonitorStep

theorem stored_ksetsOf (state : QuorumRelay) (peerIds : List PeerId) :
    (state.deliverAll (ksetsOf peerIds)).stored = state.stored ∪ peerIds.toFinset ∩ state.elected := by
  induction peerIds generalizing state with
  | nil => exact (Finset.union_empty _).symm
  | cons peerId peerIds ih =>
    have hcons : state.deliverAll (ksetsOf (peerId :: peerIds)) =
        (state.storeResharingKset peerId ∅ 0).deliverAll (ksetsOf peerIds) := rfl
    rw [hcons, ih, elected_storeResharingKset, stored_storeResharingKset, List.toFinset_cons]
    by_cases hmem : peerId ∈ state.elected
    · have haccepts : state.relay.acceptsResharingKset peerId ∅ = true := any_peerId_iff.2 hmem
      rw [if_pos haccepts, Finset.insert_inter_of_mem hmem, Finset.insert_union, Finset.union_insert]
    · have haccepts : ¬ state.relay.acceptsResharingKset peerId ∅ = true := mt Relay.mem_of_acceptsResharingKset hmem
      rw [if_neg haccepts, Finset.insert_inter_of_notMem hmem]

theorem noOfSharesReceived_ksetsOf (state : QuorumRelay) (peerIds : List PeerId) (peerId : PeerId) :
    (state.deliverAll (ksetsOf (peerIds ++ [peerId]))).noOfSharesReceived =
      (state.deliverAll (ksetsOf (peerIds ++ [peerId]))).stored.card := by
  have happend : state.deliverAll (ksetsOf (peerIds ++ [peerId])) =
      (state.deliverAll (ksetsOf peerIds)).storeResharingKset peerId ∅ 0 := by
    rw [ksetsOf, List.map_append, deliverAll, List.foldl_append]
    rfl
  rw [happend]
  exact noOfSharesReceived_storeResharingKset rfl

theorem monitor_ksetsOf (state : QuorumRelay) (peerIds : List PeerId) :
    monitorQuorumFormation .resharing state (ksetsOf peerIds ++ List.replicate dkgResharingWaitTime tick) = some
      (if (state.deliverAll (ksetsOf peerIds)).noOfSharesReceived = state.relay.activeProvers.length then
        Monitor.succeed (state.deliverAll (ksetsOf peerIds))
      else Monitor.timeOut .resharing (state.deliverAll (ksetsOf peerIds))) := by
  rw [monitorQuorumFormation, Monitor.run_append_ksets (isTick_ksetsOf peerIds)]
  exact Monitor.run_ticks rfl

end QuorumRelay

/-- The monitor of a resharing decides every schedule by the ksets of the new quorum if and only if there are as many
active provers as stored ksets and members of the new quorum together, and the counter does not mislead it before the
first kset. -/
theorem monitor_decides_iff (state : QuorumRelay) :
    (∀ steps : List MonitorStep, dkgResharingWaitTime ≤ steps.countP MonitorStep.isTick →
      ∃ state' casts, monitorQuorumFormation .resharing state steps = some (state', casts) ∧
        Reports casts (state.QuorumStored (MonitorStep.before dkgResharingWaitTime steps))) ↔
    (state.stored ∪ state.elected).card = state.relay.activeProvers.length ∧
      (state.noOfSharesReceived = state.relay.activeProvers.length ↔ state.elected ⊆ state.stored) := by
  constructor
  · intro h
    have hdecided : ∀ peerIds : List PeerId,
        (state.deliverAll (MonitorStep.ksetsOf peerIds)).noOfSharesReceived = state.relay.activeProvers.length ↔
          state.QuorumStored (MonitorStep.ksetsOf peerIds) := by
      intro peerIds
      obtain ⟨state', casts, hrun, hreports⟩ :=
        h (MonitorStep.ksetsOf peerIds ++ List.replicate dkgResharingWaitTime .tick) (by
          rw [List.countP_append, List.countP_replicate]
          exact Nat.le_add_left _ _)
      rw [QuorumRelay.QuorumStored, MonitorStep.deliverAll_before_ticks _ (MonitorStep.isTick_ksetsOf peerIds)] at hreports
      rw [QuorumRelay.QuorumStored, ← hreports.saves]
      rw [QuorumRelay.monitor_ksetsOf, Option.some.injEq] at hrun
      split at hrun
      next hcount =>
        obtain rfl := congrArg Prod.snd hrun
        exact (reports_succeed hcount).saves.symm
      next hcount =>
        obtain rfl := congrArg Prod.snd hrun
        exact (reports_timeOut hcount).saves.symm
    refine ⟨?_, hdecided []⟩
    -- everybody delivers, and one more kset makes sure that the counter is set
    have hstored := state.stored_ksetsOf (state.elected.toList ++ [""])
    have hall : (state.elected.toList ++ [""]).toFinset ∩ state.elected = state.elected := by
      rw [List.toFinset_append, Finset.toList_toFinset, Finset.inter_eq_right]
      exact Finset.subset_union_left
    rw [hall] at hstored
    rw [← hstored, ← QuorumRelay.noOfSharesReceived_ksetsOf, hdecided, QuorumRelay.QuorumStored, hstored]
    exact Finset.subset_union_right
  · rintro ⟨hsize, hcounter⟩ steps hticks
    exact Monitor.run_of_exact rfl rfl (by decide) ⟨hsize, hcounter⟩ hticks

def newlyElected (elected : List ProverInfo) : QuorumRelay :=
  ⟨updateElectedProvers elected true (clearShares lineRelay), ∅, [], 0, 0, none⟩

/-- With three active provers, the monitor saves when three of a new quorum of four have stored their ksets, and it
rolls back when both members of a new quorum of two have. -/
theorem monitor_counts_old_quorum :
    (∃ state casts, monitorQuorumFormation .resharing
        (newlyElected [⟨"prover2", 1⟩, ⟨"prover3", 2⟩, ⟨"prover4", 3⟩, ⟨"prover5", 4⟩])
        (MonitorStep.ksetsOf ["prover2", "prover3", "prover4"] ++ List.replicate dkgResharingWaitTime .tick) =
          some (state, casts) ∧
      MonitorCast.saveCurrentState ∈ casts ∧ "prover5" ∈ state.elected ∧ "prover5" ∉ state.stored) ∧
    ∃ state casts, monitorQuorumFormation .resharing (newlyElected [⟨"prover2", 1⟩, ⟨"prover3", 2⟩])
        (MonitorStep.ksetsOf ["prover2", "prover3"] ++ List.replicate dkgResharingWaitTime .tick) = some (state, casts) ∧
      MonitorCast.rollbackToPreviousState ∈ casts ∧ state.elected ⊆ state.stored := by
  rw [QuorumRelay.monitor_ksetsOf, QuorumRelay.monitor_ksetsOf]
  exact ⟨⟨_, _, rfl, by decide⟩, ⟨_, _, rfl, by decide⟩⟩

end HumanNetwork
