import HumanNetwork.Lib.Tally
import HumanNetwork.Readiness

/-!
# The group keys of the relay (`store_kset` in `app_state_actor.rs`)

`QuorumRelay` is the relay with the group keys that the provers report, the counter that the quorum monitor reads and
the number of failed resharings. `handle_relay` says that it does to its `Relay` what the messages of `Relay` do.

`store_kset` appends the reported keys to a list that is never cleared, and finalizes the group keys from the whole
list when `n` indices are ready. `resolves_to_plurality` is what it finalizes: for each name a value that is reported most
often. `DkgRelay` records beside the relay who has reported, and for which attempt:
`finalized_from_distinct_provers` says when the list has one report of each of `n` provers, and
`finalized_with_old_reports` shows a restarted key generation that finalizes two reports of the attempt before.
-/

namespace HumanNetwork
open Outcome

variable {env : RelayEnv}

/-! ### The reported keys -/

/-- For each name, how often each value is reported. -/
def valueCount (groupPublicKeys : List (HMap String Bytes)) : HMap String (HMap Bytes ℕ) :=
  HMap.tallyBy (groupPublicKeys.flatMap HMap.entries)

/-- The counts of each name are a map of their own, with an order of its own. -/
def resolveConflictsBetweenGroupKeysIn (iter : String → IterOrder (Bytes × ℕ)) (groupPublicKeys : List (HMap String Bytes)) :
    Outcome Empty (HMap String Bytes) :=
  (valueCount groupPublicKeys).mapValM fun key counts => do
    let (maxValue, _) ← unwrap (counts.mostCounted (iter key)) unwrapNone
    pure maxValue

def resolveConflictsBetweenGroupKeys (iter : IterOrder (Bytes × ℕ)) (groupPublicKeys : List (HMap String Bytes)) :
    Outcome Empty (HMap String Bytes) :=
  resolveConflictsBetweenGroupKeysIn (fun _ => iter) groupPublicKeys

def votes (key : String) (value : Bytes) (groupPublicKeys : List (HMap String Bytes)) : ℕ :=
  groupPublicKeys.countP fun keys => keys.get? key = some value

theorem countP_entries (key : String) (value : Bytes) (groupPublicKeys : List (HMap String Bytes)) :
    (groupPublicKeys.flatMap HMap.entries).countP (fun e => e = (key, value)) = votes key value groupPublicKeys := by
  induction groupPublicKeys with
  | nil => rfl
  | cons keys groupPublicKeys ih =>
    rw [List.flatMap_cons, List.countP_append, ih, HMap.countP_entries, votes, votes, List.countP_cons, add_comm]
    simp only [decide_eq_true_eq]

theorem mem_entries_iff {key : String} {value : Bytes} {groupPublicKeys : List (HMap String Bytes)} :
    (key, value) ∈ groupPublicKeys.flatMap HMap.entries ↔ 0 < votes key value groupPublicKeys := by
  rw [← countP_entries, List.countP_pos_iff]
  simp

theorem exists_votes_pos {key : String} {groupPublicKeys : List (HMap String Bytes)} :
    (∃ value, 0 < votes key value groupPublicKeys) ↔ ∃ keys ∈ groupPublicKeys, key ∈ keys.keys := by
  simp only [votes, List.countP_pos_iff, decide_eq_true_eq]
  constructor
  · rintro ⟨value, keys, hkeys, hvalue⟩
    exact ⟨keys, hkeys, HMap.mem_keys_of_mem (HMap.get?_eq_some.1 hvalue)⟩
  · rintro ⟨keys, hkeys, hkey⟩
    obtain ⟨value, hvalue⟩ := HMap.exists_get? hkey
    exact ⟨value, keys, hkeys, hvalue⟩

/-- The finalized keys are the reported ones, each with a value that no other is reported more often than. -/
theorem resolveConflictsBetweenGroupKeysIn_get? (iter : String → IterOrder (Bytes × ℕ)) (groupPublicKeys : List (HMap String Bytes)) :
    ∃ finalized, resolveConflictsBetweenGroupKeysIn iter groupPublicKeys = .ok finalized ∧
      (∀ key, key ∈ finalized.keys ↔ ∃ value, 0 < votes key value groupPublicKeys) ∧
      ∀ key value, finalized.get? key = some value → 0 < votes key value groupPublicKeys ∧
        ∀ value', votes key value' groupPublicKeys ≤ votes key value groupPublicKeys := by
  have hcounts : ∀ {key counts}, (valueCount groupPublicKeys).get? key = some counts →
      ∃ e, counts.mostCounted (iter key) = some e ∧ 0 < votes key e.1 groupPublicKeys ∧
        ∀ value, votes key value groupPublicKeys ≤ votes key e.1 groupPublicKeys := by
    intro key counts hcounts
    have hget := HMap.get?_of_tallyBy hcounts
    simp only [mem_entries_iff, countP_entries] at hget
    obtain ⟨value, hvalue⟩ := HMap.mem_keys_tallyBy.1 (HMap.mem_keys_of_mem (HMap.get?_eq_some.1 hcounts))
    have hmem : value ∈ counts.keys := by
      rw [← HMap.get?_isSome, hget, if_pos (mem_entries_iff.1 hvalue)]
      rfl
    obtain ⟨e, he⟩ := HMap.exists_mostCounted (iter key) hmem
    obtain ⟨hmax, hle⟩ := HMap.mostCounted_eq_some he
    rw [hget] at hmax
    split at hmax
    next hpos =>
      refine ⟨e, he, hpos, fun value => ?_⟩
      rcases Nat.eq_zero_or_pos (votes key value groupPublicKeys) with hzero | hpos
      · exact hzero.le.trans (Nat.zero_le _)
      · rw [Option.some.inj hmax]
        exact hle value _ ((hget value).trans (if_pos hpos))
    next => cases hmax
  have hmap := HMap.mapValM_of_ok (m := valueCount groupPublicKeys)
    (f := fun key counts => (unwrap (counts.mostCounted (iter key)) unwrapNone >>= fun e => pure e.1 : Outcome Empty Bytes))
    (g := fun key counts => ((counts.mostCounted (iter key)).map Prod.fst).getD []) (by
      intro key counts hget
      obtain ⟨e, he, -⟩ := hcounts hget
      simp only [he]
      rfl)
  refine ⟨_, hmap, fun key => ?_, fun key value hvalue => ?_⟩
  · rw [HMap.keys_mapVal, valueCount, HMap.mem_keys_tallyBy]
    exact exists_congr fun _ => mem_entries_iff
  · rw [HMap.get?_mapVal] at hvalue
    obtain ⟨counts, hget, hvalue⟩ := Option.map_eq_some_iff.1 hvalue
    obtain ⟨e, he, hmax⟩ := hcounts hget
    rw [he] at hvalue
    obtain rfl := hvalue
    exact hmax

theorem resolveConflictsBetweenGroupKeys_get? (iter : IterOrder (Bytes × ℕ)) (groupPublicKeys : List (HMap String Bytes)) :
    ∃ finalized, resolveConflictsBetweenGroupKeys iter groupPublicKeys = .ok finalized ∧
      (∀ key, key ∈ finalized.keys ↔ ∃ value, 0 < votes key value groupPublicKeys) ∧
      ∀ key value, finalized.get? key = some value → 0 < votes key value groupPublicKeys ∧
        ∀ value', votes key value' groupPublicKeys ≤ votes key value groupPublicKeys := by
  rw [resolveConflictsBetweenGroupKeys]
  exact resolveConflictsBetweenGroupKeysIn_get? _ groupPublicKeys

theorem votes_perm {reordered groupPublicKeys : List (HMap String Bytes)} (h : reordered.Perm groupPublicKeys) (key : String)
    (value : Bytes) : votes key value reordered = votes key value groupPublicKeys := h.countP_eq _

theorem get?_of_most_votes {iter : String → IterOrder (Bytes × ℕ)} {groupPublicKeys : List (HMap String Bytes)}
    {finalized : HMap String Bytes} {key : String} {value : Bytes}
    (h : resolveConflictsBetweenGroupKeysIn iter groupPublicKeys = .ok finalized)
    (hmost : ∀ value' ≠ value, votes key value' groupPublicKeys < votes key value groupPublicKeys) :
    finalized.get? key = some value := by
  obtain ⟨finalized', hfinalized, hkeys, hmax⟩ := resolveConflictsBetweenGroupKeysIn_get? iter groupPublicKeys
  obtain rfl := Except.ok.inj (h.symm.trans hfinalized)
  -- some other value has fewer reports than this one, so this one has a report
  have hpos : 0 < votes key value groupPublicKeys :=
    (Nat.zero_le _).trans_lt (hmost (0 :: value) (List.cons_ne_self 0 value))
  obtain ⟨value', hvalue'⟩ := HMap.exists_get? ((hkeys key).2 ⟨value, hpos⟩)
  by_cases heq : value' = value
  · rw [hvalue', heq]
  · exact absurd (hmost value' heq) ((hmax key value' hvalue').2 value).not_gt

/-- Whatever the orders of iteration are: the finalized names are the reported ones, each with a value that a maximal number
of reports has. A value that more reports have than any other is finalized, also after the reports have been reordered. -/
theorem resolves_to_plurality (iter : String → IterOrder (Bytes × ℕ)) (groupPublicKeys : List (HMap String Bytes)) :
    ∃ finalized, resolveConflictsBetweenGroupKeysIn iter groupPublicKeys = .ok finalized ∧
      (∀ key, key ∈ finalized.keys ↔ ∃ keys ∈ groupPublicKeys, key ∈ keys.keys) ∧
      (∀ key value, finalized.get? key = some value → 0 < votes key value groupPublicKeys ∧
        ∀ value', votes key value' groupPublicKeys ≤ votes key value groupPublicKeys) ∧
      ∀ key value, (∀ value' ≠ value, votes key value' groupPublicKeys < votes key value groupPublicKeys) →
        finalized.get? key = some value ∧ ∀ reordered iter', reordered.Perm groupPublicKeys →
          ∃ finalized', resolveConflictsBetweenGroupKeysIn iter' reordered = .ok finalized' ∧
            finalized'.get? key = some value := by
  obtain ⟨finalized, hfinalized, hkeys, hmax⟩ := resolveConflictsBetweenGroupKeysIn_get? iter groupPublicKeys
  refine ⟨finalized, hfinalized, fun key => (hkeys key).trans exists_votes_pos, hmax, fun key value hmost => ?_⟩
  refine ⟨get?_of_most_votes hfinalized hmost, fun reordered iter' hperm => ?_⟩
  obtain ⟨finalized', hfinalized', -⟩ := resolveConflictsBetweenGroupKeysIn_get? iter' reordered
  simp only [← votes_perm hperm] at hmost
  exact ⟨finalized', hfinalized', get?_of_most_votes hfinalized' hmost⟩

theorem resolveConflictsBetweenGroupKeys_majority {iter : IterOrder (Bytes × ℕ)} {groupPublicKeys : List (HMap String Bytes)}
    {finalized : HMap String Bytes} {key : String} {value : Bytes}
    (h : resolveConflictsBetweenGroupKeys iter groupPublicKeys = .ok finalized)
    (hmajority : groupPublicKeys.length < 2 * votes key value groupPublicKeys) : finalized.get? key = some value := by
  refine get?_of_most_votes h fun value' heq => ?_
  -- two values share the reports, so the other one has less than half
  have hsum : votes key value groupPublicKeys + votes key value' groupPublicKeys ≤ groupPublicKeys.length := by
    rw [groupPublicKeys.length_eq_countP_add_countP fun keys => keys.get? key = some value]
    refine Nat.add_le_add_left (List.countP_mono_left fun keys _ hkeys => ?_) _
    have hkeys := of_decide_eq_true hkeys
    simpa [hkeys] using heq
  omega

/-! ### The relay with its group keys -/

structure QuorumRelay where
  relay : Relay
  finalizedGroupPublicKeys : HMap String Bytes
  receivedGroupPublicKeys : List (HMap String Bytes)
  noOfSharesReceived : ℕ
  resharingFailureCount : ℕ
  savedGroupPublicKeys : Option (HMap String Bytes)

/-- The messages of the relay, with what the database does to the entry of the group keys, and `PreResharing`. -/
inductive QuorumEvent (env : RelayEnv) where
  | relay (e : Event env) (groupKeys : Bool)
  | preResharing

namespace QuorumRelay
variable (iter : IterOrder (Bytes × ℕ))

def finalize (relay : Relay) (receivedGroupPublicKeys : List (HMap String Bytes)) (old : HMap String Bytes) :
    Outcome Empty (HMap String Bytes) :=
  if relay.readyNodes.card % 2 ^ 32 = relay.n then resolveConflictsBetweenGroupKeys iter receivedGroupPublicKeys
  else .ok old

def storeKset (peerId : PeerId) (shares : PubkeyShares) (idx : ℕ) (groupPublicKeys : HMap String Bytes)
    (state : QuorumRelay) : Outcome Empty QuorumRelay :=
  if state.relay.acceptsKset peerId shares groupPublicKeys then do
    let relay := HumanNetwork.storeKset peerId shares idx groupPublicKeys state.relay
    let receivedGroupPublicKeys := state.receivedGroupPublicKeys ++ [groupPublicKeys]
    let finalized ← finalize iter relay receivedGroupPublicKeys state.finalizedGroupPublicKeys
    pure { state with
      relay
      receivedGroupPublicKeys
      finalizedGroupPublicKeys := finalized
      noOfSharesReceived := relay.pubkeyShares.len }
  else .ok state

def storeResharingKset (peerId : PeerId) (shares : PubkeyShares) (idx : ℕ) (state : QuorumRelay) : QuorumRelay :=
  if ¬ checkMemoryUsage shares 100 then state
  else
    let relay := HumanNetwork.storeResharingKset peerId shares idx state.relay
    -- also after a kset that is refused
    { state with relay, noOfSharesReceived := relay.pubkeyShares.len }

def saveCurrentState (written : SavedKey → Bool) (groupKeys : Bool) (state : QuorumRelay) : QuorumRelay :=
  { state with
    relay := HumanNetwork.saveCurrentState written state.relay
    savedGroupPublicKeys := saveState groupKeys state.savedGroupPublicKeys state.finalizedGroupPublicKeys }

def backupState (written : SavedKey → Bool) (groupKeys : Bool) (state : QuorumRelay) : QuorumRelay :=
  { state with
    relay := HumanNetwork.backupState written state.relay
    savedGroupPublicKeys := saveState groupKeys state.savedGroupPublicKeys state.finalizedGroupPublicKeys }

def rollbackToPreviousState (readable : SavedKey → Bool) (groupKeys : Bool) (ping : Option (Finset ℕ))
    (state : QuorumRelay) : QuorumRelay :=
  { state with
    relay := HumanNetwork.rollbackToPreviousState readable ping state.relay
    finalizedGroupPublicKeys := getState groupKeys state.savedGroupPublicKeys ∅ }

def handle (state : QuorumRelay) : QuorumEvent env → Outcome Empty (QuorumRelay × List (Effect env))
  | .relay (.storeKSet peerId shares idx groupPublicKeys) _ => do
    let state ← state.storeKset iter peerId shares idx groupPublicKeys
    pure (state, [])
  | .relay (.resharingStoreKSet peerId shares idx) _ => .ok (state.storeResharingKset peerId shares idx, [])
  | .relay (.saveCurrentState written) groupKeys => .ok (state.saveCurrentState written groupKeys, [])
  | .relay (.backupState written) groupKeys => .ok (state.backupState written groupKeys, [])
  | .relay (.rollbackToPreviousState readable ping) groupKeys =>
    .ok (state.rollbackToPreviousState readable groupKeys ping, [])
  | .relay e _ => do
    let (relay, effects) ← HumanNetwork.handle env state.relay e
    pure ({ state with relay }, effects)
  | .preResharing => .ok ({ state with noOfSharesReceived := 0 }, [])

variable {iter} {state state' : QuorumRelay} {e : Event env} {effects : List (Effect env)} {peerId : PeerId}
  {shares : PubkeyShares} {idx : ℕ} {groupPublicKeys : HMap String Bytes}

theorem relay_storeResharingKset (peerId : PeerId) (shares : PubkeyShares) (idx : ℕ) (state : QuorumRelay) :
    (state.storeResharingKset peerId shares idx).relay = HumanNetwork.storeResharingKset peerId shares idx state.relay := by
  unfold storeResharingKset
  split
  next hmemory =>
    rw [storeResharingKset_eq, Relay.acceptsResharingKset, Bool.eq_false_of_not_eq_true hmemory]
    rfl
  next => rfl

theorem storeKset_eq_ok (h : state.storeKset iter peerId shares idx groupPublicKeys = .ok state') :
    state'.relay = HumanNetwork.storeKset peerId shares idx groupPublicKeys state.relay ∧
      (state.relay.acceptsKset peerId shares groupPublicKeys = false ∧ state' = state ∨
        state.relay.acceptsKset peerId shares groupPublicKeys = true ∧
          state'.receivedGroupPublicKeys = state.receivedGroupPublicKeys ++ [groupPublicKeys] ∧
          finalize iter state'.relay state'.receivedGroupPublicKeys state.finalizedGroupPublicKeys =
            .ok state'.finalizedGroupPublicKeys) := by
  unfold storeKset at h
  split at h
  next haccepts =>
    obtain ⟨finalized, hfinalized, h⟩ := bind_eq_ok.1 h
    obtain rfl := Except.ok.inj h
    exact ⟨rfl, .inr ⟨haccepts, rfl, hfinalized⟩⟩
  next haccepts =>
    obtain rfl := Except.ok.inj h
    refine ⟨?_, .inl ⟨Bool.eq_false_of_not_eq_true haccepts, rfl⟩⟩
    rw [storeKset_eq, if_neg haccepts]

theorem exists_storeKset (iter : IterOrder (Bytes × ℕ)) (peerId : PeerId) (shares : PubkeyShares) (idx : ℕ)
    (groupPublicKeys : HMap String Bytes) (state : QuorumRelay) :
    ∃ state', state.storeKset iter peerId shares idx groupPublicKeys = .ok state' := by
  have hfinalize : ∀ relay received old, ∃ finalized, finalize iter relay received old = .ok finalized := by
    intro relay received old
    unfold finalize
    split
    · obtain ⟨finalized, hfinalized, -⟩ := resolveConflictsBetweenGroupKeys_get? iter received
      exact ⟨finalized, hfinalized⟩
    · exact ⟨old, rfl⟩
  unfold storeKset
  split
  · obtain ⟨finalized, hfinalized⟩ := hfinalize _ _ _
    exact ⟨_, bind_eq_ok.2 ⟨finalized, hfinalized, rfl⟩⟩
  · exact ⟨state, rfl⟩

theorem handle_relay {groupKeys : Bool} (h : state.handle iter (.relay e groupKeys) = .ok (state', effects)) :
    HumanNetwork.handle env state.relay e = .ok (state'.relay, effects) := by
  cases e with
  | storeKSet peerId shares idx groupPublicKeys =>
    obtain ⟨mid, hmid, h⟩ := bind_eq_ok.1 h
    obtain ⟨rfl, rfl⟩ := Prod.mk.inj (Except.ok.inj h)
    rw [(storeKset_eq_ok hmid).1]
    rfl
  | resharingStoreKSet peerId shares idx =>
    obtain ⟨rfl, rfl⟩ := Prod.mk.inj (Except.ok.inj h)
    rw [relay_storeResharingKset]
    rfl
  | saveCurrentState | backupState | rollbackToPreviousState =>
    obtain ⟨rfl, rfl⟩ := Prod.mk.inj (Except.ok.inj h)
    rfl
  | _ =>
    obtain ⟨⟨relay, effects'⟩, hrelay, h⟩ := bind_eq_ok.1 h
    obtain ⟨rfl, rfl⟩ := Prod.mk.inj (Except.ok.inj h)
    exact hrelay

def reportOf (state : QuorumRelay) : QuorumEvent env → Option (PeerId × ℕ)
  | .relay (.storeKSet peerId shares idx groupPublicKeys) _ =>
    if state.relay.acceptsKset peerId shares groupPublicKeys then some (peerId, idx) else none
  | _ => none

def finalizes (state : QuorumRelay) (e : QuorumEvent env) : Bool :=
  match state.reportOf e with
  | some (_, idx) => (insert idx state.relay.readyNodes).card % 2 ^ 32 = state.relay.n
  | none => false

theorem handle_of_reportOf_eq_none {e : QuorumEvent env} (h : state.handle iter e = .ok (state', effects))
    (he : state.reportOf e = none) : state'.receivedGroupPublicKeys = state.receivedGroupPublicKeys := by
  cases e with
  | preResharing =>
    obtain ⟨rfl, -⟩ := Prod.mk.inj (Except.ok.inj h)
    rfl
  | relay e groupKeys =>
  cases e with
  | storeKSet peerId shares idx groupPublicKeys =>
    obtain ⟨mid, hmid, h⟩ := bind_eq_ok.1 h
    obtain ⟨rfl, -⟩ := Prod.mk.inj (Except.ok.inj h)
    rcases (storeKset_eq_ok hmid).2 with ⟨-, rfl⟩ | ⟨haccepts, -⟩
    · rfl
    · rw [reportOf, if_pos haccepts] at he
      cases he
  | resharingStoreKSet peerId shares idx =>
    obtain ⟨rfl, -⟩ := Prod.mk.inj (Except.ok.inj h)
    unfold storeResharingKset
    split <;> rfl
  | saveCurrentState | backupState | rollbackToPreviousState =>
    obtain ⟨rfl, -⟩ := Prod.mk.inj (Except.ok.inj h)
    rfl
  | _ =>
    obtain ⟨relay, -, h⟩ := bind_eq_ok.1 h
    obtain ⟨rfl, -⟩ := Prod.mk.inj (Except.ok.inj h)
    rfl

theorem handle_of_reportOf_eq_some {e : QuorumEvent env} (h : state.handle iter e = .ok (state', effects))
    (he : state.reportOf e = some (peerId, idx)) :
    peerId ∈ proverIds state.relay.activeProvers ∧
      state'.relay.readyNodes = insert idx state.relay.readyNodes ∧
      state'.relay.activeProvers = state.relay.activeProvers ∧
      state'.receivedGroupPublicKeys.length = state.receivedGroupPublicKeys.length + 1 ∧
      (state.finalizes e = true → resolveConflictsBetweenGroupKeys iter state'.receivedGroupPublicKeys =
        .ok state'.finalizedGroupPublicKeys) := by
  unfold finalizes
  rw [he]
  unfold reportOf at he
  split at he
  case h_2 => cases he
  next sender shares idx' groupPublicKeys groupKeys =>
  split at he
  case isFalse => cases he
  next haccepts =>
  obtain ⟨rfl, rfl⟩ := Prod.mk.inj (Option.some.inj he)
  obtain ⟨mid, hmid, h⟩ := bind_eq_ok.1 h
  obtain ⟨rfl, -⟩ := Prod.mk.inj (Except.ok.inj h)
  obtain ⟨hrelay, ⟨hrefused, -⟩ | ⟨-, hreceived, hfinalize⟩⟩ := storeKset_eq_ok hmid
  · rw [haccepts] at hrefused
    cases hrefused
  rw [storeKset_eq, if_pos haccepts] at hrelay
  rw [hrelay] at hfinalize ⊢
  refine ⟨Relay.mem_of_acceptsKset haccepts, rfl, rfl, ?_, fun hcard => ?_⟩
  · rw [hreceived, List.length_append, List.length_singleton]
  · rwa [finalize, if_pos (of_decide_eq_true hcard)] at hfinalize

end QuorumRelay

/-! ### Who has reported -/

/-- The relay with the number of the current attempt to generate keys and, for each report that it has received, the
prover and the attempt that it is from. -/
structure DkgRelay where
  state : QuorumRelay
  attempt : ℕ
  reports : List (PeerId × ℕ)

namespace DkgRelay

def attemptAfter (w : DkgRelay) : QuorumEvent env → ℕ
  | .relay (.updateElectedProvers _ false) _ => w.attempt + 1
  | _ => w.attempt

def reportsAfter (w : DkgRelay) (e : QuorumEvent env × ℕ) : List (PeerId × ℕ) :=
  match w.state.reportOf e.1 with
  | some (peerId, _) => w.reports ++ [(peerId, e.2)]
  | none => w.reports

variable (iter : IterOrder (Bytes × ℕ))

variable (env) in
def Step (w : DkgRelay) (e : QuorumEvent env × ℕ) (w' : DkgRelay) : Prop :=
  (∃ effects, w.state.handle iter e.1 = .ok (w'.state, effects)) ∧ w'.attempt = w.attemptAfter e.1 ∧
    w'.reports = w.reportsAfter e

/-- A report is the first of its sender, with an index of its own, from the current attempt. Other messages do not
change the ready nodes, nor the active provers and the attempt once there are reports. -/
structure Orderly (w : DkgRelay) (e : QuorumEvent env × ℕ) : Prop where
  report : ∀ peerId idx, w.state.reportOf e.1 = some (peerId, idx) →
    peerId ∉ w.reports.map Prod.fst ∧ idx ∉ w.state.relay.readyNodes ∧ e.2 = w.attempt ∧
      w.attemptAfter e.1 = w.attempt ∧ (proverIds w.state.relay.activeProvers).card < 2 ^ 32
  other : w.state.reportOf e.1 = none → ∀ state' effects, w.state.handle iter e.1 = .ok (state', effects) →
    state'.relay.readyNodes = w.state.relay.readyNodes ∧
      (w.reports ≠ [] → state'.relay.activeProvers = w.state.relay.activeProvers ∧ w.attemptAfter e.1 = w.attempt)

/-- There is one ready node for each report, and the reports are from different active provers. -/
structure Counted (w : DkgRelay) : Prop where
  received : w.reports.length = w.state.receivedGroupPublicKeys.length
  ready : w.reports.length = w.state.relay.readyNodes.card
  distinct : (w.reports.map Prod.fst).Nodup
  active : ∀ report ∈ w.reports, report.1 ∈ proverIds w.state.relay.activeProvers ∧ report.2 = w.attempt

variable {iter} {w w' w'' : DkgRelay} {e : QuorumEvent env × ℕ}

theorem Step.counted_of_report (h : Step env iter w e w') (hcounted : Counted w) (hok : Orderly iter w e) {peerId : PeerId}
    {idx : ℕ} (he : w.state.reportOf e.1 = some (peerId, idx)) : Counted w' := by
  obtain ⟨⟨effects, hhandle⟩, hattempt, hreports⟩ := h
  obtain ⟨hmem, hready, hactive, hlength, -⟩ := QuorumRelay.handle_of_reportOf_eq_some hhandle he
  obtain ⟨hnew, hidx, hmade, hsame, -⟩ := hok.report peerId idx he
  rw [reportsAfter, he] at hreports
  dsimp only at hreports
  refine ⟨?_, ?_, ?_, ?_⟩
  · rw [hreports, hlength, List.length_append, hcounted.received]
    rfl
  · rw [hreports, hready, Finset.card_insert_of_notMem hidx, List.length_append, hcounted.ready]
    rfl
  · rw [hreports, List.map_append]
    exact List.concat_eq_append ▸ hcounted.distinct.concat hnew
  · intro report hreport
    rw [hreports, List.mem_append, List.mem_singleton] at hreport
    rw [hactive, hattempt, hsame]
    rcases hreport with hold | rfl
    · exact hcounted.active report hold
    · exact ⟨hmem, hmade⟩

theorem Step.counted (h : Step env iter w e w') (hcounted : Counted w) (hok : Orderly iter w e) : Counted w' := by
  cases he : w.state.reportOf e.1 with
  | some report => exact h.counted_of_report hcounted hok he
  | none =>
    obtain ⟨⟨effects, hhandle⟩, hattempt, hreports⟩ := h
    obtain ⟨hready, hactive⟩ := hok.other he _ _ hhandle
    rw [reportsAfter, he] at hreports
    dsimp only at hreports
    refine ⟨?_, ?_, ?_, ?_⟩
    · rw [hreports, QuorumRelay.handle_of_reportOf_eq_none hhandle he]
      exact hcounted.received
    · rw [hreports, hready]
      exact hcounted.ready
    · rw [hreports]
      exact hcounted.distinct
    · intro report hreport
      rw [hreports] at hreport
      obtain ⟨hprovers, hsame⟩ := hactive (List.ne_nil_of_mem hreport)
      rw [hprovers, hattempt, hsame]
      exact hcounted.active report hreport

theorem Counted.length_le (h : Counted w) : w.reports.length ≤ (proverIds w.state.relay.activeProvers).card := by
  rw [← List.length_map Prod.fst, ← List.toFinset_card_of_nodup h.distinct]
  refine Finset.card_le_card fun peerId hpeer => ?_
  obtain ⟨report, hreport, rfl⟩ := List.mem_map.1 (List.mem_toFinset.1 hpeer)
  exact (h.active report hreport).1

/-- While the messages are orderly, the group keys are finalized from one report of each of `n` active provers, all of
the current attempt. -/
theorem finalized_from_distinct_provers (env : RelayEnv) (iter : IterOrder (Bytes × ℕ)) {w w' w'' : DkgRelay}
    {e : QuorumEvent env × ℕ} (hreceived : w.state.receivedGroupPublicKeys = [])
    (hready : w.state.relay.readyNodes = ∅) (hreports : w.reports = [])
    (hrun : Reach (Step env iter) (Orderly iter) w w') (hok : Orderly iter w' e) (hstep : Step env iter w' e w'')
    (hfinal : w'.state.finalizes e.1 = true) :
    resolveConflictsBetweenGroupKeys iter w''.state.receivedGroupPublicKeys = .ok w''.state.finalizedGroupPublicKeys ∧
      w''.reports.length = w''.state.receivedGroupPublicKeys.length ∧ w''.reports.length = w'.state.relay.n ∧
      (w''.reports.map Prod.fst).Nodup ∧
      ∀ report ∈ w''.reports, report.1 ∈ proverIds w''.state.relay.activeProvers ∧ report.2 = w''.attempt := by
  have hinit : Counted w := by
    refine ⟨?_, ?_, ?_, ?_⟩
    · rw [hreports, hreceived]
      rfl
    · rw [hreports, hready]
      rfl
    · rw [hreports]
      exact List.nodup_nil
    · rw [hreports]
      exact fun _ h => nomatch h
  have hcounted : Counted w' := hrun.invariant hinit fun hcounted hok hstep => hstep.counted hcounted hok
  have hafter := hstep.counted hcounted hok
  cases he : w'.state.reportOf e.1 with
  | none =>
    rw [QuorumRelay.finalizes, he] at hfinal
    cases hfinal
  | some report =>
    obtain ⟨⟨effects, hhandle⟩, -, -⟩ := hstep
    obtain ⟨-, hinsert, hactive, -, hresolve⟩ := QuorumRelay.handle_of_reportOf_eq_some hhandle he
    have hsmall := (hok.report report.1 report.2 he).2.2.2.2
    have hn := hfinal
    rw [QuorumRelay.finalizes, he] at hn
    have hlength : w''.reports.length = w'.state.relay.n := by
      rw [← of_decide_eq_true hn, ← hinsert, ← hafter.ready]
      refine (Nat.mod_eq_of_lt (hafter.length_le.trans_lt ?_)).symm
      rw [hactive]
      exact hsmall
    exact ⟨hresolve hfinal, hafter.received, hlength, hafter.distinct, hafter.active⟩

theorem orderly_of_report {peerId : PeerId} {idx : ℕ} (he : w.state.reportOf e.1 = some (peerId, idx))
    (hnew : peerId ∉ w.reports.map Prod.fst) (hidx : idx ∉ w.state.relay.readyNodes) (hmade : e.2 = w.attempt)
    (hsame : w.attemptAfter e.1 = w.attempt) (hsmall : (proverIds w.state.relay.activeProvers).card < 2 ^ 32) :
    Orderly iter w e := by
  refine ⟨fun peerId' idx' he' => ?_, fun hnone => ?_⟩
  · obtain ⟨rfl, rfl⟩ := Prod.mk.inj (Option.some.inj (he.symm.trans he'))
    exact ⟨hnew, hidx, hmade, hsame, hsmall⟩
  · rw [he] at hnone
    cases hnone

def firstAttempt : DkgRelay where
  state := ⟨clearShares lineRelay, ∅, [], 0, 0, none⟩
  attempt := 1
  reports := []

def readyMessage (peerId : PeerId) (idx attempt : ℕ) : QuorumEvent scalarRelay × ℕ :=
  (.relay (.storeKSet peerId ∅ idx (HMap.insert ∅ "group" [1])) true, attempt)

def entryOrder : IterOrder (Bytes × ℕ) := ⟨id, fun l => .refl l⟩

def oneReport : DkgRelay where
  state := { firstAttempt.state with
    relay := storeKset "prover1" ∅ 1 ∅ firstAttempt.state.relay
    receivedGroupPublicKeys := [HMap.insert ∅ "group" [1]]
    noOfSharesReceived := 1 }
  attempt := 1
  reports := [("prover1", 1)]

def twoReports : DkgRelay where
  state := { oneReport.state with
    relay := storeKset "prover2" ∅ 2 ∅ oneReport.state.relay
    receivedGroupPublicKeys := [HMap.insert ∅ "group" [1], HMap.insert ∅ "group" [1]]
    noOfSharesReceived := 2 }
  attempt := 1
  reports := [("prover1", 1), ("prover2", 1)]

theorem step_oneReport : Step scalarRelay entryOrder firstAttempt (readyMessage "prover1" 1 1) oneReport :=
  ⟨⟨[], rfl⟩, rfl, rfl⟩

theorem step_twoReports : Step scalarRelay entryOrder oneReport (readyMessage "prover2" 2 1) twoReports :=
  ⟨⟨[], rfl⟩, rfl, rfl⟩

theorem exists_step_readyMessage (w : DkgRelay) (peerId : PeerId) (idx attempt : ℕ) :
    ∃ state, Step scalarRelay entryOrder w (readyMessage peerId idx attempt)
      ⟨state, w.attempt, w.reportsAfter (readyMessage peerId idx attempt)⟩ := by
  obtain ⟨state, hstate⟩ :=
    w.state.exists_storeKset entryOrder peerId ∅ idx (HMap.insert ∅ "group" [1])
  exact ⟨state, ⟨[], bind_eq_ok.2 ⟨state, hstate, rfl⟩⟩, rfl, rfl⟩

theorem finalized_from_distinct_provers_three :
    twoReports.state.finalizes (readyMessage "prover3" 3 1).1 = true ∧
      ∃ w, Step scalarRelay entryOrder twoReports (readyMessage "prover3" 3 1) w ∧
        resolveConflictsBetweenGroupKeys entryOrder w.state.receivedGroupPublicKeys =
          .ok w.state.finalizedGroupPublicKeys ∧
        w.reports.length = w.state.receivedGroupPublicKeys.length ∧ w.reports.length = 3 ∧
        (w.reports.map Prod.fst).Nodup ∧
        ∀ report ∈ w.reports, report.1 ∈ proverIds w.state.relay.activeProvers ∧ report.2 = w.attempt := by
  have hrun : Reach (Step scalarRelay entryOrder) (Orderly entryOrder) firstAttempt twoReports :=
    (Reach.refl.tail (orderly_of_report rfl (by decide) (by decide) rfl rfl (by decide)) step_oneReport).tail
      (orderly_of_report rfl (by decide) (by decide) rfl rfl (by decide)) step_twoReports
  have hfinal : twoReports.state.finalizes (readyMessage "prover3" 3 1).1 = true := by decide
  obtain ⟨state, hstep⟩ := exists_step_readyMessage twoReports "prover3" 3 1
  exact ⟨hfinal, _, hstep, finalized_from_distinct_provers scalarRelay entryOrder rfl rfl rfl hrun
    (orderly_of_report rfl (by decide) (by decide) rfl rfl (by decide)) hstep hfinal⟩

/-- The third prover does not report in time and the key generation is started again with the same provers. The first
report of the second attempt then finalizes the keys, from two reports of the first attempt and this one. -/
theorem finalized_with_old_reports :
    ∃ w w', Reach (Step scalarRelay entryOrder) (fun _ _ => True) firstAttempt w ∧
      Step scalarRelay entryOrder w (readyMessage "prover3" 3 2) w' ∧
      w.state.finalizes (readyMessage "prover3" 3 2).1 = true ∧ w'.attempt = 2 ∧
      w'.reports = [("prover1", 1), ("prover2", 1), ("prover3", 2)] := by
  have hrun : Reach (Step scalarRelay entryOrder) (fun _ _ => True) firstAttempt { twoReports with attempt := 2 } :=
    ((Reach.refl.tail trivial step_oneReport).tail trivial step_twoReports).tail
      (e := (.relay (.updateElectedProvers lineRelay.activeProvers false) true, 2)) trivial ⟨⟨[], rfl⟩, rfl, rfl⟩
  obtain ⟨state, hstep⟩ := exists_step_readyMessage { twoReports with attempt := 2 } "prover3" 3 2
  exact ⟨_, _, hrun, hstep, by decide, rfl, rfl⟩

end DkgRelay
end HumanNetwork
