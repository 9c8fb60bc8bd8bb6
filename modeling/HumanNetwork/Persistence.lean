import HumanNetwork.Lib.Store
import HumanNetwork.Parameters
import HumanNetwork.QuorumRelay

/-!
# Saved states (`SaveCurrentState` and `RollbackToPreviousState` in `app_state_actor.rs`)

A node saves each field of its state under a key of its own, one insert after the other. `persisted` is the fields
that are saved and `entries` is what the database has, both by key, so that a save is a `Store.saveAll` and what a
rollback or a start reads is a `Store.load`.

A rollback restores every saved field. The active provers of a relay are not saved but read off from the map of the
provers, and its readiness is decided by the nodes that were ready before: `rollback_restores_iff`. A node that stops
in a save starts with fields of two states, unless these differ in one field only: `crash_consistent_iff`.
-/

namespace HumanNetwork
open Outcome

theorem saveState_decide {α : Type} (p : Prop) [Decidable p] (old : Option α) (value : α) :
    saveState (decide p) old value = if p then some value else old := by
  simp [saveState]

/-! ### The relay -/

inductive RelayKey where
  | n | t | epsilon | finalizedGroupPublicKeys | pubkeyShares | newProvers | tstarProvers
deriving DecidableEq, Repr

namespace RelayKey

def Value : RelayKey → Type
  | n | t | epsilon => ℕ
  | finalizedGroupPublicKeys => HMap String Bytes
  | pubkeyShares => HMap PeerId PubkeyShares
  | newProvers | tstarProvers => HMap PeerId (ProverInfo × ℕ)

def order : List RelayKey := [n, t, epsilon, finalizedGroupPublicKeys, pubkeyShares, newProvers, tstarProvers]

theorem mem_order (k : RelayKey) : k ∈ order := by cases k <;> decide

def default : ∀ k : RelayKey, k.Value
  | n | t | epsilon => (0 : ℕ)
  | finalizedGroupPublicKeys => (∅ : HMap String Bytes)
  | pubkeyShares => (∅ : HMap PeerId PubkeyShares)
  | newProvers | tstarProvers => (∅ : HMap PeerId (ProverInfo × ℕ))

end RelayKey

def SavedKey.relayKey : SavedKey → RelayKey
  | n => .n
  | t => .t
  | epsilon => .epsilon
  | pubkeyShares => .pubkeyShares
  | newProvers => .newProvers
  | tstarProvers => .tstarProvers

/-- The nodes that a start or a rollback pings answer. -/
def reached (newProvers : HMap PeerId (ProverInfo × ℕ)) (ping : Option (Finset ℕ)) : Option (Finset ℕ) :=
  if newProvers.len ≠ 0 then ping else none

namespace QuorumRelay

def persisted (state : QuorumRelay) : ∀ k : RelayKey, k.Value
  | .n => state.relay.n
  | .t => state.relay.t
  | .epsilon => state.relay.epsilon
  | .finalizedGroupPublicKeys => state.finalizedGroupPublicKeys
  | .pubkeyShares => state.relay.pubkeyShares
  | .newProvers => state.relay.newProvers
  | .tstarProvers => state.relay.tstarProvers

def entries (state : QuorumRelay) : Store RelayKey.Value
  | .n => state.relay.saved.n
  | .t => state.relay.saved.t
  | .epsilon => state.relay.saved.epsilon
  | .finalizedGroupPublicKeys => state.savedGroupPublicKeys
  | .pubkeyShares => state.relay.saved.pubkeyShares
  | .newProvers => state.relay.saved.newProvers
  | .tstarProvers => state.relay.saved.tstarProvers

/-- The state that `pre_start` builds from the database. -/
def preStart (readable : SavedKey → Bool) (groupKeys : Bool) (ping : Option (Finset ℕ)) (state : QuorumRelay) :
    QuorumRelay :=
  let saved := state.relay.saved
  let newProvers := getState (readable .newProvers) saved.newProvers ∅
  let t := getState (readable .t) saved.t 0
  let nodes := reached newProvers ping
  { relay := {
      currentEpoch := 0
      activeProvers := newProvers.values.map Prod.fst
      n := getState (readable .n) saved.n 0
      t := t
      epsilon := getState (readable .epsilon) saved.epsilon 0
      reqCache := ∅
      resCache := ∅
      pubkeyShares := getState (readable .pubkeyShares) saved.pubkeyShares ∅
      ready := nodes.any fun nodes => t ≤ nodes.card
      readyNodes := nodes.getD ∅
      newCachedElectedProvers := []
      tstarProvers := getState (readable .tstarProvers) saved.tstarProvers ∅
      newProvers := newProvers
      batchCache := ∅
      pubsubCache := ∅
      redis := state.relay.redis
      saved := saved }
    finalizedGroupPublicKeys := getState groupKeys state.savedGroupPublicKeys ∅
    receivedGroupPublicKeys := []
    noOfSharesReceived := 0
    resharingFailureCount := 0
    savedGroupPublicKeys := state.savedGroupPublicKeys }

def saveKeys (keys : List RelayKey) (state : QuorumRelay) : QuorumRelay :=
  state.saveCurrentState (fun k => k.relayKey ∈ keys) (.finalizedGroupPublicKeys ∈ keys)

theorem entries_saveKeys (keys : List RelayKey) (state : QuorumRelay) :
    (state.saveKeys keys).entries = Store.saveAll state.persisted keys state.entries := by
  refine Store.eq_saveAll fun k => ?_
  cases k <;> exact saveState_decide ..

theorem entries_saveCurrentState (state : QuorumRelay) :
    (state.saveCurrentState (fun _ => true) true).entries = Store.full state.persisted := by
  funext k
  cases k <;> rfl

theorem persisted_rollback (ping : Option (Finset ℕ)) (state : QuorumRelay) :
    (state.rollbackToPreviousState (fun _ => true) true ping).persisted = state.entries.load RelayKey.default := by
  funext k
  cases k <;> rfl

theorem persisted_preStart (ping : Option (Finset ℕ)) (state : QuorumRelay) :
    (state.preStart (fun _ => true) true ping).persisted = state.entries.load RelayKey.default := by
  funext k
  cases k <;> rfl

theorem entries_preStart (ping : Option (Finset ℕ)) (state : QuorumRelay) :
    (state.preStart (fun _ => true) true ping).entries = state.entries := by
  funext k
  cases k <;> rfl

variable {env : RelayEnv} {iter : IterOrder (Bytes × ℕ)} {state state' : QuorumRelay}

variable (env iter) in
def Step (state : QuorumRelay) (e : QuorumEvent env) (state' : QuorumRelay) : Prop :=
  ∃ effects, state.handle iter e = .ok (state', effects)

def NotSaving (_ : QuorumRelay) : QuorumEvent env → Prop
  | .relay (.saveCurrentState _) _ | .relay (.backupState _) _ => False
  | _ => True

theorem saved_of_handle {s s' : Relay} {e : Event env} {effects : List (Effect env)} {groupKeys : Bool}
    (h : HumanNetwork.handle env s e = .ok (s', effects)) (he : NotSaving state (.relay e groupKeys)) :
    s'.saved = s.saved := by
  have hstep : Relay.Step env s e s' := ⟨effects, h⟩
  cases e with
  | processReceivedProof | mulRequest | storeKSet | resharingStoreKSet | expire =>
    have hsame := congrArg Relay.saved (hstep.setup rfl)
    exact hsame
  | updateElectedProvers provers isCacheProver =>
    obtain rfl := hstep.eq rfl
    cases isCacheProver <;> rfl
  | saveCurrentState | backupState => exact he.elim
  | _ =>
    obtain rfl := hstep.eq rfl
    rfl

theorem savedGroupPublicKeys_of_handle {e : QuorumEvent env} {effects : List (Effect env)}
    (h : state.handle iter e = .ok (state', effects)) (he : NotSaving state e) :
    state'.savedGroupPublicKeys = state.savedGroupPublicKeys := by
  cases e with
  | preResharing =>
    obtain ⟨rfl, -⟩ := Prod.mk.inj (Except.ok.inj h)
    rfl
  | relay e groupKeys =>
    cases e with
    | storeKSet peerId shares idx keys =>
      obtain ⟨mid, hmid, h⟩ := bind_eq_ok.1 h
      obtain ⟨rfl, -⟩ := Prod.mk.inj (Except.ok.inj h)
      unfold storeKset at hmid
      split at hmid
      next =>
        obtain ⟨finalized, -, hmid⟩ := bind_eq_ok.1 hmid
        obtain rfl := Except.ok.inj hmid
        rfl
      next =>
        obtain rfl := Except.ok.inj hmid
        rfl
    | resharingStoreKSet peerId shares idx =>
      obtain ⟨rfl, -⟩ := Prod.mk.inj (Except.ok.inj h)
      unfold storeResharingKset
      split <;> rfl
    | saveCurrentState | backupState => exact he.elim
    | rollbackToPreviousState =>
      obtain ⟨rfl, -⟩ := Prod.mk.inj (Except.ok.inj h)
      rfl
    | _ =>
      obtain ⟨relay, -, h⟩ := bind_eq_ok.1 h
      obtain ⟨rfl, -⟩ := Prod.mk.inj (Except.ok.inj h)
      rfl

theorem Step.entries {e : QuorumEvent env} (h : Step env iter state e state') (he : NotSaving state e) :
    state'.entries = state.entries := by
  obtain ⟨effects, h⟩ := h
  have hsaved : state'.relay.saved = state.relay.saved := by
    cases e with
    | preResharing =>
      obtain ⟨rfl, -⟩ := Prod.mk.inj (Except.ok.inj h)
      rfl
    | relay e groupKeys => exact saved_of_handle (handle_relay h) he
  unfold QuorumRelay.entries
  rw [hsaved, savedGroupPublicKeys_of_handle h he]

/-- A rollback counts the nodes that were ready before it. -/
theorem ready_rollback_iff {newProvers : HMap PeerId (ProverInfo × ℕ)} {t : ℕ} {ping : Option (Finset ℕ)}
    {rolled : QuorumRelay} (hrolled : rolled = state.rollbackToPreviousState (fun _ => true) true ping)
    (hprovers : state.relay.saved.newProvers = some newProvers) (ht : state.relay.saved.t = some t) :
    (rolled.relay.ready = true ↔ rolled.relay.t ≤ rolled.relay.readyNodes.card) ↔
      (∀ nodes, reached newProvers ping = some nodes → (t ≤ state.relay.readyNodes.card ↔ t ≤ nodes.card)) ∧
        (reached newProvers ping = none → t ≠ 0) := by
  have hrelay : rolled.relay.t = t ∧ rolled.relay.readyNodes = (reached newProvers ping).getD ∅ ∧
      rolled.relay.ready = ((reached newProvers ping).isSome && decide (t ≤ state.relay.readyNodes.card)) := by
    simp only [hrolled, rollbackToPreviousState, HumanNetwork.rollbackToPreviousState, hprovers, ht, getState, reached]
    exact ⟨rfl, rfl, rfl⟩
  obtain ⟨ht', hnodes, hready⟩ := hrelay
  rw [hready, hnodes, ht']
  cases hreached : reached newProvers ping with
  | none => simp
  | some nodes => simp

end QuorumRelay

/-! ### Provers -/

inductive ProverKey where
  | n | t | epsilon | idx | newProvers | privateKeyshares
deriving DecidableEq, Repr

namespace ProverKey

def Value : ProverKey → Type
  | n | t | epsilon | idx => ℕ
  | newProvers => QuorumMap
  | privateKeyshares => HMap String Bytes

def order : List ProverKey := [n, t, epsilon, idx, newProvers, privateKeyshares]

theorem mem_order (k : ProverKey) : k ∈ order := by cases k <;> decide

def default : ∀ k : ProverKey, k.Value
  | n | t | epsilon | idx => (0 : ℕ)
  | newProvers => (∅ : QuorumMap)
  | privateKeyshares => (∅ : HMap String Bytes)

end ProverKey

structure KeyedProver where
  prover : Prover
  privateKeyshares : HMap String Bytes
  entries : Store ProverKey.Value

inductive ProverMessage where
  | cast (message : ElectionCast)
  | storeKeyShares (shares : HMap String Bytes)
  | saveCurrentState (written : ProverKey → Bool)
  | backupState (written : ProverKey → Bool)
  | rollbackToPreviousState (readable : ProverKey → Bool)

namespace KeyedProver

def persisted (state : KeyedProver) : ∀ k : ProverKey, k.Value
  | .n => state.prover.n
  | .t => state.prover.t
  | .epsilon => state.prover.epsilon
  | .idx => state.prover.myNodeIdx
  | .newProvers => state.prover.newProvers
  | .privateKeyshares => state.privateKeyshares

/-- `BackupState` writes the same fields. -/
def saveCurrentState (written : ProverKey → Bool) (state : KeyedProver) : KeyedProver :=
  { state with entries := fun k => saveState (written k) (state.entries k) (state.persisted k) }

def restore (readable : ProverKey → Bool) (currentEpoch : ℕ) (state : KeyedProver) : KeyedProver where
  prover := {
    currentEpoch := currentEpoch
    n := getState (readable .n) (state.entries .n) (0 : ℕ)
    t := getState (readable .t) (state.entries .t) (0 : ℕ)
    epsilon := getState (readable .epsilon) (state.entries .epsilon) (0 : ℕ)
    myNodeIdx := getState (readable .idx) (state.entries .idx) (0 : ℕ)
    newProvers := getState (readable .newProvers) (state.entries .newProvers) (∅ : QuorumMap) }
  privateKeyshares := getState (readable .privateKeyshares) (state.entries .privateKeyshares) (∅ : HMap String Bytes)
  entries := state.entries

def rollbackToPreviousState (readable : ProverKey → Bool) (state : KeyedProver) : KeyedProver :=
  state.restore readable state.prover.currentEpoch

def preStart (readable : ProverKey → Bool) (state : KeyedProver) : KeyedProver := state.restore readable 0

def handle (state : KeyedProver) : ProverMessage → KeyedProver
  | .cast message => { state with prover := state.prover.receive message }
  | .storeKeyShares shares => { state with privateKeyshares := shares }
  | .saveCurrentState written | .backupState written => state.saveCurrentState written
  | .rollbackToPreviousState readable => state.rollbackToPreviousState readable

def Step (state : KeyedProver) (message : ProverMessage) (state' : KeyedProver) : Prop := state.handle message = state'

def NotSaving (_ : KeyedProver) : ProverMessage → Prop
  | .saveCurrentState _ | .backupState _ => False
  | _ => True

def saveKeys (keys : List ProverKey) (state : KeyedProver) : KeyedProver := state.saveCurrentState fun k => k ∈ keys

theorem entries_saveKeys (keys : List ProverKey) (state : KeyedProver) :
    (state.saveKeys keys).entries = Store.saveAll state.persisted keys state.entries :=
  Store.eq_saveAll fun _ => saveState_decide ..

theorem persisted_restore (currentEpoch : ℕ) (state : KeyedProver) :
    (state.restore (fun _ => true) currentEpoch).persisted = state.entries.load ProverKey.default := by
  funext k
  cases k <;> rfl

theorem Step.entries {state state' : KeyedProver} {message : ProverMessage} (h : Step state message state')
    (hmessage : NotSaving state message) : state'.entries = state.entries := by
  obtain rfl := h
  cases message with
  | saveCurrentState | backupState => exact hmessage.elim
  | _ => rfl

end KeyedProver

/-! ### Save and rollback -/

/-- After a save and messages that do not save, a rollback restores what was saved. For the relay this includes the
active provers if and only if they were those of the saved map, and the readiness if and only if as many nodes as
before answer the ping, as far as the threshold can tell. -/
theorem rollback_restores_iff (env : RelayEnv) (iter : IterOrder (Bytes × ℕ)) (s s' : QuorumRelay) (p p' : KeyedProver)
    (ping : Option (Finset ℕ))
    (hrun : Reach (QuorumRelay.Step env iter) QuorumRelay.NotSaving (s.saveCurrentState (fun _ => true) true) s')
    (hprover : Reach KeyedProver.Step KeyedProver.NotSaving (p.saveCurrentState fun _ => true) p') :
    (let rolled := s'.rollbackToPreviousState (fun _ => true) true ping;
      (rolled.persisted = s.persisted ∧ rolled.relay.activeProvers.Perm s.relay.activeProvers ∧
        rolled.relay.readyNodes = (reached s.relay.newProvers ping).getD ∅ ∧
        (rolled.relay.ready = true ↔ rolled.relay.t ≤ rolled.relay.readyNodes.card)) ↔
      (s.relay.newProvers.values.map Prod.fst).Perm s.relay.activeProvers ∧
        (∀ nodes, reached s.relay.newProvers ping = some nodes →
          (s.relay.t ≤ s'.relay.readyNodes.card ↔ s.relay.t ≤ nodes.card)) ∧
        (reached s.relay.newProvers ping = none → s.relay.t ≠ 0)) ∧
    (p'.rollbackToPreviousState fun _ => true).persisted = p.persisted := by
  have hentries : s'.entries = Store.full s.persisted :=
    hrun.invariant s.entries_saveCurrentState fun hs hok hstep => (hstep.entries hok).trans hs
  have hprovers : s'.relay.saved.newProvers = some s.relay.newProvers := congrFun hentries .newProvers
  have ht : s'.relay.saved.t = some s.relay.t := congrFun hentries .t
  refine ⟨?_, ?_⟩
  · intro rolled
    have hpersisted : rolled.persisted = s.persisted := by
      rw [QuorumRelay.persisted_rollback, hentries, Store.load_full]
    have hnewProvers : rolled.relay.newProvers = s.relay.newProvers := congrFun hpersisted .newProvers
    have hactive : rolled.relay.activeProvers = s.relay.newProvers.values.map Prod.fst := by
      rw [← hnewProvers]
      rfl
    have hnodes : rolled.relay.readyNodes = (reached s.relay.newProvers ping).getD ∅ := by
      rw [← hnewProvers]
      rfl
    rw [← QuorumRelay.ready_rollback_iff rfl hprovers ht, hactive]
    constructor
    · rintro ⟨-, hperm, -, hready⟩
      exact ⟨hperm, hready⟩
    · rintro ⟨hperm, hready⟩
      exact ⟨hpersisted, hperm, hnodes, hready⟩
  · have hsaved : p'.entries = Store.full p.persisted :=
      hprover.invariant (I := fun p' => p'.entries = Store.full p.persisted) rfl
        fun hp hok hstep => (hstep.entries hok).trans hp
    rw [KeyedProver.rollbackToPreviousState, KeyedProver.persisted_restore, hsaved, Store.load_full]

def lineMap : HMap PeerId (ProverInfo × ℕ) :=
  ((HMap.insert ∅ "prover1" (⟨"prover1", 1⟩, 1)).insert "prover2" (⟨"prover2", 2⟩, 2)).insert "prover3" (⟨"prover3", 3⟩, 3)

def lineQuorumRelay : QuorumRelay := ⟨{ lineRelay with newProvers := lineMap }, ∅, [], 3, 0, none⟩

def lineProver : KeyedProver := ⟨⟨0, 3, 2, 0, 1, ∅⟩, HMap.insert ∅ "OPRFSecp256k1" [1], fun _ => none⟩

theorem rollback_restores_iff_line :
    let s := { lineQuorumRelay.saveCurrentState (fun _ => true) true with
      relay := updateThreshold ⟨3, 0, 4⟩ (lineQuorumRelay.saveCurrentState (fun _ => true) true).relay }
    let rolled := s.rollbackToPreviousState (fun _ => true) true (some {1, 2})
    (rolled.persisted = lineQuorumRelay.persisted ∧ rolled.relay.activeProvers.Perm lineRelay.activeProvers ∧
      rolled.relay.readyNodes = {1, 2} ∧ (rolled.relay.ready = true ↔ rolled.relay.t ≤ rolled.relay.readyNodes.card)) ∧
    (KeyedProver.rollbackToPreviousState (fun _ => true)
      ((lineProver.saveCurrentState fun _ => true).handle (.storeKeyShares ∅))).persisted = lineProver.persisted := by
  intro s rolled
  have hrun : Reach (QuorumRelay.Step scalarRelay DkgRelay.entryOrder) QuorumRelay.NotSaving
      (lineQuorumRelay.saveCurrentState (fun _ => true) true) s :=
    Reach.refl.tail (e := .relay (.updatedThreshold ⟨3, 0, 4⟩) true) trivial ⟨[], rfl⟩
  have hprover : Reach KeyedProver.Step KeyedProver.NotSaving (lineProver.saveCurrentState fun _ => true)
      ((lineProver.saveCurrentState fun _ => true).handle (.storeKeyShares ∅)) :=
    Reach.refl.tail (e := .storeKeyShares ∅) trivial rfl
  obtain ⟨hrelay, hrestored⟩ := rollback_restores_iff scalarRelay DkgRelay.entryOrder lineQuorumRelay s lineProver _
    (some {1, 2}) hrun hprover
  refine ⟨hrelay.2 ⟨by decide, ?_, by decide⟩, hrestored⟩
  intro nodes hnodes
  obtain rfl := Option.some.inj hnodes
  decide

/-- The shares are cleared for a resharing that fails. All three nodes answer the ping of the rollback, and the relay
does not count as ready. -/
theorem rollback_leaves_not_ready :
    ∃ s, Reach (QuorumRelay.Step scalarRelay DkgRelay.entryOrder) QuorumRelay.NotSaving
        (lineQuorumRelay.saveCurrentState (fun _ => true) true) s ∧
      let rolled := s.rollbackToPreviousState (fun _ => true) true (some {1, 2, 3})
      rolled.relay.t = 2 ∧ rolled.relay.readyNodes = {1, 2, 3} ∧ rolled.relay.ready = false :=
  ⟨{ lineQuorumRelay.saveCurrentState (fun _ => true) true with
      relay := clearShares (lineQuorumRelay.saveCurrentState (fun _ => true) true).relay },
    Reach.refl.tail (e := .relay .clearShares true) trivial ⟨[], rfl⟩, rfl, rfl, rfl⟩

/-! ### Saves that are interrupted -/

namespace QuorumRelay

/-- Wherever a save stops, the next start and a rollback after it load the old state or the new one. -/
def LoadsOne (s : QuorumRelay) (old : ∀ k : RelayKey, k.Value) : Prop :=
  ∀ j ping ping', let started := (s.saveKeys (RelayKey.order.take j)).preStart (fun _ => true) true ping
    (started.persisted = old ∨ started.persisted = s.persisted) ∧
      ((started.rollbackToPreviousState (fun _ => true) true ping').persisted = old ∨
        (started.rollbackToPreviousState (fun _ => true) true ping').persisted = s.persisted)

end QuorumRelay

namespace KeyedProver

def LoadsOne (p : KeyedProver) (old : ∀ k : ProverKey, k.Value) : Prop :=
  ∀ j, let started := (p.saveKeys (ProverKey.order.take j)).preStart fun _ => true
    (started.persisted = old ∨ started.persisted = p.persisted) ∧
      ((started.rollbackToPreviousState fun _ => true).persisted = old ∨
        (started.rollbackToPreviousState fun _ => true).persisted = p.persisted)

end KeyedProver

/-- A save that can stop anywhere leaves one state as a whole if and only if it changes one field at most. -/
theorem crash_consistent_iff (s : QuorumRelay) (oldRelay : ∀ k : RelayKey, k.Value)
    (hrelay : s.entries = Store.full oldRelay) (p : KeyedProver) (oldProver : ∀ k : ProverKey, k.Value)
    (hprover : p.entries = Store.full oldProver) :
    (s.LoadsOne oldRelay ↔ ∀ k k', oldRelay k ≠ s.persisted k → oldRelay k' ≠ s.persisted k' → k = k') ∧
    (p.LoadsOne oldProver ↔ ∀ k k', oldProver k ≠ p.persisted k → oldProver k' ≠ p.persisted k' → k = k') := by
  refine ⟨?_, ?_⟩
  · rw [← Store.loads_one_iff RelayKey.default oldRelay s.persisted RelayKey.mem_order, QuorumRelay.LoadsOne]
    simp only [QuorumRelay.persisted_rollback, QuorumRelay.entries_preStart, QuorumRelay.persisted_preStart,
      QuorumRelay.entries_saveKeys, hrelay, and_self]
    exact ⟨fun h j => h j none none, fun h j _ _ => h j⟩
  · rw [← Store.loads_one_iff ProverKey.default oldProver p.persisted ProverKey.mem_order, KeyedProver.LoadsOne]
    have hrollback : ∀ started : KeyedProver, started.rollbackToPreviousState (fun _ => true) =
        started.restore (fun _ => true) started.prover.currentEpoch := fun _ => rfl
    have hstart : ∀ (keys : List ProverKey) (currentEpoch : ℕ),
        ((p.saveKeys keys).restore (fun _ => true) currentEpoch).entries = (p.saveKeys keys).entries := fun _ _ => rfl
    simp only [hrollback, KeyedProver.preStart, KeyedProver.persisted_restore, hstart, KeyedProver.entries_saveKeys,
      hprover, and_self]

theorem crash_consistent_iff_line :
    let s := { lineQuorumRelay.saveCurrentState (fun _ => true) true with
      relay := { (lineQuorumRelay.saveCurrentState (fun _ => true) true).relay with pubkeyShares := ∅ } }
    let p := (lineProver.saveCurrentState fun _ => true).handle (.storeKeyShares ∅)
    s.LoadsOne lineQuorumRelay.persisted ∧ p.LoadsOne lineProver.persisted := by
  intro s p
  have hrelay : s.entries = Store.full lineQuorumRelay.persisted := by
    funext k
    cases k <;> rfl
  obtain ⟨hs, hp⟩ := crash_consistent_iff s lineQuorumRelay.persisted hrelay p lineProver.persisted rfl
  refine ⟨hs.2 fun k k' hk hk' => ?_, hp.2 fun k k' hk hk' => ?_⟩
  · have hshares : ∀ k : RelayKey, lineQuorumRelay.persisted k ≠ s.persisted k → k = .pubkeyShares := by
      intro k hk
      cases k
      case pubkeyShares => rfl
      all_goals exact absurd rfl hk
    rw [hshares k hk, hshares k' hk']
  · have hshares : ∀ k : ProverKey, lineProver.persisted k ≠ p.persisted k → k = .privateKeyshares := by
      intro k hk
      cases k
      case privateKeyshares => rfl
      all_goals exact absurd rfl hk
    rw [hshares k hk, hshares k' hk']

/-- A resharing has given the relay new keys and a new map, and a prover a new index and a new share. A relay that
stops after five inserts starts with the new keys and the old map, and a prover with the new index and the old share. -/
theorem crash_mixes_states :
    (∃ (s : QuorumRelay) (old : ∀ k : RelayKey, k.Value), s.entries = Store.full old ∧
      let started := (s.saveKeys (RelayKey.order.take 5)).preStart (fun _ => true) true none
      started.persisted .pubkeyShares ≠ old .pubkeyShares ∧ started.persisted .newProvers ≠ s.persisted .newProvers) ∧
    ∃ (p : KeyedProver) (old : ∀ k : ProverKey, k.Value), p.entries = Store.full old ∧
      let started := (p.saveKeys (ProverKey.order.take 5)).preStart fun _ => true
      started.persisted .idx ≠ old .idx ∧ started.persisted .privateKeyshares ≠ p.persisted .privateKeyshares := by
  refine ⟨⟨{ lineQuorumRelay.saveCurrentState (fun _ => true) true with
      relay := { (lineQuorumRelay.saveCurrentState (fun _ => true) true).relay with
        pubkeyShares := ∅, newProvers := lineMap.remove "prover1" } }, lineQuorumRelay.persisted, ?_, ?_, ?_⟩,
    ⟨{ lineProver.saveCurrentState (fun _ => true) with
      prover := ⟨0, 3, 2, 0, 2, ∅⟩, privateKeyshares := ∅ }, lineProver.persisted, rfl, ?_, ?_⟩⟩
  · funext k
    cases k <;> rfl
  · exact fun h => absurd (congrArg HMap.len h) (by decide)
  · exact fun h => absurd (congrArg HMap.len h) (by decide)
  · show (2 : ℕ) ≠ 1
    decide
  · exact fun h => absurd (congrArg HMap.len h) (by decide)

end HumanNetwork
