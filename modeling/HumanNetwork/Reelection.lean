import HumanNetwork.Election
import HumanNetwork.Lib.Reach

/-!
# When a re-election may start (`TriggerReElection`)

A re-election announces `T*` if it has at least `current_threshold` members. The field is set by a first
election only: a resharing leaves it, and a restart of the relay sets it to zero. `Custody` is the relay's election
actor with the threshold of the sharing that the active provers hold, which no actor of the relay stores.

As long as the field is at least that threshold, every announced `T*` can recover the secret
(`Custody.reelection_has_enough`).
-/

namespace HumanNetwork
open Outcome ElectionEngine

/-- A sharing that is being made: the quorum of a key generation, or the threshold of a resharing. -/
inductive PendingSharing where
  | dkg (elected : List ProverRecord)
  | resharing (threshold : ℕ)

/-- `held` is the threshold of the sharing that the active provers hold, zero before the first. `announced` lists
the announced `T*` with their sizes, each with what was held then. -/
structure Custody (env : ElectionEnv) where
  engine : ElectionEngine env.f64
  held : ℕ
  pending : Option PendingSharing
  announced : List (ℕ × ℕ)

/-- `dkgCompleted` carries the election actor of a prover that took part: it computes the threshold. -/
inductive CustodyEvent (env : ElectionEnv) where
  | updateElectionParams (params : ElectionParams env.f64) (written : Bool × Bool × Bool)
  | firstElection (reply : FirstElectionReply)
  | dkgCompleted (prover : ElectionEngine env.f64)
  | reElection (prevElectedProvers : List ProverInfo) (reply : ReElectionReply)
  | resharingCompleted
  | sharingFailed
  | restart

namespace Custody
variable {env : ElectionEnv}

def init (peerId relayNode : PeerId) (saved : SavedElection env.f64) : Custody env :=
  ⟨.preStart env.f64 peerId relayNode saved, 0, none, []⟩

inductive Step (env : ElectionEnv) : Custody env → CustodyEvent env → Custody env → Prop
  | updateElectionParams {s params written engine} (h : s.engine.updateElectionParams params written = .ok engine) :
    Step env s (.updateElectionParams params written) { s with engine := engine }
  | firstElection {s reply engine casts} (h : s.engine.handleTriggerElection env reply = .ok (some (engine, casts))) :
    Step env s (.firstElection reply) { s with engine := engine, pending := some (.dkg engine.electedProvers) }
  | dkgCompleted {s prover idx p provers threshold} (hpending : s.pending = some (.dkg prover.electedProvers))
      (h : .dkgInit idx p provers threshold ∈ prover.handleTriggerInitDkg) :
    Step env s (.dkgCompleted prover) { s with held := threshold, pending := none }
  | reElection {s prev reply engine casts info tstar new drand}
      (h : s.engine.triggerReElection env prev reply = .ok (some (engine, casts)))
      (hann : .forwardReElectedProvers info tstar new drand ∈ casts) :
    Step env s (.reElection prev reply)
      { s with
        engine := engine, pending := some (.resharing info.threshold), announced := (tstar.len, s.held) :: s.announced }
  | noReElection {s prev reply engine casts}
      (h : s.engine.triggerReElection env prev reply = .ok (some (engine, casts)))
      (hnone : ∀ info tstar new drand, .forwardReElectedProvers info tstar new drand ∉ casts) :
    Step env s (.reElection prev reply) { s with engine := engine }
  | resharingCompleted {s threshold} (hpending : s.pending = some (.resharing threshold)) :
    Step env s .resharingCompleted { s with held := threshold, pending := none }
  | sharingFailed {s} : Step env s .sharingFailed { s with pending := none }
  | restart {s} :
    Step env s .restart { s with engine := .preStart env.f64 s.engine.peerId s.engine.relayNode s.engine.saved }

/-- No step brings `current_threshold` below the threshold of the sharing that is held, or a sharing with a
threshold above the field, and the registry has no peer twice. -/
def Meets (s : Custody env) : CustodyEvent env → Prop
  | .firstElection _ => s.held ≤ calculateThreshold env.f64 s.engine.globals.minNodes s.engine.globals.threshold
  | .dkgCompleted prover =>
    calculateThreshold env.f64 prover.electedProvers.length prover.globals.threshold ≤ s.engine.currentThreshold
  | .reElection _ reply => ∀ registry ∈ reply.registries, (registry.peerIds env).Nodup
  | .resharingCompleted => ∀ threshold, s.pending = some (.resharing threshold) → threshold ≤ s.engine.currentThreshold
  | .restart => s.held = 0
  | _ => True

structure Inv (s : Custody env) : Prop where
  held_le : s.held ≤ s.engine.currentThreshold
  announced : ∀ a ∈ s.announced, a.2 ≤ a.1

theorem le_tstar_len {engine engine' : ElectionEngine env.f64} {prev : List ProverInfo} {reply : ReElectionReply}
    {casts : List ElectionCast} {provers newQuorum : List ProverRecord} {drand : DrandResponse}
    (h : Announces engine engine' prev reply casts provers newQuorum drand)
    (hnodup : ∀ registry ∈ reply.registries, (registry.peerIds env).Nodup) :
    engine.currentThreshold ≤ (quorumMap engine'.tstarProvers).len := by
  obtain ⟨registry, hregistry, hfetched⟩ := waitParticipating_eq_some h.fetched
  have hids := fetchProversV2_nodup hfetched (hnodup registry hregistry)
  have hsub : engine'.tstarProvers.Sublist provers := by
    rw [h.engine]
    exact ((List.filter_sublist.trans List.filter_sublist).trans List.filter_sublist).trans (List.drop_sublist 2 _)
  rw [quorumMap, HMap.len_collect _ (hids.sublist (hsub.map _)), h.engine]
  exact h.enough

theorem triggerReElection_currentThreshold {engine engine' : ElectionEngine env.f64} {prev : List ProverInfo}
    {reply : ReElectionReply} {casts : List ElectionCast}
    (h : engine.triggerReElection env prev reply = .ok (some (engine', casts))) :
    engine'.currentThreshold = engine.currentThreshold := by
  rcases triggerReElection_cases h with ⟨rfl, -⟩ | ⟨_, _, _, hann⟩
  · rfl
  · rw [hann.engine]
    rfl

theorem Step.inv {s s' : Custody env} {e : CustodyEvent env} (hs : s.Inv) (hmeets : s.Meets e) (h : Step env s e s') :
    s'.Inv := by
  obtain ⟨hheld, hannounced⟩ := hs
  cases h with
  | updateElectionParams h =>
    obtain ⟨-, _, _, rfl⟩ := updateElectionParams_eq_ok h
    exact ⟨hheld, hannounced⟩
  | firstElection h =>
    obtain ⟨_, _, _, -, -, -, rfl, rfl, -⟩ := handleTriggerElection_eq_ok h
    exact ⟨hmeets, hannounced⟩
  | dkgCompleted hpending h =>
    refine ⟨?_, hannounced⟩
    rw [(mem_handleTriggerInitDkg h).2.2]
    exact hmeets
  | reElection h hann =>
    have hkept := triggerReElection_currentThreshold h
    obtain ⟨_, _, hannounces, -, rfl, -⟩ := announces_of_mem h hann
    refine ⟨hkept ▸ hheld, fun a ha => ?_⟩
    rcases List.mem_cons.1 ha with rfl | ha
    · exact hheld.trans (le_tstar_len hannounces hmeets)
    · exact hannounced a ha
  | noReElection h hnone => exact ⟨triggerReElection_currentThreshold h ▸ hheld, hannounced⟩
  | resharingCompleted hpending => exact ⟨hmeets _ hpending, hannounced⟩
  | sharingFailed => exact ⟨hheld, hannounced⟩
  | restart => exact ⟨le_of_eq hmeets, hannounced⟩

/-- In every run that keeps `current_threshold` at or above the threshold of the sharing that is held, each announced
`T*` has at least as many members as that sharing needs. -/
theorem reelection_has_enough (env : ElectionEnv) (peerId relayNode : PeerId) (saved : SavedElection env.f64)
    (s : Custody env) (hrun : Reach (Step env) Meets (init peerId relayNode saved) s) :
    ∀ a ∈ s.announced, a.2 ≤ a.1 := by
  have hinit : (init peerId relayNode saved : Custody env).Inv := ⟨Nat.zero_le _, by simp [init]⟩
  exact (hrun.invariant hinit fun hs hmeets hstep => hstep.inv hs hmeets).announced

/-! ### A restart -/

def electedProver : ElectionEngine exactF64 := { freshEngine "a" with electedProvers := threeProvers }

def electedRelay : ElectionEngine openElection.f64 :=
  { freshEngine "relay" with currentState := .quorumElected, electedProvers := threeProvers, currentThreshold := 2 }

theorem shared_run {ok : Custody openElection → CustodyEvent openElection → Prop}
    (helected : ok (init "relay" "relay" ⟨none, none, none, none⟩)
      (.firstElection ⟨registryOf ["boot", "relay", "a", "b", "c"], [fun _ => true]⟩))
    (hdealt : ok ⟨electedRelay, 0, some (.dkg threeProvers), []⟩ (.dkgCompleted electedProver)) :
    Reach (Step openElection) ok (init "relay" "relay" ⟨none, none, none, none⟩) ⟨electedRelay, 2, none, []⟩ := by
  have ht : calculateThreshold exactF64 3 (60 : ℚ) = 2 := by decide +kernel
  have hfirst : Step openElection (init "relay" "relay" ⟨none, none, none, none⟩) _ ⟨electedRelay, 0, some (.dkg threeProvers), []⟩ :=
    .firstElection (firstElection_threeProvers rfl ht)
  have hdkg : .dkgInit 2 "a" (quorumMap threeProvers) 2 ∈ electedProver.handleTriggerInitDkg := by
    show _ ∈ [ElectionCast.dkgInit 2 "a" (quorumMap threeProvers) (calculateThreshold exactF64 3 (60 : ℚ))]
    rw [ht]
    exact List.mem_singleton.2 rfl
  exact (Reach.refl.tail helected hfirst).tail hdealt (.dkgCompleted rfl hdkg)

def reElectionWithout (absent : List PeerId) : CustodyEvent openElection :=
  .reElection (threeProvers.map fun p => p.toProverInfo)
    ⟨[registryOf ["boot", "relay", "a", "b", "c", "d", "e"]], fun p => p.peerId ∉ absent, none, []⟩

theorem reelection_has_enough_three : ∃ s : Custody openElection,
    Reach (Step openElection) Meets (init "relay" "relay" ⟨none, none, none, none⟩) s ∧
    s.announced = [(3, 2)] ∧ ∀ a ∈ s.announced, a.2 ≤ a.1 := by
  have hshared : Reach (Step openElection) Meets (init "relay" "relay" ⟨none, none, none, none⟩)
      ⟨electedRelay, 2, none, []⟩ := shared_run (Nat.zero_le _) (show calculateThreshold exactF64 3 (60 : ℚ) ≤ 2 by decide +kernel)
  have hnodup : Meets ⟨electedRelay, 2, none, []⟩ (reElectionWithout []) := by
    intro registry hregistry
    obtain rfl := List.mem_singleton.1 hregistry
    decide
  have hrun := hshared.tail hnodup (.reElection rfl (List.mem_of_getElem? (i := 4) rfl))
  exact ⟨_, hrun, rfl, reelection_has_enough openElection "relay" "relay" _ _ hrun⟩

/-- The relay restarts, and then only one of the three provers answers: a `T*` of one is announced while the
sharing needs two. -/
theorem reelection_after_restart : ∃ s : Custody openElection,
    Reach (Step openElection) (fun _ _ => True) (init "relay" "relay" ⟨none, none, none, none⟩) s ∧
    s.announced = [(1, 2)] := by
  have hshared := @shared_run (fun _ _ => True) trivial trivial
  have hrestart := hshared.tail (e := .restart) trivial .restart
  exact ⟨_, hrestart.tail (e := reElectionWithout ["a", "b"]) trivial
    (.reElection rfl (List.mem_of_getElem? (i := 4) rfl)), rfl⟩

end Custody

end HumanNetwork
