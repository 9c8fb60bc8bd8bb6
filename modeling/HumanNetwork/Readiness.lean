import HumanNetwork.Lib.Reach
import HumanNetwork.RelayIntegrity

/-!
# The ready nodes and the active quorum (`ready_nodes` in `app_state_actor.rs`)

`ready_nodes` is a set of indices. A kset adds the index that its message declares, and a ping replaces the set by
the indices of the nodes that answer. `Event.reports` is what a message puts into the set.

`store_resharing_kset` takes the newly elected provers as the active ones when the set has `n` indices.
`ResharingRelay` records beside the relay who has delivered a kset since the shares were cleared:
`switch_after_all_delivered` says when the size of the set is as good as this record, and
`switch_after_ping` shows a relay that switches after one kset.
-/

namespace HumanNetwork
open Outcome

variable {env : RelayEnv}

def Event.reports (s : Relay) : Event env → Finset ℕ
  | .mulRequest _ _ reply => if s.readyNodes.card < s.t ∧ s.newProvers.len ≠ 0 then reply.ping.getD ∅ else ∅
  | .storeKSet peerId shares idx keys => if s.acceptsKset peerId shares keys then {idx} else ∅
  | .resharingStoreKSet peerId shares idx => if s.acceptsResharingKset peerId shares then {idx} else ∅
  | .rollbackToPreviousState readable ping =>
    if (getState (readable .newProvers) s.saved.newProvers ∅).len ≠ 0 then ping.getD ∅ else ∅
  | _ => ∅

theorem pingIfShort_subset (s : Relay) (ping : Option (Finset ℕ)) :
    (pingIfShort s ping).readyNodes ⊆
      s.readyNodes ∪ if s.readyNodes.card < s.t ∧ s.newProvers.len ≠ 0 then ping.getD ∅ else ∅ := by
  unfold pingIfShort
  split
  · exact Finset.subset_union_right
  · exact Finset.subset_union_left

theorem Relay.Step.readyNodes_subset {s s' : Relay} {e : Event env} (h : Relay.Step env s e s') :
    s'.readyNodes ⊆ s.readyNodes ∪ e.reports s := by
  obtain ⟨effects, h⟩ := h
  cases e with
  | processReceivedProof =>
    have hsame := congrArg readyNodes (withoutCaches_of_processReceivedProof h)
    exact hsame.subset.trans Finset.subset_union_left
  | mulRequest request requestId reply =>
    obtain ⟨reqCache, effect, -, -, heq⟩ := handleMultiplicationRequest_cases env s request requestId reply
    obtain ⟨rfl, -⟩ := Prod.mk.inj (heq.symm.trans (Except.ok.inj h))
    exact pingIfShort_subset s reply.ping
  | storeKSet peerId shares idx keys =>
    obtain ⟨rfl, -⟩ := Prod.mk.inj (Except.ok.inj h)
    rw [storeKset_eq, Event.reports]
    split
    · exact Finset.insert_subset (by simp) Finset.subset_union_left
    · exact Finset.subset_union_left
  | resharingStoreKSet peerId shares idx =>
    obtain ⟨rfl, -⟩ := Prod.mk.inj (Except.ok.inj h)
    rw [storeResharingKset_eq, Event.reports]
    split
    · exact Finset.insert_subset (by simp) Finset.subset_union_left
    · exact Finset.subset_union_left
  | rollbackToPreviousState readable ping =>
    obtain ⟨rfl, -⟩ := Prod.mk.inj (Except.ok.inj h)
    rw [Event.reports, rollbackToPreviousState]
    split
    · exact Finset.subset_union_right
    · exact Finset.empty_subset _
  | updateElectedProvers provers isCacheProver =>
    obtain ⟨rfl, -⟩ := Prod.mk.inj (Except.ok.inj h)
    obtain ⟨cached, active, heq⟩ := updateElectedProvers_eq s provers isCacheProver
    rw [heq]
    exact Finset.subset_union_left
  | clearShares =>
    obtain ⟨rfl, -⟩ := Prod.mk.inj (Except.ok.inj h)
    exact Finset.empty_subset _
  | expire cache key =>
    obtain ⟨rfl, -⟩ := Prod.mk.inj (Except.ok.inj h)
    cases cache <;> exact Finset.subset_union_left
  | _ =>
    obtain ⟨rfl, -⟩ := Prod.mk.inj (Except.ok.inj h)
    exact Finset.subset_union_left

theorem Relay.Step.newCachedElectedProvers_cases {s s' : Relay} {e : Event env} (h : Relay.Step env s e s') :
    s'.newCachedElectedProvers = s.newCachedElectedProvers ∨
      e = .updateElectedProvers s'.newCachedElectedProvers true := by
  cases e with
  | processReceivedProof | mulRequest | storeKSet | resharingStoreKSet | expire =>
    have hsame := congrArg newCachedElectedProvers (h.setup rfl)
    exact .inl hsame
  | updateElectedProvers provers isCacheProver =>
    obtain rfl := h.eq rfl
    cases isCacheProver with
    | true => exact .inr rfl
    | false => exact .inl rfl
  | _ =>
    obtain rfl := h.eq rfl
    exact .inl rfl

/-! ### Who has delivered -/

/-- The relay, and who has delivered a kset of the resharing since the shares were cleared. -/
structure ResharingRelay where
  relay : Relay
  delivered : Finset PeerId

namespace ResharingRelay

def deliveredAfter (w : ResharingRelay) : Event env → Finset PeerId
  | .clearShares => ∅
  | .resharingStoreKSet peerId shares _ =>
    if w.relay.acceptsResharingKset peerId shares then insert peerId w.delivered else w.delivered
  | _ => w.delivered

variable (env) in
def Step (w : ResharingRelay) (e : Event env) (w' : ResharingRelay) : Prop :=
  Relay.Step env w.relay e w'.relay ∧ w'.delivered = w.deliveredAfter e

def deliver (peerId : PeerId) (shares : PubkeyShares) (idx : ℕ) (w : ResharingRelay) : ResharingRelay where
  relay := storeResharingKset peerId shares idx w.relay
  delivered := if w.relay.acceptsResharingKset peerId shares then insert peerId w.delivered else w.delivered

theorem step_deliver (peerId : PeerId) (shares : PubkeyShares) (idx : ℕ) (w : ResharingRelay) :
    Step env w (.resharingStoreKSet peerId shares idx) (w.deliver peerId shares idx) :=
  ⟨⟨_, rfl⟩, rfl⟩

/-- A message that leaves the set of ready nodes as good as the record: it reports only provers that have delivered,
a kset comes when `n` is the number of the newly elected, and these are not exchanged for others. -/
structure Orderly (idxOf : PeerId → ℕ) (w : ResharingRelay) (e : Event env) : Prop where
  reports : e.reports w.relay ⊆ (w.deliveredAfter e).image idxOf
  full : ∀ peerId shares idx, e = .resharingStoreKSet peerId shares idx →
    (proverIds w.relay.newCachedElectedProvers).card ≤ w.relay.n
  elected : ∀ provers, e = .updateElectedProvers provers true → w.delivered ⊆ proverIds provers

/-- Every ready node has delivered, and only newly elected provers have. -/
structure Backed (idxOf : PeerId → ℕ) (w : ResharingRelay) : Prop where
  ready : w.relay.readyNodes ⊆ w.delivered.image idxOf
  elected : w.delivered ⊆ proverIds w.relay.newCachedElectedProvers

variable {idxOf : PeerId → ℕ} {w w' : ResharingRelay} {e : Event env}

theorem deliveredAfter_cases (w : ResharingRelay) (e : Event env) :
    e = .clearShares ∨ w.deliveredAfter e = w.delivered ∨
      ∃ peerId shares idx, e = .resharingStoreKSet peerId shares idx ∧
        peerId ∈ proverIds w.relay.newCachedElectedProvers ∧ w.deliveredAfter e = insert peerId w.delivered := by
  cases e with
  | clearShares => exact .inl rfl
  | resharingStoreKSet peerId shares idx =>
    by_cases haccepts : w.relay.acceptsResharingKset peerId shares = true
    · exact .inr (.inr ⟨peerId, shares, idx, rfl, Relay.mem_of_acceptsResharingKset haccepts, if_pos haccepts⟩)
    · exact .inr (.inl (if_neg haccepts))
  | _ => exact .inr (.inl rfl)

theorem Step.backed_of_clearShares (h : Step env w .clearShares w') : Backed idxOf w' := by
  refine ⟨?_, ?_⟩
  · rw [h.1.eq rfl]
    exact Finset.empty_subset _
  · rw [h.2]
    exact Finset.empty_subset _

theorem delivered_subset (w : ResharingRelay) {e : Event env} (he : e ≠ .clearShares) :
    w.delivered ⊆ w.deliveredAfter e := by
  rcases deliveredAfter_cases w e with rfl | heq | ⟨peerId, -, -, -, -, heq⟩
  · exact absurd rfl he
  · rw [heq]
  · rw [heq]
    exact Finset.subset_insert _ _

theorem Step.backed (h : Step env w e w') (hback : Backed idxOf w) (hok : Orderly idxOf w e) : Backed idxOf w' := by
  by_cases hclear : e = .clearShares
  · subst hclear
    exact h.backed_of_clearShares
  have hgrow := w.delivered_subset hclear
  refine ⟨?_, ?_⟩
  · rw [h.2]
    refine h.1.readyNodes_subset.trans (Finset.union_subset ?_ hok.reports)
    exact hback.ready.trans (Finset.image_subset_image hgrow)
  · rw [h.2]
    rcases h.1.newCachedElectedProvers_cases with hsame | rfl
    · rw [hsame]
      rcases deliveredAfter_cases w e with rfl | heq | ⟨peerId, -, -, -, hmem, heq⟩
      · exact absurd rfl hclear
      · rw [heq]
        exact hback.elected
      · rw [heq]
        exact Finset.insert_subset hmem hback.elected
    · exact hok.elected _ rfl

theorem Backed.all_delivered (h : Backed idxOf w) {peerId : PeerId} {shares : PubkeyShares} {idx : ℕ}
    (hok : Orderly idxOf w (.resharingStoreKSet peerId shares idx : Event env))
    (hswitch : w.relay.switches peerId shares idx = true) :
    proverIds w.relay.newCachedElectedProvers ⊆ insert peerId w.delivered := by
  obtain ⟨haccepts, hcard⟩ := Bool.and_eq_true_iff.1 hswitch
  have hcard := of_decide_eq_true hcard
  have hreports := hok.reports
  rw [Event.reports, deliveredAfter, if_pos haccepts, if_pos haccepts] at hreports
  have hready : insert idx w.relay.readyNodes ⊆ (insert peerId w.delivered).image idxOf :=
    Finset.insert_subset (hreports (Finset.mem_singleton_self idx))
      (h.ready.trans (Finset.image_subset_image (Finset.subset_insert _ _)))
  have hdelivered : insert peerId w.delivered ⊆ proverIds w.relay.newCachedElectedProvers :=
    Finset.insert_subset (Relay.mem_of_acceptsResharingKset haccepts) h.elected
  refine (Finset.eq_of_subset_of_card_le hdelivered ?_).ge
  calc (proverIds w.relay.newCachedElectedProvers).card ≤ w.relay.n := hok.full _ _ _ rfl
    _ = (insert idx w.relay.readyNodes).card % 2 ^ 32 := hcard.symm
    _ ≤ (insert idx w.relay.readyNodes).card := Nat.mod_le _ _
    _ ≤ ((insert peerId w.delivered).image idxOf).card := Finset.card_le_card hready
    _ ≤ (insert peerId w.delivered).card := Finset.card_image_le

/-- While the messages are orderly, the newly elected provers become the active ones only when all of them have
delivered their kset. -/
theorem switch_after_all_delivered (env : RelayEnv) (idxOf : PeerId → ℕ) {w w' w'' : ResharingRelay}
    (hready : w.relay.readyNodes = ∅) (hdelivered : w.delivered = ∅)
    (hrun : Reach (Step env) (Orderly idxOf) w w') {peerId : PeerId} {shares : PubkeyShares} {idx : ℕ}
    (hok : Orderly idxOf w' (.resharingStoreKSet peerId shares idx : Event env))
    (hstep : Step env w' (.resharingStoreKSet peerId shares idx) w'')
    (hswitch : w'.relay.switches peerId shares idx = true) :
    w''.relay.activeProvers = w'.relay.newCachedElectedProvers ∧
      proverIds w''.relay.activeProvers ⊆ w''.delivered := by
  have hinit : Backed idxOf w := by
    refine ⟨?_, ?_⟩
    · rw [hready]
      exact Finset.empty_subset _
    · rw [hdelivered]
      exact Finset.empty_subset _
  have hback : Backed idxOf w' := hrun.invariant hinit fun hback hok hstep => hstep.backed hback hok
  have haccepts := (Bool.and_eq_true_iff.1 hswitch).1
  have hactive : w''.relay.activeProvers = w'.relay.newCachedElectedProvers := by
    rw [hstep.1.eq rfl, storeResharingKset_eq, if_pos haccepts]
    exact if_pos hswitch
  refine ⟨hactive, ?_⟩
  rw [hactive, hstep.2, deliveredAfter, if_pos haccepts]
  exact hback.all_delivered hok hswitch

theorem orderly_resharingStoreKSet {peerId : PeerId} {shares : PubkeyShares} {idx : ℕ} (hidx : idx = idxOf peerId)
    (hfull : (proverIds w.relay.newCachedElectedProvers).card ≤ w.relay.n) :
    Orderly idxOf w (.resharingStoreKSet peerId shares idx : Event env) := by
  refine ⟨?_, fun _ _ _ _ => hfull, fun _ h => nomatch h⟩
  rw [Event.reports, deliveredAfter]
  split
  · rw [Finset.singleton_subset_iff, hidx]
    exact Finset.mem_image_of_mem _ (Finset.mem_insert_self _ _)
  · exact Finset.empty_subset _

def electedIdx : PeerId → ℕ
  | "prover2" => 1
  | "prover3" => 2
  | _ => 3

def electedMap : HMap PeerId (ProverInfo × ℕ) :=
  ((HMap.insert ∅ "prover2" (⟨"prover2", 1⟩, 1)).insert "prover3" (⟨"prover3", 2⟩, 2)).insert "prover4" (⟨"prover4", 3⟩, 3)

/-- The relay when a re-election has put the fourth prover in the place of the first. -/
def reElectedRelay : Relay :=
  updateThreshold ⟨2, 0, 3⟩ (storeQuorumMap electedMap electedMap
    (updateElectedProvers (electedMap.values.map Prod.fst) true (clearShares lineRelay)))

theorem switch_after_all_delivered_reElected :
    let w := (deliver "prover2" ∅ 1 ⟨reElectedRelay, ∅⟩).deliver "prover3" ∅ 2
    w.relay.switches "prover4" ∅ 3 = true ∧
      (w.deliver "prover4" ∅ 3).relay.activeProvers = w.relay.newCachedElectedProvers ∧
      proverIds (w.deliver "prover4" ∅ 3).relay.activeProvers ⊆ (w.deliver "prover4" ∅ 3).delivered := by
  intro w
  have hrun : Reach (Step scalarRelay) (Orderly electedIdx) ⟨reElectedRelay, ∅⟩ w :=
    (Reach.refl.tail (orderly_resharingStoreKSet rfl (by decide)) (step_deliver "prover2" ∅ 1 _)).tail
      (orderly_resharingStoreKSet rfl (by decide)) (step_deliver "prover3" ∅ 2 _)
  have hswitch : w.relay.switches "prover4" ∅ 3 = true := by decide
  exact ⟨hswitch, switch_after_all_delivered scalarRelay electedIdx rfl rfl hrun
    (orderly_resharingStoreKSet rfl (by decide)) (step_deliver "prover4" ∅ 3 w) hswitch⟩

/-- A request comes when nobody is ready, and two of the elected nodes answer the ping. The first kset then switches
to provers two of which have not delivered. -/
theorem switch_after_ping :
    ∃ w, Reach (Step scalarRelay) (fun _ _ => True) ⟨reElectedRelay, ∅⟩ w ∧
      Step scalarRelay w (.resharingStoreKSet "prover4" ∅ 3) (w.deliver "prover4" ∅ 3) ∧
      w.relay.switches "prover4" ∅ 3 = true ∧ (w.deliver "prover4" ∅ 3).delivered = {"prover4"} ∧
      proverIds (w.deliver "prover4" ∅ 3).relay.activeProvers = {"prover2", "prover3", "prover4"} := by
  have hrun : Reach (Step scalarRelay) (fun _ _ => True) ⟨reElectedRelay, ∅⟩
      ⟨(handleMultiplicationRequest scalarRelay reElectedRelay lineRequest "other" ⟨some {1, 2}, none⟩).1, ∅⟩ :=
    Reach.refl.tail (e := .mulRequest lineRequest "other" ⟨some {1, 2}, none⟩) trivial ⟨⟨_, rfl⟩, rfl⟩
  exact ⟨_, hrun, step_deliver _ _ _ _, by decide, rfl, by decide⟩

end ResharingRelay
end HumanNetwork
