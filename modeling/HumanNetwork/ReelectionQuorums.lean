import HumanNetwork.Reelection
import Mathlib.Data.List.Perm.Subperm

/-!
# The quorums that a re-election announces (`TriggerReElection`)

The candidates are the provers of the registry from the third on that are not excluded. Those that answer are sampled
for the new quorum, and those of them that were in the previous quorum are `T*`. An iteration of the sampling that
finds nothing ends it, since `min_nodes` are sampled and fewer are there (`weightedSample_eq_some`), and what was sampled
is part of the candidates, so that every lookup of an index finds one (`triggerReElection_noPanic`). With a sample of
another size it goes on, and what it returns may be shorter (`weightedSampleNNoReplace_wellFormed`).

`reElection_quorums` puts together what holds of the two maps.
-/

namespace HumanNetwork
open Outcome ElectionEngine

/-! ### Sampling -/

section sampling
variable {α : Type} {sample : ℕ → List α → Option ℕ} {minNodes : ℕ}

/-- What is sampled has been drawn from the positions that were left, and unless every iteration has drawn one, enough are
there and those that stay were left when the sampler found nothing. -/
theorem sampleLoop_eq_some {ι : Type} {node : ι → α} {is : List ℕ} {left : List ι} {result newSet : List α}
    (h : sampleLoop sample minNodes is (left.map node) result = .ok (some newSet)) :
    ∃ drawn rest : List ι, newSet = result ++ drawn.map node ∧ (drawn ++ rest).Perm left ∧ drawn.length ≤ is.length ∧
      (drawn.length = is.length ∨ minNodes ≤ newSet.length ∧
        ∃ i, ∃ left' : List ι, sample i (left'.map node) = none ∧ rest ⊆ left') := by
  induction is generalizing left result with
  | nil =>
    obtain rfl := Option.some.inj (Except.ok.inj h)
    exact ⟨[], left, (List.append_nil _).symm, .refl _, le_rfl, .inl rfl⟩
  | cons i is ih =>
    unfold sampleLoop at h
    split at h
    next idx hidx =>
      simp only [bind_eq_ok, unwrap_eq_ok, List.getElem?_map, Option.map_eq_some_iff, List.eraseIdx_map] at h
      obtain ⟨_, ⟨p, hp, rfl⟩, h⟩ := h
      obtain ⟨drawn, rest, rfl, hperm, hle, hend⟩ := ih h
      obtain ⟨hlt, rfl⟩ := List.getElem?_eq_some_iff.1 hp
      refine ⟨left[idx] :: drawn, rest, by rw [List.append_assoc]; rfl, ?_, Nat.succ_le_succ hle, ?_⟩
      · exact (hperm.cons _).trans (List.getElem_cons_eraseIdx_perm hlt)
      · exact hend.imp_left (congrArg (· + 1))
    next hnone =>
      split at h
      next hmin =>
        obtain ⟨drawn, rest, rfl, hperm, hle, -⟩ := ih h
        refine ⟨drawn, rest, rfl, hperm, hle.trans (Nat.le_succ _), .inr ⟨?_, i, left, hnone, ?_⟩⟩
        · rw [List.length_append]
          exact hmin.trans (Nat.le_add_right _ _)
        · exact fun p hp => hperm.mem_iff.1 (List.mem_append_right _ hp)
      next => cases h

theorem weightedSample_eq_some {nodes newSet : List α}
    (h : weightedSampleNNoReplace sample minNodes nodes minNodes = .ok (some newSet)) :
    newSet.length = minNodes ∧ newSet.Subperm nodes := by
  unfold weightedSampleNNoReplace at h
  split at h
  · cases h
  · rw [← List.map_id nodes] at h
    obtain ⟨drawn, rest, rfl, hperm, hle, hend⟩ := sampleLoop_eq_some h
    rw [List.map_id, List.nil_append, List.length_range] at *
    refine ⟨?_, (List.sublist_append_left drawn rest).subperm.trans hperm.subperm⟩
    exact hend.elim id fun hmin => le_antisymm hle hmin.1

theorem exists_sampleLoop (hrange : ∀ i nodes idx, sample i nodes = some idx → idx < nodes.length)
    (is : List ℕ) (theNodes result : List α) : ∃ sampled, sampleLoop sample minNodes is theNodes result = .ok sampled := by
  induction is generalizing theNodes result with
  | nil => exact ⟨_, rfl⟩
  | cons i is ih =>
    unfold sampleLoop
    split
    next idx hidx =>
      rw [List.getElem?_eq_getElem (hrange i theNodes idx hidx)]
      exact ih _ _
    next =>
      split
      · exact ih _ _
      · exact ⟨_, rfl⟩

theorem exists_weightedSample (hrange : ∀ i nodes idx, sample i nodes = some idx → idx < nodes.length) (nodes : List α) (n : ℕ) :
    ∃ sampled, weightedSampleNNoReplace sample minNodes nodes n = .ok sampled := by
  unfold weightedSampleNNoReplace
  split
  · exact ⟨_, rfl⟩
  · exact exists_sampleLoop hrange _ _ _

/-- Sampling without replacement, for every sampler that returns a position in range and nothing exactly when all weights
that are left are zero: no position is taken twice, and a sample of less than `n` nodes has at least `min_nodes` of them and
leaves out nodes without weight only. -/
theorem weightedSampleNNoReplace_wellFormed (weight : α → ℕ) (sample : ℕ → List α → Option ℕ) (minNodes : ℕ) (nodes : List α)
    (n : ℕ) (hrange : ∀ i left idx, sample i left = some idx → idx < left.length)
    (hnone : ∀ i left, sample i left = none ↔ ∀ node ∈ left, weight node = 0) :
    ∃ sampled, weightedSampleNNoReplace sample minNodes nodes n = .ok sampled ∧
      (n = 0 ∨ nodes.length < n → sampled = none) ∧
      ∀ newSet, sampled = some newSet → ∃ positions : List (Fin nodes.length), positions.Nodup ∧
        newSet = positions.map nodes.get ∧
        (newSet.length = n ∨ minNodes ≤ newSet.length ∧ ∀ p, p ∉ positions → weight (nodes.get p) = 0) := by
  obtain ⟨sampled, hsampled⟩ := exists_weightedSample hrange nodes n
  refine ⟨sampled, hsampled, fun hn => ?_, ?_⟩
  · rw [weightedSampleNNoReplace, if_pos (.inr hn)] at hsampled
    exact (Except.ok.inj hsampled).symm
  rintro newSet rfl
  unfold weightedSampleNNoReplace at hsampled
  split at hsampled
  · cases hsampled
  have hloop : sampleLoop sample minNodes (List.range n) ((List.finRange nodes.length).map nodes.get) [] =
      .ok (some newSet) := by rwa [List.map_get_finRange]
  obtain ⟨positions, rest, rfl, hperm, -, hend⟩ := sampleLoop_eq_some hloop
  have hnodup : (positions ++ rest).Nodup := hperm.nodup_iff.2 (List.nodup_finRange _)
  refine ⟨positions, (List.nodup_append.1 hnodup).1, rfl, ?_⟩
  rw [List.nil_append, List.length_map] at *
  refine hend.imp (fun hlen => hlen.trans List.length_range) ?_
  rintro ⟨hmin, i, left, hleft, hrest⟩
  refine ⟨hmin, fun p hp => ?_⟩
  -- a position that was not drawn was left when the sampler found nothing
  have hp : p ∈ rest := (List.mem_append.1 (hperm.mem_iff.2 (List.mem_finRange p))).resolve_left hp
  exact (hnone i _).1 hleft _ (List.mem_map_of_mem (hrest hp))

theorem weightedSampleNNoReplace_wellFormed_short :
    weightedSampleNNoReplace (fun _ left => left.findIdx? (· ≠ 0)) 2 [3, 0, 5] 3 = .ok (some [3, 5]) ∧
      ∃ positions : List (Fin 3), positions.Nodup ∧ [3, 5] = positions.map [3, 0, 5].get ∧
        ([3, 5].length = 3 ∨ 2 ≤ [3, 5].length ∧ ∀ p, p ∉ positions → id ([3, 0, 5].get p) = 0) := by
  have hrange : ∀ (i : ℕ) (left : List ℕ) idx, left.findIdx? (· ≠ 0) = some idx → idx < left.length := by
    intro _ left idx h
    exact (List.findIdx?_eq_some_iff_getElem.1 h).1
  have hnone : ∀ (i : ℕ) (left : List ℕ), left.findIdx? (· ≠ 0) = none ↔ ∀ node ∈ left, id node = 0 := by
    intro _ left
    simp
  have hrun : weightedSampleNNoReplace (fun _ left => left.findIdx? (· ≠ 0)) 2 [3, 0, 5] 3 = .ok (some [3, 5]) := rfl
  obtain ⟨sampled, hsampled, -, hwell⟩ := weightedSampleNNoReplace_wellFormed id _ 2 [3, 0, 5] 3 hrange hnone
  exact ⟨hrun, hwell _ (Except.ok.inj (hsampled.symm.trans hrun))⟩

end sampling

/-! ### Indices -/

variable {env : ElectionEnv}

theorem le_idx_of_fetchLoop {registry : Registry} {peers : List Peer} {idx k : ℕ} {provers : List ProverRecord}
    {p : ProverRecord} (h : fetchLoop env registry peers idx = .ok provers) (hp : provers[k]? = some p) : idx + k ≤ p.idx := by
  induction peers generalizing idx k provers with
  | nil =>
    obtain rfl := Except.ok.inj h
    simp at hp
  | cons peer peers ih =>
    obtain ⟨kept, rest, hrest, rfl, hkept⟩ := fetchLoop_cons h
    cases kept with
    | none => exact (Nat.le_succ _).trans ((Nat.succ_add idx k).ge.trans (ih hrest hp))
    | some q =>
      cases k with
      | zero =>
        obtain rfl := Option.some.inj hp
        exact (hkept q rfl).2.ge
      | succ k => exact (Nat.succ_add_eq_add_succ idx k).ge.trans (ih hrest hp)

theorem two_le_idx {registry : Registry} {provers : List ProverRecord} {p : ProverRecord}
    (h : fetchProversV2 env registry = .ok provers) (hp : p ∈ provers.drop 2) : 2 ≤ p.idx := by
  obtain ⟨k, hk⟩ := List.mem_iff_getElem?.1 hp
  rw [List.getElem?_drop] at hk
  have hle := le_idx_of_fetchLoop (fetchProversV2_eq_ok h) hk
  omega

/-! ### Panics -/

theorem drandSeed_noPanic (fallback : Bytes) (fetched : Option DrandResponse) : NoPanic (drandSeed env fallback fetched) := by
  unfold drandSeed
  split
  · exact .ok _
  · split
    · exact .fail _
    · exact .fail _
    · split
      · split
        · exact .ok _
        · exact .ok _
      · exact .ok _

theorem announce_noPanic {self : ElectionEngine env.f64} {prevElectedProvers : List ProverInfo}
    {participating reachable newSet : List ProverRecord} {drand : DrandResponse}
    (hreachable : ∀ p ∈ reachable, p ∈ participating) (hnew : ∀ p ∈ newSet, p ∈ participating) :
    NoPanic (self.announce env prevElectedProvers participating reachable newSet drand) := by
  simp only [announce]
  split
  · have htstar : ∀ p ∈ tstarQuorum prevElectedProvers reachable, p ∈ participating :=
      fun p hp => hreachable p (List.mem_of_mem_filter hp)
    have hquorum : ∀ p ∈ newSet.take self.globals.minNodes, p ∈ participating :=
      fun p hp => hnew p (List.mem_of_mem_take hp)
    rw [indexedQuorumMap_eq_ok.2 ⟨htstar, rfl⟩, bind_ok, indexedQuorumMap_eq_ok.2 ⟨hquorum, rfl⟩, bind_ok]
    exact .ok _
  · exact .ok _

/-- The re-election panics where it reads the registry, or not at all. -/
theorem triggerReElection_noPanic {self : ElectionEngine env.f64} {prevElectedProvers : List ProverInfo}
    {reply : ReElectionReply}
    (hrange : ∀ seed i nodes idx, env.weightedSample seed i nodes = some idx → idx < nodes.length)
    (hread : NoPanic (waitParticipating env reply.registries)) :
    NoPanic (self.triggerReElection env prevElectedProvers reply) := by
  simp only [triggerReElection]
  refine noPanic_bind.2 ⟨hread, fun fetched _ => ?_⟩
  split
  next provers =>
    refine noPanic_bind.2 ⟨.ensure _, fun _ _ => ?_⟩
    split
    next => exact .fail _
    next reachable hping =>
      obtain rfl := pingPeers_eq_ok hping
      split
      · exact .ok _
      refine noPanic_bind.2 ⟨drandSeed_noPanic _ _, fun seed _ => noPanic_bind.2 ⟨?_, fun sampled hsampled => ?_⟩⟩
      · obtain ⟨sampled, hsampled⟩ := exists_weightedSample (hrange seed.1) _ _
        rw [hsampled]
        exact .ok _
      · split
        · exact .ok _
        next newSet =>
          obtain ⟨-, hsub⟩ := weightedSample_eq_some hsampled
          refine noPanic_bind.2 ⟨announce_noPanic (fun p hp => List.mem_of_mem_filter hp) fun p hp => ?_, fun _ _ => .ok _⟩
          exact List.mem_of_mem_filter (hsub.subset hp)
  next => exact .ok _

/-! ### The two quorums -/

/-- A prover that may be elected: it is behind the bootstrap and the relay node in what was fetched, it answers, and it is
not excluded. -/
def Eligible (self : ElectionEngine env.f64) (reply : ReElectionReply) (provers : List ProverRecord) (r : ProverRecord) :
    Prop :=
  r ∈ provers.drop 2 ∧ reply.ping r = true ∧ r.peerId ∉ self.exclusionList

theorem mem_reachable {self : ElectionEngine env.f64} {reply : ReElectionReply} {provers : List ProverRecord}
    {r : ProverRecord} : r ∈ (self.participating env provers).filter reply.ping ↔ Eligible self reply provers r := by
  rw [List.mem_filter, participating, List.mem_filter, decide_eq_true_eq, Eligible]
  tauto

theorem get?_quorumMap_iff_mem {quorum : List ProverRecord} (hnodup : (quorum.map fun r => r.peerId).Nodup)
    {r : ProverRecord} : (∃ i, (quorumMap quorum).get? r.peerId = some (r, i)) ↔ r ∈ quorum := by
  constructor
  · rintro ⟨i, h⟩
    exact (mem_of_get?_quorumMap h).1
  · intro hr
    obtain ⟨⟨r', i⟩, hget⟩ := HMap.exists_get? (m := quorumMap quorum) (HMap.mem_keys_collect.2 ⟨r, hr, rfl⟩)
    obtain ⟨hr', hid, rfl⟩ := mem_of_get?_quorumMap hget
    obtain rfl := List.inj_on_of_nodup_map hnodup hr' hr hid
    exact ⟨_, hget⟩

/-- Every entry is under the id of its prover and has the prover's position in the registry. -/
structure WellIndexed (env : ElectionEnv) (registry : Registry) (m : QuorumMap) : Prop where
  lists : ∀ p r i, m.get? p = some (r, i) → r.peerId = p ∧ r.idx = i ∧ registry.Lists env p i
  two_le : ∀ i ∈ m.values.map Prod.snd, 2 ≤ i
  distinct : (m.values.map Prod.snd).Nodup

theorem Registry.Lists.unique {registry : Registry} {p q : PeerId} {i : ℕ} (hp : registry.Lists env p i)
    (hq : registry.Lists env q i) : p = q := by
  obtain ⟨peer, hpeer, hp⟩ := hp
  obtain ⟨peer', hpeer', hq⟩ := hq
  obtain rfl := Option.some.inj (hpeer.symm.trans hpeer')
  exact Option.some.inj (hp.symm.trans hq)

theorem wellIndexed_quorumMap {registry : Registry} {provers quorum : List ProverRecord}
    (hfetched : fetchProversV2 env registry = .ok provers) (hquorum : ∀ r ∈ quorum, r ∈ provers.drop 2) :
    WellIndexed env registry (quorumMap quorum) := by
  have hlists : ∀ p r i, (quorumMap quorum).get? p = some (r, i) → r ∈ quorum ∧ r.peerId = p ∧ r.idx = i ∧
      registry.Lists env p i := by
    intro p r i h
    obtain ⟨hr, rfl, rfl⟩ := mem_of_get?_quorumMap h
    exact ⟨hr, rfl, rfl, fetchProversV2_lists hfetched (List.mem_of_mem_drop (hquorum r hr))⟩
  refine ⟨fun p r i h => (hlists p r i h).2, fun i hi => ?_, ?_⟩
  · simp only [HMap.values, List.map_map, List.mem_map] at hi
    obtain ⟨⟨p, r, i⟩, he, rfl⟩ := hi
    obtain ⟨hr, -, rfl, -⟩ := hlists p r i (HMap.get?_eq_some.2 he)
    exact two_le_idx hfetched (hquorum r hr)
  · rw [HMap.values, List.map_map]
    refine (List.Nodup.of_map Prod.fst (quorumMap quorum).nodup).map_on ?_
    rintro ⟨p, r, i⟩ he ⟨q, r', i'⟩ he' (rfl : i = i')
    obtain ⟨-, -, -, hp⟩ := hlists p r i (HMap.get?_eq_some.2 he)
    obtain ⟨-, -, -, hq⟩ := hlists q r' i (HMap.get?_eq_some.2 he')
    obtain rfl := hp.unique hq
    rw [HMap.eq_of_mem_of_mem he he']

/-- The quorums of a re-election that announces any. The weights do not matter for it: a sampler that finds no
position ends the election. -/
theorem reElection_quorums (env : ElectionEnv) (self : ElectionEngine env.f64) (prevElectedProvers : List ProverInfo)
    (reply : ReElectionReply) (hnodup : ∀ registry ∈ reply.registries, (registry.peerIds env).Nodup)
    (hrange : ∀ seed i nodes idx, env.weightedSample seed i nodes = some idx → idx < nodes.length) :
    (NoPanic (waitParticipating env reply.registries) → NoPanic (self.triggerReElection env prevElectedProvers reply)) ∧
    ∀ after casts info tstar new drand,
      self.triggerReElection env prevElectedProvers reply = .ok (some (after, casts)) →
      .forwardReElectedProvers info tstar new drand ∈ casts →
      ∃ registry ∈ reply.registries, ∃ provers, fetchProversV2 env registry = .ok provers ∧
        (new.len = self.globals.minNodes ∧ ∀ p r i, new.get? p = some (r, i) → Eligible self reply provers r) ∧
        (∀ r : ProverRecord, (∃ i, tstar.get? r.peerId = some (r, i)) ↔
          Eligible self reply provers r ∧ r.peerId ∈ prevElectedProvers.map ProverInfo.peerId) ∧
        WellIndexed env registry tstar ∧ WellIndexed env registry new := by
  refine ⟨triggerReElection_noPanic hrange, fun after casts info tstar new drand h hann => ?_⟩
  obtain ⟨provers, newSet, seed, hsampled, hannounces, -, rfl, rfl⟩ := sampled_of_mem h hann
  obtain ⟨registry, hregistry, hfetched⟩ := waitParticipating_eq_some hannounces.fetched
  obtain ⟨hlen, hsub⟩ := weightedSample_eq_some hsampled
  rw [List.take_of_length_le hlen.le]
  have heligible : ∀ r ∈ newSet, Eligible self reply provers r := fun r hr => mem_reachable.1 (hsub.subset hr)
  have htstar : after.tstarProvers =
      tstarQuorum prevElectedProvers ((self.participating env provers).filter reply.ping) := by rw [hannounces.engine]
  -- the ids of the reachable provers are distinct, hence those of either part
  have hids : (((self.participating env provers).filter reply.ping).map fun r => r.peerId).Nodup :=
    (fetchProversV2_nodup hfetched (hnodup registry hregistry)).sublist
      (((List.filter_sublist.trans List.filter_sublist).trans (List.drop_sublist 2 _)).map _)
  have htstarIds : (after.tstarProvers.map fun r => r.peerId).Nodup := by
    rw [htstar]
    exact hids.sublist (List.filter_sublist.map _)
  have hnewIds : (newSet.map fun r => r.peerId).Nodup := by
    obtain ⟨l, hperm, hl⟩ := hsub
    exact (hperm.map _).nodup_iff.1 (hids.sublist (hl.map _))
  have hmem : ∀ r, r ∈ after.tstarProvers ↔
      Eligible self reply provers r ∧ r.peerId ∈ prevElectedProvers.map ProverInfo.peerId := by
    intro r
    rw [htstar, tstarQuorum, List.mem_filter, mem_reachable, decide_eq_true_eq]
  refine ⟨registry, hregistry, provers, hfetched, ⟨?_, fun p r i hget => ?_⟩, fun r => ?_, ?_, ?_⟩
  · rw [quorumMap, HMap.len_collect _ hnewIds, hlen]
  · exact heligible r (mem_of_get?_quorumMap hget).1
  · rw [get?_quorumMap_iff_mem htstarIds, hmem]
  · exact wellIndexed_quorumMap hfetched fun r hr => ((hmem r).1 hr).1.1
  · exact wellIndexed_quorumMap hfetched fun r hr => (heligible r hr).1

/-- The provers `a`, `b` and `c` are the previous quorum, and `b` does not answer. The prover `d` is excluded. -/
def choosyRelay : ElectionEngine openElection.f64 :=
  { freshEngine "relay" with exclusionList := {"d"}, electedProvers := threeProvers, currentThreshold := 2 }

def choosyReply : ReElectionReply :=
  ⟨[registryOf ["boot", "relay", "a", "b", "c", "d", "e"]], fun r => r.peerId ≠ "b", none, []⟩

theorem reElection_quorums_choosy : ∃ after casts info drand,
    choosyRelay.triggerReElection openElection (threeProvers.map fun r => r.toProverInfo) choosyReply =
      .ok (some (after, casts)) ∧
    .forwardReElectedProvers info (quorumMap [recordOf "a" 2, recordOf "c" 4])
      (quorumMap [recordOf "a" 2, recordOf "c" 4, recordOf "e" 6]) drand ∈ casts ∧
    ∃ registry ∈ choosyReply.registries,
      WellIndexed openElection registry (quorumMap [recordOf "a" 2, recordOf "c" 4]) ∧
      WellIndexed openElection registry (quorumMap [recordOf "a" 2, recordOf "c" 4, recordOf "e" 6]) := by
  have hnodup : ∀ registry ∈ choosyReply.registries, (registry.peerIds openElection).Nodup := by
    intro registry hregistry
    obtain rfl := List.mem_singleton.1 hregistry
    decide
  have hrange : ∀ seed i nodes idx, openElection.weightedSample seed i nodes = some idx → idx < nodes.length := by
    rintro seed i (_ | ⟨r, nodes⟩) idx h
    · cases h
    · obtain rfl := Option.some.inj h
      exact Nat.zero_lt_succ _
  have hquorums := (reElection_quorums openElection choosyRelay (threeProvers.map fun r => r.toProverInfo) choosyReply
    hnodup hrange).2
  have helection : choosyRelay.triggerReElection openElection (threeProvers.map fun r => r.toProverInfo) choosyReply =
    .ok (some (_, _)) := rfl
  refine ⟨_, _, _, _, helection, List.mem_of_getElem? (i := 4) rfl, ?_⟩
  obtain ⟨registry, hregistry, _, -, -, -, hindexed⟩ :=
    hquorums _ _ _ _ _ _ helection (List.mem_of_getElem? (i := 4) rfl)
  exact ⟨registry, hregistry, hindexed⟩

end HumanNetwork
