import Mathlib.Data.Finset.Card
import Mathlib.Data.List.Basic
import Mathlib.Data.Fintype.EquivFin

/-!
# Barriers that compare sizes

A barrier records who has reported and opens when as many are recorded as it waits for. Reports of others than
its members are not recorded, but they are evaluated like any report; a barrier that takes each report `once`
skips the repeats of a recorded one. Since only the sizes are compared, who is recorded at the start matters:
a barrier that starts with leftovers opens too early (`exists_early`), and a full barrier opens again at every
report that it evaluates and does not record (`fires_le_one_iff`).
-/

universe u

structure Barrier (α : Type u) where
  members : Finset α
  target : ℕ
  once : Bool

namespace Barrier
variable {α : Type u} [DecidableEq α] (b : Barrier α)

/-- Who is recorded after a report. A repeat changes nothing, whether it is skipped or not. -/
def record (seen : Finset α) (a : α) : Finset α := if a ∈ b.members then insert a seen else seen

/-- The report is evaluated, and the barrier opens. -/
def Fires (seen : Finset α) (a : α) : Prop :=
  ¬ (b.once = true ∧ a ∈ seen) ∧ (b.record seen a).card = b.target

instance (seen : Finset α) (a : α) : Decidable (b.Fires seen a) := inferInstanceAs (Decidable (_ ∧ _))

def recordAll : Finset α → List α → Finset α := List.foldl b.record

def fires (seen : Finset α) : List α → ℕ
  | [] => 0
  | a :: as => (if b.Fires seen a then 1 else 0) + fires (b.record seen a) as

/-- The report is evaluated, and nobody is recorded. -/
def Idle (seen : Finset α) (a : α) : Prop := if a ∈ seen then b.once = false else a ∉ b.members

/-- The condition on the reports under which the barrier opens once at most: when those recorded at the start and the
members that have reported are as many as it waits for, no report is idle. A barrier that is full at the start may have one
idle report before the first new member. -/
structure Quiet (seen : Finset α) (as : List α) : Prop where
  filled : seen.card < b.target → ∀ before a after, as = before ++ a :: after →
    (seen ∪ before.toFinset ∩ b.members).card = b.target → ¬ b.Idle (seen ∪ before.toFinset ∩ b.members) a
  full : seen.card = b.target → ∀ before a middle c after, as = before ++ a :: (middle ++ c :: after) →
    (before ++ a :: middle).toFinset ∩ b.members ⊆ seen → b.Idle seen a → ¬ b.Idle seen c

variable {b} {seen reported : Finset α} {a : α} {as : List α}

theorem record_eq (seen : Finset α) (a : α) : b.record seen a = seen ∪ {a} ∩ b.members := by
  unfold record
  split
  next h => rw [Finset.singleton_inter_of_mem h, Finset.union_comm, ← Finset.insert_eq]
  next h => rw [Finset.singleton_inter_of_notMem h, Finset.union_empty]

theorem subset_record (seen : Finset α) (a : α) : seen ⊆ b.record seen a := by
  rw [record_eq]
  exact Finset.subset_union_left

theorem recordAll_eq (seen : Finset α) (as : List α) : b.recordAll seen as = seen ∪ as.toFinset ∩ b.members := by
  induction as generalizing seen with
  | nil => simp [recordAll]
  | cons a as ih =>
    calc b.recordAll (b.record seen a) as = b.record seen a ∪ as.toFinset ∩ b.members := ih _
      _ = seen ∪ {a} ∩ b.members ∪ as.toFinset ∩ b.members := by rw [record_eq]
      _ = seen ∪ (a :: as).toFinset ∩ b.members := by
        rw [Finset.union_assoc, ← Finset.union_inter_distrib_right, List.toFinset_cons, Finset.insert_eq]

theorem subset_recordAll (seen : Finset α) (as : List α) : seen ⊆ b.recordAll seen as := by
  rw [recordAll_eq]
  exact Finset.subset_union_left

/-! ### Opening too early -/

/-- A barrier that records only members that have reported opens when all of them have. -/
theorem subset_of_card_eq (hseen : seen ⊆ reported ∩ b.members) (htarget : b.members.card ≤ b.target)
    (hopen : (b.record seen a).card = b.target) : b.members ⊆ insert a reported := by
  have hcard : b.members.card ≤ (b.record seen a).card := by rw [hopen]; exact htarget
  have hsub : b.record seen a ⊆ b.members := by
    rw [record_eq]
    exact Finset.union_subset (hseen.trans Finset.inter_subset_right) Finset.inter_subset_right
  rw [← Finset.eq_of_subset_of_card_le hsub hcard, record_eq, Finset.insert_eq, Finset.union_comm {a}]
  exact Finset.union_subset_union (hseen.trans Finset.inter_subset_left) Finset.inter_subset_left

/-- Leftovers that are not too many open the barrier for a report of an outsider while a member is missing. -/
theorem exists_early [Infinite α] (htarget : b.target = b.members.card) (hseen : seen.Nonempty)
    (hcard : seen.card ≤ b.members.card) :
    ∃ as a, b.Fires (b.recordAll seen as) a ∧ ∃ m ∈ b.members, m ∉ as ∧ m ≠ a := by
  have hle : b.members.card ≤ (seen ∪ b.members).card := Finset.card_le_card Finset.subset_union_right
  obtain ⟨full, hseenfull, hfull, hfullcard⟩ :=
    Finset.exists_subsuperset_card_eq Finset.subset_union_left hcard hle
  obtain ⟨outsider, hout⟩ := Infinite.exists_notMem_finset (b.members ∪ full)
  rw [Finset.mem_union, not_or] at hout
  have hreporters : full \ seen ⊆ b.members := by
    intro x hx
    rw [Finset.mem_sdiff] at hx
    rcases Finset.mem_union.1 (hfull hx.1) with h | h
    · exact absurd h hx.2
    · exact h
  have hrecorded : b.recordAll seen (full \ seen).toList = full := by
    rw [recordAll_eq, Finset.toList_toFinset, Finset.inter_eq_left.2 hreporters, Finset.union_sdiff_of_subset hseenfull]
  refine ⟨(full \ seen).toList, outsider, ?_, ?_⟩
  · rw [hrecorded]
    refine ⟨fun h => hout.2 h.2, ?_⟩
    rw [record, if_neg hout.1, hfullcard, htarget]
  · -- the new reporters are fewer than the members, as the leftovers take part in the count
    have hlt : (full \ seen).card < b.members.card := by
      have hpos := hseen.card_pos
      have := Finset.card_sdiff_add_card_eq_card hseenfull
      omega
    obtain ⟨m, hm, hmissing⟩ := Finset.exists_mem_notMem_of_card_lt_card hlt
    exact ⟨m, hm, by simpa using hmissing, fun h => hout.1 (h ▸ hm)⟩

/-! ### Opening again -/

theorem fires_append (seen : Finset α) (as as' : List α) :
    b.fires seen (as ++ as') = b.fires seen as + b.fires (b.recordAll seen as) as' := by
  induction as generalizing seen with
  | nil => simp [fires, recordAll]
  | cons a as ih =>
    show (if b.Fires seen a then 1 else 0) + b.fires (b.record seen a) (as ++ as') = _
    rw [ih]
    simp only [fires, recordAll, List.foldl_cons]
    omega

theorem recordAll_append (seen : Finset α) (as as' : List α) :
    b.recordAll seen (as ++ as') = b.recordAll (b.recordAll seen as) as' := List.foldl_append

theorem fires_of_full (hfull : seen.card = b.target) : b.Fires seen a ↔ b.Idle seen a := by
  by_cases hmem : a ∈ seen
  · have hrecord : b.record seen a = seen := by
      rw [record, Finset.insert_eq_of_mem hmem, ite_self]
    simp [Fires, Idle, hrecord, hfull, hmem]
  · by_cases hmember : a ∈ b.members
    · have hrecord : (b.record seen a).card = seen.card + 1 := by
        rw [record, if_pos hmember, Finset.card_insert_of_notMem hmem]
      simp [Fires, Idle, hrecord, hfull, hmem, hmember]
    · simp [Fires, Idle, record, hfull, hmem, hmember]

theorem fires_pos_of_filled (hlt : seen.card < b.target) (hle : b.target ≤ (b.recordAll seen as).card) :
    0 < b.fires seen as := by
  induction as generalizing seen with
  | nil => exact absurd hle (not_le.2 hlt)
  | cons a as ih =>
    by_cases hmore : (b.record seen a).card < b.target
    · exact Nat.add_pos_right _ (ih hmore hle)
    · -- this report is the last that was missing
      have hmem : a ∉ seen := by
        intro hmem
        rw [record, Finset.insert_eq_of_mem hmem, ite_self] at hmore
        exact hmore hlt
      have hcard : (b.record seen a).card ≤ seen.card + 1 := by
        unfold record
        split
        · exact Finset.card_insert_le a seen
        · exact Nat.le_succ _
      have hfires : b.Fires seen a := ⟨fun h => hmem h.2, by omega⟩
      rw [fires, if_pos hfires]
      omega

theorem exists_fires (h : 0 < b.fires seen as) :
    ∃ before a after, as = before ++ a :: after ∧ b.Fires (b.recordAll seen before) a := by
  induction as generalizing seen with
  | nil => cases h
  | cons a as ih =>
    by_cases hfires : b.Fires seen a
    · exact ⟨[], a, as, rfl, hfires⟩
    · rw [fires, if_neg hfires, Nat.zero_add] at h
      obtain ⟨before, c, after, rfl, hc⟩ := ih h
      exact ⟨a :: before, c, after, rfl, hc⟩

theorem exists_two_fires (h : 1 < b.fires seen as) : ∃ before a middle c after, as = before ++ a :: (middle ++ c :: after) ∧
    b.Fires (b.recordAll seen before) a ∧ b.Fires (b.recordAll seen (before ++ a :: middle)) c := by
  induction as generalizing seen with
  | nil => cases h
  | cons a as ih =>
    by_cases hfires : b.Fires seen a
    · rw [fires, if_pos hfires] at h
      obtain ⟨middle, c, after, rfl, hc⟩ := exists_fires (by omega : 0 < b.fires (b.record seen a) as)
      exact ⟨[], a, middle, c, after, rfl, hfires, hc⟩
    · rw [fires, if_neg hfires, Nat.zero_add] at h
      obtain ⟨before, a', middle, c, after, rfl, ha, hc⟩ := ih h
      exact ⟨a :: before, a', middle, c, after, rfl, ha, hc⟩

theorem recordAll_eq_self : b.recordAll seen as = seen ↔ as.toFinset ∩ b.members ⊆ seen := by
  rw [recordAll_eq, Finset.union_eq_left]

theorem Quiet.of_fires_le_one (hle : b.fires seen as ≤ 1) : b.Quiet seen as where
  filled := by
    rintro hlt before a after rfl hfull hidle
    rw [← recordAll_eq] at hfull hidle
    have hfilled := fires_pos_of_filled hlt hfull.ge
    rw [fires_append, fires, if_pos ((fires_of_full hfull).2 hidle)] at hle
    omega
  full := by
    rintro hfull before a middle c after rfl hsub ha hc
    -- nobody is recorded up to the second report
    have hend := recordAll_eq_self.2 hsub
    have hbefore : b.recordAll seen before = seen := by
      refine recordAll_eq_self.2 (subset_trans (Finset.inter_subset_inter_right ?_) hsub)
      rw [List.toFinset_append]
      exact Finset.subset_union_left
    have hmiddle : b.recordAll (b.record seen a) middle = seen := by
      rwa [recordAll_append, hbefore] at hend
    rw [fires_append, hbefore, fires, if_pos ((fires_of_full hfull).2 ha), fires_append, hmiddle, fires,
      if_pos ((fires_of_full hfull).2 hc)] at hle
    omega

theorem Quiet.fires_le_one (hquiet : b.Quiet seen as) : b.fires seen as ≤ 1 := by
  by_contra hlt
  obtain ⟨before, a, middle, c, after, rfl, ha, hc⟩ := exists_two_fires (not_le.1 hlt)
  have hopened : b.record (b.recordAll seen before) a ⊆ b.recordAll seen (before ++ a :: middle) := by
    rw [recordAll_append]
    exact subset_recordAll _ middle
  have hfull : (b.recordAll seen (before ++ a :: middle)).card = b.target := by
    refine le_antisymm ?_ ?_
    · exact (Finset.card_le_card (subset_record _ c)).trans_eq hc.2
    · exact ha.2.ge.trans (Finset.card_le_card hopened)
  have hidle := (fires_of_full hfull).1 hc
  have hle : seen.card ≤ b.target := hfull ▸ Finset.card_le_card (subset_recordAll seen _)
  rcases hle.lt_or_eq with hless | heq
  · rw [recordAll_eq] at hfull hidle
    exact hquiet.filled hless (before ++ a :: middle) c after (by rw [List.append_assoc, List.cons_append]) hfull hidle
  · -- the barrier was full all the time
    have hsame : ∀ {seen'}, seen ⊆ seen' → seen' ⊆ b.recordAll seen (before ++ a :: middle) → seen' = seen := by
      intro seen' hsub hsub'
      refine (Finset.eq_of_subset_of_card_le hsub ?_).symm
      rw [heq, ← hfull]
      exact Finset.card_le_card hsub'
    have hend := hsame (subset_recordAll seen _) (subset_refl _)
    have hbefore := hsame (subset_recordAll seen before) ((subset_record _ a).trans hopened)
    rw [hbefore, fires_of_full heq] at ha
    rw [hend] at hidle
    exact hquiet.full heq before a middle c after rfl (recordAll_eq_self.1 hend) ha hidle

theorem fires_le_one_iff : b.fires seen as ≤ 1 ↔ b.Quiet seen as := ⟨.of_fires_le_one, Quiet.fires_le_one⟩

/-- A barrier that waits for its members and starts empty: once all of them have reported, the others are silent, and so
are the members unless their repeats are skipped. -/
theorem quiet_empty_iff (htarget : b.members.card = b.target) (hne : b.target ≠ 0) : b.Quiet ∅ as ↔
    ∀ before a after, as = before ++ a :: after → b.members ⊆ before.toFinset → b.once = true ∧ a ∈ b.members := by
  have hfilled : ∀ before : List α, (∅ ∪ before.toFinset ∩ b.members).card = b.target ↔ b.members ⊆ before.toFinset := by
    intro before
    rw [Finset.empty_union, ← htarget]
    refine ⟨fun hcard => ?_, fun hsub => by rw [Finset.inter_eq_right.2 hsub]⟩
    exact Finset.inter_eq_right.1 (Finset.eq_of_subset_of_card_le Finset.inter_subset_right hcard.ge)
  have hidle : ∀ {before : List α} {a}, b.members ⊆ before.toFinset →
      (¬ b.Idle (∅ ∪ before.toFinset ∩ b.members) a ↔ b.once = true ∧ a ∈ b.members) := by
    intro before a hsub
    rw [Finset.empty_union, Finset.inter_eq_right.2 hsub, Idle]
    by_cases ha : a ∈ b.members <;> simp [ha]
  constructor
  · intro h before a after has hsub
    exact (hidle hsub).1 (h.filled (by rw [Finset.card_empty]; omega) before a after has ((hfilled before).2 hsub))
  · intro h
    refine ⟨fun _ before a after has hcard => ?_, fun hzero => absurd hzero.symm hne⟩
    have hsub := (hfilled before).1 hcard
    exact (hidle hsub).2 (h before a after has hsub)

end Barrier
