import HumanNetwork.Lib.Draw
import HumanNetwork.Lib.Residues
import HumanNetwork.Relay
import Mathlib.Data.FinEnum
import Mathlib.Data.List.Sort

/-!
# Which provers serve a request (`node_selection.rs`)

The relay draws `t + ε` of the provers' indices for a request with `calcNodesToSendTo`, and each prover
decides with `shouldBeSentToNode` whether it is among them. Both seed the same generator with the epoch and
the number of the request and remove what they draw from their indices. The second sorts its indices first
and stops as soon as it has drawn its own.

The generator is a parameter: any function from a seed to a stream of 64-bit numbers. Counted over all the draws that it
may return, every ordered choice of the indices is as likely as the remainders of 64-bit numbers are
(`calcNodesToSendTo_uniform`). `weightedSample` is meant to choose a node with a likelihood proportional to its stake, and
gives the first node one draw too many (`weightedSample_proportional_iff`).
-/

namespace HumanNetwork
open Outcome

/-- The numbers that `next_u64` returns one after the other for a seed. -/
abbrev ChaCha8Rng := Bytes → ℕ → UInt64

/-- The 32 bytes from which both sides seed their generator. -/
def selectionSeed (epochNum requestNum : ℕ) : Bytes :=
  Bytes.toBe 16 epochNum ++ Bytes.toBe 16 requestNum

def ChaCha8Rng.nextU64s (rng : ChaCha8Rng) (seed : Bytes) (count : ℕ) : List UInt64 :=
  (List.range count).map (rng seed)

/-- `let idx = num % indices.len(); indices.remove(idx)`: the remainder panics when no index is left. -/
def removeChosen {ε : Type} (num : UInt64) (nodeIndices : List ℕ) : Outcome ε (ℕ × List ℕ) := do
  let idx := num.toNat % nodeIndices.length
  let chosen ← unwrap nodeIndices[idx]? "attempt to calculate the remainder with a divisor of zero"
  return (chosen, nodeIndices.eraseIdx idx)

def calcNodesLoop {ε : Type} : List UInt64 → List ℕ → List ℕ → Outcome ε (List ℕ)
  | [], _, nodesChosen => .ok nodesChosen
  | num :: nums, nodeIndices, nodesChosen => do
    let (nodeChosen, nodeIndices) ← removeChosen num nodeIndices
    calcNodesLoop nums nodeIndices (nodesChosen ++ [nodeChosen % 2 ^ 32])

def calcNodesToSendTo {ε : Type} (rng : ChaCha8Rng) (epochNum requestNum tPlusEpsilon : ℕ) (nodeIndices : List ℕ) :
    Outcome ε (List ℕ) :=
  calcNodesLoop (rng.nextU64s (selectionSeed epochNum requestNum) tPlusEpsilon) nodeIndices []

/-- The loop of `should_be_sent_to_node`, which returns at the first hit. -/
def shouldBeSentLoop {ε : Type} (node : ℕ) : List UInt64 → List ℕ → Outcome ε Bool
  | [], _ => .ok false
  | num :: nums, nodeIndexes => do
    let (nodeChosen, nodeIndexes) ← removeChosen num nodeIndexes
    if nodeChosen = node then return true
    shouldBeSentLoop node nums nodeIndexes

def shouldBeSentToNode {ε : Type} (rng : ChaCha8Rng) (epochNum requestNum tPlusEpsilon node : ℕ)
    (nodeIndexes : List ℕ) : Outcome ε Bool :=
  shouldBeSentLoop node (rng.nextU64s (selectionSeed epochNum requestNum) tPlusEpsilon)
    (nodeIndexes.insertionSort (· ≤ ·))

namespace RequestToNetwork

def isForMyNode {ε : Type} (self : RequestToNetwork) (rng : ChaCha8Rng) (tPlusEpsilon myNodeIdx : ℕ)
    (newProversIdxes : List ℕ) : Outcome ε Bool :=
  shouldBeSentToNode rng self.epoch self.requestPerUser tPlusEpsilon myNodeIdx newProversIdxes

def getNodes {ε : Type} (self : RequestToNetwork) (rng : ChaCha8Rng) (tPlusEpsilon : ℕ) (nodesIdxes : List ℕ) :
    Outcome ε (List ℕ) :=
  calcNodesToSendTo rng self.epoch self.requestPerUser tPlusEpsilon nodesIdxes

end RequestToNetwork

variable {ε : Type} {rng : ChaCha8Rng} {num : UInt64} {nums : List UInt64} {indices drawn chosen : List ℕ}

@[simp] theorem ChaCha8Rng.length_nextU64s (seed : Bytes) (count : ℕ) :
    (rng.nextU64s seed count).length = count := by
  rw [nextU64s, List.length_map, List.length_range]

theorem removeChosen_eq_ok {node : ℕ} {rest : List ℕ} : (removeChosen num indices : Outcome ε _) = .ok (node, rest) ↔
    indices[num.toNat % indices.length]? = some node ∧ indices.eraseIdx (num.toNat % indices.length) = rest := by
  simp [removeChosen, bind_eq_ok, pure_eq_ok]

/-- Both loops draw the same indices: the first collects what it draws, narrowed to 32 bits. -/
theorem calcNodesLoop_of_draw (h : List.draw (nums.map UInt64.toNat) indices = some drawn) :
    (calcNodesLoop nums indices chosen : Outcome ε _) = .ok (chosen ++ drawn.map (· % 2 ^ 32)) := by
  induction nums generalizing indices drawn chosen with
  | nil =>
    obtain rfl : [] = drawn := by simpa [List.draw] using h
    simp [calcNodesLoop]
  | cons num nums ih =>
    obtain ⟨node, hnode, rest, hrest, rfl⟩ := List.draw_cons_eq_some.1 h
    rw [calcNodesLoop, removeChosen_eq_ok.2 ⟨hnode, rfl⟩, bind_ok]
    simp [ih hrest]

theorem shouldBeSentLoop_of_draw {node : ℕ} (h : List.draw (nums.map UInt64.toNat) indices = some drawn) :
    (shouldBeSentLoop node nums indices : Outcome ε _) = .ok (decide (node ∈ drawn)) := by
  induction nums generalizing indices drawn with
  | nil =>
    obtain rfl : [] = drawn := by simpa [List.draw] using h
    simp [shouldBeSentLoop]
  | cons num nums ih =>
    obtain ⟨x, hx, rest, hrest, rfl⟩ := List.draw_cons_eq_some.1 h
    rw [shouldBeSentLoop, removeChosen_eq_ok.2 ⟨hx, rfl⟩, bind_ok]
    by_cases hn : x = node
    · simp [hn, pure_eq_ok]
    · simp [hn, Ne.symm hn, ih hrest]

theorem insertionSort_eq_of_perm {l l' : List ℕ} (h : l.Perm l') :
    l.insertionSort (· ≤ ·) = l'.insertionSort (· ≤ ·) :=
  (((List.perm_insertionSort _ l).trans h).trans (List.perm_insertionSort _ l').symm).eq_of_pairwise'
    (List.pairwise_insertionSort _ l) (List.pairwise_insertionSort _ l')

theorem map_mod_eq_self {l : List ℕ} (h : ∀ i ∈ l, i < 2 ^ 32) : l.map (· % 2 ^ 32) = l := by
  conv_rhs => rw [← List.map_id l]
  exact List.map_congr_left fun i hi => Nat.mod_eq_of_lt (h i hi)

namespace RequestToNetwork
variable {request : RequestToNetwork} {tPlusEpsilon : ℕ}

theorem exists_draw_sorted (request : RequestToNetwork) (rng : ChaCha8Rng) (h : tPlusEpsilon ≤ indices.length) :
    ∃ drawn, List.draw ((rng.nextU64s (selectionSeed request.epoch request.requestPerUser) tPlusEpsilon).map
      UInt64.toNat) (indices.insertionSort (· ≤ ·)) = some drawn := by
  apply List.exists_draw
  rwa [List.length_map, ChaCha8Rng.length_nextU64s, List.length_insertionSort]

theorem exists_getNodes (request : RequestToNetwork) (rng : ChaCha8Rng) (h : tPlusEpsilon ≤ indices.length) :
    ∃ nodes, (request.getNodes rng tPlusEpsilon (indices.insertionSort (· ≤ ·)) : Outcome ε _) = .ok nodes := by
  obtain ⟨drawn, hdrawn⟩ := request.exists_draw_sorted rng h
  exact ⟨_, calcNodesLoop_of_draw hdrawn⟩

theorem exists_isForMyNode (request : RequestToNetwork) (rng : ChaCha8Rng) (node : ℕ)
    (h : tPlusEpsilon ≤ indices.length) :
    ∃ selected, (request.isForMyNode rng tPlusEpsilon node indices : Outcome ε _) = .ok selected := by
  obtain ⟨drawn, hdrawn⟩ := request.exists_draw_sorted rng h
  exact ⟨_, shouldBeSentLoop_of_draw hdrawn⟩

/-- The relay draws `t + ε` different provers, and each prover finds itself drawn exactly if the relay has
drawn it, in whatever order it holds the indices. -/
theorem getNodes_agrees_isForMyNode (rng : ChaCha8Rng) (request : RequestToNetwork) (tPlusEpsilon : ℕ)
    (indices : List ℕ) (hnodup : indices.Nodup) (hlt : ∀ i ∈ indices, i < 2 ^ 32)
    (hle : tPlusEpsilon ≤ indices.length) :
    ∃ nodes, (request.getNodes rng tPlusEpsilon (indices.insertionSort (· ≤ ·)) : Outcome Empty _) = .ok nodes ∧
      nodes.length = tPlusEpsilon ∧ nodes.Nodup ∧ (∀ i ∈ nodes, i ∈ indices) ∧
      ∀ held, held.Perm indices → ∀ i ∈ indices,
        (request.isForMyNode rng tPlusEpsilon i held : Outcome Empty _) = .ok (decide (i ∈ nodes)) := by
  obtain ⟨drawn, hdrawn⟩ := request.exists_draw_sorted rng hle
  have hperm := List.perm_insertionSort (· ≤ ·) indices
  have hmem : ∀ i ∈ drawn, i ∈ indices := fun i hi => hperm.subset ((List.subperm_of_draw hdrawn).subset hi)
  refine ⟨drawn, ?_, ?_, ?_, hmem, ?_⟩
  · rw [getNodes, calcNodesToSendTo, calcNodesLoop_of_draw hdrawn, List.nil_append,
      map_mod_eq_self fun i hi => hlt i (hmem i hi)]
  · rw [List.length_of_draw hdrawn, List.length_map, ChaCha8Rng.length_nextU64s]
  · exact List.nodup_of_draw hdrawn (hperm.nodup_iff.2 hnodup)
  · intro held hheld i _
    -- the prover sorts what it holds, so both sides draw from one list
    rw [isForMyNode, shouldBeSentToNode, insertionSort_eq_of_perm hheld, shouldBeSentLoop_of_draw hdrawn]

theorem getNodes_agrees_two_of_three :
    let rng : ChaCha8Rng := fun seed i => UInt64.ofNat (Bytes.ofBe seed + 3 * i)
    let request : RequestToNetwork := ⟨.oprfSecp256k1, [2], 1, 7, none, none⟩
    ∃ nodes, (request.getNodes rng 2 ([9, 2, 5].insertionSort (· ≤ ·)) : Outcome Empty _) = .ok nodes ∧
      nodes.length = 2 ∧ nodes.Nodup ∧ (∀ i ∈ nodes, i ∈ [9, 2, 5]) ∧
      ∀ held, held.Perm [9, 2, 5] → ∀ i ∈ [9, 2, 5],
        (request.isForMyNode rng 2 i held : Outcome Empty _) = .ok (decide (i ∈ nodes)) :=
  getNodes_agrees_isForMyNode _ _ 2 [9, 2, 5] (by decide) (by decide) (by decide)

end RequestToNetwork

/-! ## How often each selection is made -/

section Uniform
open Finset

def ChaCha8Rng.ofDraws {k : ℕ} (draws : Fin k → UInt64) : ChaCha8Rng :=
  fun _ i => if h : i < k then draws ⟨i, h⟩ else 0

theorem ChaCha8Rng.nextU64s_ofDraws {k : ℕ} (draws : Fin k → UInt64) (seed : Bytes) :
    (ChaCha8Rng.ofDraws draws).nextU64s seed k = List.ofFn draws := by
  refine List.ext_getElem (by simp) fun i hi _ => ?_
  rw [ChaCha8Rng.length_nextU64s] at hi
  simp [nextU64s, ofDraws, hi]

theorem card_uint64_mod (m j : ℕ) : #{w : UInt64 | w.toNat % m = j} = #{n ∈ range (2 ^ 64) | n % m = j} := by
  refine Finset.card_bij (fun w _ => w.toNat) ?_ (fun _ _ _ _ h => UInt64.toNat_inj.1 h) ?_
  · intro w hw
    exact mem_filter.2 ⟨mem_range.2 w.toNat_lt, (mem_filter.1 hw).2⟩
  · intro n hn
    obtain ⟨hlt, hmod⟩ := mem_filter.1 hn
    have hval : (UInt64.ofNat n).toNat = n := UInt64.toNat_ofNat_of_lt' (mem_range.1 hlt)
    exact ⟨UInt64.ofNat n, mem_filter.2 ⟨mem_univ _, by rwa [hval]⟩, hval⟩

theorem calcNodesToSendTo_eq_ok {k : ℕ} {draws : Fin k → UInt64} {nodes : List ℕ} (epochNum requestNum : ℕ)
    (hlt : ∀ i ∈ indices, i < 2 ^ 32) (hk : k ≤ indices.length) :
    (calcNodesToSendTo (.ofDraws draws) epochNum requestNum k indices : Outcome ε _) = .ok nodes ↔
      List.draw (List.ofFn (UInt64.toNat ∘ draws)) indices = some nodes := by
  obtain ⟨drawn, hdrawn⟩ : ∃ drawn, List.draw (List.ofFn (UInt64.toNat ∘ draws)) indices = some drawn :=
    List.exists_draw (by simpa using hk)
  have hmem : ∀ i ∈ drawn, i < 2 ^ 32 := fun i hi => hlt i ((List.subperm_of_draw hdrawn).subset hi)
  rw [calcNodesToSendTo, ChaCha8Rng.nextU64s_ofDraws, calcNodesLoop_of_draw (by rwa [List.map_ofFn]), List.nil_append,
    map_mod_eq_self hmem, hdrawn, Except.ok.injEq, Option.some.injEq]

/-- Over all sequences of `k` draws, every ordered list of `k` different indices is selected nearly equally often, and
nothing else is selected. -/
theorem calcNodesToSendTo_uniform (epochNum requestNum k : ℕ) (indices : List ℕ) (hnodup : indices.Nodup)
    (hlt : ∀ i ∈ indices, i < 2 ^ 32) (hk : k ≤ indices.length) :
    (∀ nodes : List ℕ, nodes.length = k → nodes.Nodup → nodes ⊆ indices →
      ∏ i ∈ range k, 2 ^ 64 / (indices.length - i) ≤ #{draws : Fin k → UInt64 |
        (calcNodesToSendTo (.ofDraws draws) epochNum requestNum k indices : Outcome Empty _) = .ok nodes} ∧
      #{draws : Fin k → UInt64 |
        (calcNodesToSendTo (.ofDraws draws) epochNum requestNum k indices : Outcome Empty _) = .ok nodes} ≤
        ∏ i ∈ range k, 2 ^ 64 ⌈/⌉ (indices.length - i)) ∧
    ∀ draws : Fin k → UInt64, ∃ nodes : List ℕ,
      (calcNodesToSendTo (.ofDraws draws) epochNum requestNum k indices : Outcome Empty _) = .ok nodes ∧
        nodes.length = k ∧ nodes.Nodup ∧ nodes ⊆ indices := by
  constructor
  · rintro nodes rfl hnodes hsub
    simp only [calcNodesToSendTo_eq_ok epochNum requestNum hlt hk]
    refine List.card_draw_bounds (fun m j hj => ?_) hnodup hnodes hsub
    rw [card_uint64_mod]
    exact Nat.card_filter_mod_bounds _ hj
  · intro draws
    obtain ⟨drawn, hdrawn⟩ : ∃ drawn, List.draw (List.ofFn (UInt64.toNat ∘ draws)) indices = some drawn :=
      List.exists_draw (by simpa using hk)
    refine ⟨drawn, (calcNodesToSendTo_eq_ok epochNum requestNum hlt hk).2 hdrawn, ?_, ?_, ?_⟩
    · rw [List.length_of_draw hdrawn, List.length_ofFn]
    · exact List.nodup_of_draw hdrawn hnodup
    · exact (List.subperm_of_draw hdrawn).subset

theorem calcNodesToSendTo_uniform_two_of_three :
    ∏ i ∈ range 2, 2 ^ 64 / (3 - i) ≤ #{draws : Fin 2 → UInt64 |
      (calcNodesToSendTo (.ofDraws draws) 1 7 2 [9, 2, 5] : Outcome Empty _) = .ok [5, 9]} :=
  ((calcNodesToSendTo_uniform 1 7 2 [9, 2, 5] (by decide) (by decide) (by decide)).1 [5, 9] rfl (by decide)
    (by decide)).1

end Uniform

/-! ## Sampling by stake -/

section Weighted
open Finset
variable {T : Type} (weight : T → ℕ) (nodes : List T)

def cumSum : List ℕ := (nodes.scanl (fun acc node => acc + weight node) 0).tail

/-- `genRange` is what `rng.gen_range(0..total)` returns for a total. -/
def weightedSample (genRange : ℕ → ℕ) : Option ℕ := do
  let totalWeight ← (cumSum weight nodes).getLast?
  if totalWeight = 0 then none
  else
    let r := genRange totalWeight
    ((cumSum weight nodes).take nodes.length).findIdx? fun sum => decide (sum ≥ r)

def weightBefore (i : ℕ) : ℕ := ((nodes.take i).map weight).sum

theorem weightBefore_mono : Monotone (weightBefore weight nodes) := by
  intro i j h
  exact ((List.take_sublist_take_left h).map weight).sum_le_sum fun _ _ => Nat.zero_le _

theorem weightBefore_le (i : ℕ) : weightBefore weight nodes i ≤ (nodes.map weight).sum :=
  ((List.take_sublist i nodes).map weight).sum_le_sum fun _ _ => Nat.zero_le _

theorem weightBefore_succ {i : ℕ} (h : i < nodes.length) :
    weightBefore weight nodes (i + 1) = weightBefore weight nodes i + weight nodes[i] := by
  rw [weightBefore, List.take_succ_eq_append_getElem h, List.map_append, List.sum_append]
  simp [weightBefore]

theorem length_cumSum : (cumSum weight nodes).length = nodes.length := by
  simp [cumSum]

theorem getElem_cumSum {i : ℕ} (h : i < (cumSum weight nodes).length) :
    (cumSum weight nodes)[i] = weightBefore weight nodes (i + 1) := by
  simp only [cumSum, List.getElem_tail, List.getElem_scanl, weightBefore, List.sum_eq_foldl, List.foldl_map]

theorem getLast?_cumSum (h : nodes ≠ []) : (cumSum weight nodes).getLast? = some (nodes.map weight).sum := by
  have hpos := List.length_pos_iff.2 h
  have hlt : nodes.length - 1 < (cumSum weight nodes).length := by
    rw [length_cumSum]
    omega
  rw [List.getLast?_eq_getElem?, length_cumSum, List.getElem?_eq_getElem hlt, getElem_cumSum, weightBefore,
    Nat.sub_add_cancel hpos, List.take_length]

variable {weight nodes}

/-- A node is chosen by the numbers above the stake before it, up to and including the stake up to it; the first node
is also chosen by zero. -/
theorem weightedSample_eq_some_iff {r i : ℕ} (hpos : 0 < (nodes.map weight).sum) :
    weightedSample weight nodes (fun _ => r) = some i ↔
      i < nodes.length ∧ r ≤ weightBefore weight nodes (i + 1) ∧ (i = 0 ∨ weightBefore weight nodes i < r) := by
  have hne : nodes ≠ [] := by
    rintro rfl
    simp at hpos
  rw [weightedSample, getLast?_cumSum _ _ hne, Option.bind_eq_bind, Option.bind_some, if_neg hpos.ne',
    List.take_of_length_le (length_cumSum ..).le, List.findIdx?_eq_some_iff_getElem]
  simp only [getElem_cumSum, length_cumSum, decide_eq_true_eq, exists_prop, ge_iff_le, not_le]
  refine and_congr_right fun _ => and_congr_right fun _ => ?_
  -- the sums increase, so that only the one right before has to be compared
  constructor
  · intro h
    rcases Nat.eq_zero_or_pos i with hi | hi
    · exact .inl hi
    · right
      simpa [Nat.sub_add_cancel hi] using h (i - 1) (by omega)
  · rintro (rfl | h) j hj
    · omega
    · exact (weightBefore_mono weight nodes (by omega)).trans_lt h

theorem card_weightedSample {i : ℕ} (hpos : 0 < (nodes.map weight).sum) (hi : i < nodes.length) :
    #{r ∈ range (nodes.map weight).sum | weightedSample weight nodes (fun _ => r) = some i} =
      min (weightBefore weight nodes (i + 1) + 1) (nodes.map weight).sum -
        if i = 0 then 0 else weightBefore weight nodes i + 1 := by
  rw [← Nat.card_Ico]
  congr 1
  ext r
  simp only [mem_filter, mem_range, mem_Ico, weightedSample_eq_some_iff hpos, hi, true_and]
  split <;> omega

/-- Every node is chosen for as many of the numbers below the total as its stake exactly if the first node has all of it:
otherwise zero is one number too many for the first node. -/
theorem weightedSample_proportional_iff (weight : T → ℕ) (nodes : List T) (hpos : 0 < (nodes.map weight).sum) :
    (∀ (i : ℕ) (hi : i < nodes.length),
      #{r ∈ range (nodes.map weight).sum | weightedSample weight nodes (fun _ => r) = some i} = weight nodes[i]) ↔
    nodes.head?.map weight = some (nodes.map weight).sum := by
  have hlen : 0 < nodes.length := by
    cases nodes with
    | nil => simp at hpos
    | cons => simp
  have hfirst : weightBefore weight nodes 1 = weight nodes[0] := by
    rw [weightBefore_succ weight nodes hlen]
    simp [weightBefore]
  have hle := weightBefore_le weight nodes 1
  rw [List.head?_eq_getElem?, List.getElem?_eq_getElem hlen, Option.map_some, Option.some.injEq]
  constructor
  · intro h
    have hcount := h 0 hlen
    rw [card_weightedSample hpos hlen, if_pos rfl, Nat.zero_add] at hcount
    omega
  · intro h i hi
    have hsucc := weightBefore_succ weight nodes hi
    have hall := weightBefore_le weight nodes (i + 1)
    rw [card_weightedSample hpos hi]
    split
    · subst i
      omega
    · have hone : weightBefore weight nodes 1 ≤ weightBefore weight nodes i := weightBefore_mono weight nodes (by omega)
      omega

theorem weightedSample_proportional_first :
    #{r ∈ range 5 | weightedSample id [5, 0] (fun _ => r) = some 0} = 5 ∧
      #{r ∈ range 5 | weightedSample id [5, 0] (fun _ => r) = some 1} = 0 := by
  have h := (weightedSample_proportional_iff id [5, 0] (by decide)).2 rfl
  exact ⟨h 0 (by decide), h 1 (by decide)⟩

/-- A node without stake is chosen, and the node with all of the stake never is. -/
theorem weightedSample_disproportional :
    #{r ∈ range 1 | weightedSample id [0, 1] (fun _ => r) = some 0} = 1 ∧
      #{r ∈ range 1 | weightedSample id [0, 1] (fun _ => r) = some 1} = 0 := by
  decide

end Weighted

end HumanNetwork
