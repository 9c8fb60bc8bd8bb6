import HumanNetwork.Dkg

/-!
# Round 1 as the engine gossips it (`dkg_engine_actor.rs`)

`Node.processDkgRound1` runs round 1 for one key, keeps the node's own share and commitment, and
makes the `Round1Output` that `handle_round1` gossips to everybody. A `GossipSession` fixes a set of
corrupted nodes, one fewer than the threshold, and counts the choices of the honest nodes'
polynomials which fit what the corrupted nodes can read of the messages: what they decrypt, and every
field that is not encrypted.

The third field of a `Round1Output` is the sender's own share in clear. With it the corrupted nodes
hold `threshold` values of every honest polynomial, so exactly one choice fits (`consistent_iff`),
and `dkg_secrecy_never` says that no session has the secrecy of `threshold - 1` shares.
-/

namespace HumanNetwork
open Outcome Finset

variable {R : Rsa} {C : Curve}

/-- The ciphertexts by recipient, the encoded commitments, and the bytes of the own share. -/
abbrev Round1Output := HMap ℕ Bytes × List Bytes × Bytes

def encodeVValues {ε : Type} (C : Curve) (vValues : List C.Point) : Outcome ε (List Bytes) :=
  vValues.mapM fun v => unwrap (C.encode v) unwrapNone

def ownYValueBytes (C : Curve) (ownYValue : C.FieldEl) : Bytes := C.id.toBytes ownYValue

def Node.processDkgRound1 (self : Node R C) (network : Network R) (rng : ℕ → C.FieldEl) (coins : ℕ → R.Coin) :
    Outcome DKGError (Node R C × Round1Output) := do
  let (encryptedYValues, vValues, ownYValue) ← self.dkgRound1 network rng coins
  let v0 ← unwrap vValues[0]? "index out of bounds: the len is 0 but the index is 0"
  let node := { self with ownPartialShare := ownYValue, initPubShare := v0 }
  let encoded ← encodeVValues C vValues
  pure (node, encryptedYValues, encoded, ownYValueBytes C ownYValue)

theorem Node.processDkgRound1_ok {self node : Node R C} {network : Network R} {rng : ℕ → C.FieldEl}
    {coins : ℕ → R.Coin} {out : Round1Output} (h : self.processDkgRound1 network rng coins = .ok (node, out)) :
    ∃ v yii, self.dkgRound1 network rng coins = .ok (out.1, v, yii) ∧ out.2.2 = C.id.toBytes yii := by
  simp only [processDkgRound1, bind_eq_ok, Prod.exists] at h
  obtain ⟨yCt, v, yii, hround1, v0, -, encoded, -, h⟩ := h
  simp only [pure_eq_ok, Except.ok.injEq, Prod.mk.injEq] at h
  obtain ⟨-, rfl⟩ := h
  exact ⟨v, yii, hround1, rfl⟩

theorem Node.processDkgRound1_of_ok [C.TotalEncodings] {self : Node R C} {network : Network R}
    {rng : ℕ → C.FieldEl} {coins : ℕ → R.Coin} {yCt : HMap ℕ Bytes} {v : List C.Point} {yii : C.FieldEl}
    (h : self.dkgRound1 network rng coins = .ok (yCt, v, yii)) (hv : 0 < v.length) :
    ∃ node out, self.processDkgRound1 network rng coins = .ok (node, out) := by
  obtain ⟨enc, henc, -⟩ := C.exists_encoder
  have hencoded : (encodeVValues C v : Outcome DKGError _) = .ok (v.map enc) :=
    mapM_eq_ok_map fun p _ => by rw [henc]; rfl
  simp only [processDkgRound1, h, bind_ok, List.getElem?_eq_getElem hv, unwrap, hencoded]
  exact ⟨_, _, rfl⟩

theorem dkgPoly_drawsOf {network : Network R} {t : ℕ} (ht : network.threshold = t) (a : Fin t → C.FieldEl) :
    (dkgPoly network (Poly.drawsOf a)).toPolynomial = Polynomial.ofFn t a := by
  have hpos := network.threshold_pos
  have hcoeffs : (dkgPoly network (Poly.drawsOf a)).coefficients = List.ofFn a := by
    refine List.ext_getElem (by rw [length_dkgPoly]; simp [ht]) fun k hk hk' => ?_
    have hkt : k < t := by simpa using hk'
    simp only [dkgPoly, Poly.randomPolynomialsWithSecret, List.getElem_set, List.getElem_map,
      List.getElem_range, List.getElem_ofFn, Poly.drawsOf]
    split
    next h0 => subst h0; simp [hkt]
    next => simp [hkt]
  rw [Poly.toPolynomial, hcoeffs, Shamir.ofCoeffs_ofFn]

/-! ### What the corrupted nodes can tell -/

/-- A key generation in which `threshold - 1` nodes are corrupted but follow the protocol, with the
polynomials that they deal. -/
structure GossipSession (R : Rsa) (C : Curve) extends DkgSetup R C where
  ids_valid : ∀ i ∈ ids, 0 < i ∧ i < 2 ^ 128
  coins : ℕ → ℕ → R.Coin
  corrupted : Finset ℕ
  corrupted_subset : corrupted ⊆ ids
  card_corrupted : corrupted.card + 1 = threshold
  corruptedPoly : ℕ → Fin threshold → C.FieldEl

namespace GossipSession
variable (s : GossipSession R C)

abbrev Honest := { i // i ∈ s.ids \ s.corrupted }

abbrev Choice := s.Honest → Fin s.threshold → C.FieldEl

def honestRound1 (a : s.Choice) (i : s.Honest) : Outcome DKGError (Node R C × Round1Output) :=
  (s.node i).processDkgRound1 (s.network i) (Poly.drawsOf (a i)) (s.coins i)

/-- What the corrupted nodes read in a gossiped message: the ciphertexts addressed to them, opened,
and the own share. The commitments are left out. -/
def readable (out : Round1Output) : (ℕ → Option Bytes) × Bytes :=
  (fun j => if j ∈ s.corrupted then (out.1.get? j).bind (R.decrypt (s.node j).rsaSeckey) else none, out.2.2)

def Consistent (transcript : s.Honest → Round1Output) (a : s.Choice) : Prop :=
  ∀ i, ∃ node out, s.honestRound1 a i = .ok (node, out) ∧ s.readable out = s.readable (transcript i)

def freeTerm (a : Fin s.threshold → C.FieldEl) : C.FieldEl := a ⟨0, s.threshold_pos⟩

noncomputable def groupSecret (a : s.Choice) : C.FieldEl :=
  ∑ i ∈ s.corrupted, s.freeTerm (s.corruptedPoly i) + ∑ i : s.Honest, s.freeTerm (a i)

noncomputable def count (transcript : s.Honest → Round1Output) (x : C.FieldEl) : ℕ :=
  Nat.card { a : s.Choice // s.Consistent transcript a ∧ s.groupSecret a = x }

variable {s}

theorem readable_eq [R.Lossless] {a : s.Choice} {i : s.Honest} {node : Node R C} {out : Round1Output}
    (h : s.honestRound1 a i = .ok (node, out)) :
    s.readable out =
      (fun j => if j ∈ s.corrupted then
          some (C.id.toRepr ((Polynomial.ofFn s.threshold (a i)).eval (j : C.FieldEl))) else none,
        C.id.toBytes ((Polynomial.ofFn s.threshold (a i)).eval ((i : ℕ) : C.FieldEl))) := by
  obtain ⟨v, yii, hround1, hown⟩ := Node.processDkgRound1_ok h
  obtain ⟨hi, hih⟩ := mem_sdiff.1 i.2
  have hpoly := dkgPoly_drawsOf (s.network_params i hi).1 (a i)
  have hyii := (Node.dkgRound1_ok hround1).2.2
  rw [hpoly, s.node_id i hi] at hyii
  refine Prod.ext (funext fun j => ?_) (by rw [← hyii, ← hown]; rfl)
  by_cases hj : j ∈ s.corrupted
  · have hji : j ∈ s.ids.erase i := mem_erase.2 ⟨fun h => hih (h ▸ hj), s.corrupted_subset hj⟩
    obtain ⟨ct, hct⟩ := HMap.exists_get? ((s.mem_yCt hi hround1 j).2 hji)
    have henc := s.yCt_get? hi (s.corrupted_subset hj) hround1 hct
    rw [hpoly] at henc
    simp only [readable, if_pos hj, hct, Option.bind_some, Rsa.Lossless.decrypt_encrypt henc]
  · simp only [readable, if_neg hj]

theorem card_insert_corrupted (i : s.Honest) : (insert (i : ℕ) s.corrupted).card = s.threshold := by
  rw [card_insert_of_notMem (mem_sdiff.1 i.2).2, s.card_corrupted]

/-- The own share completes the corrupted nodes' shares: the real choice is the only one that fits. -/
theorem consistent_iff [R.Lossless] {real : s.Choice} {transcript : s.Honest → Round1Output}
    (hreal : ∀ i, ∃ node, s.honestRound1 real i = .ok (node, transcript i)) (a : s.Choice) :
    s.Consistent transcript a ↔ a = real := by
  constructor
  · intro h
    funext i
    obtain ⟨node, out, hout, hread⟩ := h i
    obtain ⟨node₀, hreal⟩ := hreal i
    rw [readable_eq hout, readable_eq hreal, Prod.mk.injEq] at hread
    obtain ⟨hshares, hown⟩ := hread
    have hinj : Set.InjOn (fun j : ℕ => (j : C.FieldEl)) (insert (i : ℕ) s.corrupted : Finset ℕ) := by
      refine C.id.natCast_injOn fun j hj => ?_
      rcases mem_insert.1 hj with rfl | hj
      · exact (s.ids_valid _ (mem_sdiff.1 i.2).1).2
      · exact (s.ids_valid _ (s.corrupted_subset hj)).2
    have hdeg : ∀ b : Fin s.threshold → C.FieldEl,
        (Polynomial.ofFn s.threshold b).degree < (insert (i : ℕ) s.corrupted).card := fun b => by
      rw [card_insert_corrupted]
      exact Polynomial.ofFn_degree_lt b
    refine Polynomial.injective_ofFn s.threshold
      (Polynomial.eq_of_degrees_lt_of_eval_index_eq _ hinj (hdeg _) (hdeg _) fun j hj => ?_)
    rcases mem_insert.1 hj with rfl | hj
    · exact C.id.toBytes_injective hown
    · have := congrFun hshares j
      rw [if_pos hj, if_pos hj, Option.some.injEq] at this
      exact C.id.toRepr_injective this
  · rintro rfl i
    obtain ⟨node, hreal⟩ := hreal i
    exact ⟨node, transcript i, hreal, rfl⟩

theorem card_consistent [R.Lossless] {real : s.Choice} {transcript : s.Honest → Round1Output}
    (hreal : ∀ i, ∃ node, s.honestRound1 real i = .ok (node, transcript i)) (value : s.Choice → C.FieldEl)
    (x : C.FieldEl) :
    Nat.card { a : s.Choice // s.Consistent transcript a ∧ value a = x } = if x = value real then 1 else 0 := by
  have hset : ∀ a : s.Choice, (s.Consistent transcript a ∧ value a = x) ↔ a = real ∧ x = value real := by
    intro a
    rw [consistent_iff hreal]
    constructor <;> rintro ⟨rfl, rfl⟩ <;> exact ⟨rfl, rfl⟩
  rw [Nat.card_congr (Equiv.subtypeEquivRight hset)]
  split
  next hx =>
    rw [Nat.card_eq_one_iff_unique]
    exact ⟨⟨fun a b => Subtype.ext (a.2.1.trans b.2.1.symm)⟩, ⟨⟨real, rfl, hx⟩⟩⟩
  next hx =>
    rw [Nat.card_eq_zero]
    exact .inl ⟨fun a => hx a.2.2⟩

end GossipSession

/-- In no session do the corrupted nodes learn as little as `threshold - 1` shares would tell them.
Of all group secrets only the real one fits their view, and of all free terms of an honest node only
its real one. -/
theorem dkg_secrecy_never [R.Lossless] (s : GossipSession R C) {real : s.Choice}
    {transcript : s.Honest → Round1Output}
    (hreal : ∀ i, ∃ node, s.honestRound1 real i = .ok (node, transcript i)) :
    (¬ ∀ x x', s.count transcript x = s.count transcript x') ∧
      (∀ x, s.count transcript x = if x = s.groupSecret real then 1 else 0) ∧
      ∀ i x, Nat.card { a : s.Choice // s.Consistent transcript a ∧ s.freeTerm (a i) = x } =
        if x = s.freeTerm (real i) then 1 else 0 := by
  have hcount := GossipSession.card_consistent hreal s.groupSecret
  refine ⟨fun h => ?_, hcount, fun i => GossipSession.card_consistent hreal fun a => s.freeTerm (a i)⟩
  have h01 := h (s.groupSecret real) (s.groupSecret real + 1)
  rw [GossipSession.count, GossipSession.count, hcount, hcount, if_pos rfl, if_neg (by simp)] at h01
  cases h01

/-! ### Three nodes, one of them corrupted -/

def threePoly (i : ℕ) : Fin 2 → CurveId.Scalar .secp256k1 := ![(i : CurveId.Scalar .secp256k1), 1]

def threeGossip : GossipSession boxRsa (scalarCurve .secp256k1) :=
  { boxSetup (scalarCurve .secp256k1) [1, 2, 3] threeIds_nodup 2 threeIds_admitted with
    ids_valid := by show ∀ i ∈ [1, 2, 3].toFinset, 0 < i ∧ i < 2 ^ 128; decide
    coins := fun _ _ => (0 : UInt8)
    corrupted := {1}
    corrupted_subset := by show {1} ⊆ [1, 2, 3].toFinset; decide
    card_corrupted := rfl
    corruptedPoly := threePoly }

theorem threeGossip_round1 (i : threeGossip.Honest) :
    ∃ node out, threeGossip.honestRound1 (fun i => threePoly i) i = .ok (node, out) := by
  have hi : (i : ℕ) ∈ [1, 2, 3] := List.mem_toFinset.1 (mem_sdiff.1 i.2).1
  refine Node.processDkgRound1_of_ok (boxSetup_round1 (by decide) (by decide) hi _ _) ?_
  rw [length_feldmanCommitments, length_dkgPoly]
  exact Nat.zero_lt_two

noncomputable def threeTranscript (i : threeGossip.Honest) : Round1Output :=
  (threeGossip_round1 i).choose_spec.choose

theorem threeTranscript_real (i : threeGossip.Honest) :
    ∃ node, threeGossip.honestRound1 (fun i => threePoly i) i = .ok (node, threeTranscript i) :=
  ⟨_, (threeGossip_round1 i).choose_spec.choose_spec⟩

theorem groupSecret_three : threeGossip.groupSecret (fun i => threePoly i) = (6 : ℕ) := by
  have hhonest : ∑ i : threeGossip.Honest, threeGossip.freeTerm (threePoly i) =
      ∑ i ∈ ({2, 3} : Finset ℕ), (i : CurveId.Scalar .secp256k1) :=
    Finset.sum_coe_sort ({2, 3} : Finset ℕ) fun i => (i : CurveId.Scalar .secp256k1)
  have hcorrupted : ∑ i ∈ threeGossip.corrupted, threeGossip.freeTerm (threeGossip.corruptedPoly i) =
      ∑ i ∈ ({1} : Finset ℕ), (i : CurveId.Scalar .secp256k1) := rfl
  calc threeGossip.groupSecret (fun i => threePoly i)
      = ∑ i ∈ ({1} : Finset ℕ), (i : CurveId.Scalar .secp256k1) +
          ∑ i ∈ ({2, 3} : Finset ℕ), (i : CurveId.Scalar .secp256k1) := congrArg₂ (· + ·) hcorrupted hhonest
    _ = (6 : ℕ) := by rw [← Nat.cast_sum, ← Nat.cast_sum, ← Nat.cast_add]; rfl

theorem dkg_secrecy_never_three : ¬ ∀ x x', threeGossip.count threeTranscript x = threeGossip.count threeTranscript x' :=
  (dkg_secrecy_never threeGossip threeTranscript_real).1

/-- Node 1 alone, with a threshold of 2, can tell that the secret is 6 and not 7. -/
theorem dkg_own_share_reveals_secret :
    threeGossip.count threeTranscript (6 : ℕ) = 1 ∧ threeGossip.count threeTranscript (7 : ℕ) = 0 := by
  have h67 : ((7 : ℕ) : CurveId.Scalar .secp256k1) ≠ (6 : ℕ) :=
    (CurveId.natCast_inj _ (by decide) (by decide)).not.2 (by decide)
  rw [GossipSession.count, GossipSession.count,
    GossipSession.card_consistent threeTranscript_real threeGossip.groupSecret,
    GossipSession.card_consistent threeTranscript_real threeGossip.groupSecret, groupSecret_three,
    if_pos rfl, if_neg h67]
  exact ⟨rfl, rfl⟩

end HumanNetwork
