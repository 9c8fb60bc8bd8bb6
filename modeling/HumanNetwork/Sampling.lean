import HumanNetwork.Oprf

/-!
# What the random scalars hide (`ScalarTrait::rand_vartime`)

The nonce of a `DLEQProof` hides the secret in its response, and the mask of `oprfClient1` hides the
point that is sent, if every scalar is equally likely. `rand_vartime` returns any scalar for secp256k1,
but only a 32-bit number for BabyJubJub (`CurveId.randVartime_surjective_iff`).

`dleq_response_hides_iff` and `oprf_oblivious_iff` are the consequences. A response of BabyJubJub is
one of few scalars, which depend on the secret. And the points that BabyJubJub masks can be sent for
one input or for another, but not for both alike, unless the inputs hash to the same point: a factor
that keeps the set of the 32-bit numbers keeps their sum, so it is 1 (`CurveId.eq_one_of_scales`).
-/

namespace HumanNetwork
open Outcome Finset

/-! ### What `rand_vartime` can return -/

namespace CurveId

theorem randVartime_injective (c : CurveId) : Function.Injective c.randVartime := by
  cases c with
  | secp256k1 => exact fun _ _ h => h
  | babyJubJub =>
    intro r r' h
    have hr := r.isLt
    have hr' := r'.isLt
    exact Fin.ext ((natCast_inj _ (by omega) (by omega)).1 h)

theorem randVartime_surjective_iff (c : CurveId) : Function.Surjective c.randVartime ↔ c = secp256k1 := by
  cases c with
  | secp256k1 => exact ⟨fun _ => rfl, fun _ s => ⟨s, rfl⟩⟩
  | babyJubJub =>
    refine ⟨fun h => ?_, fun h => by cases h⟩
    have hcard : Fintype.card (Scalar babyJubJub) ≤ Fintype.card (Fin (2 ^ 32)) := Fintype.card_le_of_surjective _ h
    rw [ZMod.card, Fintype.card_fin] at hcard
    exact absurd hcard (by decide)

theorem sum_randVartime_ne_zero : ∑ r, randVartime babyJubJub r ≠ 0 := by
  have hsum : ∑ r, randVartime babyJubJub r = ((∑ i ∈ range (2 ^ 32), i : ℕ) : Scalar babyJubJub) := by
    rw [Nat.cast_sum]
    exact Fin.sum_univ_eq_sum_range (fun i => (i : Scalar babyJubJub)) (2 ^ 32)
  rw [hsum, Finset.sum_range_id, Ne, natCast_eq_zero _ (by norm_num)]
  norm_num

/-- No factor other than 1 maps the returned scalars to returned scalars, if not all are returned. -/
theorem eq_one_of_scales {c : CurveId} (hc : c ≠ secp256k1) {k : c.Scalar} (hk : k ≠ 0)
    (h : ∀ r, ∃ r', c.randVartime r' = c.randVartime r * k) : k = 1 := by
  cases c with
  | secp256k1 => exact absurd rfl hc
  | babyJubJub =>
    choose next hnext using h
    -- the factor permutes the draws, so it does not change the sum
    have hinj : Function.Injective next := by
      intro r r' hr
      have hmul : randVartime babyJubJub r * k = randVartime babyJubJub r' * k := by rw [← hnext, ← hnext, hr]
      exact randVartime_injective _ (mul_right_cancel₀ hk hmul)
    have hsum : (∑ r, randVartime babyJubJub r) * k = (∑ r, randVartime babyJubJub r) * 1 := by
      rw [Finset.sum_mul, mul_one]
      calc ∑ r, randVartime babyJubJub r * k = ∑ r, randVartime babyJubJub (next r) :=
            Finset.sum_congr rfl fun r _ => (hnext r).symm
        _ = ∑ r, randVartime babyJubJub r := (Finite.injective_iff_bijective.1 hinj).sum_comp _
    exact mul_left_cancel₀ sum_randVartime_ne_zero hsum

theorem order_le_fieldModulus (c : CurveId) : c.order ≤ Bytes.ofBe c.fieldModulusBe := by
  cases c <;> decide

end CurveId

/-! ### The response of a proof -/

section dleq
variable {C : Curve}

/-- With the nonce `draw` a proof can have the response `z` under the challenge `c`: the hash may be
any function. -/
def Responds (p : C.Point) (x c : C.FieldEl) (draw : C.id.RandSpace) (z : C.FieldEl) : Prop :=
  ∃ hs proof, DLEQProof.new hs draw p x = .ok proof ∧ proof.challenge = c ∧ proof.response = z

theorem response_eq {p : C.Point} {x c z : C.FieldEl} {draw : C.id.RandSpace} (h : Responds p x c draw z) :
    C.id.randVartime draw = z + c * x := by
  obtain ⟨hs, proof, hnew, rfl, rfl⟩ := h
  obtain ⟨-, -, -, -, hresponse⟩ := DLEQProof.new_eq_ok hnew
  rw [hresponse, sub_add_cancel]

def challengeHashes (c : C.FieldEl) : Hashes where
  hash512 _ := Bytes.toBe 64 c.val
  hash256 _ := Bytes.toBe 32 0
  argon2 _ _ := none
  length_hash512 _ := Bytes.length_toBe _ _
  length_hash256 _ := Bytes.length_toBe _ _

theorem responds_iff (henc : ∀ p, (C.encode p).isSome) (p : C.Point) (x c z : C.FieldEl) (draw : C.id.RandSpace) :
    Responds p x c draw z ↔ C.id.randVartime draw = z + c * x := by
  refine ⟨response_eq, fun h => ?_⟩
  obtain ⟨proof, hnew⟩ := DLEQProof.exists_new (challengeHashes c) draw p x henc
  obtain ⟨hchallenge, -, -, -, hresponse⟩ := DLEQProof.new_eq_ok hnew
  have hc : proof.challenge = c := by
    obtain ⟨m, hm⟩ := challengeHash_ok (challengeHashes c) henc p (C.scalarMul C.basePointOrGenerator x)
      (C.scalarMul p x) (C.scalarMul C.basePointOrGenerator (C.id.randVartime draw))
      (C.scalarMul p (C.id.randVartime draw))
    have hval : c.val < 256 ^ 64 := (C.id.val_lt_pow c).trans (by norm_num)
    rw [hm, challengeHashes, Bytes.ofBe_toBe hval,
      Nat.mod_eq_of_lt ((ZMod.val_lt c).trans_le C.id.order_le_fieldModulus), ZMod.natCast_zmod_val] at hchallenge
    exact (Except.ok.inj hchallenge).symm
  exact ⟨challengeHashes c, proof, hnew, hc, by rw [hresponse, hc, h, add_sub_cancel_right]⟩

theorem card_responds (hsecp : C.id = .secp256k1) (henc : ∀ p, (C.encode p).isSome) (p : C.Point) (x c z : C.FieldEl) :
    Nat.card { draw // Responds p x c draw z } = 1 := by
  obtain ⟨draw, hdraw⟩ := C.id.randVartime_surjective_iff.2 hsecp (z + c * x)
  rw [Nat.card_eq_one_iff_unique]
  refine ⟨⟨fun a b => Subtype.ext (C.id.randVartime_injective ?_)⟩, ⟨⟨draw, (responds_iff henc p x c z draw).2 hdraw⟩⟩⟩
  rw [response_eq a.2, response_eq b.2]

/-- Under a given challenge every response is possible, and all of them with equally many nonces,
exactly on secp256k1. There the response has nothing to do with the secret. -/
theorem dleq_response_hides_iff (henc : C.id = .secp256k1 → ∀ p, (C.encode p).isSome) (p : C.Point) (x c : C.FieldEl) :
    (((∀ z, ∃ draw, Responds p x c draw z) ∧
        ∀ z z', Nat.card { draw // Responds p x c draw z } = Nat.card { draw // Responds p x c draw z' }) ↔
      C.id = .secp256k1) ∧
    (C.id = .secp256k1 → ∀ x' z,
      Nat.card { draw // Responds p x c draw z } = Nat.card { draw // Responds p x' c draw z }) := by
  refine ⟨⟨fun ⟨hall, _⟩ => ?_, fun hsecp => ⟨fun z => ?_, fun z z' => ?_⟩⟩, fun hsecp x' z => ?_⟩
  · rw [← CurveId.randVartime_surjective_iff]
    intro s
    obtain ⟨draw, hdraw⟩ := hall (s - c * x)
    exact ⟨draw, by rw [response_eq hdraw, sub_add_cancel]⟩
  · obtain ⟨draw, hdraw⟩ := C.id.randVartime_surjective_iff.2 hsecp (z + c * x)
    exact ⟨draw, (responds_iff (henc hsecp) p x c z draw).2 hdraw⟩
  · rw [card_responds hsecp (henc hsecp), card_responds hsecp (henc hsecp)]
  · rw [card_responds hsecp (henc hsecp), card_responds hsecp (henc hsecp)]

end dleq

theorem dleq_response_hides_iff_secp256k1 :
    (∃ draw, Responds (C := scalarCurve .secp256k1) (7 : CurveId.Scalar .secp256k1) 5 3 draw 0) ∧
    Nat.card { draw // Responds (C := scalarCurve .secp256k1) (7 : CurveId.Scalar .secp256k1) 5 3 draw 0 } =
      Nat.card { draw // Responds (C := scalarCurve .secp256k1) (7 : CurveId.Scalar .secp256k1) 6 3 draw 0 } := by
  obtain ⟨hresponse, hsecret⟩ :=
    dleq_response_hides_iff (C := scalarCurve .secp256k1) (fun _ _ => rfl) (7 : CurveId.Scalar .secp256k1) 5 3
  exact ⟨(hresponse.2 rfl).1 0, hsecret rfl 6 0⟩

/-- Under challenge 1 a prover of BabyJubJub with the secret 1 never responds `2 ^ 32 - 1`, since its
nonce would have to be `2 ^ 32`, while it can respond 0. -/
theorem dleq_response_excluded :
    (¬ ∃ draw, Responds (C := scalarCurve .babyJubJub) (7 : CurveId.Scalar .babyJubJub) 1 1 draw
      ((2 ^ 32 - 1 : ℕ) : CurveId.Scalar .babyJubJub)) ∧
    ∃ draw, Responds (C := scalarCurve .babyJubJub) (7 : CurveId.Scalar .babyJubJub) 1 1 draw 0 := by
  constructor
  · rintro ⟨draw, hdraw⟩
    have h := response_eq hdraw
    have hcast : ((2 ^ 32 - 1 : ℕ) : CurveId.Scalar .babyJubJub) + 1 * 1 = ((2 ^ 32 : ℕ) : CurveId.Scalar .babyJubJub) := by
      norm_num
    have hlt : Fin.val draw < 2 ^ 32 := Fin.isLt draw
    have hval := (CurveId.natCast_inj _ (by omega) (by norm_num)).1 (h.trans hcast)
    omega
  · refine ⟨(1 : Fin (2 ^ 32)), (responds_iff (fun _ => rfl) _ _ _ _ _).2 ?_⟩
    show ((1 : Fin (2 ^ 32)).val : CurveId.Scalar .babyJubJub) = 0 + 1 * 1
    norm_num

/-! ### The masked point of a client -/

section oprf
variable (hs : Hashes) (C : Curve)

def Sends (username password : Bytes) (draw : C.id.RandSpace) (M : C.Point) : Prop :=
  ∃ encoded secretMask, C.encode M = some encoded ∧
    oprfClient1 hs C username password draw = .ok (encoded, secretMask)

noncomputable def maskCount (username password : Bytes) (M : C.Point) : ℕ :=
  Nat.card { draw // Sends hs C username password draw M }

variable {hs C} {username password : Bytes} {H M : C.Point}

theorem sends_iff [hC : C.FaithfulEncodings] (h : hashedInput hs C username password = .ok H) (hM : M ≠ 0)
    (hM' : C.id.order • M = 0) (draw : C.id.RandSpace) :
    Sends hs C username password draw M ↔ C.scalarMul H (C.id.randVartime draw) = M := by
  obtain ⟨b, hb⟩ := hC.encodes M hM hM'
  rw [Sends, oprfClient1_eq h]
  constructor
  · rintro ⟨encoded, secretMask, hencoded, hsent⟩
    simp only [bind_eq_ok, unwrap_eq_ok, pure_eq_ok, Except.ok.injEq, Prod.mk.injEq] at hsent
    obtain ⟨_, hmasked, rfl, -⟩ := hsent
    exact hC.encode_inj hmasked hencoded
  · intro hmasked
    exact ⟨b, _, hb, by rw [hmasked, hb]; rfl⟩

theorem maskCount_pos_iff [C.FaithfulEncodings] (h : hashedInput hs C username password = .ok H) (hM : M ≠ 0)
    (hM' : C.id.order • M = 0) :
    0 < maskCount hs C username password M ↔ ∃ draw, C.scalarMul H (C.id.randVartime draw) = M := by
  rw [maskCount, Nat.card_pos_iff, nonempty_subtype]
  simp only [sends_iff h hM hM']
  exact ⟨And.left, fun h => ⟨h, inferInstance⟩⟩

theorem maskCount_secp256k1 [C.PrimeSubgroup] [C.FaithfulEncodings] (hsecp : C.id = .secp256k1)
    (h : hashedInput hs C username password = .ok H) (hH : H ≠ 0) (hH' : C.id.order • H = 0) (hM : M ≠ 0)
    (hM' : C.id.order • M = 0) : maskCount hs C username password M = 1 := by
  obtain ⟨s, hs'⟩ := Curve.exists_scalarMul_eq hH' hH hM'
  obtain ⟨draw, hdraw⟩ := C.id.randVartime_surjective_iff.2 hsecp s
  rw [maskCount, Nat.card_eq_one_iff_unique]
  refine ⟨⟨fun a b => Subtype.ext (C.id.randVartime_injective ?_)⟩, ⟨⟨draw, ?_⟩⟩⟩
  · rw [← Curve.scalarMul_inj hH' hH, (sends_iff h hM hM' a).1 a.2, (sends_iff h hM hM' b).1 b.2]
  · rw [sends_iff h hM hM', hdraw, hs']

/-- Two inputs send every point with equally many masks exactly when all masks are drawn, or when there
is nothing to tell apart. -/
theorem oprf_oblivious_iff [hC : C.PrimeSubgroup] [C.FaithfulEncodings] {username' password' : Bytes} {H' : C.Point}
    (h : hashedInput hs C username password = .ok H) (h' : hashedInput hs C username' password' = .ok H')
    (hH : H ≠ 0 ∧ C.id.order • H = 0) (hH' : H' ≠ 0 ∧ C.id.order • H' = 0) :
    (∀ M, M ≠ 0 → C.id.order • M = 0 →
        maskCount hs C username password M = maskCount hs C username' password' M) ↔
      C.id = .secp256k1 ∨ H = H' := by
  refine ⟨fun hcount => ?_, fun hor M hM hM' => ?_⟩
  · by_contra hne
    rw [not_or] at hne
    obtain ⟨k, rfl⟩ := Curve.exists_scalarMul_eq hH.2 hH.1 hH'.2
    have hk : k ≠ 0 := by
      rintro rfl
      exact hH'.1 (C.scalarMul_zero H)
    -- a point sent for the second input is sent for the first one too
    have hscales : ∀ r, ∃ r', C.id.randVartime r' = C.id.randVartime r * k := by
      intro r
      set M := C.scalarMul (C.scalarMul H k) (C.id.randVartime r) with hMdef
      have hMH : M = C.scalarMul H (C.id.randVartime r * k) := Curve.scalarMul_scalarMul hH.2 _ _
      by_cases hM : M = 0
      · refine ⟨r, ?_⟩
        have hr : C.id.randVartime r * k = 0 := by
          rw [← Curve.scalarMul_inj hH.2 hH.1, ← hMH, hM, C.scalarMul_zero]
        rw [hr, (mul_eq_zero.1 hr).resolve_right hk]
      · have hM' : C.id.order • M = 0 := Curve.order_nsmul_scalarMul hH'.2 _
        have hpos : 0 < maskCount hs C username password M := by
          rw [hcount M hM hM', maskCount_pos_iff h' hM hM']
          exact ⟨r, hMdef.symm⟩
        obtain ⟨r', hr'⟩ := (maskCount_pos_iff h hM hM').1 hpos
        exact ⟨r', (Curve.scalarMul_inj hH.2 hH.1).1 (hr'.trans hMH)⟩
    have hone := CurveId.eq_one_of_scales hne.1 hk hscales
    apply hne.2
    rw [hone, Curve.scalarMul_one]
  · rcases hor with hsecp | rfl
    · rw [maskCount_secp256k1 hsecp h hH.1 hH.2 hM hM', maskCount_secp256k1 hsecp h' hH'.1 hH'.2 hM hM']
    · refine Nat.card_congr (Equiv.subtypeEquivRight fun draw => ?_)
      rw [sends_iff h hM hM', sends_iff h' hM hM']

end oprf

theorem oprf_oblivious_iff_secp256k1 :
    maskCount (byteHashes .secp256k1) (scalarCurve .secp256k1) [] [1] (1 : CurveId.Scalar .secp256k1) =
      maskCount (byteHashes .secp256k1) (scalarCurve .secp256k1) [] [2] (1 : CurveId.Scalar .secp256k1) := by
  have horder : ∀ p : (scalarCurve .secp256k1).Point, (scalarCurve .secp256k1).id.order • p = 0 :=
    Curve.PrimeOrder.order_nsmul
  refine (oprf_oblivious_iff (C := scalarCurve .secp256k1) (hashedInput_byteHashes _ _ _)
    (hashedInput_byteHashes _ _ _) ⟨?_, horder _⟩ ⟨?_, horder _⟩).2 (.inl rfl) _ one_ne_zero (horder _)
  · exact (CurveId.natCast_eq_zero _ (by decide)).not.2 (by decide)
  · exact (CurveId.natCast_eq_zero _ (by decide)).not.2 (by decide)

/-- On BabyJubJub an input with the point `G` sends `G` with one mask, and an input with the point `2 G`
never sends it: the mask would have to be one half. -/
theorem oprf_mask_tells_inputs_apart :
    maskCount (byteHashes .babyJubJub) (scalarCurve .babyJubJub) [] [1] (1 : CurveId.Scalar .babyJubJub) = 1 ∧
      maskCount (byteHashes .babyJubJub) (scalarCurve .babyJubJub) [] [2] (1 : CurveId.Scalar .babyJubJub) = 0 := by
  have hone : (1 : CurveId.Scalar .babyJubJub) ≠ 0 := one_ne_zero
  have horder : CurveId.order .babyJubJub • (1 : CurveId.Scalar .babyJubJub) = 0 :=
    Curve.PrimeOrder.order_nsmul (C := scalarCurve .babyJubJub) _
  have hsends : ∀ (b : UInt8) draw,
      Sends (byteHashes .babyJubJub) (scalarCurve .babyJubJub) [] [b] draw (1 : CurveId.Scalar .babyJubJub) ↔
        Fin.val (n := 2 ^ 32) draw * b.toNat = 1 := by
    intro b draw
    have hb : b.toNat < 256 := b.toNat_lt
    have hlt : Fin.val (n := 2 ^ 32) draw * b.toNat < 2 ^ 128 := by
      calc Fin.val (n := 2 ^ 32) draw * b.toNat < 2 ^ 32 * 256 := Nat.mul_lt_mul'' (Fin.isLt draw) hb
        _ < 2 ^ 128 := by norm_num
    rw [sends_iff (C := scalarCurve .babyJubJub) (hashedInput_byteHashes _ _ _) hone horder, scalarCurve_scalarMul,
      ← CurveId.natCast_inj .babyJubJub hlt (by norm_num), Nat.cast_mul, Nat.cast_one]
    rfl
  constructor
  · rw [maskCount, Nat.card_eq_one_iff_unique]
    refine ⟨⟨fun a b => Subtype.ext (Fin.ext (n := 2 ^ 32) ?_)⟩, ⟨⟨(1 : Fin (2 ^ 32)), (hsends 1 _).2 rfl⟩⟩⟩
    have ha := (hsends 1 a.1).1 a.2
    have hb := (hsends 1 b.1).1 b.2
    rw [show (1 : UInt8).toNat = 1 from rfl, mul_one] at ha hb
    exact ha.trans hb.symm
  · rw [maskCount, Nat.card_eq_zero]
    refine .inl ⟨fun a => ?_⟩
    have ha := (hsends 2 a.1).1 a.2
    rw [show (2 : UInt8).toNat = 2 from rfl] at ha
    omega

end HumanNetwork
