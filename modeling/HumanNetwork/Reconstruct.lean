import HumanNetwork.Oprf

/-!
# Reconstruction from a threshold of responses (`reconstruct.rs`)

`threshold` checks the proof of each response and adds the products up with Lagrange weights;
`thresholdUnchecked` only adds up. For any list of distinct indices that is long enough both return
the product with the secret of the sharing (`threshold_eq`, `thresholdUnchecked_eq`).

`oprf_correct` puts the pieces of the PRF together: whatever the mask, the provers and their order, the
client ends with the hash of the input's point multiplied by the secret.
-/

namespace HumanNetwork
open Outcome Finset

variable {C : Curve}

def threshold (hs : Hashes) (pointToMultiply : C.Point) (responses : List (DLEQProof C)) (pubkeys : List C.Point)
    (indices : List ℕ) : Outcome Error C.Point :=
  (responses.zip (pubkeys.zip indices)).foldlM (fun result e => do
    let output ← e.1.verifyAndGetOutput hs e.2.1 pointToMultiply
    let atZero ← lagrangeBasisAt0 e.2.2 indices
    let asAdditiveShare := C.scalarMul output atZero
    pure (C.addSelf result asAdditiveShare)) 0

def thresholdUnchecked {ε : Type} (responses : List C.Point) (indices : List ℕ) : Outcome ε C.Point :=
  (responses.zip indices).foldlM (fun result e => do
    let atZero ← lagrangeBasisAt0 e.2 indices
    let asAdditiveShare := C.scalarMul e.1 atZero
    pure (C.addSelf result asAdditiveShare)) 0

section interpolation
variable {l : List ℕ} (hnd : l.Nodup) (hvalid : ∀ i ∈ l, 0 < i ∧ i < 2 ^ 32) {f : Polynomial C.FieldEl}
  (hf : f.degree < l.length) {p : C.Point} (hp : C.id.order • p = 0)
include hnd hvalid hf hp

theorem sum_weight_scalarMul :
    (l.map fun i : ℕ => C.scalarMul (C.scalarMul p (f.eval (i : C.FieldEl)))
      (Shamir.weight l.toFinset (fun j : ℕ => (j : C.FieldEl)) i)).sum = C.scalarMul p (f.eval 0) := by
  set w : ℕ → C.FieldEl := Shamir.weight l.toFinset (fun j : ℕ => (j : C.FieldEl))
  set q : C.Torsion := Curve.Torsion.mk hp
  have hinj : Set.InjOn (fun j : ℕ => (j : C.FieldEl)) (l.toFinset : Set ℕ) :=
    C.id.natCast_injOn fun j hj => (hvalid j (List.mem_toFinset.1 hj)).2.trans (by decide)
  have hcard : f.degree < (l.toFinset.card : ℕ) := by rwa [List.toFinset_card_of_nodup hnd]
  have hterm : ∀ i : ℕ, C.scalarMul (C.scalarMul p (f.eval (i : C.FieldEl))) (w i) =
      C.Torsion.subtype (w i • f.eval (i : C.FieldEl) • q) := fun i => by
    rw [Curve.scalarMul_eq_coe hp, Curve.scalarMul_coe]
    rfl
  calc (l.map fun i : ℕ => C.scalarMul (C.scalarMul p (f.eval (i : C.FieldEl))) (w i)).sum
      = (l.map fun i : ℕ => C.Torsion.subtype (w i • f.eval (i : C.FieldEl) • q)).sum := by simp only [hterm]
    _ = C.Torsion.subtype (∑ i ∈ l.toFinset, w i • f.eval (i : C.FieldEl) • q) := by
        rw [List.sum_toFinset _ hnd, map_list_sum, List.map_map]
        rfl
    _ = C.Torsion.subtype (f.eval 0 • q) := by rw [Shamir.sum_weight_smul hinj hcard]
    _ = C.scalarMul p (f.eval 0) := (Curve.scalarMul_eq_coe hp _).symm

theorem foldlM_weighted {ε : Type} {step : C.Point → ℕ → Outcome ε C.Point}
    (hstep : ∀ result, ∀ i ∈ l, step result i = lagrangeBasisAt0 i l >>= fun atZero =>
      pure (C.addSelf result (C.scalarMul (C.scalarMul p (f.eval (i : C.FieldEl))) atZero))) :
    l.foldlM step 0 = .ok (C.scalarMul p (f.eval 0)) := by
  have hok : ∀ result, ∀ i ∈ l, step result i =
      .ok (result + C.scalarMul (C.scalarMul p (f.eval (i : C.FieldEl)))
        (Shamir.weight l.toFinset (fun j : ℕ => (j : C.FieldEl)) i)) := by
    intro result i hi
    rw [hstep result i hi, lagrangeBasisAt0_ids hnd hvalid hi, bind_ok]
    rfl
  rw [foldlM_eq_ok hok, ← sum_weight_scalarMul hnd hvalid hf hp, List.sum_eq_foldl, List.foldl_map]

theorem threshold_eq {hs : Hashes} {proof : ℕ → DLEQProof C} {pubkey : ℕ → C.Point}
    (hproof : ∀ i ∈ l, (proof i).verifyAndGetOutput hs (pubkey i) p = .ok (C.scalarMul p (f.eval (i : C.FieldEl)))) :
    threshold hs p (l.map proof) (l.map pubkey) l = .ok (C.scalarMul p (f.eval 0)) := by
  have hzip : (l.map proof).zip ((l.map pubkey).zip l) = l.map fun i => (proof i, pubkey i, i) := by
    conv_lhs => rw [← List.map_id l, List.map_map, List.map_map, List.zip_map', List.zip_map']
    rfl
  rw [threshold, hzip, List.foldlM_map]
  refine foldlM_weighted hnd hvalid hf hp fun result i hi => ?_
  rw [hproof i hi, bind_ok]

theorem thresholdUnchecked_eq {ε : Type} :
    (thresholdUnchecked (l.map fun i : ℕ => C.scalarMul p (f.eval (i : C.FieldEl))) l : Outcome ε C.Point) =
      .ok (C.scalarMul p (f.eval 0)) := by
  have hzip : (l.map fun i : ℕ => C.scalarMul p (f.eval (i : C.FieldEl))).zip l =
      l.map fun i : ℕ => (C.scalarMul p (f.eval (i : C.FieldEl)), i) := by
    conv_lhs => rw [← List.map_id l, List.map_map, List.zip_map']
    rfl
  rw [thresholdUnchecked, hzip, List.foldlM_map]
  exact foldlM_weighted hnd hvalid hf hp fun result i hi => rfl

end interpolation

/-! ### The PRF from end to end -/

section oprf
variable {hs : Hashes}

theorem isSome_encode [C.TotalEncodings] (p : C.Point) : (C.encode p).isSome := by
  obtain ⟨b, hb, -⟩ := Curve.TotalEncodings.encodes p
  rw [hb]
  rfl

theorem scalarMul_mulInv {H : C.Point} (hH : C.id.order • H = 0) {r : C.FieldEl} (hr : r ≠ 0) (s : C.FieldEl) :
    C.scalarMul (C.scalarMul (C.scalarMul H r) s) r⁻¹ = C.scalarMul H s := by
  rw [Curve.scalarMul_scalarMul hH, Curve.scalarMul_scalarMul hH, mul_comm s r, inv_mul_cancel_left₀ hr]

theorem invertMaskAndObtainPrf_eq {H : C.Point} (hH : C.id.order • H = 0) {r s : C.FieldEl} (hr : r ≠ 0) {hashed : ℕ}
    (hhash : (hashFromCurve hs C (C.scalarMul H s) : Outcome String ℕ) = .ok hashed) :
    invertMaskAndObtainPrf hs r (C.scalarMul (C.scalarMul H r) s) = .ok (Bytes.toBeMin hashed) := by
  rw [invertMaskAndObtainPrf, C.id.mulInv_of_ne_zero hr]
  simp only [bind_ok, scalarMul_mulInv hH hr, hhash]
  rfl

theorem oprfClient2_eq [C.PrimeSubgroup] {H : C.Point} (hH : C.id.order • H = 0) {r s : C.FieldEl} (hr : r ≠ 0)
    {hashed : ℕ} (hhash : (hashFromCurve hs C (C.scalarMul H s) : Outcome Error ℕ) = .ok hashed)
    {draw : C.id.RandSpace} {proof : DLEQProof C} (hproof : DLEQProof.new hs draw (C.scalarMul H r) s = .ok proof) :
    oprfClient2 hs (C.scalarMul H r) r (C.scalarMul C.basePointOrGenerator s) proof = .ok (toStrRadix16 hashed) := by
  rw [oprfClient2, DLEQProof.verify_new (Curve.order_nsmul_scalarMul hH r) hproof, bind_ok, C.id.mulInv_of_ne_zero hr]
  simp only [bind_ok, scalarMul_mulInv hH hr, hhash]
  rfl

theorem exists_hashFromCurve [C.TotalEncodings] (hs : Hashes) (p : C.Point) :
    ∃ hashed, ∀ ε, (hashFromCurve hs C p : Outcome ε ℕ) = .ok hashed := by
  obtain ⟨b, hb, -⟩ := Curve.TotalEncodings.encodes p
  exact ⟨_, fun ε => by rw [hashFromCurve, hb]; rfl⟩

/-- For an input with the point `H` and a sharing `f`, the outcome is the hash of `H` multiplied by the
secret. The mask, the provers, their order and number and their nonces make no difference: the proofs
are accepted, and the client and the two reconstructions get there. -/
theorem oprf_correct [hC : C.PrimeOrder] [C.TotalEncodings] (hs : Hashes) {username password : Bytes} {H : C.Point}
    (hH : hashedInput hs C username password = .ok H) (f : Polynomial C.FieldEl) :
    ∃ hashed, (hashFromCurve hs C (C.scalarMul H (f.eval 0)) : Outcome Error ℕ) = .ok hashed ∧
      ∀ t : ℕ, f.degree < t → ∀ r : C.FieldEl, r ≠ 0 → ∃ masked,
        C.encode (C.scalarMul H r) = some masked ∧ C.fromEncoded masked = .ok (C.scalarMul H r) ∧
        (∀ draw, C.id.randVartime draw = r → oprfClient1 hs C username password draw = .ok (masked, r)) ∧
        (∀ l : List ℕ, l.Nodup → (∀ i ∈ l, 0 < i ∧ i < 2 ^ 32) → t ≤ l.length →
          ∀ draws : ℕ → C.id.RandSpace, ∃ proof : ℕ → DLEQProof C,
            (∀ i ∈ l, server hs (draws i) (f.eval (i : C.FieldEl)) masked = .ok (proof i) ∧
              (proof i).verifyAndGetOutput hs (C.scalarMul C.basePointOrGenerator (f.eval (i : C.FieldEl)))
                (C.scalarMul H r) = .ok (proof i).outputPoint) ∧
            threshold hs (C.scalarMul H r) (l.map proof)
                (l.map fun i : ℕ => C.scalarMul C.basePointOrGenerator (f.eval (i : C.FieldEl))) l =
              .ok (C.scalarMul (C.scalarMul H r) (f.eval 0)) ∧
            (thresholdUnchecked (l.map fun i => (proof i).outputPoint) l : Outcome Error C.Point) =
              .ok (C.scalarMul (C.scalarMul H r) (f.eval 0))) ∧
        (∀ draw, ∃ proof, server hs draw (f.eval 0) masked = .ok proof ∧
          oprfClient2 hs (C.scalarMul H r) r (C.scalarMul C.basePointOrGenerator (f.eval 0)) proof =
            .ok (toStrRadix16 hashed)) ∧
        invertMaskAndObtainPrf hs r (C.scalarMul (C.scalarMul H r) (f.eval 0)) = .ok (Bytes.toBeMin hashed) := by
  have hH' : C.id.order • H = 0 := hC.order_nsmul H
  obtain ⟨hashed, hhash⟩ := exists_hashFromCurve hs (C.scalarMul H (f.eval 0))
  refine ⟨hashed, hhash _, fun t hf r hr => ?_⟩
  obtain ⟨masked, hmasked, hdecode⟩ := Curve.TotalEncodings.encodes (C.scalarMul H r)
  -- every server finds the masked point and can prove its product
  have hserver : ∀ draw x, ∃ proof, server hs draw x masked = .ok proof ∧
      DLEQProof.new hs draw (C.scalarMul H r) x = .ok proof := by
    intro draw x
    obtain ⟨proof, hnew⟩ := DLEQProof.exists_new hs draw (C.scalarMul H r) x isSome_encode
    exact ⟨proof, by rw [server, hdecode, bind_ok, hnew], hnew⟩
  refine ⟨masked, hmasked, hdecode, ?_, ?_, ?_, invertMaskAndObtainPrf_eq hH' hr (hhash _)⟩
  · rintro draw rfl
    rw [oprfClient1_eq hH, hmasked]
    rfl
  · intro l hnd hvalid hlen draws
    choose proof hproof hnew using fun i : ℕ => hserver (draws i) (f.eval (i : C.FieldEl))
    have hverify := fun i => DLEQProof.verify_new (hC.order_nsmul (C.scalarMul H r)) (hnew i)
    have houtput : ∀ i, (proof i).outputPoint = C.scalarMul (C.scalarMul H r) (f.eval (i : C.FieldEl)) := fun i =>
      (DLEQProof.new_eq_ok (hnew i)).2.2.2.1
    have hdeg : f.degree < l.length := hf.trans_le (by exact_mod_cast hlen)
    refine ⟨proof, fun i _ => ⟨hproof i, by rw [hverify, houtput]⟩, ?_, ?_⟩
    · exact threshold_eq hnd hvalid hdeg (hC.order_nsmul _) fun i _ => hverify i
    · simp only [houtput]
      exact thresholdUnchecked_eq hnd hvalid hdeg (hC.order_nsmul _)
  · intro draw
    obtain ⟨proof, hproof, hnew⟩ := hserver draw (f.eval 0)
    exact ⟨proof, hproof, oprfClient2_eq hH' hr (hhash _) hnew⟩

end oprf

theorem oprf_correct_secp256k1 : ∃ hashed, ∃ masked,
    oprfClient1 (byteHashes .secp256k1) (scalarCurve .secp256k1) [] [7] (3 : CurveId.Scalar .secp256k1) =
      .ok (masked, 3) ∧
    invertMaskAndObtainPrf (C := scalarCurve .secp256k1) (byteHashes .secp256k1) 3
      ((scalarCurve .secp256k1).scalarMul ((scalarCurve .secp256k1).scalarMul ((7 : ℕ) : CurveId.Scalar .secp256k1) 3)
        ((Shamir.ofCoeffs [5, 3]).eval 0)) = .ok (Bytes.toBeMin hashed) := by
  have h3 : (3 : CurveId.Scalar .secp256k1) ≠ 0 := by
    exact_mod_cast (CurveId.natCast_eq_zero .secp256k1 (i := 3) (by decide)).not.2 (by decide)
  obtain ⟨hashed, -, hrun⟩ := oprf_correct (C := scalarCurve .secp256k1) (byteHashes .secp256k1)
    (hashedInput_byteHashes .secp256k1 [] 7) (Shamir.ofCoeffs [5, 3])
  obtain ⟨masked, -, -, hclient, -, -, hprf⟩ := hrun 2 (Shamir.degree_ofCoeffs_lt [5, 3]) 3 h3
  exact ⟨hashed, masked, hclient _ rfl, hprf⟩

end HumanNetwork
