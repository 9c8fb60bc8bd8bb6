import HumanNetwork.Credits
import Mathlib.Tactic.LinearCombination

/-!
# Schnorr signatures (`schnorrsig.rs`)

A signature commits to a nonce with `R`, hashes `R`, the public key and the message to a challenge `h`, and answers with
`s = nonce + sk * h`. The hash is reduced twice, by the constant of the curve and into the scalars, on both sides alike
(`SchnorrSig.challenge`), so that the check `s * G = h * pubkey + R` is an equation about scalars
(`SchnorrSig.commitment_eq`).
-/

namespace HumanNetwork
open Outcome

namespace SchnorrSig
variable {C : Curve} {hs hs' : Hashes} {msg msg' : Bytes} {pubkey R : C.Point} {sig : SchnorrSig C} {s s' h h' k : C.FieldEl}

/-- `sign`, for what `rand_vartime` draws. -/
def sign (hs : Hashes) (draw : C.id.RandSpace) (secretKey : C.FieldEl) (msg : Bytes) : Outcome Error (SchnorrSig C) := do
  let nonce := C.id.randVartime draw
  let pubnonce := C.scalarMul C.basePointOrGenerator nonce
  let pubkey := C.scalarMul C.basePointOrGenerator secretKey
  let encodedNonce ← unwrap (C.encode pubnonce) unwrapNone
  let encodedKey ← unwrap (C.encode pubkey) unwrapNone
  let preimg := encodedNonce ++ encodedKey ++ msg
  let h ← C.id.fromBiguintVartime (Bytes.ofBe (hs.hash512 preimg) % Bytes.ofBe C.id.fieldModulusBe)
  pure { R := pubnonce, s := nonce + secretKey * h }

def challenge (hs : Hashes) (msg : Bytes) (pubkey R : C.Point) : Outcome Error C.FieldEl := do
  let encodedNonce ← unwrap (C.encode R) unwrapNone
  let encodedKey ← unwrap (C.encode pubkey) unwrapNone
  C.id.fromBiguintVartime (Bytes.ofBe (hs.hash512 (encodedNonce ++ encodedKey ++ msg)) % Bytes.ofBe C.id.fieldModulusBe)

theorem sign_eq (draw : C.id.RandSpace) (secretKey : C.FieldEl) :
    sign hs draw secretKey msg =
      challenge hs msg (C.scalarMul C.basePointOrGenerator secretKey)
          (C.scalarMul C.basePointOrGenerator (C.id.randVartime draw)) >>= fun h =>
        pure ⟨C.scalarMul C.basePointOrGenerator (C.id.randVartime draw), C.id.randVartime draw + secretKey * h⟩ := by
  simp only [sign, challenge, bind_assoc]

theorem verify_eq : sig.verify hs msg pubkey =
    challenge hs msg pubkey sig.R >>= fun h =>
      ensure (C.scalarMul C.basePointOrGenerator sig.s = C.addSelf (C.scalarMul pubkey h) sig.R) .invalidSignature := by
  simp only [verify, challenge, bind_assoc]

theorem verify_eq_ok (hchallenge : challenge hs msg pubkey R = .ok h) :
    verify hs msg pubkey ⟨R, s⟩ = .ok () ↔ C.scalarMul C.basePointOrGenerator s = C.scalarMul pubkey h + R := by
  rw [verify_eq, hchallenge, bind_ok, ensure_eq_ok, C.addSelf_eq]

theorem exists_challenge [C.FaithfulEncodings] (hR : R ≠ 0) (hR' : C.id.order • R = 0) (hkey : pubkey ≠ 0)
    (hkey' : C.id.order • pubkey = 0) : ∃ h, challenge hs msg pubkey R = .ok h := by
  obtain ⟨encodedNonce, hnonce⟩ := Curve.FaithfulEncodings.encodes R hR hR'
  obtain ⟨encodedKey, hkey⟩ := Curve.FaithfulEncodings.encodes pubkey hkey hkey'
  exact ⟨_, by rw [challenge, hnonce, hkey]; rfl⟩

section PrimeSubgroup
variable [hC : C.PrimeSubgroup]

theorem scalarMul_generator_ne_zero (hs : s ≠ 0) : C.scalarMul C.basePointOrGenerator s ≠ 0 :=
  Curve.scalarMul_ne_zero hC.order_nsmul_generator hC.generator_ne_zero hs

theorem commitment_eq : C.scalarMul C.basePointOrGenerator s = C.scalarMul (C.scalarMul C.basePointOrGenerator k) h + R ↔
    R = C.scalarMul C.basePointOrGenerator (s - h * k) := by
  rw [← Curve.scalarMul_sub_add hC.order_nsmul_generator s k h, add_comm (C.scalarMul (C.scalarMul _ k) h), add_left_inj,
    eq_comm]

theorem exists_sign [C.FaithfulEncodings] {draw : C.id.RandSpace} {secretKey : C.FieldEl} (hkey : secretKey ≠ 0)
    (hnonce : C.id.randVartime draw ≠ 0) : ∃ sig, sign hs draw secretKey msg = .ok sig ∧
      sig.verify hs msg (C.scalarMul C.basePointOrGenerator secretKey) = .ok () := by
  obtain ⟨h, hchallenge⟩ : ∃ h, challenge hs msg (C.scalarMul C.basePointOrGenerator secretKey)
      (C.scalarMul C.basePointOrGenerator (C.id.randVartime draw)) = .ok h :=
    exists_challenge (scalarMul_generator_ne_zero hnonce) (Curve.order_nsmul_scalarMul hC.order_nsmul_generator _)
      (scalarMul_generator_ne_zero hkey) (Curve.order_nsmul_scalarMul hC.order_nsmul_generator _)
  refine ⟨⟨_, C.id.randVartime draw + secretKey * h⟩, by rw [sign_eq, hchallenge]; rfl, ?_⟩
  rw [verify_eq_ok hchallenge, commitment_eq, mul_comm secretKey, add_sub_cancel_right]

end PrimeSubgroup

end SchnorrSig

/-- Completeness and extraction. What `sign` makes with a key and a nonce other than zero is accepted for the public key.
Two answers to one commitment that are accepted under different challenges, whatever the messages and the hash functions
that led to them, give the secret key. -/
theorem schnorr_complete_and_extractable {C : Curve} [C.PrimeSubgroup] [C.FaithfulEncodings] :
    (∀ (hs : Hashes) (draw : C.id.RandSpace) (secretKey : C.FieldEl) (msg : Bytes),
      secretKey ≠ 0 → C.id.randVartime draw ≠ 0 →
      ∃ sig, SchnorrSig.sign hs draw secretKey msg = .ok sig ∧
        sig.verify hs msg (C.scalarMul C.basePointOrGenerator secretKey) = .ok ()) ∧
    ∀ (pubkey R : C.Point) (hs hs' : Hashes) (msg msg' : Bytes) (h h' s s' : C.FieldEl),
      C.id.order • pubkey = 0 →
      SchnorrSig.challenge hs msg pubkey R = .ok h → SchnorrSig.challenge hs' msg' pubkey R = .ok h' → h ≠ h' →
      SchnorrSig.verify hs msg pubkey ⟨R, s⟩ = .ok () → SchnorrSig.verify hs' msg' pubkey ⟨R, s'⟩ = .ok () →
      ∀ x : C.FieldEl, C.scalarMul C.basePointOrGenerator x = pubkey ↔ x = (s - s') / (h - h') := by
  have hG : C.id.order • C.basePointOrGenerator = 0 := Curve.PrimeSubgroup.order_nsmul_generator
  have hG0 : C.basePointOrGenerator ≠ 0 := Curve.PrimeSubgroup.generator_ne_zero
  constructor
  · intro hs draw secretKey msg hkey hnonce
    exact SchnorrSig.exists_sign hkey hnonce
  · intro pubkey R hs hs' msg msg' h h' s s' hpubkey hh hh' hne hv hv' x
    obtain ⟨k, rfl⟩ := Curve.PrimeSubgroup.exists_scalarMul pubkey hpubkey
    rw [SchnorrSig.verify_eq_ok hh, SchnorrSig.commitment_eq] at hv
    rw [SchnorrSig.verify_eq_ok hh', SchnorrSig.commitment_eq] at hv'
    -- both answers are for the same commitment: `s - h * k = s' - h' * k`
    have hk : s - h * k = s' - h' * k := (Curve.scalarMul_inj hG hG0).1 (hv.symm.trans hv')
    rw [Curve.scalarMul_inj hG hG0, eq_div_iff (sub_ne_zero.2 hne)]
    constructor
    · rintro rfl
      linear_combination -hk
    · intro hx
      refine mul_right_cancel₀ (sub_ne_zero.2 hne) ?_
      linear_combination hx + hk

theorem schnorr_extracts_five :
    let scalar (n : ℕ) : CurveId.Scalar .secp256k1 := n
    ∀ x, (scalarCurve .secp256k1).scalarMul (scalarCurve .secp256k1).basePointOrGenerator x = scalar 5 ↔
      x = (scalar 35 - scalar 40) / (scalar 1 - scalar 2) := by
  intro scalar x
  refine (schnorr_complete_and_extractable (C := scalarCurve .secp256k1)).2 (scalar 5) (scalar 30)
    (byteHashes .secp256k1) (byteHashes .secp256k1) [1] [2] (scalar 1) (scalar 2) (scalar 35) (scalar 40)
    (Curve.PrimeOrder.order_nsmul _) ?_ ?_ ?_ ?_ ?_ x
  · decide +kernel
  · decide +kernel
  · decide +kernel
  · decide +kernel
  · decide +kernel

end HumanNetwork
