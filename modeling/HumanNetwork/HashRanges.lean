import HumanNetwork.Lib.Residues
import HumanNetwork.Oprf
import Mathlib.Data.FinEnum

/-!
# Where the hashes land (`lib.rs`, `curve.rs`)

`hashFromCurve` and `challengeHash` reduce a 512-bit digest by `FIELD_MODULUS_BE`, and the challenge is then reduced into
the scalars. The constant of BabyJubJub is the order of secp256k1, 42 times the order of its own subgroup and a bit: the
output hash is not below that order, and the low scalars have 43 of the first remainders where the high ones have 42
(`hashes_in_range_iff`).
-/

namespace HumanNetwork
open Outcome Finset

def Hashes.withDigest (hs : Hashes) (digest : Fin 64 → UInt8) : Hashes :=
  { hs with
    hash512 := fun _ => List.ofFn digest
    length_hash512 := fun _ => List.length_ofFn }

/-- How many of the 512-bit digests `challenge_hash` maps to a scalar. -/
def challengeDigests (hs : Hashes) (C : Curve) (inputPoint pubkey outputPoint rPub rIn : C.Point) (s : C.FieldEl) : ℕ :=
  #{digest : Fin 64 → UInt8 | challengeHash (hs.withDigest digest) C inputPoint pubkey outputPoint rPub rIn = .ok s}

variable {hs : Hashes} {C : Curve} {inputPoint pubkey outputPoint rPub rIn : C.Point} {s : C.FieldEl}

theorem challengeHash_eq_ok_iff : challengeHash hs C inputPoint pubkey outputPoint rPub rIn = .ok s ↔
    ∃ bs, ([C.basePointOrGenerator, inputPoint, pubkey, outputPoint, rPub, rIn].mapM fun pt =>
      (unwrap (C.encode pt) unwrapNone : Outcome Error _)) = .ok bs ∧
      ((Bytes.ofBe (hs.hash512 bs.flatten) % Bytes.ofBe C.id.fieldModulusBe : ℕ) : C.FieldEl) = s := by
  simp only [challengeHash, CurveId.fromBiguintVartime, bind_eq_ok, Except.ok.injEq]

theorem card_ofBe_ofFn {len : ℕ} (p : ℕ → Prop) [DecidablePred p] :
    #{digest : Fin len → UInt8 | p (Bytes.ofBe (List.ofFn digest))} = #{n ∈ range (256 ^ len) | p n} := by
  refine Finset.card_bij (fun digest _ => Bytes.ofBe (List.ofFn digest)) ?_ ?_ ?_
  · intro digest hdigest
    have hlt := Bytes.ofBe_lt (List.ofFn digest)
    rw [List.length_ofFn] at hlt
    exact mem_filter.2 ⟨mem_range.2 hlt, (mem_filter.1 hdigest).2⟩
  · intro digest _ digest' _ h
    exact List.ofFn_injective ((Bytes.ofBe_inj (by simp)).1 h)
  · intro n hn
    obtain ⟨hlt, hp⟩ := mem_filter.1 hn
    have hlen := Bytes.length_toBe len n
    have hofFn : List.ofFn (fun i : Fin len => (Bytes.toBe len n).get (i.cast hlen.symm)) = Bytes.toBe len n :=
      List.ext_getElem (by simp [hlen]) fun i _ _ => by simp
    have hval := Bytes.ofBe_toBe (mem_range.1 hlt)
    exact ⟨_, mem_filter.2 ⟨mem_univ _, by rwa [hofFn, hval]⟩, by rw [hofFn, hval]⟩

theorem challengeDigests_eq (henc : ∀ pt ∈ [C.basePointOrGenerator, inputPoint, pubkey, outputPoint, rPub, rIn],
    ∃ b, C.encode pt = some b) :
    challengeDigests hs C inputPoint pubkey outputPoint rPub rIn s =
      #{n ∈ range (256 ^ 64) | n % Bytes.ofBe C.id.fieldModulusBe % C.id.order = s.val} := by
  have hmapM : ∃ bs, ([C.basePointOrGenerator, inputPoint, pubkey, outputPoint, rPub, rIn].mapM fun pt =>
      (unwrap (C.encode pt) unwrapNone : Outcome Error _)) = .ok bs := by
    rw [exists_mapM_eq_ok]
    simpa only [unwrap_eq_ok] using henc
  obtain ⟨bs, hbs⟩ := hmapM
  have hiff : ∀ digest, challengeHash (hs.withDigest digest) C inputPoint pubkey outputPoint rPub rIn = .ok s ↔
      Bytes.ofBe (List.ofFn digest) % Bytes.ofBe C.id.fieldModulusBe % C.id.order = s.val := by
    intro digest
    rw [challengeHash_eq_ok_iff]
    simp only [hbs, Except.ok.injEq, exists_eq_left', Hashes.withDigest]
    rw [← (ZMod.val_injective _).eq_iff, ZMod.val_natCast]
  rw [← card_ofBe_ofFn, challengeDigests]
  simp only [hiff]

theorem challengeDigests_eq_zero (henc : ¬ ∀ pt ∈ [C.basePointOrGenerator, inputPoint, pubkey, outputPoint, rPub, rIn],
    ∃ b, C.encode pt = some b) : challengeDigests hs C inputPoint pubkey outputPoint rPub rIn s = 0 := by
  rw [challengeDigests, card_eq_zero, filter_eq_empty_iff]
  intro digest _ h
  obtain ⟨bs, hbs, -⟩ := challengeHash_eq_ok_iff.1 h
  refine henc fun pt hpt => ?_
  simpa only [unwrap_eq_ok] using exists_mapM_eq_ok.1 ⟨bs, hbs⟩ pt hpt

/-! ### The two reductions of each curve -/

/-- One reduction by the order leaves each scalar of secp256k1 the same number of digests, give or take one. -/
theorem secp256k1_digests {j j' : ℕ} (hj : j < CurveId.secp256k1.order) (hj' : j' < CurveId.secp256k1.order) :
    2 ^ 200 * #{n ∈ range (256 ^ 64) | n % Bytes.ofBe CurveId.secp256k1.fieldModulusBe % CurveId.secp256k1.order = j} ≤
      (2 ^ 200 + 1) *
        #{n ∈ range (256 ^ 64) | n % Bytes.ofBe CurveId.secp256k1.fieldModulusBe % CurveId.secp256k1.order = j'} := by
  have hmodulus : Bytes.ofBe CurveId.secp256k1.fieldModulusBe = CurveId.secp256k1.order := by decide
  simp only [hmodulus, Nat.mod_mod]
  have hle : 2 ^ 200 * (256 ^ 64 ⌈/⌉ CurveId.secp256k1.order) ≤ (2 ^ 200 + 1) * (256 ^ 64 / CurveId.secp256k1.order) := by
    rw [Nat.ceilDiv_eq_add_pred_div]
    decide
  calc _ ≤ 2 ^ 200 * (256 ^ 64 ⌈/⌉ CurveId.secp256k1.order) :=
        Nat.mul_le_mul_left _ (Nat.card_filter_mod_bounds _ hj).2
    _ ≤ (2 ^ 200 + 1) * (256 ^ 64 / CurveId.secp256k1.order) := hle
    _ ≤ _ := Nat.mul_le_mul_left _ (Nat.card_filter_mod_bounds _ hj').1

/-- The order of secp256k1 is not a multiple of that of BabyJubJub's subgroup: zero has 43 of the remainders of the first
reduction and the last scalar has 42. -/
theorem babyJubJub_digests :
    (2 ^ 200 + 1) * #{n ∈ range (256 ^ 64) |
        n % Bytes.ofBe CurveId.babyJubJub.fieldModulusBe % CurveId.babyJubJub.order = CurveId.babyJubJub.order - 1} <
      2 ^ 200 * #{n ∈ range (256 ^ 64) |
        n % Bytes.ofBe CurveId.babyJubJub.fieldModulusBe % CurveId.babyJubJub.order = 0} := by
  have hmodulus : Bytes.ofBe CurveId.babyJubJub.fieldModulusBe = CurveId.secp256k1.order := by decide
  rw [hmodulus]
  have hlow : #{r ∈ range CurveId.secp256k1.order | r % CurveId.babyJubJub.order = 0} = 43 := by
    rw [Nat.card_filter_mod_eq _ (by decide)]
    decide
  have hhigh : #{r ∈ range CurveId.secp256k1.order | r % CurveId.babyJubJub.order = CurveId.babyJubJub.order - 1} = 42 := by
    rw [Nat.card_filter_mod_eq _ (by decide)]
    decide
  have hlt : (2 ^ 200 + 1) * (42 * (256 ^ 64 ⌈/⌉ CurveId.secp256k1.order)) <
      2 ^ 200 * (43 * (256 ^ 64 / CurveId.secp256k1.order)) := by
    rw [Nat.ceilDiv_eq_add_pred_div]
    decide
  calc _ ≤ (2 ^ 200 + 1) * (42 * (256 ^ 64 ⌈/⌉ CurveId.secp256k1.order)) :=
        Nat.mul_le_mul_left _ (hhigh ▸ (Nat.card_filter_mod_mod_bounds _ _ (by decide)).2)
    _ < 2 ^ 200 * (43 * (256 ^ 64 / CurveId.secp256k1.order)) := hlt
    _ ≤ _ := Nat.mul_le_mul_left _ (hlow ▸ (Nat.card_filter_mod_mod_bounds _ _ (by decide)).1)

/-- The output hash is below the order of the subgroup, and the numbers of digests that lead to any two challenges are
within a factor of `1 + 2 ^ -200`. -/
structure HashesInRange (C : Curve) : Prop where
  output : ∀ (hs : Hashes) (point : C.Point) (n : ℕ), (hashFromCurve hs C point : Outcome Error ℕ) = .ok n → n < C.id.order
  challenge : ∀ (hs : Hashes) (inputPoint pubkey outputPoint rPub rIn : C.Point) (s s' : C.FieldEl),
    2 ^ 200 * challengeDigests hs C inputPoint pubkey outputPoint rPub rIn s ≤
      (2 ^ 200 + 1) * challengeDigests hs C inputPoint pubkey outputPoint rPub rIn s'

/-- The hashes are in range exactly for the curve whose order they are reduced by. -/
theorem hashes_in_range_iff (C : Curve) (hG : ∃ b, C.encode C.basePointOrGenerator = some b) :
    HashesInRange C ↔ C.id = .secp256k1 := by
  constructor
  · rintro ⟨-, huniform⟩
    cases hid : C.id with
    | secp256k1 => rfl
    | babyJubJub =>
      -- all six points are the generator, which has an encoding
      have henc : ∀ pt ∈ List.replicate 6 C.basePointOrGenerator, ∃ b, C.encode pt = some b := by simpa using hG
      have hlast : ((C.id.order - 1 : ℕ) : C.FieldEl).val = C.id.order - 1 :=
        ZMod.val_natCast_of_lt (Nat.sub_one_lt (NeZero.ne _))
      have hle := huniform (byteHashes .babyJubJub) C.basePointOrGenerator C.basePointOrGenerator C.basePointOrGenerator
        C.basePointOrGenerator C.basePointOrGenerator 0 ((C.id.order - 1 : ℕ) : C.FieldEl)
      rw [challengeDigests_eq henc, challengeDigests_eq henc, ZMod.val_zero, hlast, hid] at hle
      exact absurd hle babyJubJub_digests.not_ge
  · intro hid
    constructor
    · intro hs point n h
      simp only [hashFromCurve, bind_eq_ok, unwrap_eq_ok, pure_eq_ok, Except.ok.injEq] at h
      obtain ⟨encoded, -, rfl⟩ := h
      have hmodulus : Bytes.ofBe C.id.fieldModulusBe = C.id.order := by
        rw [hid]
        decide
      rw [hmodulus]
      exact Nat.mod_lt _ (NeZero.pos _)
    · intro hs inputPoint pubkey outputPoint rPub rIn s s'
      by_cases henc : ∀ pt ∈ [C.basePointOrGenerator, inputPoint, pubkey, outputPoint, rPub, rIn],
          ∃ b, C.encode pt = some b
      · rw [challengeDigests_eq henc, challengeDigests_eq henc]
        have hs := ZMod.val_lt s
        have hs' := ZMod.val_lt s'
        generalize s.val = j at *
        generalize s'.val = j' at *
        rw [hid] at hs hs' ⊢
        exact secp256k1_digests hs hs'
      · rw [challengeDigests_eq_zero henc, challengeDigests_eq_zero henc]
        exact Nat.zero_le _

theorem hashes_in_range_secp256k1 : HashesInRange (scalarCurve .secp256k1) :=
  (hashes_in_range_iff (scalarCurve .secp256k1) ⟨_, rfl⟩).2 rfl

/-- For BabyJubJub the digest that is the order is an output, and zero is a challenge for too many digests. -/
theorem hashes_out_of_range_babyJubJub :
    let C := scalarCurve .babyJubJub
    let digest : Fin 64 → UInt8 := fun i => (Bytes.toBe 64 CurveId.babyJubJub.order).getD i 0
    (hashFromCurve ((byteHashes .babyJubJub).withDigest digest) C C.basePointOrGenerator : Outcome Error ℕ) =
        .ok CurveId.babyJubJub.order ∧
      (2 ^ 200 + 1) * challengeDigests (byteHashes .babyJubJub) C C.basePointOrGenerator C.basePointOrGenerator
          C.basePointOrGenerator C.basePointOrGenerator C.basePointOrGenerator
          ((CurveId.babyJubJub.order - 1 : ℕ) : CurveId.Scalar .babyJubJub) <
        2 ^ 200 * challengeDigests (byteHashes .babyJubJub) C C.basePointOrGenerator C.basePointOrGenerator
          C.basePointOrGenerator C.basePointOrGenerator C.basePointOrGenerator (0 : CurveId.Scalar .babyJubJub) := by
  intro C digest
  have henc : ∀ pt ∈ List.replicate 6 C.basePointOrGenerator, ∃ b, C.encode pt = some b := fun _ _ => ⟨_, rfl⟩
  have hlast : ((CurveId.babyJubJub.order - 1 : ℕ) : CurveId.Scalar .babyJubJub).val = CurveId.babyJubJub.order - 1 :=
    ZMod.val_natCast_of_lt (Nat.sub_one_lt (NeZero.ne _))
  refine ⟨by decide +kernel, ?_⟩
  rw [challengeDigests_eq henc, challengeDigests_eq henc, ZMod.val_zero, hlast]
  exact babyJubJub_digests

end HumanNetwork
