import HumanNetwork.Polynomial

/-!
# The oblivious PRF and its proofs (`lib.rs`, `curve.rs`, `zkinjmask.rs`)

A client hashes its input to a point, masks the point with a random scalar, and sends it. A server
multiplies it by its secret and proves with a `DLEQProof` that it used the secret of its public key.
The client checks the proof, takes the mask off and hashes the point. The hash functions are
parameters, and a random source is the element it returns.

`DLEQProof.verify_new` is completeness of the proofs: what `DLEQProof.new` makes, `verifyAndGetOutput`
accepts, and returns the product.
-/

namespace HumanNetwork
open Outcome

/-- The hash functions: Blake2b, Sha3, and Argon2 of a password and a salt. -/
structure Hashes where
  hash512 : Bytes → Bytes
  hash256 : Bytes → Bytes
  argon2 : Bytes → Bytes → Option Bytes
  length_hash512 : ∀ m, (hash512 m).length = 64
  length_hash256 : ∀ m, (hash256 m).length = 32

variable (hs : Hashes) (C : Curve)

/-! ### Hashing to and from the curve -/

/-- `SECP256K1_P` and `BABYJUBJUB_P`. -/
def coordinateModulus : CurveId → Bytes
  | .secp256k1 =>
    [0xFF, 0xFF, 0xFF, 0xFF, 0xFF, 0xFF, 0xFF, 0xFF, 0xFF, 0xFF, 0xFF, 0xFF, 0xFF, 0xFF, 0xFF, 0xFF,
     0xFF, 0xFF, 0xFF, 0xFF, 0xFF, 0xFF, 0xFF, 0xFF, 0xFF, 0xFF, 0xFF, 0xFE, 0xFF, 0xFF, 0xFC, 0x2F]
  | .babyJubJub =>
    [0x30, 0x64, 0x4E, 0x72, 0xE1, 0x31, 0xA0, 0x29, 0xB8, 0x50, 0x45, 0xB6, 0x81, 0x81, 0x58, 0x5D,
     0x28, 0x33, 0xE8, 0x48, 0x79, 0xB9, 0x70, 0x91, 0x43, 0xE1, 0xF5, 0x93, 0xF0, 0x00, 0x00, 0x01]

/-- Which of the two points a bit of the hash picks: the curves read it in opposite ways. -/
def greatestOfBit : CurveId → UInt8 → Bool
  | .secp256k1, bit => bit = 1
  | .babyJubJub, bit => bit = 0

/-- The encoding tried in round `acc` of `hash_to_curve`, the coordinate padded to 32 bytes. -/
def hashCandidate (c : CurveId) (msg : Bytes) (acc : ℕ) : Outcome Error Bytes := do
  let concatted := Bytes.toBe 2 acc ++ msg
  let digest := hs.hash512 concatted
  let first ← okOr (hs.hash256 concatted).head? Error.invalidInput
  let deterministicRandomBit := first % 2
  let xcoord := Bytes.ofBe digest % Bytes.ofBe (coordinateModulus c)
  pure (c.compressed (greatestOfBit c deterministicRandomBit) (Bytes.toBe 32 xcoord))

def hashToCurveFrom (msg : Bytes) : List ℕ → Outcome Error C.Point
  | [] => fail .extremelyRareErrorInputUnhashableToCurve
  | acc :: accs => do
    let candidate ← hashCandidate hs C.id msg acc
    match C.fromEncoded candidate with
    | .ok pt =>
      if C.isOnCurve pt && C.isInSubgroupAssumingOnCurve pt then pure pt else hashToCurveFrom msg accs
    | .error (.error _) => hashToCurveFrom msg accs
    | .error (.panic msg) => crash msg

def hashToCurve (msg : Bytes) : Outcome Error C.Point := hashToCurveFrom hs C msg (List.range 1024)

def hashFromCurve {ε : Type} (point : C.Point) : Outcome ε ℕ := do
  let encoded ← unwrap (C.encode point) unwrapNone
  pure (Bytes.ofBe (hs.hash512 encoded) % Bytes.ofBe C.id.fieldModulusBe)

/-! ### Discrete logarithm equality -/

def challengeHash (inputPoint pubkey outputPoint rPub rIn : C.Point) : Outcome Error C.FieldEl := do
  let encoded ← [C.basePointOrGenerator, inputPoint, pubkey, outputPoint, rPub, rIn].mapM fun pt =>
    unwrap (C.encode pt) unwrapNone
  let digest := hs.hash512 encoded.flatten
  let digestModn := Bytes.ofBe digest % Bytes.ofBe C.id.fieldModulusBe
  C.id.fromBiguintVartime digestModn

structure DLEQProof where
  inputPoint : C.Point
  pubkey : C.Point
  outputPoint : C.Point
  rPub : C.Point
  rIn : C.Point
  challenge : C.FieldEl
  response : C.FieldEl

variable {C}

namespace DLEQProof

def new (draw : C.id.RandSpace) (inputPoint : C.Point) (secretKey : C.FieldEl) : Outcome Error (DLEQProof C) := do
  let r := C.id.randVartime draw
  let pubkey := C.scalarMul C.basePointOrGenerator secretKey
  let outputPoint := C.scalarMul inputPoint secretKey
  let rPub := C.scalarMul C.basePointOrGenerator r
  let rIn := C.scalarMul inputPoint r
  let challenge ← challengeHash hs C inputPoint pubkey outputPoint rPub rIn
  let response := r - challenge * secretKey
  pure { inputPoint, pubkey, outputPoint, rPub, rIn, challenge, response }

def verifyAndGetOutput (self : DLEQProof C) (pubkey pointToMultiply : C.Point) : Outcome Error C.Point := do
  let shouldBeRA := C.addSelf (C.scalarMul C.basePointOrGenerator self.response)
    (C.scalarMul self.pubkey self.challenge)
  let shouldBeRB := C.addSelf (C.scalarMul self.inputPoint self.response)
    (C.scalarMul self.outputPoint self.challenge)
  let shouldBeChallenge ← challengeHash hs C pointToMultiply self.pubkey self.outputPoint shouldBeRA shouldBeRB
  if shouldBeChallenge = self.challenge ∧ self.inputPoint = pointToMultiply ∧ self.pubkey = pubkey then
    pure self.outputPoint
  else fail .invalidDLEQProof

/-- The commitments that `verify_and_get_output` recomputes. -/
def shouldBeRA (self : DLEQProof C) : C.Point :=
  C.addSelf (C.scalarMul C.basePointOrGenerator self.response) (C.scalarMul self.pubkey self.challenge)

def shouldBeRB (self : DLEQProof C) : C.Point :=
  C.addSelf (C.scalarMul self.inputPoint self.response) (C.scalarMul self.outputPoint self.challenge)

theorem verifyAndGetOutput_eq (self : DLEQProof C) (pubkey pointToMultiply : C.Point) :
    self.verifyAndGetOutput hs pubkey pointToMultiply =
      challengeHash hs C pointToMultiply self.pubkey self.outputPoint self.shouldBeRA self.shouldBeRB >>= fun c =>
        if c = self.challenge ∧ self.inputPoint = pointToMultiply ∧ self.pubkey = pubkey then pure self.outputPoint
        else fail .invalidDLEQProof := rfl

end DLEQProof

theorem challengeHash_ok (henc : ∀ p, (C.encode p).isSome) (inputPoint pubkey outputPoint rPub rIn : C.Point) :
    ∃ m, challengeHash hs C inputPoint pubkey outputPoint rPub rIn =
      .ok ((Bytes.ofBe (hs.hash512 m) % Bytes.ofBe C.id.fieldModulusBe : ℕ) : C.FieldEl) := by
  choose enc henc using fun p => Option.isSome_iff_exists.1 (henc p)
  have hmapM : ∀ l : List C.Point, (l.mapM fun pt => unwrap (C.encode pt) unwrapNone : Outcome Error _) =
      .ok (l.map enc) := fun l => mapM_eq_ok_map fun p _ => by rw [henc]; rfl
  rw [challengeHash, hmapM, bind_ok]
  exact ⟨_, rfl⟩

namespace DLEQProof
variable {hs} {draw : C.id.RandSpace} {inputPoint : C.Point} {secretKey : C.FieldEl} {proof : DLEQProof C}

theorem new_eq_ok (h : new hs draw inputPoint secretKey = .ok proof) :
    challengeHash hs C inputPoint (C.scalarMul C.basePointOrGenerator secretKey) (C.scalarMul inputPoint secretKey)
        (C.scalarMul C.basePointOrGenerator (C.id.randVartime draw))
        (C.scalarMul inputPoint (C.id.randVartime draw)) = .ok proof.challenge ∧
      proof.inputPoint = inputPoint ∧ proof.pubkey = C.scalarMul C.basePointOrGenerator secretKey ∧
      proof.outputPoint = C.scalarMul inputPoint secretKey ∧
      proof.response = C.id.randVartime draw - proof.challenge * secretKey := by
  simp only [new, bind_eq_ok, pure_eq_ok, Except.ok.injEq] at h
  obtain ⟨challenge, hchallenge, rfl⟩ := h
  exact ⟨hchallenge, rfl, rfl, rfl, rfl⟩

theorem exists_new_iff : (∃ proof, new hs draw inputPoint secretKey = .ok proof) ↔
    ∀ pt ∈ [C.basePointOrGenerator, inputPoint, C.scalarMul C.basePointOrGenerator secretKey,
      C.scalarMul inputPoint secretKey, C.scalarMul C.basePointOrGenerator (C.id.randVartime draw),
      C.scalarMul inputPoint (C.id.randVartime draw)], ∃ b, C.encode pt = some b := by
  have hmapM : ∀ l : List C.Point, (∃ bs, (l.mapM fun pt => unwrap (C.encode pt) unwrapNone : Outcome Error _) = .ok bs) ↔
      ∀ pt ∈ l, ∃ b, C.encode pt = some b := by
    intro l
    rw [exists_mapM_eq_ok]
    simp only [unwrap_eq_ok]
  rw [← hmapM]
  simp only [new, challengeHash, CurveId.fromBiguintVartime, bind_eq_ok, pure_eq_ok, Except.ok.injEq]
  constructor
  · rintro ⟨proof, challenge, ⟨bs, hbs, -⟩, -⟩
    exact ⟨bs, hbs⟩
  · rintro ⟨bs, hbs⟩
    exact ⟨_, _, ⟨bs, hbs, rfl⟩, rfl⟩

variable (hs draw inputPoint secretKey) in
theorem exists_new (henc : ∀ p, (C.encode p).isSome) : ∃ proof, new hs draw inputPoint secretKey = .ok proof :=
  exists_new_iff.2 fun pt _ => Option.isSome_iff_exists.1 (henc pt)

theorem verify_new [C.PrimeSubgroup] (hp : C.id.order • inputPoint = 0)
    (h : new hs draw inputPoint secretKey = .ok proof) :
    proof.verifyAndGetOutput hs (C.scalarMul C.basePointOrGenerator secretKey) inputPoint =
      .ok (C.scalarMul inputPoint secretKey) := by
  obtain ⟨hchallenge, hinput, hpubkey, houtput, hresponse⟩ := new_eq_ok h
  have hRA : proof.shouldBeRA = C.scalarMul C.basePointOrGenerator (C.id.randVartime draw) := by
    rw [shouldBeRA, C.addSelf_eq, hpubkey, hresponse,
      Curve.scalarMul_sub_add Curve.PrimeSubgroup.order_nsmul_generator]
  have hRB : proof.shouldBeRB = C.scalarMul inputPoint (C.id.randVartime draw) := by
    rw [shouldBeRB, C.addSelf_eq, hinput, houtput, hresponse, Curve.scalarMul_sub_add hp]
  rw [verifyAndGetOutput_eq, hRA, hRB, hpubkey, houtput, hchallenge, bind_ok, if_pos ⟨rfl, hinput, rfl⟩, pure_eq_ok]

theorem verifyAndGetOutput_eq_ok {pubkey pointToMultiply out : C.Point}
    (h : proof.verifyAndGetOutput hs pubkey pointToMultiply = .ok out) :
    proof.inputPoint = pointToMultiply ∧ proof.pubkey = pubkey ∧ proof.outputPoint = out := by
  rw [verifyAndGetOutput_eq, bind_eq_ok] at h
  obtain ⟨challenge, -, h⟩ := h
  split at h
  next hchecks => exact ⟨hchecks.2.1, hchecks.2.2, Except.ok.inj h⟩
  next => cases h

/-! ### Two proofs with the same commitments -/

def extract (self other : DLEQProof C) : C.FieldEl :=
  (self.response - other.response) * (other.challenge - self.challenge)⁻¹

/-- Two answers to one commitment give the logarithm of the point that the challenges multiply. -/
theorem eq_smul_extract [C.PrimeOrder] {self other : DLEQProof C} {base point : C.Point}
    (hne : self.challenge ≠ other.challenge)
    (h : C.addSelf (C.scalarMul base self.response) (C.scalarMul point self.challenge) =
      C.addSelf (C.scalarMul base other.response) (C.scalarMul point other.challenge)) :
    point = C.scalarMul base (self.extract other) := by
  have hsub : other.challenge - self.challenge ≠ 0 := sub_ne_zero.2 hne.symm
  simp only [C.addSelf_eq, C.scalarMul_eq_smul] at h ⊢
  have hdiff : (other.challenge - self.challenge) • point = (self.response - other.response) • base := by
    rw [sub_smul, sub_smul, sub_eq_sub_iff_add_eq_add, h, add_comm]
  calc point = (other.challenge - self.challenge)⁻¹ • (other.challenge - self.challenge) • point :=
        (inv_smul_smul₀ hsub point).symm
    _ = self.extract other • base := by rw [hdiff, smul_smul, extract, mul_comm]

end DLEQProof

/-- Completeness and special soundness of the proofs. What `DLEQProof.new` makes is accepted for its own key
and point, whatever the hash functions are. Two proofs that `verify_and_get_output` leads to the same
commitments, under whatever hash functions each was accepted, share a single secret. -/
theorem dleq_complete_and_specially_sound [C.PrimeOrder] :
    (∀ (hs : Hashes) (draw : C.id.RandSpace) (inputPoint : C.Point) (secretKey : C.FieldEl),
      ((∃ proof, DLEQProof.new hs draw inputPoint secretKey = .ok proof) ↔
        ∀ pt ∈ [C.basePointOrGenerator, inputPoint, C.scalarMul C.basePointOrGenerator secretKey,
          C.scalarMul inputPoint secretKey, C.scalarMul C.basePointOrGenerator (C.id.randVartime draw),
          C.scalarMul inputPoint (C.id.randVartime draw)], ∃ b, C.encode pt = some b) ∧
      ∀ proof, DLEQProof.new hs draw inputPoint secretKey = .ok proof →
        proof.verifyAndGetOutput hs (C.scalarMul C.basePointOrGenerator secretKey) inputPoint =
          .ok (C.scalarMul inputPoint secretKey)) ∧
    ∀ proof proof' : DLEQProof C, proof.inputPoint = proof'.inputPoint → proof.pubkey = proof'.pubkey →
      proof.outputPoint = proof'.outputPoint → proof.shouldBeRA = proof'.shouldBeRA →
      proof.shouldBeRB = proof'.shouldBeRB → proof.challenge ≠ proof'.challenge →
      ∃! x : C.FieldEl, proof.pubkey = C.scalarMul C.basePointOrGenerator x ∧
        proof.outputPoint = C.scalarMul proof.inputPoint x := by
  refine ⟨fun hs draw inputPoint secretKey => ⟨DLEQProof.exists_new_iff, fun proof h => ?_⟩, ?_⟩
  · exact DLEQProof.verify_new (Curve.PrimeOrder.order_nsmul _) h
  · intro proof proof' hinput hpubkey houtput hRA hRB hne
    rw [DLEQProof.shouldBeRA, DLEQProof.shouldBeRA, ← hpubkey] at hRA
    rw [DLEQProof.shouldBeRB, DLEQProof.shouldBeRB, ← hinput, ← houtput] at hRB
    have hA := DLEQProof.eq_smul_extract hne hRA
    refine ⟨proof.extract proof', ⟨hA, DLEQProof.eq_smul_extract hne hRB⟩, ?_⟩
    rintro x ⟨hx, -⟩
    rw [hA, C.scalarMul_eq_smul, C.scalarMul_eq_smul] at hx
    exact (C.smul_generator_inj.1 hx).symm

def fiveProof (c : ℕ) : DLEQProof (scalarCurve .secp256k1) :=
  let scalar (n : ℕ) : CurveId.Scalar .secp256k1 := n
  { inputPoint := scalar 7, pubkey := scalar 5, outputPoint := scalar 35, rPub := scalar 30, rIn := scalar 210
    challenge := scalar c, response := scalar (30 - c * 5) }

theorem dleq_specially_sound_fiveProof : ∃! x : (scalarCurve .secp256k1).FieldEl,
    (fiveProof 1).pubkey = (scalarCurve .secp256k1).scalarMul (scalarCurve .secp256k1).basePointOrGenerator x ∧
      (fiveProof 1).outputPoint = (scalarCurve .secp256k1).scalarMul (fiveProof 1).inputPoint x :=
  dleq_complete_and_specially_sound.2 (fiveProof 1) (fiveProof 2) rfl rfl rfl rfl rfl fun h => by
    have h' := (CurveId.secp256k1.natCast_inj (i := 1) (j := 2) (by decide) (by decide)).1 h
    omega

/-! ### Client and server -/

def localKdf (username password : Bytes) : Outcome Error Bytes :=
  let salt := (hs.hash256 username).take 16
  okOr (hs.argon2 password salt) .invalidInput

def hashedInput (C : Curve) (username password : Bytes) : Outcome Error C.Point := do
  let localKdfResult ← localKdf hs username password
  hashToCurve hs C localKdfResult

def oprfClient1 (C : Curve) (username password : Bytes) (draw : C.id.RandSpace) :
    Outcome Error (Bytes × C.FieldEl) := do
  let localKdfResult ← localKdf hs username password
  let secretMask := C.id.randVartime draw
  let hashed2curve ← hashToCurve hs C localKdfResult
  let masked := C.scalarMul hashed2curve secretMask
  let encoded ← unwrap (C.encode masked) unwrapNone
  pure (encoded, secretMask)

variable {hs} in
theorem oprfClient1_eq {username password : Bytes} {H : C.Point}
    (h : hashedInput hs C username password = .ok H) (draw : C.id.RandSpace) :
    oprfClient1 hs C username password draw =
      unwrap (C.encode (C.scalarMul H (C.id.randVartime draw))) unwrapNone >>= fun encoded =>
        pure (encoded, C.id.randVartime draw) := by
  simp only [hashedInput, bind_eq_ok] at h
  obtain ⟨localKdfResult, hkdf, hhash⟩ := h
  simp only [oprfClient1, hkdf, hhash, bind_ok]

/-- `BigUint::to_str_radix(16)`. -/
def toStrRadix16 (n : ℕ) : String := String.ofList (Nat.toDigits 16 n)

def oprfClient2 (myMaskedPoint : C.Point) (myMask : C.FieldEl) (serverPubkey : C.Point)
    (serverResponse : DLEQProof C) : Outcome Error String := do
  let serverOutput ← serverResponse.verifyAndGetOutput hs serverPubkey myMaskedPoint
  match ← C.id.mulInv myMask with
  | none => fail .invalidInput
  | some inverted =>
    let hashed ← hashFromCurve hs C (C.scalarMul serverOutput inverted)
    pure (toStrRadix16 hashed)

def server (draw : C.id.RandSpace) (serverSecret : C.FieldEl) (oprfClientMasked : Bytes) :
    Outcome Error (DLEQProof C) := do
  let asPt ← C.fromEncoded oprfClientMasked
  DLEQProof.new hs draw asPt serverSecret

/-- The code has this for secp256k1 only. -/
def invertMaskAndObtainPrf (secretMask : C.FieldEl) (networkOutput : C.Point) : Outcome String Bytes := do
  match ← C.id.mulInv secretMask with
  | none => fail "Could not invert mask"
  | some inv =>
    let unmasked := C.scalarMul networkOutput inv
    let hashed ← hashFromCurve hs C unmasked
    pure (Bytes.toBeMin hashed)

/-! ### Hash functions with known points -/

def byteHashes (c : CurveId) : Hashes where
  hash512 m := Bytes.toBe 64 (m.getLastD 0).toNat
  hash256 _ := (if greatestOfBit c 0 then 1 else 0) :: List.replicate 31 0
  argon2 password _ := some password
  length_hash512 _ := Bytes.length_toBe _ _
  length_hash256 _ := rfl

theorem hashToCurve_byteHashes (c : CurveId) {msg : Bytes} {b : UInt8} (hlast : msg.getLast? = some b) :
    hashToCurve (byteHashes c) (scalarCurve c) msg = .ok (b.toNat : c.Scalar) := by
  have hb : b.toNat < 256 := b.toNat_lt
  have hmod : ∀ c : CurveId, 256 ≤ Bytes.ofBe (coordinateModulus c) := by rintro ⟨⟩ <;> decide
  have hdigest : (byteHashes c).hash512 (Bytes.toBe 2 0 ++ msg) = Bytes.toBe 64 b.toNat := by
    simp [byteHashes, List.getLast?_append, hlast]
  have hcandidate : hashCandidate (byteHashes c) c msg 0 = .ok (c.compressed false (Bytes.toBe 32 b.toNat)) := by
    have hcoord : Bytes.ofBe (Bytes.toBe 64 b.toNat) % Bytes.ofBe (coordinateModulus c) = b.toNat := by
      rw [Bytes.ofBe_toBe (hb.trans (by norm_num)), Nat.mod_eq_of_lt (hb.trans_le (hmod c))]
    have hgreatest : greatestOfBit c ((if greatestOfBit c 0 then 1 else 0) % 2) = false := by cases c <;> decide
    show Except.ok (c.compressed (greatestOfBit c _)
      (Bytes.toBe 32 (Bytes.ofBe ((byteHashes c).hash512 (Bytes.toBe 2 0 ++ msg)) % _))) = _
    rw [hdigest, hcoord, hgreatest]
  have hof : Bytes.ofBe (Bytes.toBe 32 b.toNat) = b.toNat := Bytes.ofBe_toBe (hb.trans (by norm_num))
  have hdecode : (scalarCurve c).fromEncoded (c.compressed false (Bytes.toBe 32 b.toNat)) = .ok (b.toNat : c.Scalar) := by
    rw [scalarCurve_fromEncoded (by rw [Bytes.length_toBe]; decide)]
    · rw [hof]
    · rw [hof]
      exact hb.trans (lt_trans (by norm_num) c.pow_lt_order)
  have hrange : List.range 1024 = 0 :: (List.range 1023).map Nat.succ := List.range_succ_eq_map
  rw [hashToCurve, hrange, hashToCurveFrom, hcandidate, bind_ok, hdecode]
  exact if_pos rfl

theorem hashedInput_byteHashes (c : CurveId) (username : Bytes) (b : UInt8) :
    hashedInput (byteHashes c) (scalarCurve c) username [b] = .ok (b.toNat : c.Scalar) := by
  have hkdf : localKdf (byteHashes c) username [b] = .ok [b] := rfl
  rw [hashedInput, hkdf, bind_ok, hashToCurve_byteHashes c (b := b) (by simp)]

end HumanNetwork
