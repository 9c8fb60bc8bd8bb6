import HumanNetwork.Jwt
import HumanNetwork.RelayIntegrity

/-!
# Credits of a user (`network_utils.rs`, `encryption.rs`, `schnorrsig.rs`)

How many requests a user has paid for, `Method.getUserCredits`, depends on the method. A decryption needs
access conditions signed with the ephemeral key of the ciphertext, and the point of the request has to be that
key. A PRF of a web login needs a token and a proof that the point was masked with the mask in the token; here
the output of the proof is not looked at, and the point of the request is not read.

The chain, the web and Redis answer from outside (`Chain`, `Web`, `RedisGet`).
-/

namespace HumanNetwork
open Outcome

/-- `?` into an `anyhow::Error`. -/
def anyhow {α : Type} (r : Outcome Error α) : Outcome String α := mapErr Error.display r

/-! ### Signed conditions of a ciphertext -/

section Conditions
variable {C : Curve}

variable (C) in
structure SchnorrSig where
  R : C.Point
  s : C.FieldEl

def SchnorrSig.verify (hs : Hashes) (msg : Bytes) (pubkey : C.Point) (sig : SchnorrSig C) : Outcome Error Unit := do
  let encodedNonce ← unwrap (C.encode sig.R) unwrapNone
  let encodedKey ← unwrap (C.encode pubkey) unwrapNone
  let preimg := encodedNonce ++ encodedKey ++ msg
  let h ← C.id.fromBiguintVartime (Bytes.ofBe (hs.hash512 preimg) % Bytes.ofBe C.id.fieldModulusBe)
  let lhs := C.scalarMul C.basePointOrGenerator sig.s
  let rhs := C.addSelf (C.scalarMul pubkey h) sig.R
  ensure (lhs = rhs) .invalidSignature

variable (C) in
structure ElGamalCiphertext where
  encryptedMsg : C.Point
  ephemeralDhPubkey : C.Point

variable (C) in
structure DecryptionContractSignature where
  contract : Address
  sig : SchnorrSig C

variable (C) in
structure ElGamalCiphertextWithSignedConditions where
  ciphertext : ElGamalCiphertext C
  signedConditions : DecryptionContractSignature C

def ElGamalCiphertextWithSignedConditions.getContractAndPubkeyIfValid (hs : Hashes)
    (self : ElGamalCiphertextWithSignedConditions C) : Outcome Error (Address × C.Point) := do
  self.signedConditions.sig.verify hs self.signedConditions.contract self.ciphertext.ephemeralDhPubkey
  return (self.signedConditions.contract, self.ciphertext.ephemeralDhPubkey)

end Conditions

/-! ### Masked points -/

/-- `MaskProof::verify_and_get_output`. -/
def DLEQProof.verifyMask {C : Curve} (hs : Hashes) (maskProof : DLEQProof C) (publicMask : C.Point)
    (uniqueStr : String) : Outcome Error C.Point := do
  let hashed ← hashToCurve hs C (asBytes uniqueStr)
  maskProof.verifyAndGetOutput hs publicMask hashed

structure FrontendData (C : Curve) where
  jwt : String
  keyIdx : ℕ
  maskProof : DLEQProof C

/-! ### Credits -/

structure AccountEnv extends RelayEnv where
  jwtLib : JwtLib
  serialize : RequestToNetwork → Outcome String Bytes
  deserializeConditions : Bytes → Outcome String (ElGamalCiphertextWithSignedConditions (curve .babyJubJub))
  deserializeFrontendData : Bytes → Outcome String (FrontendData (curve .secp256k1))
  hexDecode : String → Outcome String Bytes
  keccak256 : Bytes → Bytes

structure Chain where
  creditsFor : Address → Outcome String ℕ
  canDecrypt : (contract decryptor : Address) → (c1Hash : Bytes) → Outcome String Bool

def standardCredits (chain : Chain) (user : Address) : Outcome String ℕ := do
  let balance ← mapErr ("Failed to get user's credits: " ++ ·) (chain.creditsFor user)
  check (balance < 2 ^ 128) "Integer overflow when casting to u128"
  return balance

namespace Method
variable (env : AccountEnv) (chain : Chain) (web : Web) (conn : RedisGet)

def decryptCredits (user : Address) (point : Bytes) (extraData : Option Bytes) : Outcome String ℕ := do
  let credits ← standardCredits chain user
  let extraData ← okOr extraData "No extra data provided for DecryptBabyJubJub method"
  let data ← env.deserializeConditions extraData
  let (contract, pubkey) ← anyhow (data.getContractAndPubkeyIfValid env.hs)
  let point ← anyhow ((env.curve .babyJubJub).fromEncoded point)
  ensure (point = pubkey) "Point provided does not match the public key in the signature"
  let c1 := data.ciphertext.ephemeralDhPubkey
  let c1Hash := env.keccak256 (← unwrap ((env.curve .babyJubJub).encode c1) unwrapNone)
  let canDecrypt ← mapErr ("Failed to get user's credits: " ++ ·) (chain.canDecrypt contract user c1Hash)
  return if canDecrypt then credits else 0

/-- The token is tried with the cached keys first, and then with the fetched ones. -/
def verifyJwtRetrying (fd : FrontendData (env.curve .secp256k1)) : Outcome String (String × String) :=
  match verifyJwt env.jwtLib web fd.jwt fd.keyIdx (some conn) with
  | .error (.error _) => verifyJwt env.jwtLib web fd.jwt fd.keyIdx none
  | result => result

def jwtPrfCredits (user : Address) (extraData : Option Bytes) : Outcome String ℕ := do
  let credits ← standardCredits chain user
  let rawData ← okOr extraData "No extra data provided for JWTPRFSecp256k1 method"
  let fd ← env.deserializeFrontendData rawData
  let (uniqueStr, publicMask) ← verifyJwtRetrying env web conn fd
  let publicMask ← anyhow ((env.curve .secp256k1).fromEncoded (← env.hexDecode publicMask))
  let _ ← anyhow (fd.maskProof.verifyMask env.hs publicMask uniqueStr)
  return credits

def getUserCredits (method : Method) (user : Address) (point : Bytes) (extraData : Option Bytes) : Outcome String ℕ :=
  match method with
  | oprfSecp256k1 | oprfBabyJubJub => standardCredits chain user
  | decryptBabyJubJub => decryptCredits env chain user point extraData
  | jwtprfSecp256k1 => jwtPrfCredits env chain web conn user extraData

variable {env chain web conn} {user : Address} {point : Bytes} {extraData : Option Bytes} {credits balance : ℕ}

/-- A request that has credits on one chain has any number of them on another. -/
theorem exists_getUserCredits_eq {method : Method}
    (h : method.getUserCredits env chain web conn user point extraData = .ok credits) (hbalance : balance < 2 ^ 128) :
    ∃ chain', method.getUserCredits env chain' web conn user point extraData = .ok balance := by
  refine ⟨⟨fun _ => .ok balance, fun _ _ _ => .ok true⟩, ?_⟩
  have hstandard : standardCredits ⟨fun _ => .ok balance, fun _ _ _ => .ok true⟩ user = .ok balance := by
    simp only [standardCredits, mapErr, bind_ok, check_of hbalance, pure_eq_ok]
  cases method with
  | oprfSecp256k1 => exact hstandard
  | oprfBabyJubJub => exact hstandard
  | decryptBabyJubJub =>
    obtain ⟨_, -, h⟩ := bind_eq_ok.1 h
    obtain ⟨_, hextra, h⟩ := bind_eq_ok.1 h
    obtain ⟨_, hdata, h⟩ := bind_eq_ok.1 h
    obtain ⟨_, hvalid, h⟩ := bind_eq_ok.1 h
    obtain ⟨_, hpoint, h⟩ := bind_eq_ok.1 h
    obtain ⟨_, hsame, h⟩ := bind_eq_ok.1 h
    obtain ⟨_, hencoded, -⟩ := bind_eq_ok.1 h
    simp only [getUserCredits, decryptCredits, hstandard, hextra, hdata, hvalid, hpoint, hsame, hencoded, bind_ok, mapErr]
    rfl
  | jwtprfSecp256k1 =>
    obtain ⟨_, -, h⟩ := bind_eq_ok.1 h
    simp only [getUserCredits, jwtPrfCredits, hstandard, bind_ok]
    simp only [bind_eq_ok] at h ⊢
    obtain ⟨data, hdata, fd, hfd, result, hresult, mask, hmask, point, hpoint, out, hout, -⟩ := h
    exact ⟨data, hdata, fd, hfd, result, hresult, mask, hmask, point, hpoint, out, hout, rfl⟩

end Method

/-! ### What a web login has proven -/

section Mask
variable {env : AccountEnv} {chain : Chain} {web : Web} {conn : RedisGet} {user : Address} {extraData : Option Bytes}

theorem anyhow_eq_ok {α : Type} {r : Outcome Error α} {a : α} : anyhow r = .ok a ↔ r = .ok a := mapErr_eq_ok

theorem verifyJwtRetrying_of_ok {fd : FrontendData (env.curve .secp256k1)} {result : String × String}
    (h : verifyJwt env.jwtLib web fd.jwt fd.keyIdx (some conn) = .ok result) :
    Method.verifyJwtRetrying env web conn fd = .ok result := by
  unfold Method.verifyJwtRetrying
  rw [h]

/-- What stands behind the credits of a web login: the data sent along, the string and the mask of its token,
and the point that the string hashes to. -/
structure MaskProven (env : AccountEnv) (web : Web) (conn : RedisGet) (extraData : Option Bytes)
    (fd : FrontendData (env.curve .secp256k1)) (uniqueStr : String)
    (mask hashed : (env.curve .secp256k1).Point) : Prop where
  data : ∃ rawData, extraData = some rawData ∧ env.deserializeFrontendData rawData = .ok fd
  token : ∃ publicMask maskBytes, Method.verifyJwtRetrying env web conn fd = .ok (uniqueStr, publicMask) ∧
    env.hexDecode publicMask = .ok maskBytes ∧ (env.curve .secp256k1).fromEncoded maskBytes = .ok mask
  hash : hashToCurve env.hs (env.curve .secp256k1) (asBytes uniqueStr) = .ok hashed
  proof : fd.maskProof.verifyAndGetOutput env.hs mask hashed = .ok fd.maskProof.outputPoint

theorem jwtPrfCredits_eq_ok {credits : ℕ} : Method.jwtPrfCredits env chain web conn user extraData = .ok credits ↔
    standardCredits chain user = .ok credits ∧
      ∃ fd uniqueStr mask hashed, MaskProven env web conn extraData fd uniqueStr mask hashed := by
  simp only [Method.jwtPrfCredits, DLEQProof.verifyMask, bind_eq_ok, okOr_eq_ok, anyhow_eq_ok, pure_eq_ok,
    Except.ok.injEq]
  constructor
  · rintro ⟨_, hcredits, rawData, hraw, fd, hfd, ⟨uniqueStr, publicMask⟩, htoken, maskBytes, hhex, mask, hmask, out,
      ⟨hashed, hhash, hproof⟩, rfl⟩
    obtain ⟨-, -, rfl⟩ := DLEQProof.verifyAndGetOutput_eq_ok hproof
    exact ⟨hcredits, fd, uniqueStr, mask, hashed, ⟨rawData, hraw, hfd⟩, ⟨publicMask, maskBytes, htoken, hhex, hmask⟩,
      hhash, hproof⟩
  · rintro ⟨hcredits, fd, uniqueStr, mask, hashed, ⟨rawData, hraw, hfd⟩, ⟨publicMask, maskBytes, htoken, hhex, hmask⟩,
      hhash, hproof⟩
    exact ⟨credits, hcredits, rawData, hraw, fd, hfd, (uniqueStr, publicMask), htoken, maskBytes, hhex, mask, hmask, _,
      ⟨hashed, hhash, hproof⟩, rfl⟩

def MaskedInput (C : Curve) (mask hashed : C.Point) (point : Bytes) : Prop :=
  ∃ r : C.FieldEl, C.scalarMul C.basePointOrGenerator r = mask ∧ C.encode (C.scalarMul hashed r) = some point

theorem maskedInput_iff {C : Curve} [C.PrimeOrder] {hs : Hashes} {proof : DLEQProof C} {mask hashed : C.Point}
    (hsound : proof.Sound hs) (hproof : proof.verifyAndGetOutput hs mask hashed = .ok proof.outputPoint)
    (point : Bytes) : MaskedInput C mask hashed point ↔ C.encode proof.outputPoint = some point := by
  constructor
  · rintro ⟨r, rfl, henc⟩
    rw [hsound r hashed _ hproof, henc]
  · intro henc
    obtain ⟨r, rfl⟩ := Curve.PrimeOrder.exists_scalarMul mask
    exact ⟨r, rfl, by rw [← hsound r hashed _ hproof, henc]⟩

end Mask

end HumanNetwork
