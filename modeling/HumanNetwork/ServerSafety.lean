import HumanNetwork.CanonicalPoints

/-!
# Multiplying with a key share (`lib.rs`)

`server` multiplies any point that `from_encoded` accepts, and `DLEQProof` hashes the encodings of all points of a proof.
On secp256k1 every accepted point is in the group of the scalars and every point has an encoding. On BabyJubJub neither
holds: the cofactor is 8, and `encode` panics at the identity.

The proofs of BabyJubJub are modelled with the limbs that their points and scalars are read with. On points in reduced
form they are the proofs of `Oprf.lean` (`BabyJubJub.new_ofPoint`).
-/

namespace HumanNetwork
open Outcome

variable (hs : Hashes)

namespace BabyJubJub

/-! ### Proofs with limbs -/

variable (lib : SquareRoots)

def challengeHash (inputPoint pubkey outputPoint rPub rIn : CurveAffine) : Outcome Error Fr := do
  let encoded ← [basePointOrGenerator, inputPoint, pubkey, outputPoint, rPub, rIn].mapM fun pt => encode lib pt.1
  let digest := hs.hash512 encoded.flatten
  let digestModn := Bytes.ofBe digest % Bytes.ofBe (CurveId.fieldModulusBe .babyJubJub)
  return .ofValue digestModn

structure DLEQProof where
  inputPoint : CurveAffine
  pubkey : CurveAffine
  outputPoint : CurveAffine
  rPub : CurveAffine
  rIn : CurveAffine
  challenge : Fr
  response : Fr

namespace DLEQProof

def new (draw : CurveId.RandSpace .babyJubJub) (inputPoint : CurveAffine) (secretKey : Fr) :
    Outcome Error DLEQProof := do
  let r : Fr := .ofValue (CurveId.randVartime .babyJubJub draw)
  let pubkey := scalarMul basePointOrGenerator secretKey
  let outputPoint := scalarMul inputPoint secretKey
  let rPub := scalarMul basePointOrGenerator r
  let rIn := scalarMul inputPoint r
  let challenge ← challengeHash hs lib inputPoint pubkey outputPoint rPub rIn
  let response := .ofValue (r.value - challenge.value * secretKey.value)
  pure { inputPoint, pubkey, outputPoint, rPub, rIn, challenge, response }

def shouldBeRA (self : DLEQProof) : CurveAffine :=
  addSelf (scalarMul basePointOrGenerator self.response) (scalarMul self.pubkey self.challenge)

def shouldBeRB (self : DLEQProof) : CurveAffine :=
  addSelf (scalarMul self.inputPoint self.response) (scalarMul self.outputPoint self.challenge)

def verifyAndGetOutput (self : DLEQProof) (pubkey pointToMultiply : CurveAffine) : Outcome Error CurveAffine := do
  let shouldBeChallenge ←
    challengeHash hs lib pointToMultiply self.pubkey self.outputPoint self.shouldBeRA self.shouldBeRB
  if shouldBeChallenge = self.challenge ∧ self.inputPoint = pointToMultiply ∧ self.pubkey = pubkey then
    pure self.outputPoint
  else fail .invalidDLEQProof

end DLEQProof

def server (draw : CurveId.RandSpace .babyJubJub) (serverSecret : Fr) (oprfClientMasked : Bytes) :
    Outcome Error DLEQProof := do
  let asPt ← fromEncoded lib oprfClientMasked
  DLEQProof.new hs lib draw asPt serverSecret

/-! ### What is hashed -/

variable {hs lib} {p : CurveAffine} {P : Point}

end BabyJubJub

/-! ### secp256k1 -/

namespace Secp256k1

variable {hs}

theorem encode_isSome (p : secp256k1.Point) : (secp256k1.encode p).isSome := rfl

end Secp256k1

namespace BabyJubJub

variable {hs} {lib : SquareRoots}

def drawn (n : Fin (2 ^ 32)) : CurveId.RandSpace .babyJubJub := n

end BabyJubJub

end HumanNetwork
