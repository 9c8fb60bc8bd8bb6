import HumanNetwork.ElGamal
import HumanNetwork.Persistence
import HumanNetwork.Serialization
import HumanNetwork.ServerSafety

/-!
# Answers of a prover (`process_request`)

A prover answers a forwarded request on a channel that belongs to it: it refuses the request, or multiplies the point with
its share. `handleRequest` is the macro that does so for a curve. Three of its branches have no answer: a share that is no
scalar is passed over in silence, a share that is missing is an `expect`, and the libraries under it panic at some points.
The drawing before it panics when the map of the provers runs out.
-/

namespace HumanNetwork
open Outcome

/-! ### Proofs in a response -/

/-- The fields of a proof in `serde_json`. -/
structure ProofJson where
  inputPoint : String
  pubkey : String
  outputPoint : String
  rPub : String
  rIn : String
  challenge : String
  response : String

namespace DLEQProof
variable {C : Curve}

def toJson (proof : DLEQProof C) : Outcome String ProofJson := do
  let inputPoint ← unwrap (C.encode proof.inputPoint) unwrapNone
  let pubkey ← unwrap (C.encode proof.pubkey) unwrapNone
  let outputPoint ← unwrap (C.encode proof.outputPoint) unwrapNone
  let rPub ← unwrap (C.encode proof.rPub) unwrapNone
  let rIn ← unwrap (C.encode proof.rIn) unwrapNone
  return ⟨hexEncode inputPoint, hexEncode pubkey, hexEncode outputPoint, hexEncode rPub, hexEncode rIn,
    hexEncode (C.id.toBytes proof.challenge), hexEncode (C.id.toBytes proof.response)⟩

variable (C) in
def fromJson (json : ProofJson) : Outcome String (DLEQProof C) := do
  let inputPoint ← pointHex C json.inputPoint
  let pubkey ← pointHex C json.pubkey
  let outputPoint ← pointHex C json.outputPoint
  let rPub ← pointHex C json.rPub
  let rIn ← pointHex C json.rIn
  let challenge ← scalarHex C.id json.challenge
  let response ← scalarHex C.id json.response
  return { inputPoint, pubkey, outputPoint, rPub, rIn, challenge, response }

/-- Every point that has an encoding is read back from it. -/
def ReadsBack (C : Curve) : Prop := ∀ p b, C.encode p = some b → C.fromEncoded b = .ok p

theorem pointHex_hexEncode (hC : ReadsBack C) {p : C.Point} {b : Bytes} (hb : C.encode p = some b) :
    pointHex C (hexEncode b) = .ok p := by
  rw [pointHex, Hex.decode_hexEncode]
  show mapErr _ (C.fromEncoded b) = .ok p
  rw [hC p b hb]
  rfl

theorem scalarHex_hexEncode (c : CurveId) (s : c.Scalar) : scalarHex c (hexEncode (c.toBytes s)) = .ok s := by
  rw [scalarHex, Hex.decode_hexEncode]
  show mapErr _ (c.fromBytes (c.toBytes s)) = .ok s
  rw [CurveId.fromBytes_toBytes]
  rfl

theorem fromJson_toJson (hC : ReadsBack C) {proof : DLEQProof C}
    (h : ∀ p ∈ [proof.inputPoint, proof.pubkey, proof.outputPoint, proof.rPub, proof.rIn], ∃ b, C.encode p = some b) :
    (proof.toJson >>= fromJson C) = .ok proof := by
  simp only [List.forall_mem_cons, List.not_mem_nil, false_imp_iff, implies_true, and_true] at h
  obtain ⟨⟨b₁, h₁⟩, ⟨b₂, h₂⟩, ⟨b₃, h₃⟩, ⟨b₄, h₄⟩, b₅, h₅⟩ := h
  simp only [toJson, h₁, h₂, h₃, h₄, h₅, unwrap, bind_ok, pure_eq_ok, fromJson, pointHex_hexEncode hC h₁,
    pointHex_hexEncode hC h₂, pointHex_hexEncode hC h₃, pointHex_hexEncode hC h₄, pointHex_hexEncode hC h₅,
    scalarHex_hexEncode]

variable {hs : Hashes} {draw : C.id.RandSpace} {p : C.Point} {x : C.FieldEl} {proof : DLEQProof C}

theorem encodings_of_new (h : new hs draw p x = .ok proof) :
    ∀ q ∈ [proof.inputPoint, proof.pubkey, proof.outputPoint, proof.rPub, proof.rIn], ∃ b, C.encode q = some b := by
  have hencodings := exists_new_iff.1 ⟨proof, h⟩
  simp only [new, bind_eq_ok, pure_eq_ok, Except.ok.injEq] at h
  obtain ⟨challenge, -, rfl⟩ := h
  exact fun q hq => hencodings q (List.mem_cons_of_mem _ hq)

end DLEQProof

/-! ### The handler -/

inductive ProverResponse (lib : BabyJubJub.SquareRoots) where
  | constructedProofSecp256k1 (nodeIdx : ℕ) (peerId : PeerId) (requestId : String) (method : Method)
      (proof : DLEQProof secp256k1)
  | constructedProofBabyJubJub (nodeIdx : ℕ) (peerId : PeerId) (requestId : String) (method : Method)
      (proof : DLEQProof (babyJubJub lib))
  | error (requestId message : String)

def Method.shareNotFound : Method → String
  | oprfSecp256k1 => "Secp256k1 key share not found"
  | oprfBabyJubJub => "BabyJubJub key share not found"
  | jwtprfSecp256k1 => "JWTPRF key share not found"
  | decryptBabyJubJub => "Decryption key share not found"

section Handler
variable (hs : Hashes) (lib : BabyJubJub.SquareRoots)

/-- The proof is written and read again to get to its type. -/
def ProverResponse.newConstructedProof {C : Curve} (nodeIdx : ℕ) (peerId : PeerId) (requestId : String)
    (proof : DLEQProof C) (method : Method) : Outcome String (ProverResponse lib) := do
  let json ← proof.toJson
  match C.id with
  | .secp256k1 =>
    let proof ← DLEQProof.fromJson secp256k1 json
    return .constructedProofSecp256k1 nodeIdx peerId requestId method proof
  | .babyJubJub =>
    let proof ← DLEQProof.fromJson (babyJubJub lib) json
    return .constructedProofBabyJubJub nodeIdx peerId requestId method proof

/-- The responses that the macro `handle_request` sends. The messages name secp256k1 on both curves. -/
def handleRequest (C : Curve) (draw : C.id.RandSpace) (keyshare : Bytes) (requestId : String) (request : RequestToNetwork)
    (myNodeIdx : ℕ) (peerId : PeerId) : Outcome Empty (List (ProverResponse lib)) :=
  match C.id.fromBytes keyshare with
  | .ok partialShare =>
    match C.fromEncoded request.point with
    | .ok maskedPoint =>
      match DLEQProof.new hs draw maskedPoint partialShare with
      | .ok proof => do
        let response ← unwrapOk id (ProverResponse.newConstructedProof lib myNodeIdx peerId requestId proof request.method)
        return [response]
      | .error (.error e) =>
        return [.error requestId ("Error constructing DLEQ proof for Secp256k1. Error: " ++ e.debug)]
      | .error (.panic msg) => crash msg
    | .error (.error e) =>
      return [.error requestId ("Error decoding masked point for Secp256k1. Error: " ++ e.debug)]
    | .error (.panic msg) => crash msg
  | .error (.error _) => return []
  | .error (.panic msg) => crash msg

def processRequest (prof : Profile) (rng : ChaCha8Rng) (draw : ∀ c : CurveId, c.RandSpace) (peerId : PeerId)
    (state : KeyedProver) (requestId : String) (request : RequestToNetwork) :
    Outcome Empty (List (ProverResponse lib)) := do
  match ← state.prover.checkRequest prof rng request with
  | some message => return [.error requestId message]
  | none =>
    let keyshare ← unwrap (state.privateKeyshares.get? request.method.keyName) request.method.shareNotFound
    match request.method.curve with
    | .secp256k1 =>
      handleRequest hs lib secp256k1 (draw .secp256k1) keyshare requestId request state.prover.myNodeIdx peerId
    | .babyJubJub =>
      handleRequest hs lib (babyJubJub lib) (draw .babyJubJub) keyshare requestId request state.prover.myNodeIdx peerId

end Handler

/-! ### The drawing -/

namespace Prover
variable {prof : Profile} {rng : ChaCha8Rng} {self : Prover} {request : RequestToNetwork}

end Prover

/-! ### One response -/

section Response
variable {hs : Hashes} {lib : BabyJubJub.SquareRoots} {C : Curve} {draw : C.id.RandSpace} {keyshare : Bytes}
  {requestId : String} {request : RequestToNetwork} {myNodeIdx : ℕ} {peerId : PeerId}

theorem secp256k1_readsBack : DLEQProof.ReadsBack secp256k1 := by
  intro p b hb
  obtain rfl := Option.some.inj hb
  exact Secp256k1.fromEncoded_encode p

theorem babyJubJub_readsBack : DLEQProof.ReadsBack (babyJubJub lib) := fun _ _ => babyJubJub_fromEncoded_encode

theorem exists_json_of_new (hreads : DLEQProof.ReadsBack C) {p : C.Point} {x : C.FieldEl} {proof : DLEQProof C}
    (h : DLEQProof.new hs draw p x = .ok proof) : ∃ json, proof.toJson = .ok json ∧ DLEQProof.fromJson C json = .ok proof :=
  bind_eq_ok.1 (DLEQProof.fromJson_toJson hreads (DLEQProof.encodings_of_new h))

end Response

theorem processRequest_of_share {hs : Hashes} {lib : BabyJubJub.SquareRoots} {prof : Profile} {rng : ChaCha8Rng}
    {draw : ∀ c : CurveId, c.RandSpace} {peerId : PeerId} {state : KeyedProver} {requestId : String}
    {request : RequestToNetwork} {keyshare : Bytes} (hcheck : state.prover.checkRequest prof rng request = .ok none)
    (hshare : state.privateKeyshares.get? request.method.keyName = some keyshare) :
    processRequest hs lib prof rng draw peerId state requestId request =
      match request.method.curve with
      | .secp256k1 =>
        handleRequest hs lib secp256k1 (draw .secp256k1) keyshare requestId request state.prover.myNodeIdx peerId
      | .babyJubJub =>
        handleRequest hs lib (babyJubJub lib) (draw .babyJubJub) keyshare requestId request state.prover.myNodeIdx peerId := by
  rw [processRequest, hcheck, bind_ok]
  dsimp only
  rw [hshare]
  rfl

noncomputable def answer (state : KeyedProver) (request : RequestToNetwork) : Outcome Empty (List (ProverResponse .chosen)) :=
  processRequest (byteHashes .secp256k1) .chosen .release (fun _ _ => 0)
    (fun | .secp256k1 => (1 : CurveId.Scalar .secp256k1) | .babyJubJub => BabyJubJub.undrawn) "a" state "request" request

end HumanNetwork
