import HumanNetwork.Accounting

/-!
# Task proofs (`task_proofs.rs`)

A task is a list of requests, each with the proofs of the provers that have served it. `TaskProof.verify` checks every
proof that is there, against the key and the point that stand next to it. Neither the point of the request nor the
number of requests or of proofs is looked at, and `task_proof_means_iff` says what has to be added.
-/

namespace HumanNetwork
open Outcome

/-- After how many requests a task is submitted. -/
def TASK_SIZE : ℕ := 1000

structure TaskProof where
  data : List RequestToNetworkWithProofs

/-! ### Hex digits -/

def hexValue (c : Char) : Option ℕ :=
  if '0' ≤ c ∧ c ≤ '9' then some (c.toNat - '0'.toNat)
  else if 'a' ≤ c ∧ c ≤ 'f' then some (c.toNat - 'a'.toNat + 10)
  else if 'A' ≤ c ∧ c ≤ 'F' then some (c.toNat - 'A'.toNat + 10)
  else none

def hexPairs : List Char → Option Bytes
  | [] => some []
  | [_] => none
  | a :: b :: chars => do
    let high ← hexValue a
    let low ← hexValue b
    let bytes ← hexPairs chars
    some (UInt8.ofNat (16 * high + low) :: bytes)

/-- `hex::decode` of `alloy`, which takes a string with `0x` in front, too. -/
def hexDecode (s : String) : Option Bytes :=
  match s.toList with
  | '0' :: 'x' :: chars => hexPairs chars
  | chars => hexPairs chars

theorem hexValue_digitChar {d : ℕ} (h : d < 16) : hexValue (Nat.digitChar d) = some d := by
  interval_cases d <;> rfl

theorem hexPairs_cons (b : UInt8) (chars : List Char) :
    hexPairs (Nat.digitChar (b.toNat / 16) :: Nat.digitChar (b.toNat % 16) :: chars) =
      (hexPairs chars).map fun bytes => b :: bytes := by
  have hhigh : b.toNat / 16 < 16 := Nat.div_lt_of_lt_mul b.toNat_lt
  have hlow : b.toNat % 16 < 16 := Nat.mod_lt _ (by norm_num)
  rw [hexPairs, hexValue_digitChar hhigh, hexValue_digitChar hlow]
  cases hexPairs chars with
  | none => rfl
  | some bytes =>
    show some (UInt8.ofNat (16 * (b.toNat / 16) + b.toNat % 16) :: bytes) = _
    rw [Nat.div_add_mod, UInt8.ofNat_toNat]
    rfl

theorem hexDecode_hexEncode (bytes : Bytes) : hexDecode (hexEncode bytes) = some bytes := by
  have hpairs : ∀ bytes : Bytes, hexPairs (bytes.flatMap fun b =>
      [Nat.digitChar (b.toNat / 16), Nat.digitChar (b.toNat % 16)]) = some bytes := by
    intro bytes
    induction bytes with
    | nil => rfl
    | cons b bytes ih =>
      rw [List.flatMap_cons, List.cons_append, List.cons_append, List.nil_append, hexPairs_cons, ih]
      rfl
  rw [hexDecode, hexEncode, String.toList_ofList]
  split
  next chars h =>
    -- the second digit is no `x`
    cases bytes with
    | nil => cases h
    | cons b bytes =>
      have hlow : b.toNat % 16 < 16 := Nat.mod_lt _ (by norm_num)
      have hx := (List.cons.inj (List.cons.inj h).2).1
      have hvalue := hexValue_digitChar hlow
      rw [hx] at hvalue
      cases hvalue
  next => exact hpairs bytes

/-! ### The verifier -/

/-- The verifier also reads proofs with `serde_json`. -/
structure TaskEnv extends RelayEnv where
  deserializeProof : ∀ c, Bytes → Option (DLEQProof (curve c))

section verify
variable (env : TaskEnv)

def verifyProofs (c : CurveId) (proofs : List (String × String × String × String)) : Outcome String Unit :=
  proofs.forM fun (dleqProofHex, pubKeyShareHex, maskedPointHex, _) => do
    let proofBytes ← okOr (hexDecode dleqProofHex) "Failed to decode DLEQ proof"
    let deserializedProof ← okOr (env.deserializeProof c proofBytes) "Failed to deserialize DLEQ proof"
    let pubKeyShareBytes ← okOr (hexDecode pubKeyShareHex) "Failed to decode pub key share"
    let pubKeyShare ← mapErr (fun _ => "Failed to decode pub key share point")
      ((env.curve c).fromEncoded pubKeyShareBytes)
    let maskedPointBytes ← okOr (hexDecode maskedPointHex) "Failed to decode masked point"
    let maskedPoint ← mapErr (fun _ => "Failed to decode masked point") ((env.curve c).fromEncoded maskedPointBytes)
    let _ ← anyhow (deserializedProof.verifyAndGetOutput env.hs pubKeyShare maskedPoint)
    return ()

def TaskProof.verify (self : TaskProof) : Outcome String Unit :=
  self.data.forM fun request =>
    let method := request.base.method.asStr
    if method = "OPRFSecp256k1" ∨ method = "JWTPRFSecp256k1" then verifyProofs env .secp256k1 request.proofs
    else if method = "OPRFBabyJubJub" ∨ method = "DecryptBabyJubJub" then verifyProofs env .babyJubJub request.proofs
    else fail "Invalid method"

end verify

/-! ### What is verified -/

variable {env : TaskEnv}

/-- An entry of a request has a proof for the point, and for the key that stands next to it. -/
structure ProofEntry (env : TaskEnv) (c : CurveId) (entry : String × String × String × String)
    (proof : DLEQProof (env.curve c)) (K P : (env.curve c).Point) : Prop where
  read : ∃ bytes, hexDecode entry.1 = some bytes ∧ env.deserializeProof c bytes = some proof
  key : ∃ bytes, hexDecode entry.2.1 = some bytes ∧ (env.curve c).fromEncoded bytes = .ok K
  point : ∃ bytes, hexDecode entry.2.2.1 = some bytes ∧ (env.curve c).fromEncoded bytes = .ok P
  verifies : ∃ out, proof.verifyAndGetOutput env.hs K P = .ok out

theorem verifyProofs_eq_ok {c : CurveId} {proofs : List (String × String × String × String)} :
    verifyProofs env c proofs = .ok () ↔ ∀ entry ∈ proofs, ∃ proof K P, ProofEntry env c entry proof K P := by
  rw [verifyProofs, forM_eq_ok]
  refine forall₂_congr fun entry _ => ?_
  simp only [anyhow, bind_eq_ok, okOr_eq_ok, mapErr_eq_ok, pure_eq_ok, and_true]
  constructor
  · rintro ⟨bytes, hbytes, proof, hproof, keyBytes, hkeyBytes, K, hK, pointBytes, hpointBytes, P, hP, out, hout⟩
    exact ⟨proof, K, P, ⟨bytes, hbytes, hproof⟩, ⟨keyBytes, hkeyBytes, hK⟩, ⟨pointBytes, hpointBytes, hP⟩, out, hout⟩
  · rintro ⟨proof, K, P, ⟨bytes, hbytes, hproof⟩, ⟨keyBytes, hkeyBytes, hK⟩, ⟨pointBytes, hpointBytes, hP⟩, out, hout⟩
    exact ⟨bytes, hbytes, proof, hproof, keyBytes, hkeyBytes, K, hK, pointBytes, hpointBytes, P, hP, out, hout⟩

theorem TaskProof.verify_eq_ok {task : TaskProof} : task.verify env = .ok () ↔
    ∀ request ∈ task.data, ∀ entry ∈ request.proofs, ∃ proof K P,
      ProofEntry env request.base.method.curve entry proof K P := by
  rw [verify, forM_eq_ok]
  refine forall₂_congr fun request _ => ?_
  rw [← verifyProofs_eq_ok]
  cases request.base.method <;> exact Iff.rfl

def RequestToNetwork.PointIs (env : TaskEnv) (r : RequestToNetwork) (P : (env.curve r.method.curve).Point) : Prop :=
  (env.curve r.method.curve).fromEncoded r.point = .ok P

/-- What a task proof is to say: there are enough requests, and each has been served, with proofs for its own point. -/
structure TaskProof.Means (env : TaskEnv) (task : TaskProof) : Prop where
  size : TASK_SIZE ≤ task.data.length
  served : ∀ request ∈ task.data, request.proofs ≠ []
  own : ∀ request ∈ task.data, ∀ entry ∈ request.proofs, ∃ proof K P,
    ProofEntry env request.base.method.curve entry proof K P ∧ request.base.PointIs env proof.inputPoint

/-- A task that is verified says what it is to say exactly if it has enough requests, none of them without a proof,
and the points next to the proofs are those of the requests. -/
theorem task_proof_means_iff {task : TaskProof} (h : task.verify env = .ok ()) :
    task.Means env ↔ TASK_SIZE ≤ task.data.length ∧ ∀ request ∈ task.data, request.proofs ≠ [] ∧
      ∀ entry ∈ request.proofs, ∃ bytes P, hexDecode entry.2.2.1 = some bytes ∧
        (env.curve request.base.method.curve).fromEncoded bytes = .ok P ∧ request.base.PointIs env P := by
  rw [TaskProof.verify_eq_ok] at h
  constructor
  · rintro ⟨hsize, hserved, hown⟩
    refine ⟨hsize, fun request hrequest => ⟨hserved request hrequest, fun entry hentry => ?_⟩⟩
    obtain ⟨proof, K, P, hproof, hpoint⟩ := hown request hrequest entry hentry
    obtain ⟨out, hout⟩ := hproof.verifies
    obtain ⟨hinput, -, -⟩ := DLEQProof.verifyAndGetOutput_eq_ok hout
    obtain ⟨bytes, hbytes, hP⟩ := hproof.point
    rw [hinput] at hpoint
    exact ⟨bytes, P, hbytes, hP, hpoint⟩
  · rintro ⟨hsize, hrequests⟩
    refine ⟨hsize, fun request hrequest => (hrequests request hrequest).1, fun request hrequest entry hentry => ?_⟩
    obtain ⟨proof, K, P, hproof⟩ := h request hrequest entry hentry
    obtain ⟨out, hout⟩ := hproof.verifies
    obtain ⟨hinput, -, -⟩ := DLEQProof.verifyAndGetOutput_eq_ok hout
    obtain ⟨bytes, hbytes, hP⟩ := hproof.point
    obtain ⟨bytes', P', hbytes', hP', hpoint⟩ := (hrequests request hrequest).2 entry hentry
    obtain rfl := Option.some.inj (hbytes.symm.trans hbytes')
    obtain rfl := Except.ok.inj (hP.symm.trans hP')
    exact ⟨proof, K, P, hproof, by rwa [hinput]⟩

def scalarTasks : TaskEnv := { scalarRelay with
  deserializeProof := fun c bytes => if bytes = [] then some (zeroProof c 1) else none }

/-- The answer 1 of the prover with the share 1 to the point 1. -/
def oneEntry : String × String × String × String :=
  (hexEncode [], hexEncode (scalarBytes .secp256k1 1), hexEncode (scalarBytes .secp256k1 1), "prover1")

theorem oneEntry_proofEntry : ProofEntry scalarTasks .secp256k1 oneEntry (zeroProof .secp256k1 1)
    (1 : CurveId.Scalar .secp256k1) (1 : CurveId.Scalar .secp256k1) where
  read := ⟨[], hexDecode_hexEncode [], rfl⟩
  key := ⟨_, hexDecode_hexEncode _, scalarCurve_fromEncoded_bytes .secp256k1 1⟩
  point := ⟨_, hexDecode_hexEncode _, scalarCurve_fromEncoded_bytes .secp256k1 1⟩
  verifies := ⟨_, verify_zeroProof .secp256k1 1⟩

def fullTask (request : RequestToNetworkWithProofs) : TaskProof := ⟨List.replicate TASK_SIZE request⟩

theorem mem_fullTask {request r : RequestToNetworkWithProofs} : r ∈ (fullTask request).data ↔ r = request :=
  List.mem_replicate.trans (and_iff_right (by decide))

theorem verify_fullTask (point : Bytes) {proofs : List (String × String × String × String)}
    (h : ∀ entry ∈ proofs, entry = oneEntry) :
    (fullTask ⟨{ lineRequest with point := point }, proofs⟩).verify scalarTasks = .ok () := by
  rw [TaskProof.verify_eq_ok]
  intro request hrequest entry hentry
  obtain rfl := mem_fullTask.1 hrequest
  obtain rfl := h entry hentry
  exact ⟨_, _, _, oneEntry_proofEntry⟩

theorem task_proof_means_oneEntry : (fullTask ⟨lineRequest, [oneEntry]⟩).verify scalarTasks = .ok () ∧
    (fullTask ⟨lineRequest, [oneEntry]⟩).Means scalarTasks := by
  have hverify : (fullTask ⟨lineRequest, [oneEntry]⟩).verify scalarTasks = .ok () :=
    verify_fullTask _ fun entry hentry => List.mem_singleton.1 hentry
  refine ⟨hverify, (task_proof_means_iff hverify).2 ⟨(List.length_replicate ..).ge, fun request hrequest => ?_⟩⟩
  obtain rfl := mem_fullTask.1 hrequest
  refine ⟨List.cons_ne_nil _ _, fun entry hentry => ?_⟩
  obtain rfl := List.mem_singleton.1 hentry
  obtain ⟨bytes, hbytes, hP⟩ := oneEntry_proofEntry.point
  exact ⟨bytes, _, hbytes, hP, scalarCurve_fromEncoded_bytes .secp256k1 1⟩

/-- Verified are: a task without requests, a full one without proofs, and a full one whose proofs are for the
point 1 while the requests are for 2. -/
theorem task_proofs_without_meaning :
    ((TaskProof.mk []).verify scalarTasks = .ok () ∧ ¬ (TaskProof.mk []).Means scalarTasks) ∧
    ((fullTask ⟨lineRequest, []⟩).verify scalarTasks = .ok () ∧
      ¬ (fullTask ⟨lineRequest, []⟩).Means scalarTasks) ∧
    (fullTask ⟨{ lineRequest with point := scalarBytes .secp256k1 (2 : ℕ) }, [oneEntry]⟩).verify scalarTasks = .ok () ∧
      ¬ (fullTask ⟨{ lineRequest with point := scalarBytes .secp256k1 (2 : ℕ) }, [oneEntry]⟩).Means scalarTasks := by
  refine ⟨⟨rfl, fun h => absurd h.size (by decide)⟩, ⟨verify_fullTask lineRequest.point nofun, fun h => ?_⟩,
    verify_fullTask _ fun entry hentry => List.mem_singleton.1 hentry, fun h => ?_⟩
  · exact h.served _ (mem_fullTask.2 rfl) rfl
  · obtain ⟨proof, K, P, hproof, hpoint⟩ := h.own _ (mem_fullTask.2 rfl) oneEntry (List.mem_singleton_self _)
    obtain ⟨bytes, hbytes, hread⟩ := hproof.read
    obtain rfl := Option.some.inj ((hexDecode_hexEncode []).symm.trans hbytes)
    obtain rfl := Option.some.inj hread
    have htwo := (scalarCurve_fromEncoded_bytes .secp256k1 (2 : ℕ)).symm.trans hpoint
    have hne : ((2 : ℕ) : CurveId.Scalar .secp256k1) ≠ (1 : CurveId.Scalar .secp256k1) := by decide
    exact hne (Except.ok.inj htwo)

end HumanNetwork
