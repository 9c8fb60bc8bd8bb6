import HumanNetwork.Oprf
import HumanNetwork.Secp256k1
import HumanNetwork.BabyJubJub
import HumanNetwork.Lib.Search

/-!
# Hashing to the curves (`curve.rs`)

`hash_to_curve` of either curve tries the counters below 1024. A round hashes the counter and the message, writes the
hash modulo the prime of the coordinates into an array of bytes, zeros in front, and decodes the array. The arrays are
written here as the code writes them, with every subtraction, slice and `unwrap` that could panic.

`hash_to_curve_search` says what the functions return. `Oprf.lean` hashes to an abstract curve, and this is what the code
does (`hashToCurve_secp256k1`, `hashToCurve_babyJubJub`).
-/

namespace HumanNetwork
open Outcome

variable (hs : Hashes)

/-! ### Arrays of bytes -/

/-- `dst[lo..hi].copy_from_slice(src)`. -/
def copyFromSlice {ε : Type} (dst : Bytes) (lo hi : ℕ) (src : Bytes) : Outcome ε Bytes := do
  check (lo ≤ hi ∧ hi ≤ dst.length) "slice index out of range"
  check (src.length = hi - lo) "source slice length does not match destination slice length"
  return dst.take lo ++ src ++ dst.drop hi

/-- Writes a coordinate into the last 32 bytes, with zeros in front if it is shorter. -/
def writeCoordinate (encodedPoint : Bytes) (start xcoord : ℕ) : Outcome Error Bytes := do
  let xcoordVec := Bytes.toBeMin xcoord
  check (xcoordVec.length ≤ 32) "attempt to subtract with overflow"
  let bytesUnder := 32 - xcoordVec.length
  let encodedPoint ← copyFromSlice encodedPoint start (start + bytesUnder) (List.replicate bytesUnder 0)
  copyFromSlice encodedPoint (start + bytesUnder) (start + 32) xcoordVec

theorem copyFromSlice_eq {ε : Type} {dst src : Bytes} {lo hi : ℕ} (hlo : lo ≤ hi) (hhi : hi ≤ dst.length)
    (hsrc : src.length = hi - lo) :
    (copyFromSlice dst lo hi src : Outcome ε Bytes) = .ok (dst.take lo ++ src ++ dst.drop hi) := by
  rw [copyFromSlice, check_of ⟨hlo, hhi⟩, bind_ok, check_of hsrc, bind_ok]
  rfl

theorem writeCoordinate_eq {encodedPoint : Bytes} {start xcoord : ℕ} (hlen : encodedPoint.length = start + 32)
    (hx : xcoord < 256 ^ 32) :
    writeCoordinate encodedPoint start xcoord = .ok (encodedPoint.take start ++ Bytes.toBe 32 xcoord) := by
  have hle : (Bytes.toBeMin xcoord).length ≤ 32 := Bytes.length_toBeMin_le (by decide) hx
  have htake : (encodedPoint.take start).length = start := by
    rw [List.length_take]
    omega
  rw [writeCoordinate, check_of hle, bind_ok, ← Bytes.replicate_append_toBeMin (by decide) hx]
  generalize Bytes.toBeMin xcoord = xcoordVec at hle
  obtain ⟨bytesUnder, hunder⟩ : ∃ n, 32 - xcoordVec.length = n := ⟨_, rfl⟩
  show copyFromSlice encodedPoint start (start + (32 - xcoordVec.length)) _ >>= _ = _
  rw [hunder, copyFromSlice_eq (by omega) (by omega) (by rw [List.length_replicate]; omega), bind_ok]
  have hfirst : (encodedPoint.take start ++ List.replicate bytesUnder 0).length = start + bytesUnder := by
    rw [List.length_append, htake, List.length_replicate]
  have hrest : (encodedPoint.drop (start + bytesUnder)).length = 32 - bytesUnder := by
    rw [List.length_drop]
    omega
  rw [copyFromSlice_eq (by omega) (by rw [List.length_append, hfirst, hrest]; omega) (by omega), List.take_left' hfirst,
    List.drop_eq_nil_of_le (by rw [List.length_append, hfirst, hrest]; omega), List.append_nil, List.append_assoc]

/-! ### Candidates -/

theorem ofBe_coordinateModulus (c : CurveId) : Bytes.ofBe (coordinateModulus c) = c.coordinatePrime := by
  cases c <;> decide +kernel

theorem bit_cases (byte : UInt8) : byte % 2 = 0 ∨ byte % 2 = 1 := by
  rw [← UInt8.toNat_inj, ← UInt8.toNat_inj, UInt8.toNat_mod]
  exact Nat.mod_two_eq_zero_or_one _

def digestNumber (msg : Bytes) (acc : ℕ) : ℕ := Bytes.ofBe (hs.hash512 (Bytes.toBe 2 acc ++ msg))

def candidate (c : CurveId) (msg : Bytes) (acc : ℕ) : Bytes :=
  c.compressed (greatestOfBit c ((hs.hash256 (Bytes.toBe 2 acc ++ msg)).headD 0 % 2))
    (Bytes.toBe 32 (digestNumber hs msg acc % c.coordinatePrime))

variable {hs} in
theorem head?_hash256 (m : Bytes) : (hs.hash256 m).head? = some ((hs.hash256 m).headD 0) := by
  have hlen := hs.length_hash256 m
  cases h : hs.hash256 m with
  | nil =>
    rw [h] at hlen
    cases hlen
  | cons b bs => rfl

theorem hashCandidate_eq (c : CurveId) (msg : Bytes) (acc : ℕ) :
    hashCandidate hs c msg acc = .ok (candidate hs c msg acc) := by
  rw [hashCandidate, head?_hash256, ofBe_coordinateModulus]
  rfl

theorem mod_coordinatePrime_lt (c : CurveId) (n : ℕ) : n % c.coordinatePrime < 256 ^ 32 :=
  (Nat.mod_lt _ c.coordinatePrime_prime.pos).trans c.coordinatePrime_lt_pow

/-! ### secp256k1 -/

namespace Secp256k1

def hashRound (msg : Bytes) (acc : ℕ) : Outcome Error (Option AffinePoint) := do
  let concatted := Bytes.toBe 2 acc ++ msg
  let digest := hs.hash512 concatted
  let first ← okOr (hs.hash256 concatted).head? Error.invalidInput
  let deterministicRandomBit := first % 2
  let xcoord := Bytes.ofBe digest % Bytes.ofBe (coordinateModulus .secp256k1)
  let encodedPoint ← writeCoordinate ((deterministicRandomBit + 2) :: List.replicate 32 0) 1 xcoord
  let encoded ← okOr (EncodedPoint.fromBytes encodedPoint) Error.unknownError
  return (fromEncodedPoint encoded).filter fun p => isOnCurve p && secp256k1.isInSubgroupAssumingOnCurve p

def hashToCurve (msg : Bytes) : Outcome Error AffinePoint :=
  search (hashRound hs msg) .extremelyRareErrorInputUnhashableToCurve 1024 0

/-- The candidate of a round decodes to the point, which is on the curve and in the subgroup. -/
structure HashesTo (msg : Bytes) (acc : ℕ) (p : AffinePoint) : Prop where
  fromEncoded_eq : fromEncoded (candidate hs .secp256k1 msg acc) = .ok p
  onCurve : isOnCurve p = true
  subgroup : order • p = 0

def roundPoint (msg : Bytes) (acc : ℕ) : Option AffinePoint :=
  decompress (Bytes.toBe 32 (digestNumber hs msg acc % prime)) ((hs.hash256 (Bytes.toBe 2 acc ++ msg)).headD 0 % 2 = 1)

theorem fromBytes_candidate {yIsOdd : Bool} {x : Bytes} (h : x.length + 1 = (Tag.compressed yIsOdd).messageLen) :
    EncodedPoint.fromBytes (CurveId.compressed .secp256k1 yIsOdd x) = some ⟨.compressed yIsOdd, x, h⟩ := by
  have hbytes : CurveId.compressed .secp256k1 yIsOdd x = (⟨.compressed yIsOdd, x, h⟩ : EncodedPoint).asBytes := by
    cases yIsOdd <;> rfl
  rw [hbytes, EncodedPoint.fromBytes_asBytes]

theorem length_candidate (yIsOdd : Bool) (n : ℕ) :
    (Bytes.toBe 32 n).length + 1 = (Tag.compressed yIsOdd).messageLen := by
  rw [Bytes.length_toBe]
  cases yIsOdd <;> rfl

theorem hashRound_eq (msg : Bytes) (acc : ℕ) : hashRound hs msg acc = .ok (roundPoint hs msg acc) := by
  have hfilter : ∀ o : Option AffinePoint,
      (o.filter fun p => isOnCurve p && secp256k1.isInSubgroupAssumingOnCurve p) = o := by
    intro o
    cases o with
    | none => rfl
    | some p => rw [Option.filter_some, isOnCurve_eq]; rfl
  have hbyte : ∀ (byte : UInt8) (x : Bytes), [byte % 2 + 2] ++ x = CurveId.compressed .secp256k1 (byte % 2 = 1) x := by
    intro byte x
    rcases bit_cases byte with h | h <;> rw [h] <;> rfl
  rw [hashRound, head?_hash256, ofBe_coordinateModulus]
  simp only [okOr, bind_ok]
  rw [writeCoordinate_eq rfl (mod_coordinatePrime_lt _ _), bind_ok]
  show okOr (EncodedPoint.fromBytes ([_ % 2 + 2] ++ _)) _ >>= _ = _
  rw [hbyte, fromBytes_candidate (length_candidate _ _)]
  show Except.ok (Option.filter _ (fromEncodedPoint ⟨.compressed _, _, _⟩)) = _
  rw [hfilter, fromEncodedPoint_compressed]
  rfl

theorem fromEncoded_candidate (msg : Bytes) (acc : ℕ) : fromEncoded (candidate hs .secp256k1 msg acc) =
    okOr (roundPoint hs msg acc) (Error.other "Failed to parse EncodedPoint as SEC1-encoded AffinePoint") := by
  rw [fromEncoded, candidate, fromBytes_candidate (length_candidate _ _)]
  show okOr (fromEncodedPoint ⟨.compressed _, _, _⟩) _ = _
  rw [fromEncodedPoint_compressed]
  rfl

variable {hs} {msg : Bytes} {acc : ℕ} {p : AffinePoint}

theorem roundPoint_eq_some : roundPoint hs msg acc = some p ↔ HashesTo hs msg acc p := by
  constructor
  · intro h
    exact ⟨by rw [fromEncoded_candidate, h]; rfl, isOnCurve_eq p, order_nsmul p⟩
  · intro h
    have hp := h.fromEncoded_eq
    rwa [fromEncoded_candidate, okOr_eq_ok] at hp

theorem HashesTo.exists_x (h : HashesTo hs msg acc p) :
    ∃ x y, ∃ hxy : curve.OnCurve x y, p = CubicCurve.point hxy ∧ x.val = digestNumber hs msg acc % prime := by
  obtain ⟨x, y, hxy, hx, -, rfl⟩ := decompress_eq_some.1 (roundPoint_eq_some.2 h)
  obtain ⟨hlt, rfl⟩ := fieldElement_eq_some.1 hx
  refine ⟨_, y, hxy, rfl, ?_⟩
  rw [ZMod.val_natCast_of_lt hlt, Bytes.ofBe_toBe (mod_coordinatePrime_lt _ _)]

theorem hashToCurve_findsFirst (hs : Hashes) (msg : Bytes) : FindsFirst (hashToCurve hs msg) 1024 (HashesTo hs msg) :=
  search_findsFirst (hashRound_eq hs msg) (fun _ _ => roundPoint_eq_some) 1024

end Secp256k1

/-! ### BabyJubJub -/

namespace BabyJubJub

variable (lib : SquareRoots)

def hashRound (msg : Bytes) (acc : ℕ) : Outcome Error (Option CurveAffine) := do
  let concatted := Bytes.toBe 2 acc ++ msg
  let digest := hs.hash512 concatted
  let first ← okOr (hs.hash256 concatted).head? Error.invalidInput
  let deterministicRandomBit : Bool := first % 2 = 0
  let xcoord := Bytes.ofBe digest % Bytes.ofBe (coordinateModulus .babyJubJub)
  let encodedPoint ← writeCoordinate (List.replicate 32 0) 0 xcoord
  let encodedAndFormatted := EncodedBabyJubJubPoint.serialize ⟨deterministicRandomBit, encodedPoint⟩
  let result ← toOption (fromEncoded lib encodedAndFormatted)
  return result.filter fun pt => pt.1.OnCurve && isInSubgroup pt.toPoint

def hashToCurve (msg : Bytes) : Outcome Error CurveAffine :=
  search (hashRound hs lib msg) .extremelyRareErrorInputUnhashableToCurve 1024 0

structure HashesTo (msg : Bytes) (acc : ℕ) (p : CurveAffine) : Prop where
  fromEncoded_eq : fromEncoded lib (candidate hs .babyJubJub msg acc) = .ok p
  onCurve : p.1.OnCurve
  subgroup : order • p.toPoint = 0

def roundPoint (msg : Bytes) (acc : ℕ) : Option CurveAffine :=
  (fromEncoded lib (candidate hs .babyJubJub msg acc)).result?.filter fun pt => isInSubgroup pt.toPoint

theorem deserialize_candidate (msg : Bytes) (acc : ℕ) :
    EncodedBabyJubJubPoint.deserialize (candidate hs .babyJubJub msg acc) =
      .ok ⟨(hs.hash256 (Bytes.toBe 2 acc ++ msg)).headD 0 % 2 = 0, Bytes.toBe 32 (digestNumber hs msg acc % prime)⟩ := by
  rw [EncodedBabyJubJubPoint.deserialize_eq_ok]
  refine ⟨?_, [], (List.append_nil _).symm⟩
  show (Bytes.toBe 32 _).length < _
  rw [Bytes.length_toBe]
  decide

theorem fromEncoded_candidate_noPanic (msg : Bytes) (acc : ℕ) :
    NoPanic (fromEncoded lib (candidate hs .babyJubJub msg acc)) :=
  fromEncoded_noPanic_iff.2 ⟨_, deserialize_candidate hs msg acc, (Bytes.length_toBe _ _).ge⟩

theorem hashRound_eq (msg : Bytes) (acc : ℕ) : hashRound hs lib msg acc = .ok (roundPoint hs lib msg acc) := by
  have hfilter : ∀ o : Option CurveAffine, (o.filter fun pt => pt.1.OnCurve && isInSubgroup pt.toPoint) =
      o.filter fun pt => isInSubgroup pt.toPoint := by
    intro o
    refine congrArg (Option.filter · o) (funext fun pt => ?_)
    rw [decide_eq_true pt.2, Bool.true_and]
  rw [hashRound, head?_hash256, ofBe_coordinateModulus]
  simp only [okOr, bind_ok]
  rw [writeCoordinate_eq rfl (mod_coordinatePrime_lt _ _), bind_ok]
  show toOption (fromEncoded lib (candidate hs .babyJubJub msg acc)) >>= _ = _
  rw [(fromEncoded_candidate_noPanic hs lib msg acc).toOption_eq, bind_ok, hfilter]
  rfl

variable {hs lib} {msg : Bytes} {acc : ℕ} {p : CurveAffine}

theorem roundPoint_eq_some : roundPoint hs lib msg acc = some p ↔ HashesTo hs lib msg acc p := by
  rw [roundPoint, Option.filter_eq_some_iff, result?_eq_some, isInSubgroup, decide_eq_true_iff]
  exact ⟨fun h => ⟨h.1, p.2, h.2⟩, fun h => ⟨h.fromEncoded_eq, h.subgroup⟩⟩

variable (hs lib) in
theorem hashToCurve_findsFirst (msg : Bytes) : FindsFirst (hashToCurve hs lib msg) 1024 (HashesTo hs lib msg) :=
  search_findsFirst (hashRound_eq hs lib msg) (fun _ _ => roundPoint_eq_some) 1024

end BabyJubJub

/-- Hashing to either curve is a bounded search: it never panics, it returns exactly when the candidate of some counter
below 1024 is accepted, and then what the candidate of the least such counter decodes to. On secp256k1 the digest modulo
the prime is the `x` of that point. -/
theorem hash_to_curve_search (hs : Hashes) (msg : Bytes) :
    (FindsFirst (Secp256k1.hashToCurve hs msg) 1024 (Secp256k1.HashesTo hs msg) ∧
      ∀ acc p, Secp256k1.HashesTo hs msg acc p → ∃ x y, ∃ h : Secp256k1.curve.OnCurve x y,
        p = CubicCurve.point h ∧ x.val = digestNumber hs msg acc % Secp256k1.prime) ∧
    ∀ lib, FindsFirst (BabyJubJub.hashToCurve hs lib msg) 1024 (BabyJubJub.HashesTo hs lib msg) :=
  ⟨⟨Secp256k1.hashToCurve_findsFirst hs msg, fun _ _ h => h.exists_x⟩,
    fun lib => BabyJubJub.hashToCurve_findsFirst hs lib msg⟩

/-! ### The abstract curve -/

/-- One round of `hashToCurve` in `Oprf.lean`. -/
def abstractRound (C : Curve) (msg : Bytes) (acc : ℕ) : Option C.Point :=
  (C.fromEncoded (candidate hs C.id msg acc)).result?.filter fun pt => C.isOnCurve pt && C.isInSubgroupAssumingOnCurve pt

variable {C : Curve} {msg : Bytes}

theorem hashToCurveFrom_eq_search (hno : ∀ acc, NoPanic (C.fromEncoded (candidate hs C.id msg acc))) (rounds start : ℕ) :
    hashToCurveFrom hs C msg (List.range' start rounds) =
      search (fun acc => .ok (abstractRound hs C msg acc)) .extremelyRareErrorInputUnhashableToCurve rounds start := by
  induction rounds generalizing start with
  | zero => rfl
  | succ rounds ih =>
    rw [List.range'_succ, hashToCurveFrom, hashCandidate_eq, bind_ok, ih, search, bind_ok, abstractRound]
    have hno := hno start
    cases hdecode : C.fromEncoded (candidate hs C.id msg start) with
    | ok pt =>
      show (if _ then _ else _) = _
      rw [result?, Option.filter_some]
      split <;> rfl
    | error e =>
      cases e with
      | panic text => exact absurd hdecode (hno text)
      | error e => rfl

theorem hashToCurve_secp256k1 (hs : Hashes) (msg : Bytes) :
    HumanNetwork.hashToCurve hs secp256k1 msg = Secp256k1.hashToCurve hs msg := by
  have hround : ∀ acc, abstractRound hs secp256k1 msg acc = Secp256k1.roundPoint hs msg acc := by
    intro acc
    show ((Secp256k1.fromEncoded (candidate hs .secp256k1 msg acc)).result?.filter fun pt =>
      Secp256k1.isOnCurve pt && true) = _
    rw [Secp256k1.fromEncoded_candidate]
    cases Secp256k1.roundPoint hs msg acc with
    | none => rfl
    | some p => simp [okOr, result?, Secp256k1.isOnCurve_eq]
  rw [hashToCurve, List.range_eq_range', hashToCurveFrom_eq_search hs fun acc => Secp256k1.fromEncoded_noPanic _,
    Secp256k1.hashToCurve]
  congr 1
  exact funext fun acc => (congrArg Except.ok (hround acc)).trans (Secp256k1.hashRound_eq hs msg acc).symm

theorem hashToCurve_babyJubJub (hs : Hashes) (lib : BabyJubJub.SquareRoots) (msg : Bytes) :
    HumanNetwork.hashToCurve hs (babyJubJub lib) msg = BabyJubJub.hashToCurve hs lib msg >>= fun p => pure p.toPoint := by
  have hno : ∀ acc, NoPanic ((babyJubJub lib).fromEncoded (candidate hs .babyJubJub msg acc)) := fun acc =>
    noPanic_bind.2 ⟨BabyJubJub.fromEncoded_candidate_noPanic hs lib msg acc, fun _ _ => .ok _⟩
  have hround : ∀ acc, abstractRound hs (babyJubJub lib) msg acc =
      (BabyJubJub.roundPoint hs lib msg acc).map BabyJubJub.CurveAffine.toPoint := by
    intro acc
    have hdecode : (babyJubJub lib).fromEncoded (candidate hs .babyJubJub msg acc) =
        BabyJubJub.fromEncoded lib (candidate hs .babyJubJub msg acc) >>= fun p => pure p.toPoint := rfl
    rw [abstractRound, BabyJubJub.roundPoint]
    show Option.filter _ ((babyJubJub lib).fromEncoded (candidate hs .babyJubJub msg acc)).result? = _
    rw [hdecode]
    cases BabyJubJub.fromEncoded lib (candidate hs .babyJubJub msg acc) with
    | error e => rfl
    | ok p =>
      have hcheck : (fun P : BabyJubJub.Point => (babyJubJub lib).isOnCurve P &&
          (babyJubJub lib).isInSubgroupAssumingOnCurve P) = BabyJubJub.isInSubgroup := by
        funext P
        rw [babyJubJub_isOnCurve, babyJubJub_isInSubgroup, Bool.true_and]
      show Option.filter (fun P : BabyJubJub.Point => _) (some p.toPoint) = Option.map _ (Option.filter _ (some p))
      rw [hcheck, Option.filter_some, Option.filter_some]
      split <;> rfl
  rw [hashToCurve, List.range_eq_range', hashToCurveFrom_eq_search hs hno, BabyJubJub.hashToCurve]
  exact search_map (BabyJubJub.hashRound_eq hs lib msg) (fun acc => congrArg Except.ok (hround acc)) 1024 0

end HumanNetwork
