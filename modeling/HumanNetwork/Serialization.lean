import HumanNetwork.ResharingEngine
import HumanNetwork.Secp256k1
import HumanNetwork.BabyJubJub

/-!
# Decoders of what comes over the wire (`serialization.rs`, `curve.rs`)

Points and scalars are sent as bytes, or as hexadecimal strings inside of other data. Each deserializer is a chain of
decoders, and each link of it answers what it cannot read in its own way: with an error, with an error of the next type,
or with an `unwrap`. `decoders_noPanic_iff` says for each of them which input makes it panic.
-/

namespace HumanNetwork
open Outcome

/-! ### The `hex` crate -/

namespace Hex

inductive FromHexError where
  | invalidHexCharacter (c : Char) (index : ℕ)
  | oddLength

def FromHexError.display : FromHexError → String
  | invalidHexCharacter c index => "Invalid character " ++ c.quote ++ " at position " ++ toString index
  | oddLength => "Odd number of digits"

def FromHexError.debug : FromHexError → String
  | invalidHexCharacter c index => "InvalidHexCharacter \x7b c: " ++ c.quote ++ ", index: " ++ toString index ++ " \x7d"
  | oddLength => "OddLength"

def val (c : UInt8) (idx : ℕ) : Outcome FromHexError UInt8 :=
  if 65 ≤ c ∧ c ≤ 70 then .ok (c - 65 + 10)
  else if 97 ≤ c ∧ c ≤ 102 then .ok (c - 97 + 10)
  else if 48 ≤ c ∧ c ≤ 57 then .ok (c - 48)
  else fail (.invalidHexCharacter (Char.ofUInt8 c) idx)

def pairs (idx : ℕ) : Bytes → Outcome FromHexError Bytes
  | high :: low :: rest => do
    let h ← val high idx
    let l ← val low (idx + 1)
    let bytes ← pairs (idx + 2) rest
    return (h <<< 4 ||| l) :: bytes
  | _ => .ok []

/-- `hex::decode`, on the bytes of the string. -/
def decode (s : String) : Outcome FromHexError Bytes :=
  if s.toUTF8.data.toList.length % 2 ≠ 0 then fail .oddLength else pairs 0 s.toUTF8.data.toList

theorem val_noPanic (c : UInt8) (idx : ℕ) : NoPanic (val c idx) := by
  unfold val
  split
  · exact .ok _
  split
  · exact .ok _
  split
  · exact .ok _
  · exact .fail _

theorem pairs_noPanic (idx : ℕ) (data : Bytes) : NoPanic (pairs idx data) := by
  induction idx, data using pairs.induct with
  | case1 idx high low rest ih =>
    refine noPanic_bind.2 ⟨val_noPanic _ _, fun h _ => noPanic_bind.2 ⟨val_noPanic _ _, fun l _ => ?_⟩⟩
    exact noPanic_bind.2 ⟨ih, fun bytes _ => .ok _⟩
  | case2 idx data hdata =>
    rw [pairs]
    · exact .ok _
    · exact hdata

theorem decode_noPanic (s : String) : NoPanic (decode s) := by
  unfold decode
  split
  · exact .fail _
  · exact pairs_noPanic _ _

/-! ### What `hex::encode` writes -/

theorem val_digitChar {n : ℕ} (h : n < 16) (idx : ℕ) :
    ∃ c, String.utf8EncodeChar (Nat.digitChar n) = [c] ∧ val c idx = .ok (UInt8.ofNat n) := by
  interval_cases n <;> exact ⟨_, rfl, rfl⟩

theorem join_digits (b : UInt8) : UInt8.ofNat (b.toNat / 16) <<< 4 ||| UInt8.ofNat (b.toNat % 16) = b := by
  have h : ∀ n < 256, UInt8.ofNat (n / 16) <<< 4 ||| UInt8.ofNat (n % 16) = UInt8.ofNat n := by decide +kernel
  rw [h b.toNat b.toNat_lt, UInt8.ofNat_toNat]

theorem utf8_ofList (l : List Char) : (String.ofList l).toUTF8.data.toList = l.flatMap String.utf8EncodeChar := by
  simp [String.ofList, List.utf8Encode]

theorem pairs_digits (bytes : Bytes) (idx : ℕ) : ∃ digits : Bytes,
    (bytes.flatMap fun b => [Nat.digitChar (b.toNat / 16), Nat.digitChar (b.toNat % 16)]).flatMap
      String.utf8EncodeChar = digits ∧ digits.length % 2 = 0 ∧ pairs idx digits = .ok bytes := by
  induction bytes generalizing idx with
  | nil => exact ⟨[], rfl, rfl, rfl⟩
  | cons b bytes ih =>
    have hb : b.toNat < 256 := b.toNat_lt
    obtain ⟨high, hhigh, hvalHigh⟩ := val_digitChar (n := b.toNat / 16) (by omega) idx
    obtain ⟨low, hlow, hvalLow⟩ := val_digitChar (n := b.toNat % 16) (by omega) (idx + 1)
    obtain ⟨digits, hdigits, hlen, hpairs⟩ := ih (idx + 2)
    refine ⟨high :: low :: digits, ?_, ?_, ?_⟩
    · simp only [List.flatMap_cons, List.cons_append, List.nil_append, hhigh, hlow, hdigits]
    · simp only [List.length_cons]
      omega
    · simp only [pairs, hvalHigh, hvalLow, hpairs, bind_ok, join_digits, pure_eq_ok]

theorem decode_hexEncode (bytes : Bytes) : decode (hexEncode bytes) = .ok bytes := by
  obtain ⟨digits, hdigits, hlen, hpairs⟩ := pairs_digits bytes 0
  rw [decode, hexEncode, utf8_ofList, hdigits, if_neg (not_not.2 hlen), hpairs]

end Hex

/-! ### The deserializers -/

def CurveId.points (lib : BabyJubJub.SquareRoots) : CurveId → Curve
  | secp256k1 => HumanNetwork.secp256k1
  | babyJubJub => HumanNetwork.babyJubJub lib

section Deserializers
variable (C : Curve) (c : CurveId)

def pointHex (s : String) : Outcome String C.Point := do
  let bytes ← mapErr (fun _ => "") (Hex.decode s)
  mapErr (fun _ => "error deserializing point") (C.fromEncoded bytes)

def scalarHex (s : String) : Outcome String c.Scalar := do
  let bytes ← mapErr (fun _ => "") (Hex.decode s)
  mapErr (fun _ => "error deserializing point") (c.fromBytes bytes)

/-- Both results are unwrapped, where the code once returned errors. -/
def unwrapPoint (hexStr : String) : Outcome String C.Point := do
  let bytes ← unwrapOk Hex.FromHexError.debug (Hex.decode hexStr)
  unwrapOk Error.debug (C.fromEncoded bytes)

def mapPointHex (encodedMap : HMap ℕ (List String)) : Outcome String (HMap ℕ (List C.Point)) :=
  encodedMap.mapValM fun _ points => points.mapM (unwrapPoint C)

def hashmapPointHex (encodedMap : HMap ℕ String) : Outcome String (HMap ℕ C.Point) :=
  encodedMap.mapValM fun _ hexStr => unwrapPoint C hexStr

def fieldHex (s : String) : Outcome String c.Scalar := do
  let bytes ← mapErr Hex.FromHexError.display (Hex.decode s)
  let expected := c.reprLen
  let got := bytes.length
  ensure (got = expected) s!"Invalid hex length: expected {expected}, got {got}"
  -- `from_repr` has no element for a number above the modulus
  check (Bytes.ofBe bytes < c.order) "assertion `left == right` failed"
  return (Bytes.ofBe bytes : c.Scalar)

end Deserializers

/-! ### When they panic -/

/-- The bytes begin with a point in the form that `bincode` reads, and there are enough of them for the limbs of `y`;
SEC1 reads all bytes. -/
def CurveId.PointReadable : CurveId → Bytes → Prop
  | secp256k1, _ => True
  | babyJubJub, b => ∃ (e : BabyJubJub.EncodedBabyJubJubPoint) (trailing : Bytes),
    32 ≤ e.y.length ∧ e.y.length < 256 ^ 8 ∧ b = e.serialize ++ trailing

/-- `FieldBytes::from_slice` takes 32 bytes; limbs are read from the first 32. -/
def CurveId.ScalarReadable : CurveId → Bytes → Prop
  | secp256k1, b => b.length = 32
  | babyJubJub, b => 32 ≤ b.length

def PointString (C : Curve) (s : String) : Prop := ∃ bytes p, Hex.decode s = .ok bytes ∧ C.fromEncoded bytes = .ok p

variable {lib : BabyJubJub.SquareRoots} {c : CurveId} {C : Curve} {b : Bytes} {s : String}

theorem points_fromEncoded_noPanic : NoPanic ((c.points lib).fromEncoded b) ↔ c.PointReadable b := by
  cases c with
  | secp256k1 => exact iff_of_true (Secp256k1.fromEncoded_noPanic b) trivial
  | babyJubJub =>
    have hraw : NoPanic ((babyJubJub lib).fromEncoded b) ↔ NoPanic (BabyJubJub.fromEncoded lib b) :=
      noPanic_bind.trans (and_iff_left fun _ _ => .ok _)
    refine hraw.trans (BabyJubJub.fromEncoded_noPanic_iff.trans ?_)
    simp only [BabyJubJub.EncodedBabyJubJubPoint.deserialize_eq_ok, CurveId.PointReadable, exists_and_left]
    exact exists_congr fun e => ⟨fun ⟨⟨hlt, h⟩, hlen⟩ => ⟨hlen, hlt, h⟩, fun ⟨hlen, hlt, h⟩ => ⟨⟨hlt, h⟩, hlen⟩⟩

theorem fromBytes_noPanic : NoPanic (c.fromBytes b) ↔ c.ScalarReadable b := by
  cases c with
  | secp256k1 =>
    rw [CurveId.fromBytes, noPanic_check_bind]
    refine and_iff_left ?_
    split
    · exact .ok _
    · exact .fail _
  | babyJubJub =>
    rw [CurveId.fromBytes, noPanic_check_bind]
    exact and_iff_left (.ok _)

theorem hex_bind_noPanic {α : Type} {err : Hex.FromHexError → String} {f : Bytes → Outcome String α} :
    NoPanic (mapErr err (Hex.decode s) >>= f) ↔ ∀ bytes, Hex.decode s = .ok bytes → NoPanic (f bytes) := by
  rw [noPanic_bind, noPanic_mapErr, and_iff_right (Hex.decode_noPanic s)]
  simp only [mapErr_eq_ok]

theorem unwrapPoint_eq_ok {p : C.Point} :
    unwrapPoint C s = .ok p ↔ ∃ bytes, Hex.decode s = .ok bytes ∧ C.fromEncoded bytes = .ok p := by
  simp only [unwrapPoint, bind_eq_ok, unwrapOk_eq_ok]

theorem exists_unwrapPoint : (∃ p, unwrapPoint C s = .ok p) ↔ PointString C s := by
  simp only [unwrapPoint_eq_ok, PointString]
  exact exists_comm

theorem unwrapPoint_errorsIn : ErrorsIn (fun _ => False) (unwrapPoint C s) :=
  (ErrorsIn.unwrapOk _ _).bind fun _ _ => .unwrapOk _ _

theorem mapPointHex_noPanic {m : HMap ℕ (List String)} :
    NoPanic (mapPointHex C m) ↔ ∀ e ∈ m.entries, ∀ s ∈ e.2, PointString C s := by
  have herr : ErrorsIn (fun _ => False) (mapPointHex C m) :=
    HMap.errorsIn_mapValM fun _ _ => .mapM fun _ _ => unwrapPoint_errorsIn
  rw [herr.noPanic_iff, mapPointHex, HMap.exists_mapValM_eq_ok]
  simp only [exists_mapM_eq_ok, exists_unwrapPoint]

theorem hashmapPointHex_noPanic {m : HMap ℕ String} :
    NoPanic (hashmapPointHex C m) ↔ ∀ e ∈ m.entries, PointString C e.2 := by
  have herr : ErrorsIn (fun _ => False) (hashmapPointHex C m) := HMap.errorsIn_mapValM fun _ _ => unwrapPoint_errorsIn
  rw [herr.noPanic_iff, hashmapPointHex, HMap.exists_mapValM_eq_ok]
  simp only [exists_unwrapPoint]

theorem fieldHex_noPanic : NoPanic (fieldHex c s) ↔
    ∀ bytes, Hex.decode s = .ok bytes → bytes.length = c.reprLen → Bytes.ofBe bytes < c.order := by
  rw [fieldHex, hex_bind_noPanic]
  refine forall_congr' fun bytes => imp_congr_right fun _ => ?_
  rw [noPanic_bind, and_iff_right (.ensure _)]
  simp only [ensure_eq_ok, noPanic_check_bind, forall_const]
  exact imp_congr_right fun _ => and_iff_left (.ok _)

/-- Each decoder panics exactly on this input. -/
theorem decoders_noPanic_iff (lib : BabyJubJub.SquareRoots) (c : CurveId) :
    (∀ b, NoPanic ((c.points lib).fromEncoded b) ↔ c.PointReadable b) ∧
    (∀ b, NoPanic (c.fromBytes b) ↔ c.ScalarReadable b) ∧
    (∀ s, NoPanic (pointHex (c.points lib) s) ↔ ∀ b, Hex.decode s = .ok b → c.PointReadable b) ∧
    (∀ s, NoPanic (scalarHex c s) ↔ ∀ b, Hex.decode s = .ok b → c.ScalarReadable b) ∧
    (∀ m, NoPanic (mapPointHex (c.points lib) m) ↔ ∀ e ∈ m.entries, ∀ s ∈ e.2, PointString (c.points lib) s) ∧
    (∀ m, NoPanic (hashmapPointHex (c.points lib) m) ↔ ∀ e ∈ m.entries, PointString (c.points lib) e.2) ∧
    ∀ s, NoPanic (fieldHex c s) ↔ ∀ b, Hex.decode s = .ok b → b.length = c.reprLen → Bytes.ofBe b < c.order := by
  refine ⟨fun b => points_fromEncoded_noPanic, fun b => fromBytes_noPanic, fun s => ?_, fun s => ?_,
    fun m => mapPointHex_noPanic, fun m => hashmapPointHex_noPanic, fun s => fieldHex_noPanic⟩
  · rw [pointHex, hex_bind_noPanic]
    simp only [noPanic_mapErr, points_fromEncoded_noPanic]
  · rw [scalarHex, hex_bind_noPanic]
    simp only [noPanic_mapErr, fromBytes_noPanic]

/-- No byte at all, a point without limbs, no digit at all, no hexadecimal digits, and a number above the modulus. -/
theorem decoders_panic :
    ¬ NoPanic ((CurveId.babyJubJub.points .chosen).fromEncoded []) ∧
    ¬ NoPanic ((CurveId.babyJubJub.points .chosen).fromEncoded (List.replicate 9 0)) ∧
    (∀ c : CurveId, ¬ NoPanic (c.fromBytes [])) ∧
    ¬ NoPanic (pointHex (CurveId.babyJubJub.points .chosen) "") ∧ (∀ c, ¬ NoPanic (scalarHex c "")) ∧
    ¬ NoPanic (mapPointHex (CurveId.secp256k1.points .chosen) ⟨[(1, ["zz"])], by decide⟩) ∧
    ¬ NoPanic (hashmapPointHex (CurveId.secp256k1.points .chosen) ⟨[(1, "zz")], by decide⟩) ∧
    ¬ NoPanic (fieldHex .babyJubJub "ffffffffffffffffffffffffffffffffffffffffffffffffffffffffffffffff") := by
  refine ⟨fun h => h _ rfl, fun h => h _ rfl, fun c h => ?_, fun h => h _ rfl, fun c h => ?_, fun h => h _ rfl,
    fun h => h _ rfl, ?_⟩
  · cases c <;> exact h _ rfl
  · cases c <;> exact h _ rfl
  rw [fieldHex_noPanic]
  intro h
  have hbytes : Hex.decode "ffffffffffffffffffffffffffffffffffffffffffffffffffffffffffffffff" = .ok (List.replicate 32 255) := by
    rfl
  exact absurd (h _ hbytes rfl) (by decide +kernel)

end HumanNetwork
