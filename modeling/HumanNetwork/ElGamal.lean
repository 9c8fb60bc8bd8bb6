import HumanNetwork.Schnorr
import HumanNetwork.CanonicalPoints

/-!
# Encryption (`encryption.rs`)

A message of 24 bytes becomes the `y` of a point, behind a counter of 8 bytes that is raised until there is a point in the
subgroup. The point is masked with a Diffie-Hellman secret, and whoever has the secret gets the point and the last 24 bytes
of its `y` back.

The counter may reach `2 ^ 63`, where the number exceeds the prime and comes back reduced, and the number 1 is the `y` of
the identity, which has no message. These are the messages that are lost (`elgamal_round_trip_iff`). Every point here is
the result of arithmetic, and so in reduced form.
-/

namespace HumanNetwork
open Outcome

/-! ### El Gamal -/

/-- `messageBytes` is `N - NUM_BYTES_PADDING`. -/
class MapCurve (C : Curve) where
  messageBytes : ℕ
  koblitzMap : Hashes → { bytes : Bytes // bytes.length = messageBytes } → Outcome Error C.Point
  reverseKoblitz : C.Point → Outcome Error { bytes : Bytes // bytes.length = messageBytes }

section ElGamal
variable {C : Curve} [MapCurve C]

variable (C) in
abbrev Message := { bytes : Bytes // bytes.length = MapCurve.messageBytes C }

def encryptElgamal (hs : Hashes) (draw : C.id.RandSpace) (msg : Message C) (recipientPubkey : C.Point)
    (customSecret : Option C.FieldEl) : Outcome Error (ElGamalCiphertext C) := do
  let msgAsPoint ← MapCurve.koblitzMap hs msg
  let defaultEphemSecret := C.id.randVartime draw
  let ephemSecret := customSecret.getD defaultEphemSecret
  let ephemeralDhPubkey := C.scalarMul C.basePointOrGenerator ephemSecret
  let sharedSecretDh := C.scalarMul recipientPubkey ephemSecret
  let encryptedMsg := C.addSelf sharedSecretDh msgAsPoint
  return { encryptedMsg, ephemeralDhPubkey }

def decryptElgamalFromSharedSecret (ciphertext : ElGamalCiphertext C) (sharedSecret : C.Point) :
    Outcome Error (Message C) :=
  MapCurve.reverseKoblitz (C.addSelf ciphertext.encryptedMsg (-sharedSecret))

/-- `encrypt_with_conditions`, for what `rand_vartime` draws: the secret, what `encrypt_elgamal` does not use, and the
nonce of the signature. -/
def encryptWithConditions (hs : Hashes) (draw unusedDraw nonceDraw : C.id.RandSpace) (msg : Message C)
    (recipientPubkey : C.Point) (conditionsContract : Address) :
    Outcome Error (ElGamalCiphertextWithSignedConditions C) := do
  let secret := C.id.randVartime draw
  let ciphertext ← encryptElgamal hs unusedDraw msg recipientPubkey (some secret)
  let signed ← SchnorrSig.sign hs nonceDraw secret conditionsContract
  return { ciphertext, signedConditions := { contract := conditionsContract, sig := signed } }

variable {hs : Hashes} {draw unusedDraw nonceDraw : C.id.RandSpace} {msg : Message C} {recipientPubkey : C.Point}
  {customSecret : Option C.FieldEl} {ct : ElGamalCiphertext C}

theorem encryptElgamal_eq_ok : encryptElgamal hs draw msg recipientPubkey customSecret = .ok ct ↔
    ∃ P, MapCurve.koblitzMap hs msg = .ok P ∧
      ct = ⟨C.scalarMul recipientPubkey (customSecret.getD (C.id.randVartime draw)) + P,
        C.scalarMul C.basePointOrGenerator (customSecret.getD (C.id.randVartime draw))⟩ := by
  rw [encryptElgamal, bind_eq_ok]
  refine exists_congr fun P => and_congr_right fun _ => ?_
  show Except.ok _ = Except.ok ct ↔ _
  rw [Except.ok.injEq]
  exact eq_comm

theorem decrypt_encrypt {x : C.FieldEl}
    (h : encryptElgamal hs draw msg (C.scalarMul C.basePointOrGenerator x) customSecret = .ok ct) :
    ∃ P, MapCurve.koblitzMap hs msg = .ok P ∧ decryptElgamalFromSharedSecret ct
      (C.scalarMul (C.scalarMul C.basePointOrGenerator (customSecret.getD (C.id.randVartime draw))) x) =
        MapCurve.reverseKoblitz P := by
  obtain ⟨P, hP, rfl⟩ := encryptElgamal_eq_ok.1 h
  refine ⟨P, hP, congrArg MapCurve.reverseKoblitz ?_⟩
  rw [C.addSelf_eq, Curve.scalarMul, Curve.scalarMul, Curve.scalarMul, Curve.scalarMul, smul_comm]
  exact add_neg_cancel_comm _ P

/-- The conditions are signed with the ephemeral key, as the check of a decryption wants it. -/
theorem encryptWithConditions_valid [C.PrimeSubgroup] [C.FaithfulEncodings] {conditionsContract : Address} {P : C.Point}
    (hmsg : MapCurve.koblitzMap hs msg = .ok P) (hsecret : C.id.randVartime draw ≠ 0)
    (hnonce : C.id.randVartime nonceDraw ≠ 0) :
    ∃ enc, encryptWithConditions hs draw unusedDraw nonceDraw msg recipientPubkey conditionsContract = .ok enc ∧
      enc.getContractAndPubkeyIfValid hs =
        .ok (conditionsContract, C.scalarMul C.basePointOrGenerator (C.id.randVartime draw)) := by
  obtain ⟨sig, hsign, hverify⟩ : ∃ sig, SchnorrSig.sign hs nonceDraw (C.id.randVartime draw) conditionsContract = .ok sig ∧
      sig.verify hs conditionsContract (C.scalarMul C.basePointOrGenerator (C.id.randVartime draw)) = .ok () :=
    SchnorrSig.exists_sign hsecret hnonce
  have hencrypt : encryptElgamal hs unusedDraw msg recipientPubkey (some (C.id.randVartime draw)) =
      .ok ⟨_, C.scalarMul C.basePointOrGenerator (C.id.randVartime draw)⟩ := encryptElgamal_eq_ok.2 ⟨P, hmsg, rfl⟩
  refine ⟨_, bind_eq_ok.2 ⟨_, hencrypt, bind_eq_ok.2 ⟨sig, hsign, rfl⟩⟩, ?_⟩
  exact bind_eq_ok.2 ⟨(), hverify, rfl⟩

end ElGamal

/-! ### Messages as points of BabyJubJub -/

namespace BabyJubJub

section Koblitz
variable (hs : Hashes) (lib : SquareRoots)

def koblitzRound (bytes : Bytes) (acc : ℕ) : Outcome Error (Option Point) := do
  let first ← unwrap (hs.hash256 bytes).head? unwrapNone
  let deterministicRandomBit : Bool := first % 2 = 0
  let y := Bytes.toBe 8 acc ++ bytes
  let point := getPointFromYUnchecked lib (.ofValue (Bytes.ofBe y)) deterministicRandomBit
  return point.bind fun p => if h : p.OnCurve then (some (CurveAffine.toPoint ⟨p, h⟩)).filter isInSubgroup else none

/-- The counter runs while it is at most `u64::MAX >> 1`. -/
def koblitzMap (bytes : Bytes) : Outcome Error Point := search (koblitzRound hs lib bytes) .invalidInput (2 ^ 63) 0

def reverseKoblitz (point : Point) : Outcome Error { bytes : Bytes // bytes.length = 24 } := do
  ensure ((babyJubJub lib).isOnCurve point ∧ isInSubgroup point) .invalidInput
  ensure (point ≠ 0) .invalidInput
  let bigbytes := Bytes.toBeMin point.y.val
  check (bigbytes.length ≤ 32) "attempt to subtract with overflow"
  let padding := 32 - bigbytes.length
  let bytes := List.replicate padding 0 ++ bigbytes
  check (32 ≤ bytes.length) "range end index out of range for slice"
  let slice := (bytes.take 32).drop 8
  if h : slice.length = 24 then return ⟨slice, h⟩
  else crash "called `Result::unwrap()` on an `Err` value: TryFromSliceError(())"

end Koblitz

instance (lib : SquareRoots) : MapCurve (babyJubJub lib) where
  messageBytes := 24
  koblitzMap hs msg := koblitzMap hs lib msg.1
  reverseKoblitz := reverseKoblitz lib

def koblitzNumber (bytes : Bytes) (acc : ℕ) : ℕ := Bytes.ofBe (Bytes.toBe 8 acc ++ bytes)

structure MapsTo (hs : Hashes) (bytes : Bytes) (acc : ℕ) (P : Point) : Prop where
  y_eq : P.y = (koblitzNumber bytes acc : ℕ)
  picked : Picked ((hs.hash256 bytes).headD 0 % 2 = 0) P.x
  subgroup : order • P = 0

/-- Round `acc` is the first one that has a point. -/
structure StopsAt (hs : Hashes) (bytes : Bytes) (acc : ℕ) : Prop where
  lt : acc < 2 ^ 63
  exists_point : ∃ P, MapsTo hs bytes acc P
  first : ∀ acc' < acc, ∀ P, ¬ MapsTo hs bytes acc' P

variable {hs : Hashes} {lib : SquareRoots} {bytes : Bytes} {acc : ℕ} {P : Point}

def koblitzPoint (hs : Hashes) (lib : SquareRoots) (bytes : Bytes) (acc : ℕ) : Option Point :=
  (getPointFromYUnchecked lib (.ofValue (koblitzNumber bytes acc : ℕ)) ((hs.hash256 bytes).headD 0 % 2 = 0)).bind fun p =>
    if h : p.OnCurve then (some (CurveAffine.toPoint ⟨p, h⟩)).filter isInSubgroup else none

theorem koblitzRound_eq (acc : ℕ) : koblitzRound hs lib bytes acc = .ok (koblitzPoint hs lib bytes acc) := by
  rw [koblitzRound, head?_hash256]
  rfl

theorem koblitzPoint_eq_some : koblitzPoint hs lib bytes acc = some P ↔ MapsTo hs bytes acc P := by
  rw [koblitzPoint, Option.bind_eq_some_iff]
  constructor
  · rintro ⟨p, hp, h⟩
    obtain ⟨hon, hy, -, hpick⟩ := (getPointFromYUnchecked_eq_some lib).1 hp
    rw [dif_pos hon, Option.filter_eq_some_iff, Option.some.injEq] at h
    obtain ⟨rfl, hsub⟩ := h
    refine ⟨?_, hpick, of_decide_eq_true hsub⟩
    show p.y.value = _
    rw [hy, Montgomery.value_ofValue]
  · rintro ⟨hy, hpick, hsub⟩
    refine ⟨(CurveAffine.ofPoint P).1, (getPointFromYUnchecked_eq_some lib).2 ?_, ?_⟩
    · refine ⟨(CurveAffine.ofPoint P).2, congrArg Montgomery.ofValue hy, (CurveAffine.reduced_ofPoint P).x, ?_⟩
      show Picked _ (Montgomery.ofValue P.x).value
      rwa [Montgomery.value_ofValue]
    · rw [dif_pos (CurveAffine.ofPoint P).2, Option.filter_eq_some_iff, Subtype.coe_eta, CurveAffine.toPoint_ofPoint]
      exact ⟨rfl, decide_eq_true hsub⟩

theorem koblitzMap_findsFirst (hs : Hashes) (lib : SquareRoots) (bytes : Bytes) :
    FindsFirst (koblitzMap hs lib bytes) (2 ^ 63) (MapsTo hs bytes) :=
  search_findsFirst koblitzRound_eq (fun _ _ => koblitzPoint_eq_some) (2 ^ 63)

theorem exists_stopsAt (h : koblitzMap hs lib bytes = .ok P) : ∃ acc, StopsAt hs bytes acc ∧ MapsTo hs bytes acc P := by
  obtain ⟨acc, hlt, hP, hfirst⟩ := ((koblitzMap_findsFirst hs lib bytes).ok_iff P).1 h
  exact ⟨acc, ⟨hlt, ⟨P, hP⟩, hfirst⟩, hP⟩

theorem StopsAt.eq {acc' : ℕ} (h : StopsAt hs bytes acc) (h' : StopsAt hs bytes acc') : acc' = acc := by
  obtain ⟨P, hP⟩ := h.exists_point
  obtain ⟨P', hP'⟩ := h'.exists_point
  rcases lt_trichotomy acc' acc with hlt | rfl | hlt
  · exact absurd hP' (h.first _ hlt _)
  · rfl
  · exact absurd hP (h'.first _ hlt _)

theorem reverseKoblitz_eq {P : Point} (hsub : order • P = 0) :
    reverseKoblitz lib P =
      if P = 0 then fail .invalidInput else .ok ⟨Bytes.toBe 24 P.y.val, Bytes.length_toBe _ _⟩ := by
  have hlt : P.y.val < 256 ^ 32 := (ZMod.val_lt P.y).trans (CurveId.coordinatePrime_lt_pow _)
  have hcheck : (babyJubJub lib).isOnCurve P ∧ isInSubgroup P := ⟨babyJubJub_isOnCurve P, decide_eq_true hsub⟩
  have hle : (Bytes.toBeMin P.y.val).length ≤ 32 := Bytes.length_toBeMin_le (by decide) hlt
  have hlen : (Bytes.toBe 32 P.y.val).length = 32 := Bytes.length_toBe _ _
  have hslice : ((Bytes.toBe 32 P.y.val).take 32).drop 8 = Bytes.toBe 24 P.y.val := by
    rw [List.take_of_length_le hlen.le, Bytes.drop_toBe]
  rw [reverseKoblitz, ensure, if_pos hcheck, bind_ok]
  split
  next hzero => rw [ensure, if_neg (not_not.2 hzero)]; rfl
  next hzero =>
    rw [ensure, if_pos hzero, bind_ok]
    simp only [check_of hle, bind_ok, Bytes.replicate_append_toBeMin (by decide : 0 < 32) hlt, check_of hlen.ge, hslice]
    exact dif_pos (Bytes.length_toBe _ _)

/-! ### Messages that come back -/

theorem koblitzNumber_eq (bytes : Bytes) (hacc : acc < 2 ^ 63) :
    koblitzNumber bytes acc = Bytes.ofBe bytes + 256 ^ bytes.length * acc := by
  have hlt : acc < 256 ^ 8 := hacc.trans (by decide)
  rw [koblitzNumber, Bytes.ofBe_append, Bytes.ofBe_toBe hlt]

/-- A number that was reduced has other last bytes. -/
theorem mod_prime_mod_eq_iff {n : ℕ} (hn : n < 256 ^ 32) : n % prime % 256 ^ 24 = n % 256 ^ 24 ↔ n < prime := by
  refine ⟨fun h => ?_, fun h => by rw [Nat.mod_eq_of_lt h]⟩
  have hcoprime : Nat.Coprime (256 ^ 24) prime := by decide +kernel
  have hdvd : 256 ^ 24 ∣ prime * (n / prime) := by
    have h := (Nat.modEq_iff_dvd' (Nat.mod_le n prime)).1 h
    rwa [Nat.sub_eq_of_eq_add (Nat.div_add_mod n prime).symm] at h
  have hlarge : 256 ^ 32 < prime * 256 ^ 24 := by decide +kernel
  have hquot : n / prime < 256 ^ 24 := Nat.div_lt_of_lt_mul (hn.trans hlarge)
  have hzero := Nat.eq_zero_of_dvd_of_lt (hcoprime.dvd_of_dvd_mul_left hdvd) hquot
  exact (Nat.div_eq_zero_iff.1 hzero).resolve_left (CurveId.coordinatePrime_prime _).ne_zero

theorem eq_zero_iff_y {P : Point} : P = 0 ↔ P.y = 1 := by
  refine ⟨fun h => by rw [h]; rfl, fun h => ?_⟩
  have hx : P.x = 0 := (x_eq_zero_iff P.onCurve).2 (by rw [h, one_mul])
  exact EdwardsCurve.Point.ext hx h

theorem reverseKoblitz_eq_ok_iff {msg : { bytes : Bytes // bytes.length = 24 }} (hacc : acc < 2 ^ 63)
    (hP : MapsTo hs msg.1 acc P) :
    reverseKoblitz lib P = .ok msg ↔ koblitzNumber msg.1 acc < prime ∧ koblitzNumber msg.1 acc ≠ 1 := by
  have hnumber := koblitzNumber_eq msg.1 hacc
  rw [msg.2] at hnumber
  have hmsg : Bytes.ofBe msg.1 < 256 ^ 24 := (Bytes.ofBe_lt _).trans_eq (by rw [msg.2])
  have hlt : koblitzNumber msg.1 acc < 256 ^ 32 := by
    rw [hnumber]
    omega
  have hmod : koblitzNumber msg.1 acc % 256 ^ 24 = Bytes.ofBe msg.1 := by
    rw [hnumber, Nat.add_mul_mod_self_left, Nat.mod_eq_of_lt hmsg]
  have hval : P.y.val = koblitzNumber msg.1 acc % prime := by rw [hP.y_eq, ZMod.val_natCast]
  have hone : P ≠ 0 ↔ koblitzNumber msg.1 acc % prime ≠ 1 := by
    rw [ne_eq, eq_zero_iff_y, ← hval, ← ZMod.val_one prime, ne_eq, (ZMod.val_injective prime).eq_iff]
  have hok : reverseKoblitz lib P = .ok msg ↔ P ≠ 0 ∧ koblitzNumber msg.1 acc % prime % 256 ^ 24 = Bytes.ofBe msg.1 := by
    rw [reverseKoblitz_eq hP.subgroup, ← hval, ← Bytes.toBe_eq_iff msg.2]
    by_cases hzero : P = 0
    · rw [if_pos hzero]
      exact iff_of_false (fun h => by cases h) fun h => h.1 hzero
    · rw [if_neg hzero, and_iff_right hzero, Except.ok.injEq, Subtype.ext_iff]
  rw [hok, hone, ← hmod, mod_prime_mod_eq_iff hlt, and_comm]
  refine and_congr_right fun hprime => ?_
  rw [Nat.mod_eq_of_lt hprime]

end BabyJubJub

open BabyJubJub in
/-- With the recipient's secret, a ciphertext gives back the message exactly if the counter at which the message became a
point makes a number below the prime, other than 1. -/
theorem elgamal_round_trip_iff (hs : Hashes) (lib : SquareRoots) (draw : CurveId.RandSpace .babyJubJub)
    (msg : Message (babyJubJub lib)) (x : BabyJubJub.Scalar) (customSecret : Option BabyJubJub.Scalar)
    (ct : ElGamalCiphertext (babyJubJub lib))
    (h : encryptElgamal hs draw msg ((babyJubJub lib).scalarMul generator x) customSecret = .ok ct) :
    decryptElgamalFromSharedSecret ct ((babyJubJub lib).scalarMul ((babyJubJub lib).scalarMul generator
        (customSecret.getD (CurveId.randVartime .babyJubJub draw))) x) = .ok msg ↔
      ∃ acc, StopsAt hs msg.1 acc ∧ koblitzNumber msg.1 acc < prime ∧ koblitzNumber msg.1 acc ≠ 1 := by
  obtain ⟨P, hP, hdecrypt⟩ := decrypt_encrypt h
  obtain ⟨acc, hstop, hmaps⟩ := exists_stopsAt hP
  refine (Eq.congr_left hdecrypt).trans ((reverseKoblitz_eq_ok_iff hstop.lt hmaps).trans ?_)
  constructor
  · intro hnumber
    exact ⟨acc, hstop, hnumber⟩
  · rintro ⟨acc', hstop', hnumber⟩
    rwa [hstop.eq hstop'] at hnumber

namespace BabyJubJub

variable {hs : Hashes} {lib : SquareRoots}

def smallMessage (lib : SquareRoots) (n : ℕ) : Message (babyJubJub lib) := ⟨Bytes.toBe 24 n, Bytes.length_toBe _ _⟩

theorem picked_or_picked_neg (greatest : Bool) (x : Coordinate) : Picked greatest x ∨ Picked greatest (-x) := by
  cases greatest with
  | false => exact (le_total x.val (-x).val).imp_right fun h => by rwa [Picked, neg_neg]
  | true => exact (le_total (-x).val x.val).imp_right fun h => by rwa [Picked, neg_neg]

theorem stopsAt_zero {P : Point} {n : ℕ} (hn : n < 256 ^ 24) (hy : P.y = (n : ℕ)) (hsub : order • P = 0) :
    StopsAt hs (Bytes.toBe 24 n) 0 ∧ koblitzNumber (Bytes.toBe 24 n) 0 = n := by
  have hnumber : koblitzNumber (Bytes.toBe 24 n) 0 = n := by
    rw [koblitzNumber_eq _ (by decide), Bytes.ofBe_toBe hn, mul_zero, add_zero]
  refine ⟨⟨by decide, ?_, fun acc' h => absurd h (Nat.not_lt_zero _)⟩, hnumber⟩
  rcases picked_or_picked_neg ((hs.hash256 (Bytes.toBe 24 n)).headD 0 % 2 = 0) P.x with hpick | hpick
  · exact ⟨P, by rw [hnumber, hy], hpick, hsub⟩
  · exact ⟨-P, by rw [hnumber, EdwardsCurve.Point.neg_y, hy], hpick, by rw [smul_neg, hsub, neg_zero]⟩

theorem exists_encrypt_small {n : ℕ} (hstop : StopsAt hs (Bytes.toBe 24 n) 0) (draw : CurveId.RandSpace .babyJubJub)
    (pubkey : Point) (secret : Scalar) :
    ∃ ct, encryptElgamal hs draw (smallMessage lib n) pubkey (some secret) = .ok ct := by
  obtain ⟨Q, hQ⟩ := (koblitzMap_findsFirst hs lib (Bytes.toBe 24 n)).exists_ok.2 ⟨0, hstop.lt, hstop.exists_point⟩
  exact ⟨_, encryptElgamal_eq_ok.2 ⟨Q, hQ, rfl⟩⟩

def undrawn : CurveId.RandSpace .babyJubJub := (0 : Fin (2 ^ 32))

def pointThreeX : Coordinate :=
  ((395201658109705375483020999761329035019889655887930568440332381669422051723 : ℕ) : Coordinate)

def pointThree : Point := ⟨pointThreeX, (3 : ℕ), by decide +kernel⟩

theorem order_nsmul_pointThree : order • pointThree = 0 := order_nsmul_eq_zero pointThree (by decide +kernel)

end BabyJubJub

open BabyJubJub in
theorem elgamal_round_trip_three : ∃ ct,
    encryptElgamal (byteHashes .babyJubJub) undrawn (smallMessage .chosen 3)
      ((babyJubJub .chosen).scalarMul generator 5) (some 7) = .ok ct ∧
    decryptElgamalFromSharedSecret ct ((babyJubJub .chosen).scalarMul ((babyJubJub .chosen).scalarMul generator 7) 5) =
      .ok (smallMessage .chosen 3) := by
  obtain ⟨hstop, hnumber⟩ : StopsAt (byteHashes .babyJubJub) (Bytes.toBe 24 3) 0 ∧ koblitzNumber (Bytes.toBe 24 3) 0 = 3 :=
    stopsAt_zero (P := pointThree) (by decide) rfl order_nsmul_pointThree
  obtain ⟨ct, hct⟩ := exists_encrypt_small hstop undrawn ((babyJubJub .chosen).scalarMul generator 5) 7
  refine ⟨ct, hct, (elgamal_round_trip_iff _ .chosen undrawn (smallMessage .chosen 3) 5 (some 7) ct hct).2 ⟨0, hstop, ?_⟩⟩
  show koblitzNumber (Bytes.toBe 24 3) 0 < prime ∧ koblitzNumber (Bytes.toBe 24 3) 0 ≠ 1
  rw [hnumber]
  decide +kernel

open BabyJubJub in
/-- The message 1 is encrypted as the identity. -/
theorem elgamal_loses_one : ∃ ct,
    encryptElgamal (byteHashes .babyJubJub) undrawn (smallMessage .chosen 1)
      ((babyJubJub .chosen).scalarMul generator 5) (some 7) = .ok ct ∧
    decryptElgamalFromSharedSecret ct ((babyJubJub .chosen).scalarMul ((babyJubJub .chosen).scalarMul generator 7) 5) =
      fail .invalidInput := by
  obtain ⟨hstop, hnumber⟩ : StopsAt (byteHashes .babyJubJub) (Bytes.toBe 24 1) 0 ∧ koblitzNumber (Bytes.toBe 24 1) 0 = 1 :=
    stopsAt_zero (P := 0) (by decide) Nat.cast_one.symm (smul_zero _)
  obtain ⟨ct, hct⟩ := exists_encrypt_small hstop undrawn ((babyJubJub .chosen).scalarMul generator 5) 7
  obtain ⟨P, hP, hdecrypt⟩ := decrypt_encrypt hct
  obtain ⟨acc, hstop', hmaps⟩ := exists_stopsAt hP
  have hzero : P = 0 := by
    rw [eq_zero_iff_y, hmaps.y_eq, hstop.eq hstop']
    exact (congrArg Nat.cast hnumber).trans Nat.cast_one
  refine ⟨ct, hct, hdecrypt.trans ?_⟩
  exact (reverseKoblitz_eq hmaps.subgroup).trans (if_pos hzero)

end HumanNetwork
