import HumanNetwork.HashToCurve

/-!
# The strings that stand for a point of BabyJubJub

`from_encoded` takes the limbs of `y` as they are in the string, ignores what is behind them, and does not look at the flag
where both points with one `y` are the same. So many strings stand for one point, and one of them is canonical: 41 bytes
with reduced limbs, and no flag at the points with `x = 0`. `decoding_canonical_iff` says for each way in which a point
can be read when the result is in reduced form, and that the string is never the only one.
-/

namespace HumanNetwork
open Outcome

namespace BabyJubJub

variable {lib : SquareRoots} {b : Bytes} {p : CurveAffine} {P : Point}

/-! ### Canonical strings -/

/-- The limbs of `y` that `from_encoded` reads, behind the flag and the length. -/
def encodedLimbs (b : Bytes) : ℕ := Bytes.ofLe ((b.drop 9).take 32)

/-- Nothing behind 32 bytes of reduced limbs, and no flag where it makes no difference. -/
def Canonical (b : Bytes) : Prop := ∃ (greatest : Bool) (y : Montgomery prime),
  b = EncodedBabyJubJubPoint.serialize ⟨greatest, y.writeLe⟩ ∧ y.Reduced ∧ (greatest = true → y.value * y.value ≠ 1)

def canonicalBytes (P : Point) : Bytes := EncodedBabyJubJubPoint.serialize ⟨isGreatest P.x, Montgomery.writeLe (.ofValue P.y)⟩

theorem x_eq_zero_iff {x y : Coordinate} (h : curve.OnCurve x y) : x = 0 ↔ y * y = 1 := by
  have hsq := EdwardsCurve.onCurve_iff.1 h
  rw [← pow_eq_zero_iff two_ne_zero, hsq, div_eq_zero_iff, or_iff_left (curve.one_sub_mul_sq_ne_zero y), sub_eq_zero,
    pow_two]
  exact eq_comm

theorem canonical_canonicalBytes (P : Point) : Canonical (canonicalBytes P) := by
  refine ⟨isGreatest P.x, .ofValue P.y, rfl, Montgomery.reduced_ofValue _, fun hflag hone => ?_⟩
  rw [Montgomery.value_ofValue, ← x_eq_zero_iff P.onCurve] at hone
  rw [hone] at hflag
  simp [isGreatest] at hflag

theorem fromEncoded_canonicalBytes (P : Point) : fromEncoded lib (canonicalBytes P) = .ok (CurveAffine.ofPoint P) := by
  refine fromEncoded_serialize.2 ⟨rfl, Montgomery.reduced_ofValue _, ?_⟩
  show Picked _ (Montgomery.ofValue P.x).value
  rw [Montgomery.value_ofValue]
  exact picked_isGreatest P.x

theorem canonical_iff (h : fromEncoded lib b = .ok p) : Canonical b ↔ b = canonicalBytes p.toPoint := by
  constructor
  · rintro ⟨greatest, y, rfl, hred, hflag⟩
    obtain ⟨rfl, -, hpick⟩ := fromEncoded_serialize.1 h
    have hgreatest : greatest = isGreatest p.1.x.value := by
      by_cases hx : p.1.x.value = 0
      · cases greatest with
        | true => exact absurd ((x_eq_zero_iff p.2).1 hx) (hflag rfl)
        | false => rw [hx]; simp [isGreatest]
      · exact hpick.eq_isGreatest hx
    have hy : p.1.y = .ofValue p.toPoint.y := (Montgomery.ofValue_value_iff.2 hred).symm
    rw [canonicalBytes, ← hy, hgreatest]
    rfl
  · rintro rfl
    exact canonical_canonicalBytes _

/-! ### Reduced coordinates -/

theorem encodedLimbs_serialize {e : EncodedBabyJubJubPoint} (hlen : 32 ≤ e.y.length) (trailing : Bytes) :
    encodedLimbs (e.serialize ++ trailing) = Bytes.ofLe (e.y.take 32) := by
  show Bytes.ofLe (((Bytes.toLe 8 e.y.length ++ e.y ++ trailing).drop 8).take 32) = _
  rw [List.append_assoc, List.drop_left' (Bytes.length_toLe _ _), List.take_append_of_le_length hlen]

theorem encodedLimbs_eq (h : fromEncoded lib b = .ok p) : p.1.y.limbs = encodedLimbs b := by
  obtain ⟨e, he, hread, -⟩ := fromEncoded_eq_ok.1 h
  obtain ⟨hlen, hlimbs⟩ := Montgomery.readLe_eq_some.1 hread
  obtain ⟨-, trailing, rfl⟩ := EncodedBabyJubJubPoint.deserialize_eq_ok.1 he
  rw [hlimbs, encodedLimbs_serialize hlen]

theorem reduced_iff (h : fromEncoded lib b = .ok p) : p.1.Reduced ↔ encodedLimbs b < prime := by
  obtain ⟨e, -, -, hx, -⟩ := fromEncoded_eq_ok.1 h
  rw [← encodedLimbs_eq h]
  exact ⟨fun hred => hred.y, fun hy => ⟨hx, hy⟩⟩

theorem encodedLimbs_candidate (hs : Hashes) (msg : Bytes) (acc : ℕ) :
    encodedLimbs (candidate hs .babyJubJub msg acc) = Bytes.ofLe (Bytes.toBe 32 (digestNumber hs msg acc % prime)) := by
  have hlen : (Bytes.toBe 32 (digestNumber hs msg acc % prime)).length = 32 := Bytes.length_toBe _ _
  obtain ⟨-, trailing, hcandidate⟩ := EncodedBabyJubJubPoint.deserialize_eq_ok.1 (deserialize_candidate hs msg acc)
  rw [hcandidate, encodedLimbs_serialize hlen.ge, List.take_of_length_le hlen.le]

theorem fromEncoded_append (h : fromEncoded lib b = .ok p) (trailing : Bytes) : fromEncoded lib (b ++ trailing) = .ok p := by
  obtain ⟨e, he, hp⟩ := fromEncoded_eq_ok.1 h
  obtain ⟨hlen, trailing', rfl⟩ := EncodedBabyJubJubPoint.deserialize_eq_ok.1 he
  refine fromEncoded_eq_ok.2 ⟨e, ?_, hp⟩
  rw [List.append_assoc]
  exact EncodedBabyJubJubPoint.deserialize_serialize_append hlen _

/-- What is read has reduced coordinates exactly if the limbs of `y` in the string are below the modulus, and with
`hash_to_curve` these are the bytes of the hash the other way around. No string is the only one for its point; of the
canonical ones a point has one. A point other than the identity is written and read back exactly if its `x` is reduced. -/
theorem decoding_canonical_iff (lib : SquareRoots) :
    (∀ b p, fromEncoded lib b = .ok p → (p.1.Reduced ↔ encodedLimbs b < prime)) ∧
    (∀ hs msg p, hashToCurve hs lib msg = .ok p → ∃ acc < 1024, HashesTo hs lib msg acc p ∧
      (p.1.Reduced ↔ Bytes.ofLe (Bytes.toBe 32 (digestNumber hs msg acc % prime)) < prime)) ∧
    (∀ b p, fromEncoded lib b = .ok p →
      ¬ ∀ b' p', fromEncoded lib b' = .ok p' → p'.toPoint = p.toPoint → b' = b) ∧
    (∀ b p, fromEncoded lib b = .ok p →
      ((∀ b' p', Canonical b' → fromEncoded lib b' = .ok p' → p'.toPoint = p.toPoint → b' = b) ↔ Canonical b)) ∧
    ∀ p : CurveAffine, p.1 ≠ .zero → ((∃ b, encode lib p.1 = .ok b ∧ fromEncoded lib b = .ok p) ↔ p.1.x.Reduced) := by
  refine ⟨fun b p h => reduced_iff h, fun hs msg p h => ?_, fun b p h honly => ?_,
    fun b p h => ⟨fun honly => ?_, fun hb b' p' hb' h' hpoint => ?_⟩, fun p hp => ⟨?_, fun hx => ?_⟩⟩
  · obtain ⟨acc, hacc, hhash, -⟩ := ((hashToCurve_findsFirst hs lib msg).ok_iff p).1 h
    exact ⟨acc, hacc, hhash, by rw [reduced_iff hhash.fromEncoded_eq, encodedLimbs_candidate]⟩
  · have hlen := congrArg List.length (honly _ _ (fromEncoded_append h [0]) rfl)
    rw [List.length_append, List.length_singleton] at hlen
    omega
  · rw [← honly _ _ (canonical_canonicalBytes p.toPoint) (fromEncoded_canonicalBytes _) (CurveAffine.toPoint_ofPoint _)]
    exact canonical_canonicalBytes _
  · rw [(canonical_iff h').1 hb', (canonical_iff h).1 hb, hpoint]
  · rintro ⟨b, henc, -⟩
    exact (encode_eq_ok.1 henc).2.1
  · have henc : encode lib p.1 = .ok _ := encode_eq_ok.2 ⟨hp, hx, rfl⟩
    exact ⟨_, henc, fromEncoded_encode henc⟩

def unreduced (v : Coordinate) : Montgomery prime where
  limbs := (Montgomery.ofValue v).limbs + prime
  lt := by
    have hlt : (Montgomery.ofValue v).limbs < prime := Montgomery.reduced_ofValue v
    exact (Nat.add_lt_add_right hlt prime).trans (by decide)

theorem value_unreduced (v : Coordinate) : (unreduced v).value = v := by
  have hcast : ((unreduced v).limbs : Coordinate) = (Montgomery.ofValue v).limbs := by
    show (((Montgomery.ofValue v).limbs + prime : ℕ) : Coordinate) = _
    rw [Nat.cast_add, ZMod.natCast_self, add_zero]
  rw [Montgomery.value, hcast]
  exact Montgomery.value_ofValue v

theorem not_reduced_unreduced (v : Coordinate) : ¬ (unreduced v).Reduced :=
  not_lt.2 (Nat.le_add_left prime _)

def CurveAffine.ofLimbs {x y : Montgomery prime} (P : Point) (hx : x.value = P.x) (hy : y.value = P.y) : CurveAffine where
  val := ⟨x, y⟩
  property := by
    show curve.OnCurve x.value y.value
    rw [hx, hy]
    exact P.onCurve

theorem CurveAffine.toPoint_ofLimbs {x y : Montgomery prime} (hx : x.value = P.x) (hy : y.value = P.y) :
    (ofLimbs P hx hy).toPoint = P :=
  EdwardsCurve.Point.ext hx hy

def shiftedGenerator : Bytes :=
  EncodedBabyJubJubPoint.serialize ⟨isGreatest generator.x, (unreduced generator.y).writeLe⟩

/-- The string is accepted, the point that is returned is not reduced, another string stands for it, and with limbs of `x`
that are not reduced it cannot be written. -/
theorem decoding_not_canonical :
    (∃ p, fromEncoded .chosen shiftedGenerator = .ok p ∧ ¬ p.1.Reduced ∧
      ∃ b' p', b' ≠ shiftedGenerator ∧ fromEncoded .chosen b' = .ok p' ∧ p'.toPoint = p.toPoint) ∧
    ∃ p : CurveAffine, p.toPoint = generator ∧ ∀ b, encode .chosen p.1 ≠ .ok b := by
  refine ⟨⟨.ofLimbs generator (Montgomery.value_ofValue _) (value_unreduced _), fromEncoded_serialize.2 ?_, ?_,
    canonicalBytes generator, .ofPoint generator, ?_, fromEncoded_canonicalBytes _, ?_⟩, ?_⟩
  · refine ⟨rfl, Montgomery.reduced_ofValue _, ?_⟩
    show Picked _ (Montgomery.ofValue generator.x).value
    rw [Montgomery.value_ofValue]
    exact picked_isGreatest _
  · exact fun h => not_reduced_unreduced _ h.y
  · intro hbytes
    have h := deserialize_writeLe (isGreatest generator.x) (unreduced generator.y) []
    rw [List.append_nil, ← shiftedGenerator, ← hbytes, canonicalBytes, ← List.append_nil (EncodedBabyJubJubPoint.serialize _),
      deserialize_writeLe, Except.ok.injEq, EncodedBabyJubJubPoint.mk.injEq] at h
    have hlimbs := congrArg (Montgomery.readLe (p := prime)) h.2
    rw [Montgomery.readLe_writeLe, Montgomery.readLe_writeLe, Option.some.injEq] at hlimbs
    exact not_reduced_unreduced generator.y (hlimbs ▸ Montgomery.reduced_ofValue _)
  · rw [CurveAffine.toPoint_ofPoint, CurveAffine.toPoint_ofLimbs]
  · refine ⟨.ofLimbs generator (value_unreduced _) (Montgomery.value_ofValue _), CurveAffine.toPoint_ofLimbs _ _, ?_⟩
    intro b hb
    exact not_reduced_unreduced _ (encode_eq_ok.1 hb).2.1

end BabyJubJub

end HumanNetwork
