import HumanNetwork.BabyJubJub
import HumanNetwork.Lib.Decimal
import HumanNetwork.ShareCustody

/-!
# Scalars, field elements and the bytes of a share (`curve.rs`, `dkg.rs`)

A share is an element of `F256k1` or `BABYJUBJUB`, while points are multiplied by a `Scalar` of `k256` or by an `Fr`,
which is in Montgomery form. An element becomes a scalar by its decimal text, and a scalar becomes an element by its
bytes. Between the elements and the scalars in reduced form these are ring isomorphisms (`scalarEquiv`). A share is saved
as the bytes of the scalar, which for `Fr` are its limbs.

The rest of the development has one type for both and reads and writes it by value; `privShareBytes_eq` and
`restored_of_withRsaKeyAndKeyshare` say that this is what the conversions amount to.
-/

namespace HumanNetwork
open Outcome

namespace CurveId

/-! ### The two types -/

/-- `Curve::Scalar`. -/
def ScalarForm : CurveId → Type
  | secp256k1 => ZMod (order secp256k1)
  | babyJubJub => BabyJubJub.Fr

def CanonicalScalar : CurveId → Type
  | secp256k1 => ZMod (order secp256k1)
  | babyJubJub => Montgomery.Canonical (order babyJubJub)

namespace CanonicalScalar

def form : (c : CurveId) → c.CanonicalScalar → c.ScalarForm
  | secp256k1, s => s
  | babyJubJub, s => s.1

instance : (c : CurveId) → Add c.CanonicalScalar
  | secp256k1 => inferInstanceAs (Add (ZMod (order secp256k1)))
  | babyJubJub => inferInstanceAs (Add (Montgomery.Canonical (order babyJubJub)))

instance : (c : CurveId) → Mul c.CanonicalScalar
  | secp256k1 => inferInstanceAs (Mul (ZMod (order secp256k1)))
  | babyJubJub => inferInstanceAs (Mul (Montgomery.Canonical (order babyJubJub)))

end CanonicalScalar

def scalarEquiv : (c : CurveId) → c.Scalar ≃+* c.CanonicalScalar
  | secp256k1 => RingEquiv.refl (ZMod (order secp256k1))
  | babyJubJub => Montgomery.equivReduced (order babyJubJub)

/-! ### Conversions -/

section Conversions
variable {ε : Type}

def fromRepr (c : CurveId) (repr : Bytes) : Option c.Scalar :=
  if Bytes.ofBe repr < c.order then some (Bytes.ofBe repr : c.Scalar) else none

/-- The bytes behind zeros, to 40 bytes. -/
def as40BeBytes (asBeBytes : Bytes) : Bytes := List.replicate (40 - asBeBytes.length) 0 ++ asBeBytes

/-- `From<Curve::Scalar> for Curve::FieldEl`. -/
def fieldElOfScalar : (c : CurveId) → c.ScalarForm → Outcome ε c.Scalar
  | secp256k1, (value : ZMod (order secp256k1)) =>
    unwrap (fromRepr secp256k1 (as40BeBytes (Bytes.toBe 32 value.val))) "assertion `left == right` failed"
  | babyJubJub, (value : BabyJubJub.Fr) =>
    let as40 := as40BeBytes (Bytes.toBe 32 value.intoBigint)
    unwrap (fromRepr babyJubJub (as40.drop (as40.length - 32))) "assertion `left == right` failed"

def fromStrVartime (s : String) : Option (ZMod (order secp256k1)) := Decimal.parse s.toList

/-- `Fr::from_str`. A sign, which a `BigUint` has not, is left out. -/
def frFromStr (s : String) : Option BabyJubJub.Fr :=
  if s.toList = [] then none else (Decimal.read (0 : ℕ) s.toList).map fun n => .ofValue (n : ZMod (order babyJubJub))

/-- `From<Curve::FieldEl> for Curve::Scalar`. -/
def scalarOfFieldEl : (c : CurveId) → c.Scalar → Outcome ε c.ScalarForm
  | secp256k1, value =>
    unwrap (fromStrVartime (toString (Bytes.ofBe (toRepr secp256k1 value)))) unwrapNone
  | babyJubJub, value =>
    unwrap (frFromStr (toString (Bytes.ofBe (toRepr babyJubJub value)))) "called `Result::unwrap()` on an `Err` value: ()"

variable {c : CurveId}

theorem ofBe_toRepr (x : c.Scalar) : Bytes.ofBe (c.toRepr x) = x.val :=
  Bytes.ofBe_toBe ((ZMod.val_lt x).trans c.order_lt_reprLen)

theorem fromRepr_of_lt {repr : Bytes} {n : ℕ} (hrepr : Bytes.ofBe repr = n) (hn : n < c.order) :
    c.fromRepr repr = some (n : c.Scalar) := by
  rw [fromRepr, hrepr, if_pos hn]

theorem ofBe_as40BeBytes (bytes : Bytes) : Bytes.ofBe (as40BeBytes bytes) = Bytes.ofBe bytes := by
  have hzeros (n : ℕ) : Bytes.ofBe (List.replicate n 0) = 0 := by
    rw [← List.reverse_replicate, ← Bytes.toLe_zero]
    exact (Bytes.ofBe_toBe_eq_mod n 0).trans (Nat.zero_mod _)
  rw [as40BeBytes, Bytes.ofBe_append, hzeros, Nat.mul_zero, Nat.add_zero]

theorem drop_as40BeBytes {bytes : Bytes} (h : bytes.length = 32) :
    (as40BeBytes bytes).drop ((as40BeBytes bytes).length - 32) = bytes := by
  rw [as40BeBytes, List.length_append, h, Nat.add_sub_cancel]
  exact List.drop_left

theorem toList_toString (n : ℕ) : (toString n).toList = Nat.toDigits 10 n := by
  rw [Nat.toString_eq_repr, Nat.toList_repr]

theorem frFromStr_toString (n : ℕ) : frFromStr (toString n) = some (.ofValue (n : ZMod (order babyJubJub))) := by
  rw [frFromStr, toList_toString, if_neg Nat.toDigits_ne_nil, Decimal.read_toDigits]
  rfl

theorem scalarOfFieldEl_eq (c : CurveId) (x : c.Scalar) :
    (c.scalarOfFieldEl x : Outcome ε _) = .ok (CanonicalScalar.form c (c.scalarEquiv x)) := by
  cases c with
  | secp256k1 =>
    rw [scalarOfFieldEl, ofBe_toRepr, fromStrVartime, toList_toString, Decimal.parse_toDigits, ZMod.natCast_zmod_val]
    rfl
  | babyJubJub =>
    rw [scalarOfFieldEl, ofBe_toRepr, frFromStr_toString, ZMod.natCast_zmod_val]
    rfl

theorem fieldElOfScalar_secp256k1 (x : ZMod (order secp256k1)) : (fieldElOfScalar secp256k1 x : Outcome ε _) = .ok x := by
  have hrepr : Bytes.ofBe (as40BeBytes (Bytes.toBe 32 x.val)) = x.val := by
    rw [ofBe_as40BeBytes, Bytes.ofBe_toBe (val_lt_pow secp256k1 x)]
  rw [fieldElOfScalar, fromRepr_of_lt hrepr (ZMod.val_lt x), ZMod.natCast_zmod_val]
  rfl

/-- A multiple of the order other than zero is no element. -/
theorem fieldElOfScalar_babyJubJub (a : BabyJubJub.Fr) : (fieldElOfScalar babyJubJub a : Outcome ε _) =
    if a.intoBigint < order babyJubJub then .ok a.value else crash "assertion `left == right` failed" := by
  have hlt : a.intoBigint < 256 ^ 32 := a.intoBigint_le.trans_lt (order_lt_pow babyJubJub)
  rw [fieldElOfScalar]
  simp only [drop_as40BeBytes (Bytes.length_toBe 32 a.intoBigint)]
  rw [fromRepr, Bytes.ofBe_toBe hlt, a.natCast_intoBigint]
  split
  · rfl
  · rfl

theorem value_of_fieldElOfScalar {a : BabyJubJub.Fr} {x : ZMod (order babyJubJub)}
    (h : (fieldElOfScalar babyJubJub a : Outcome ε _) = .ok x) : a.value = x := by
  rw [fieldElOfScalar_babyJubJub] at h
  split at h
  · exact Except.ok.inj h
  · cases h

theorem fieldElOfScalar_eq (c : CurveId) (s : c.CanonicalScalar) :
    (c.fieldElOfScalar (CanonicalScalar.form c s) : Outcome ε _) = .ok (c.scalarEquiv.symm s) := by
  cases c with
  | secp256k1 => exact fieldElOfScalar_secp256k1 s
  | babyJubJub =>
    have hlt : s.1.intoBigint < order babyJubJub := by
      rw [Montgomery.intoBigint_of_reduced s.2]
      exact ZMod.val_lt _
    exact (fieldElOfScalar_babyJubJub s.1).trans (if_pos hlt)

/-! ### The bytes of a scalar -/

def scalarToBytes : (c : CurveId) → c.ScalarForm → Bytes
  | secp256k1, (s : ZMod (order secp256k1)) => toBytes secp256k1 s
  | babyJubJub, (s : BabyJubJub.Fr) => s.writeLe

def scalarFromBytes : (c : CurveId) → Bytes → Outcome Error c.ScalarForm
  | secp256k1, bytes => fromBytes secp256k1 bytes
  | babyJubJub, bytes => unwrap (Montgomery.readLe bytes : Option BabyJubJub.Fr) shortLimbs

theorem scalarFromBytes_toBytes (c : CurveId) (s : c.ScalarForm) : c.scalarFromBytes (c.scalarToBytes s) = .ok s := by
  cases c with
  | secp256k1 => exact fromBytes_toBytes secp256k1 s
  | babyJubJub => exact congrArg (unwrap · shortLimbs) (Montgomery.readLe_writeLe (s : BabyJubJub.Fr))

def privShareBytes (c : CurveId) (privateShare : c.Scalar) : Outcome ε Bytes := do
  return c.scalarToBytes (← c.scalarOfFieldEl privateShare)

theorem scalarToBytes_scalarEquiv (c : CurveId) (x : c.Scalar) :
    c.scalarToBytes (CanonicalScalar.form c (c.scalarEquiv x)) = c.toBytes x := by
  cases c with
  | secp256k1 => rfl
  | babyJubJub => exact Montgomery.writeLe_ofValue x

theorem fromBytes_of_fieldElOfScalar {bytes : Bytes} {s : c.ScalarForm} {x : c.Scalar} (hs : c.scalarFromBytes bytes = .ok s)
    (hx : (c.fieldElOfScalar s : Outcome ε _) = .ok x) : c.fromBytes bytes = .ok x := by
  cases c with
  | secp256k1 =>
    obtain rfl := Except.ok.inj ((fieldElOfScalar_secp256k1 s).symm.trans hx)
    exact hs
  | babyJubJub =>
    obtain ⟨hlen, hlimbs⟩ := Montgomery.readLe_eq_some.1 ((unwrap_eq_ok (ε := Error)).1 hs)
    rw [fromBytes, check_of hlen, bind_ok, ← hlimbs]
    exact congrArg Except.ok (value_of_fieldElOfScalar hx)

end Conversions
end CurveId

/-! ### Restored nodes -/

section Nodes
variable {R : Rsa} {C : Curve}

/-- The last argument is the random own partial share. -/
def Node.withRsaKeyAndKeyshare (id : ℕ) (rsaSeckey : R.SecretKey) (keyshare networkPubkey : Bytes)
    (ownPartialShare : C.FieldEl) : Outcome DKGError (Node R C) := do
  let scalar ← unwrapOk Error.debug (C.id.scalarFromBytes keyshare)
  let keyshareData ← C.id.fieldElOfScalar scalar
  let networkPubkey ← mapErr (fun e => .other ("Failed to restore network_pub key " ++ e.display))
    (C.fromEncoded networkPubkey)
  return ⟨id, R.publicKey rsaSeckey, rsaSeckey, 0, keyshareData, networkPubkey, ownPartialShare⟩

theorem Node.withRsaKeyAndKeyshare_eq_ok {id : ℕ} {rsaSeckey : R.SecretKey} {keyshare networkPubkey : Bytes} {own : C.FieldEl}
    {node : Node R C} : Node.withRsaKeyAndKeyshare id rsaSeckey keyshare networkPubkey own = .ok node ↔
      ∃ s x K, C.id.scalarFromBytes keyshare = .ok s ∧ (C.id.fieldElOfScalar s : Outcome DKGError _) = .ok x ∧
        C.fromEncoded networkPubkey = .ok K ∧ ⟨id, R.publicKey rsaSeckey, rsaSeckey, 0, x, K, own⟩ = node := by
  simp only [Node.withRsaKeyAndKeyshare, bind_eq_ok, unwrapOk_eq_ok, mapErr_eq_ok, pure_eq_ok, Except.ok.injEq]
  constructor
  · rintro ⟨s, hs, x, hx, K, hK, h⟩
    exact ⟨s, x, K, hs, hx, hK, h⟩
  · rintro ⟨s, x, K, hs, hx, hK, h⟩
    exact ⟨s, hs, x, hx, K, hK, h⟩

theorem NodeDataVariant.privShareBytes_eq {env : EngineEnv} (self : NodeDataVariant env) :
    ((env.curve self.c).id.privShareBytes self.data.node.privateShare : Outcome DKGError _) = .ok self.getPrivShare := by
  rw [CurveId.privShareBytes, CurveId.scalarOfFieldEl_eq, bind_ok, CurveId.scalarToBytes_scalarEquiv]
  rfl

theorem NodeDataVariant.restored_of_withRsaKeyAndKeyshare {env : EngineEnv} {m : Method} {rsaPrivateKey : env.R.SecretKey}
    {idx : ℕ} {keyshare networkPubkey : Bytes} {coins : NodeCoins env} {node : Node env.R (env.curve m.curve)}
    (h : Node.withRsaKeyAndKeyshare idx rsaPrivateKey keyshare networkPubkey (coins m).2 = .ok node) :
    NodeDataVariant.restored env m rsaPrivateKey idx keyshare networkPubkey coins = .ok ⟨m.curve, ⟨∅, ∅, ∅, node⟩⟩ := by
  obtain ⟨s, x, K, hs, hx, hK, rfl⟩ := Node.withRsaKeyAndKeyshare_eq_ok.1 h
  rw [NodeDataVariant.restored, CurveId.fromBytes_of_fieldElOfScalar hs hx, hK]
  rfl

/-- A share is saved as bytes from which it is restored, so that a restored node multiplies with the same scalar and deals the
same in a resharing. The conversions behind it are isomorphisms between the elements of the field and the scalars. -/
theorem share_persists (R : Rsa) (C : Curve) :
    (∃ e : C.FieldEl ≃+* C.id.CanonicalScalar,
      (∀ x, (C.id.scalarOfFieldEl x : Outcome DKGError _) = .ok (CurveId.CanonicalScalar.form C.id (e x))) ∧
        ∀ s, (C.id.fieldElOfScalar (CurveId.CanonicalScalar.form C.id s) : Outcome DKGError _) = .ok (e.symm s)) ∧
      ∀ node : Node R C, ∃ s bytes, (C.id.scalarOfFieldEl node.privateShare : Outcome DKGError _) = .ok s ∧
        (C.id.privShareBytes node.privateShare : Outcome DKGError _) = .ok bytes ∧ C.id.scalarFromBytes bytes = .ok s ∧
        ∀ rsaSeckey networkPubkey K own, C.fromEncoded networkPubkey = .ok K →
          ∃ restored : Node R C, Node.withRsaKeyAndKeyshare node.id rsaSeckey bytes networkPubkey own = .ok restored ∧
            restored.privateShare = node.privateShare ∧ ∀ tStar newQuorum rng coins,
              restored.resharingRound1 tStar newQuorum rng coins = node.resharingRound1 tStar newQuorum rng coins := by
  refine ⟨⟨C.id.scalarEquiv, C.id.scalarOfFieldEl_eq, C.id.fieldElOfScalar_eq⟩, fun node => ?_⟩
  have hscalar := C.id.scalarOfFieldEl_eq (ε := DKGError) node.privateShare
  refine ⟨_, _, hscalar, by rw [CurveId.privShareBytes, hscalar]; rfl, C.id.scalarFromBytes_toBytes _, ?_⟩
  intro rsaSeckey networkPubkey K own hK
  have hfield := C.id.fieldElOfScalar_eq (ε := DKGError) (C.id.scalarEquiv node.privateShare)
  rw [RingEquiv.symm_apply_apply] at hfield
  refine ⟨_, Node.withRsaKeyAndKeyshare_eq_ok.2 ⟨_, _, K, C.id.scalarFromBytes_toBytes _, hfield, hK, rfl⟩, rfl, ?_⟩
  intro tStar newQuorum rng coins
  rfl

end Nodes

end HumanNetwork
