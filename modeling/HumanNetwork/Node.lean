import HumanNetwork.Feldman

/-!
# Networks, nodes and the steps of the sharing rounds (`dkg.rs`, `resharing.rs`)

The rounds of key generation and of resharing are made of the same steps with the same texts, over
two error types; `Step` names the two constructors they use. RSA is a parameter: `Rsa.Lossless` says
that a ciphertext decrypts to what was encrypted.

Each step has one lemma that says what it computes: `encryptShares_ok`, `decryptShares_honest`,
`verifyShares_ok`, `sumFreeTerms_eq_ok` and `interpolateKeys_eq_ok`.
-/

namespace HumanNetwork
open Outcome

/-- PKCS#1 v1.5 encryption. `Coin` is the randomness of one encryption. -/
structure Rsa where
  PublicKey : Type
  SecretKey : Type
  Coin : Type
  publicKey : SecretKey → PublicKey
  encrypt : PublicKey → Coin → Bytes → Outcome String Bytes
  decrypt : SecretKey → Bytes → Option Bytes

class Rsa.Lossless (R : Rsa) : Prop where
  decrypt_encrypt : ∀ {sk coin m ct}, R.encrypt (R.publicKey sk) coin m = .ok ct → R.decrypt sk ct = some m

/-- The padding refuses a message only for its length. -/
class Rsa.RefusesByLength (R : Rsa) : Prop where
  encrypts : ∀ {pk coin m m' ct}, m.length = m'.length → R.encrypt pk coin m = .ok ct →
    ∃ ct', R.encrypt pk coin m' = .ok ct'

/-- A box in place of RSA: a ciphertext names the key that opens it. -/
abbrev boxRsa : Rsa where
  PublicKey := ℕ
  SecretKey := ℕ
  Coin := UInt8
  publicKey sk := sk
  encrypt pk coin m := .ok (Bytes.toBe 16 pk ++ coin :: m)
  decrypt sk ct := if ct.take 16 = Bytes.toBe 16 sk then some (ct.drop 17) else none

instance : boxRsa.Lossless where
  decrypt_encrypt := by
    intro (sk : ℕ) (coin : UInt8) m ct h
    have hlen : (Bytes.toBe 16 sk).length = 16 := Bytes.length_toBe 16 sk
    obtain rfl := Except.ok.inj h
    show (if (Bytes.toBe 16 sk ++ coin :: m).take 16 = Bytes.toBe 16 sk then
      some ((Bytes.toBe 16 sk ++ coin :: m).drop 17) else none) = some m
    rw [List.take_left' hlen, if_pos rfl, List.drop_append, hlen, List.drop_eq_nil_of_le (by omega)]
    rfl

instance : boxRsa.RefusesByLength where
  encrypts _ _ := ⟨_, rfl⟩

inductive ResharingError where
  | rsaError (msg : String)
  | keyGenerationFailed (msg : String)
  | publicKeyVerificationFailed
  | other (msg : String)
deriving DecidableEq, Repr

inductive DKGError where
  | rsaError (msg : String)
  | keyGenerationFailed (msg : String)
  | publicKeyVerificationFailed
  | other (msg : String)
  | resharingError (e : ResharingError)
deriving DecidableEq, Repr

variable (R : Rsa) (C : Curve)

/-- Only `Network.new` makes a network, and it refuses the parameters that the fields exclude. -/
structure Network where
  threshold : ℕ
  totalNodes : ℕ
  publicKeys : HMap ℕ R.PublicKey
  threshold_pos : 0 < threshold
  threshold_le : threshold ≤ totalNodes

structure Node where
  id : ℕ
  rsaPubkey : R.PublicKey
  rsaSeckey : R.SecretKey
  initPubShare : C.Point
  privateShare : C.FieldEl
  networkPubkey : C.Point
  ownPartialShare : C.FieldEl

variable {R C}

namespace Network

def invalid (t n : ℕ) (isTstar : Bool) : Bool :=
  if isTstar then decide (t > n ∨ n < 2 ∨ t = 0) else decide (t ≥ n ∨ n ≤ 2 ∨ t = 0)

theorem invalid_tstar {t n : ℕ} : invalid t n true = false ↔ t ≤ n ∧ 2 ≤ n ∧ 0 < t := by
  simp only [invalid, if_true, decide_eq_false_iff_not]
  omega

theorem invalid_new {t n : ℕ} : invalid t n false = false ↔ t < n ∧ 2 < n ∧ 0 < t := by
  simp only [invalid, Bool.false_eq_true, if_false, decide_eq_false_iff_not]
  omega

def new (R : Rsa) (t n : ℕ) (isTstar : Bool) : Outcome Error (Network R) :=
  if h : invalid t n isTstar then
    let kind := if isTstar then "tstar" else "new"
    fail (.other s!"Invalid parameters for {kind} network. t={t}, n={n}")
  else
    have hvalid : 0 < t ∧ t ≤ n := by
      cases isTstar <;> simp [invalid] at h <;> omega
    .ok { threshold := t, totalNodes := n, publicKeys := ∅, threshold_pos := hvalid.1, threshold_le := hvalid.2 }

theorem new_dkg_eq_ok {t n : ℕ} {network : Network R} (h : new R t n false = .ok network) :
    0 < t ∧ t < n ∧ 2 < n ∧ network.threshold = t ∧ network.totalNodes = n ∧ network.publicKeys = ∅ := by
  unfold new at h
  split at h
  next => cases h
  next hvalid =>
    obtain rfl := Except.ok.inj h
    simp [invalid] at hvalid
    exact ⟨by omega, by omega, by omega, rfl, rfl, rfl⟩

end Network

/-! ### The steps -/

/-- The constructors `RsaError` and `Other` of the error type of a round. -/
structure Step (ε : Type) where
  rsaError : String → ε
  other : String → ε

variable {ε : Type} (st : Step ε)

def encryptShares (y : HMap ℕ C.FieldEl) (recipients : HMap ℕ R.PublicKey) (coins : ℕ → R.Coin) :
    Outcome ε (HMap ℕ Bytes) :=
  recipients.mapValM fun key value => do
    let yi ← okOr (y.get? key) (st.other s!"Computed Polynomial not found for {key}")
    mapErr (fun e => st.rsaError s!"Failed to encrypt the y_i: {e}")
      (R.encrypt value (coins key) (C.id.toRepr yi))

def decryptShares (C : Curve) (sk : R.SecretKey) (inputY : HMap ℕ Bytes) : Outcome ε (HMap ℕ C.FieldEl) :=
  inputY.mapValM fun _ value => do
    let m ← okOr (R.decrypt sk value) (st.rsaError "Failed to Decrypt the encrypted value")
    mapErr (fun _ => st.other "Failed to convert to Scalar") (C.id.fromBiguintVartime (Bytes.ofBe m))

def verifyShares (prof : Profile) (id : ℕ) (y : HMap ℕ C.FieldEl) (inputV : HMap ℕ (List C.Point)) :
    Outcome ε PUnit :=
  y.entries.forM fun e => do
    let eval ← okOr (y.get? e.1) (st.other "Eval not found")
    match inputV.get? e.1 with
    | some inputVValue =>
      let verified ← verifyVss C prof id eval inputVValue
      if verified then pure ⟨⟩ else fail (st.other "VSS not verified - step 9")
    | none => fail (st.other "Input VSS value not found")

def sumFreeTerms (inputV : HMap ℕ (List C.Point)) (init : C.Point) : Outcome ε C.Point :=
  inputV.values.foldlM (fun acc x => do
    let x0 ← unwrap x[0]? "index out of bounds: the len is 0 but the index is 0"
    pure (C.addSelf acc x0)) init

def interpolateKeys (network : Network R) (Kj : HMap ℕ C.Point) : Outcome ε C.Point := do
  let indices := network.publicKeys.keys.map (· % 2 ^ 32)
  let lambda : HMap ℕ C.FieldEl ← network.publicKeys.mapValM fun key _ =>
    lagrangeBasisAt0 (key % 2 ^ 32) indices
  lambda.entries.foldlM (fun acc e => do
    let K_j ← okOr (Kj.get? e.1) (st.other "Key not found")
    let temp := C.scalarMul K_j e.2
    pure (C.addSelf acc temp)) 0

/-! ### What the steps compute -/

theorem encryptShares_ok {y : HMap ℕ C.FieldEl} {recipients : HMap ℕ R.PublicKey} {coins : ℕ → R.Coin}
    {yCt : HMap ℕ Bytes} (h : encryptShares st y recipients coins = .ok yCt) {k : ℕ} {ct : Bytes}
    (hk : yCt.get? k = some ct) : ∃ pk yi, recipients.get? k = some pk ∧ y.get? k = some yi ∧
      R.encrypt pk (coins k) (C.id.toRepr yi) = .ok ct := by
  obtain ⟨pk, hpk, hct⟩ := HMap.get?_of_mapValM h hk
  rw [bind_eq_ok] at hct
  obtain ⟨yi, hyi, hct⟩ := hct
  rw [okOr_eq_ok] at hyi
  rw [mapErr_eq_ok] at hct
  exact ⟨pk, yi, hpk, hyi, hct⟩

theorem keys_encryptShares {y : HMap ℕ C.FieldEl} {recipients : HMap ℕ R.PublicKey} {coins : ℕ → R.Coin}
    {yCt : HMap ℕ Bytes} (h : encryptShares st y recipients coins = .ok yCt) : yCt.keys = recipients.keys :=
  HMap.keys_of_mapValM h

theorem encryptShares_of_ok [R.RefusesByLength] {y y' : HMap ℕ C.FieldEl} {recipients : HMap ℕ R.PublicKey}
    {coins : ℕ → R.Coin} {yCt : HMap ℕ Bytes} (h : encryptShares st y recipients coins = .ok yCt)
    (hkeys : ∀ k ∈ recipients.keys, k ∈ y'.keys) : ∃ yCt', encryptShares st y' recipients coins = .ok yCt' := by
  have hstep : ∀ k pk, ∃ ct', recipients.get? k = some pk →
      (okOr (y'.get? k) (st.other s!"Computed Polynomial not found for {k}") >>= fun yi =>
        mapErr (fun e => st.rsaError s!"Failed to encrypt the y_i: {e}")
          (R.encrypt pk (coins k) (C.id.toRepr yi)) : Outcome ε Bytes) = .ok ct' := by
    intro k pk
    by_cases hk : recipients.get? k = some pk
    · obtain ⟨ct, hct, -⟩ := HMap.exists_of_mapValM h hk
      obtain ⟨pk', yi, hpk', -, henc⟩ := encryptShares_ok st h hct
      rw [hk] at hpk'
      obtain rfl := Option.some.inj hpk'
      obtain ⟨yi', hyi'⟩ := HMap.exists_get? (hkeys k (HMap.mem_keys_of_mem (HMap.get?_eq_some.1 hk)))
      have hlen : (C.id.toRepr yi).length = (C.id.toRepr yi').length := by
        rw [CurveId.length_toRepr, CurveId.length_toRepr]
      obtain ⟨ct', hct'⟩ := Rsa.RefusesByLength.encrypts hlen henc
      refine ⟨ct', fun _ => ?_⟩
      rw [okOr_eq_ok.2 hyi', bind_ok, hct', mapErr]
    · exact ⟨[], fun hk' => absurd hk' hk⟩
  choose g hg using hstep
  exact ⟨recipients.mapVal g, HMap.mapValM_of_ok hg⟩

theorem decryptShares_honest {sk : R.SecretKey} {inputY : HMap ℕ Bytes} {g : ℕ → C.FieldEl}
    (h : ∀ k ct, inputY.get? k = some ct → R.decrypt sk ct = some (C.id.toRepr (g k))) :
    decryptShares st C sk inputY = .ok (inputY.mapVal fun k _ => g k) := by
  refine HMap.mapValM_of_ok fun k ct hk => ?_
  simp only [h k ct hk, okOr, bind_ok, C.id.fromBiguintVartime_toRepr, mapErr]

theorem keys_decryptShares {sk : R.SecretKey} {inputY : HMap ℕ Bytes} {y : HMap ℕ C.FieldEl}
    (h : decryptShares st C sk inputY = .ok y) : y.keys = inputY.keys :=
  HMap.keys_of_mapValM h

theorem verifyShares_ok {prof : Profile} {id : ℕ} {y : HMap ℕ C.FieldEl} {inputV : HMap ℕ (List C.Point)}
    {u : PUnit} : verifyShares st prof id y inputV = .ok u ↔
      ∀ k share, y.get? k = some share → ∃ checks, inputV.get? k = some checks ∧
        (verifyVss C prof id share checks : Outcome ε Bool) = .ok true := by
  rw [verifyShares, forM_eq_ok]
  constructor
  · intro h k share hk
    have hstep := h (k, share) (HMap.get?_eq_some.1 hk)
    simp only [hk, bind_eq_ok, okOr_eq_ok, Option.some.injEq] at hstep
    obtain ⟨_, rfl, hstep⟩ := hstep
    cases hv : inputV.get? k with
    | none => simp [hv, fail] at hstep
    | some checks =>
      simp only [hv, bind_eq_ok] at hstep
      obtain ⟨verified, hok, hstep⟩ := hstep
      cases verified with
      | true => exact ⟨checks, rfl, hok⟩
      | false => simp [fail] at hstep
  · rintro h ⟨k, share⟩ he
    have hk := HMap.get?_eq_some.2 he
    obtain ⟨checks, hv, hok⟩ := h k share hk
    simp only [hk, hv, okOr]
    rw [bind_ok, hok]
    rfl

theorem errorsIn_decryptShares {p : ε → Prop} (h : p (st.other "Failed to convert to Scalar"))
    (hrsa : p (st.rsaError "Failed to Decrypt the encrypted value")) (sk : R.SecretKey) (inputY : HMap ℕ Bytes) :
    ErrorsIn p (decryptShares st C sk inputY) :=
  HMap.errorsIn_mapValM fun _ _ => (ErrorsIn.okOr _ hrsa).bind fun _ _ => .mapErr _ fun _ => h

theorem errorsIn_verifyShares {p : ε → Prop}
    (h : ∀ msg ∈ ["Eval not found", "VSS not verified - step 9", "Input VSS value not found"], p (st.other msg))
    (prof : Profile) (id : ℕ) (y : HMap ℕ C.FieldEl) (inputV : HMap ℕ (List C.Point)) :
    ErrorsIn p (verifyShares st prof id y inputV) := by
  refine ErrorsIn.forM fun e _ => (ErrorsIn.okOr _ (h _ (by simp))).bind fun _ _ => ?_
  cases inputV.get? e.1 with
  | none => exact .fail (h _ (by simp))
  | some checks =>
    refine (errorsIn_verifyVss C prof id _ checks).bind fun verified _ => ?_
    cases verified with
    | true => exact .ok _
    | false => exact .fail (h _ (by simp))

/-- The group key is the sum of the free terms that `head` reads off the commitments. -/
theorem sumFreeTerms_eq_ok {inputV : HMap ℕ (List C.Point)} {head : ℕ → C.Point}
    (h : ∀ k v, inputV.get? k = some v → v[0]? = some (head k)) (init : C.Point) :
    (sumFreeTerms inputV init : Outcome ε C.Point) = .ok (init + (inputV.keys.map head).sum) := by
  have hstep : ∀ acc : C.Point, ∀ e ∈ inputV.entries,
      (unwrap e.2[0]? "index out of bounds: the len is 0 but the index is 0" >>= fun x0 =>
        pure (C.addSelf acc x0) : Outcome ε C.Point) = .ok (acc + head e.1) := by
    rintro acc ⟨k, v⟩ he
    rw [h k v (HMap.get?_eq_some.2 he)]
    rfl
  have hsum : ∀ (l : List (ℕ × List C.Point)) (acc : C.Point),
      l.foldl (fun acc e => acc + head e.1) acc = acc + ((l.map Prod.fst).map head).sum := by
    intro l
    induction l with
    | nil => simp
    | cons e l ih => intro acc; simp [ih, add_assoc]
  rw [sumFreeTerms, HMap.values, List.foldlM_map, foldlM_eq_ok hstep, hsum, HMap.keys]

/-- The shares of the listed nodes, combined with the weights that the code computes for them. -/
def interpolateAt0 (indices : List ℕ) (share : ℕ → C.FieldEl) : Outcome ε C.FieldEl :=
  indices.foldlM (fun acc i => do
    let lambda ← lagrangeBasisAt0 i indices
    pure (acc + lambda * share i)) 0

theorem interpolateAt0_eq_ok {ids : List ℕ} {share : ℕ → C.FieldEl} {f : Polynomial C.FieldEl}
    (hnd : ids.Nodup) (hids : ∀ k ∈ ids, 0 < k ∧ k < 2 ^ 32) (hf : f.degree < ids.length)
    (hshare : ∀ k ∈ ids, share k = f.eval (k : C.FieldEl)) :
    (interpolateAt0 ids share : Outcome ε C.FieldEl) = .ok (f.eval 0) := by
  set w : ℕ → C.FieldEl := Shamir.weight ids.toFinset (fun j : ℕ => (j : C.FieldEl)) with hw
  have hstep : ∀ acc : C.FieldEl, ∀ k ∈ ids,
      (lagrangeBasisAt0 k ids >>= fun lambda => pure (acc + lambda * share k) : Outcome ε C.FieldEl) =
      .ok (acc + w k * f.eval (k : C.FieldEl)) := by
    intro acc k hk
    rw [lagrangeBasisAt0_ids hnd hids hk, hshare k hk]
    rfl
  have hinj : Set.InjOn (fun j : ℕ => (j : C.FieldEl)) (ids.toFinset : Set ℕ) :=
    C.id.natCast_injOn fun j hj => (hids j (List.mem_toFinset.1 hj)).2.trans (by decide)
  have hcard : f.degree < (ids.toFinset.card : ℕ) := by rwa [List.toFinset_card_of_nodup hnd]
  rw [interpolateAt0, foldlM_eq_ok hstep, ← Shamir.sum_weight_mul_eval hinj hcard, List.sum_toFinset _ hnd,
    List.sum_eq_foldl, List.foldl_map]

theorem interpolateKeys_of_weights {network : Network R} {Kj : HMap ℕ C.Point} {w : ℕ → C.FieldEl}
    (hw : ∀ k ∈ network.publicKeys.keys,
      (lagrangeBasisAt0 (k % 2 ^ 32) (network.publicKeys.keys.map (· % 2 ^ 32)) : Outcome ε C.FieldEl) = .ok (w k))
    {res : C.Point} :
    interpolateKeys st network Kj = .ok res ↔ (∀ k ∈ network.publicKeys.keys, k ∈ Kj.keys) ∧
      res = (network.publicKeys.keys.map fun k => C.scalarMul ((Kj.get? k).getD 0) (w k)).sum := by
  set ids := network.publicKeys.keys with hids
  have hlambda : network.publicKeys.mapValM
      (fun key _ => (lagrangeBasisAt0 (key % 2 ^ 32) (ids.map (· % 2 ^ 32)) : Outcome ε C.FieldEl)) =
      .ok (network.publicKeys.mapVal fun k _ => w k) :=
    HMap.mapValM_of_ok fun k _ hk => hw k (HMap.mem_keys_of_mem (HMap.get?_eq_some.1 hk))
  have hentries : (network.publicKeys.mapVal fun k _ => w k).entries = ids.map fun k => (k, w k) := by
    simp [HMap.mapVal, hids, HMap.keys]
  have hstep : ∀ (hall : ∀ k ∈ ids, k ∈ Kj.keys) (acc : C.Point), ∀ k ∈ ids,
      (okOr (Kj.get? k) (st.other "Key not found") >>= fun K_j =>
        pure (C.addSelf acc (C.scalarMul K_j (w k))) : Outcome ε C.Point) =
      .ok (acc + C.scalarMul ((Kj.get? k).getD 0) (w k)) := by
    intro hall acc k hk
    obtain ⟨K_j, hK_j⟩ := HMap.exists_get? (hall k hk)
    rw [hK_j]
    rfl
  have hsum : ∀ hall : ∀ k ∈ ids, k ∈ Kj.keys, interpolateKeys st network Kj =
      .ok (ids.map fun k => C.scalarMul ((Kj.get? k).getD 0) (w k)).sum := by
    intro hall
    simp only [interpolateKeys]
    rw [hlambda, bind_ok, hentries, List.foldlM_map, foldlM_eq_ok (hstep hall), List.sum_eq_foldl, List.foldl_map]
  constructor
  · intro h
    have hall : ∀ k ∈ ids, k ∈ Kj.keys := by
      intro k hk
      simp only [interpolateKeys] at h
      rw [hlambda, bind_ok, hentries, List.foldlM_map] at h
      obtain ⟨acc, res, hstep⟩ := exists_of_foldlM h hk
      obtain ⟨K_j, hK_j, -⟩ := bind_eq_ok.1 hstep
      exact HMap.mem_keys_of_mem (HMap.get?_eq_some.1 (okOr_eq_ok.1 hK_j))
    exact ⟨hall, Except.ok.inj (h.symm.trans (hsum hall))⟩
  · rintro ⟨hall, rfl⟩
    exact hsum hall

/-- The public shares of a sharing of degree below the number of nodes interpolate to the public
key of its secret. -/
theorem interpolateKeys_eq_ok [C.PrimeOrder] {network : Network R} {Kj : HMap ℕ C.Point}
    {f : Polynomial C.FieldEl} (hids : ∀ k ∈ network.publicKeys.keys, 0 < k ∧ k < 2 ^ 32)
    (hf : f.degree < network.publicKeys.len)
    (hK : ∀ k ∈ network.publicKeys.keys, Kj.get? k = some (f.eval (k : C.FieldEl) • C.basePointOrGenerator)) :
    interpolateKeys st network Kj = .ok (f.eval 0 • C.basePointOrGenerator) := by
  set ids := network.publicKeys.keys with hidsdef
  set w : ℕ → C.FieldEl := Shamir.weight ids.toFinset (fun j : ℕ => (j : C.FieldEl)) with hw
  have hnd : ids.Nodup := network.publicKeys.nodup_keys
  have hmod : ids.map (· % 2 ^ 32) = ids := by
    conv_rhs => rw [← List.map_id ids]
    exact List.map_congr_left fun k hk => Nat.mod_eq_of_lt (hids k hk).2
  have hweights : ∀ k ∈ ids,
      (lagrangeBasisAt0 (k % 2 ^ 32) (ids.map (· % 2 ^ 32)) : Outcome ε C.FieldEl) = .ok (w k) := by
    intro k hk
    rw [hmod, Nat.mod_eq_of_lt (hids k hk).2]
    exact lagrangeBasisAt0_ids hnd hids hk
  have hinj : Set.InjOn (fun j : ℕ => (j : C.FieldEl)) (ids.toFinset : Set ℕ) :=
    C.id.natCast_injOn fun j hj => (hids j (List.mem_toFinset.1 hj)).2.trans (by decide)
  have hcard : f.degree < (ids.toFinset.card : ℕ) := by
    rw [List.toFinset_card_of_nodup hnd, hidsdef, HMap.length_keys]
    exact hf
  refine (interpolateKeys_of_weights st hweights).2 ⟨fun k hk => HMap.get?_isSome.1 (by rw [hK k hk]; rfl), ?_⟩
  rw [← Shamir.sum_weight_smul hinj hcard C.basePointOrGenerator, List.sum_toFinset _ hnd]
  refine congrArg List.sum (List.map_congr_left fun k hk => ?_)
  rw [hK k hk, C.scalarMul_eq_smul, Option.getD_some]

end HumanNetwork
