import HumanNetwork.RelayRuns

/-!
# One quorum at the relay

The relay has the keys of a quorum: for each method the provers hold the values of a polynomial of degree
less than `t`. `processReceivedProof` counts a proof under the index that the message declares and checks it
with the key of the method that the message declares. Neither is compared with the sender or the request, and
an index may come again.

`relay_integrity` is what remains: while the accepted proofs come with the sender's own index, once for a
request, for its method and for points of the prime-order subgroup, every reconstructed point is the product
with the secret. `relay_reconstructs_product_of_one_prover` is a run without that.
-/

namespace HumanNetwork
open Outcome Polynomial

variable {env : RelayEnv}

/-- An accepted proof for the public key of `x` carries the product with `x`. -/
def DLEQProof.Sound {C : Curve} (hs : Hashes) (proof : DLEQProof C) : Prop :=
  ∀ x P out, proof.verifyAndGetOutput hs (C.scalarMul C.basePointOrGenerator x) P = .ok out → out = C.scalarMul P x

/-- The provers' indices, and for each method the polynomial that shares its secret. -/
structure Quorum (env : RelayEnv) where
  t : ℕ
  idx : PeerId → ℕ
  sharing : (m : Method) → (env.curve m.curve).FieldEl[X]
  degree_lt : ∀ m, (sharing m).degree < t

namespace Quorum
variable (q : Quorum env) (request : String → RequestToNetwork)

def secret (m : Method) : (env.curve m.curve).FieldEl := (q.sharing m).eval 0

def share (m : Method) (peerId : PeerId) : (env.curve m.curve).FieldEl := (q.sharing m).eval ↑(q.idx peerId)

structure Stored (s : Relay) : Prop where
  t : s.t = q.t
  key : ∀ {peerId m key}, s.keyOf peerId m = some key → (0 < q.idx peerId ∧ q.idx peerId < 2 ^ 32) ∧
    (env.curve m.curve).fromEncoded key =
      .ok ((env.curve m.curve).scalarMul (env.curve m.curve).basePointOrGenerator (q.share m peerId))

/-- The quorum stays, an id belongs to one request, and the proofs are sound. -/
def Fixed : Event env → Prop
  | .processReceivedProof _ _ _ _ proof _ _ => proof.Sound env.hs
  | .mulRequest r id _ => r = request id
  | e => e.fixesQuorum

/-- A proof that the relay accepts has the sender's own index, for the first time, and the method of the
request, whose point is in the prime-order subgroup. -/
def OwnAnswers (s : Relay) : Event env → Prop
  | .processReceivedProof c nodeIdx peerId requestId proof method _ =>
    ∀ P out, Accepted env s c peerId requestId proof method P out →
      nodeIdx = q.idx peerId ∧ nodeIdx ∉ s.indices requestId ∧ method = (request requestId).method ∧
        c = method.curve ∧ (env.curve c).id.order • P = 0
  | _ => True

variable {q request} {s s' : Relay} {e : Event env}

theorem Fixed.fixesQuorum (h : Fixed request e) : e.fixesQuorum := by
  cases e with
  | processReceivedProof | mulRequest => rfl
  | _ => exact h

theorem Stored.step (h : q.Stored s) (he : e.fixesQuorum) (hstep : Relay.Step env s e s') : q.Stored s' := by
  obtain ⟨hkeys, ht⟩ := hstep.quorum he
  refine ⟨ht.trans h.t, fun {peerId m key} hkey => h.key ?_⟩
  rwa [Relay.keyOf, hkeys] at hkey

theorem Stored.fits (h : q.Stored s) (hfixed : Fixed request e) (hown : q.OwnAnswers request s e) :
    Fits request (fun id => q.sharing (request id).method) s e := by
  cases e with
  | processReceivedProof c nodeIdx peerId requestId proof method redis =>
    intro P out hacc
    obtain ⟨rfl, hfresh, rfl, rfl, horder⟩ := hown P out hacc
    obtain ⟨key, K, hkey, hK, hout⟩ := hacc.verifies
    obtain ⟨hvalid, hkey⟩ := h.key hkey
    obtain rfl := Except.ok.inj (hK.symm.trans hkey)
    obtain rfl := hfixed _ _ _ hout
    refine ⟨hvalid, hfresh, ?_, .mk horder⟩
    rw [h.t]
    exact q.degree_lt _
  | mulRequest => exact hfixed
  | _ => trivial

end Quorum

/-! ### Two answers -/

theorem DLEQProof.sound_new {C : Curve} [hC : C.PrimeSubgroup] {hs : Hashes} {draw : C.id.RandSpace} {P : C.Point}
    {x : C.FieldEl} {proof : DLEQProof C} (h : new hs draw P x = .ok proof) : proof.Sound hs := by
  intro x' P' out hverify
  obtain ⟨hinput, hpubkey, hout⟩ := verifyAndGetOutput_eq_ok hverify
  obtain ⟨-, hinput', hpubkey', hout', -⟩ := new_eq_ok h
  have hx : x = x' :=
    (Curve.scalarMul_inj hC.order_nsmul_generator hC.generator_ne_zero).1 (hpubkey'.symm.trans hpubkey)
  rw [← hout, hout', ← hinput, hinput', hx]

section answers
variable {s : Relay} {id : String} {r : RequestToNetwork} {c : CurveId} [(env.curve c).PrimeSubgroup]
  {P : (env.curve c).Point} {x : (env.curve c).FieldEl} {peerId : PeerId} {method : Method} {key : Bytes}
  {draw : (env.curve c).id.RandSpace} {proof : DLEQProof (env.curve c)}
  (hr : s.requestOf id = some r) (hP : (env.curve c).fromEncoded r.point = .ok P)
  (horder : (env.curve c).id.order • P = 0) (hkey : s.keyOf peerId method = some key)
  (hK : (env.curve c).fromEncoded key = .ok ((env.curve c).scalarMul (env.curve c).basePointOrGenerator x))
  (hproof : DLEQProof.new env.hs draw P x = .ok proof)
include hr hP horder hkey hK hproof

theorem accepted_new : Accepted env s c peerId id proof method P ((env.curve c).scalarMul P x) :=
  ⟨⟨r, hr, hP⟩, key, _, hkey, hK, DLEQProof.verify_new horder hproof⟩

variable [env.Total] (h : Pending s id) (ht : s.t = 2)
include h ht

theorem Pending.first {b : Bytes} (hb : (env.curve c).encode ((env.curve c).scalarMul P x) = some b)
    (hres : s.resCache.get? id = none) :
    ∃ s', Relay.Step env s (.processReceivedProof c 1 peerId id proof method .ok) s' ∧ Pending s' id ∧ Keeps s s' ∧
      s'.resCache.get? id = some ((StoredMultResult.new c).push 1 b) := by
  have hnew : s.collection c id = .new c := by rw [Relay.collection, hres, Option.getD_none]
  have hbelow : (s.collection c id).numNodes + 1 < s.t := by
    rw [hnew, ht]
    exact Nat.one_lt_two
  obtain ⟨s', hstep, hpending, hkeeps, hres'⟩ := h.counts (accepted_new hr hP horder hkey hK hproof) hb 1 hbelow
  refine ⟨s', hstep, hpending, hkeeps, ?_⟩
  rw [hres', hnew, HMap.get?_insert_self]

theorem Pending.second [(env.curve c).FaithfulEncodings] {b b' : Bytes} {f : (env.curve c).FieldEl[X]}
    (hres : s.resCache.get? id = some ((StoredMultResult.new c).push 1 b)) (hf : f.degree < 2)
    (hb : (env.curve c).encode ((env.curve c).scalarMul P (f.eval 1)) = some b) (hx : f.eval 2 = x)
    (hb' : (env.curve c).encode ((env.curve c).scalarMul P (f.eval 0)) = some b') :
    ∃ s', Relay.Step env s (.processReceivedProof c 2 peerId id proof method .ok) s' ∧
      ∃ res, s'.resCache.get? id = some res ∧ res.reconstructedPoint = some b' := by
  have hone : s.collection c id = (StoredMultResult.new c).push 1 b := by
    rw [Relay.collection, hres, Option.getD_some]
  obtain ⟨b₂, hb₂⟩ := Option.isSome_iff_exists.1 (RelayEnv.Total.encode c ((env.curve c).scalarMul P x))
  have hcol : Collected (env.curve c) P f ((s.collection c id).push 2 b₂) := by
    have hfresh : 2 ∉ [1] := by decide
    rw [hone]
    refine ((Collected.new c).push (by decide) List.not_mem_nil ?_).push (by decide) hfresh ?_
    · rwa [Nat.cast_one]
    · rwa [Nat.cast_ofNat, hx]
  refine h.reconstructs (accepted_new hr hP horder hkey hK hproof) hb₂ 2 hcol horder ?_ ?_ hb'
  · rw [ht, hone]
    exact le_rfl
  · rw [ht]
    exact hf

end answers

/-! ### A relay over the scalars -/

/-- The scalars as both curves, and everything can be serialized. -/
abbrev scalarRelay : RelayEnv where
  hs := byteHashes .secp256k1
  curve := scalarCurve
  curve_id _ := rfl
  serializeRequest r := some r.point
  serializeProof _ _ := some []

instance : scalarRelay.Total := ⟨fun _ _ => rfl, fun _ => rfl, fun _ _ => rfl⟩

def scalarBytes (c : CurveId) (p : c.Scalar) : Bytes := c.compressed false (Bytes.toBe 32 p.val)

theorem scalarCurve_encode (c : CurveId) (p : c.Scalar) : (scalarCurve c).encode p = some (scalarBytes c p) := rfl

theorem scalarCurve_fromEncoded_bytes (c : CurveId) (p : c.Scalar) :
    (scalarCurve c).fromEncoded (scalarBytes c p) = .ok p :=
  Curve.TotalEncodings.fromEncoded_encode (scalarCurve_encode c p)

theorem scalarBytes_injective (c : CurveId) : Function.Injective (scalarBytes c) := by
  intro p p' h
  have hp := scalarCurve_fromEncoded_bytes c p
  rw [h, scalarCurve_fromEncoded_bytes] at hp
  exact (Except.ok.inj hp).symm

section generator
variable {c : CurveId} (x : c.Scalar)

theorem encode_generator : (scalarCurve c).encode ((scalarCurve c).scalarMul (scalarCurve c).basePointOrGenerator x) =
    some (scalarBytes c x) := by
  rw [scalarCurve_scalarMul_generator, scalarCurve_encode]

theorem fromEncoded_key : (scalarCurve c).fromEncoded (scalarBytes c x) =
    .ok ((scalarCurve c).scalarMul (scalarCurve c).basePointOrGenerator x) := by
  rw [scalarCurve_scalarMul_generator, scalarCurve_fromEncoded_bytes]

theorem order_nsmul_scalar (P : (scalarCurve c).Point) : (scalarCurve c).id.order • P = 0 :=
  Curve.PrimeOrder.order_nsmul P

end generator

def proverIdx (peerId : PeerId) : ℕ := if peerId = "prover1" then 1 else if peerId = "prover2" then 2 else 3

theorem proverIdx_valid (peerId : PeerId) : 0 < proverIdx peerId ∧ proverIdx peerId < 2 ^ 32 := by
  unfold proverIdx
  split_ifs <;> decide

section line
variable {F : Type} [CommRing F] (a b : F)

noncomputable def line : F[X] := C b * X + C a

theorem degree_line : (line a b).degree < (2 : ℕ) := degree_linear_lt

theorem eval_line (x : F) : (line a b).eval x = a + b * x := by
  rw [line, eval_add, eval_C_mul, eval_X, eval_C, add_comm]

theorem eval_line_zero : (line a b).eval 0 = a := by
  rw [eval_line, mul_zero, add_zero]

end line

/-- Three provers share the secret 5 of every method by the line `5 + 3x`. -/
noncomputable def lineQuorum : Quorum scalarRelay where
  t := 2
  idx := proverIdx
  sharing _ := line 5 3
  degree_lt _ := degree_line 5 3

def lineRequest : RequestToNetwork := ⟨.oprfSecp256k1, scalarBytes .secp256k1 1, 0, 0, none, none⟩

def secpKeys (x : CurveId.Scalar .secp256k1) : PubkeyShares :=
  HMap.insert ∅ (Method.keyName .oprfSecp256k1) (scalarBytes .secp256k1 x)

theorem secpKeys_get? {x : CurveId.Scalar .secp256k1} {m : Method} {key : Bytes}
    (h : (secpKeys x).get? m.keyName = some key) : m = .oprfSecp256k1 ∧ key = scalarBytes .secp256k1 x := by
  rw [secpKeys, HMap.get?_insert] at h
  split at h
  next hm =>
    refine ⟨?_, (Option.some.inj h).symm⟩
    cases m <;> first | rfl | exact absurd hm (by decide)
  next => cases h

theorem lineProvers_nodup : ["prover1", "prover2", "prover3"].Nodup := by decide

def lineRelay : Relay where
  currentEpoch := 0
  activeProvers := [⟨"prover1", 1⟩, ⟨"prover2", 2⟩, ⟨"prover3", 3⟩]
  n := 3
  t := 2
  epsilon := 0
  reqCache := HMap.insert ∅ "request" ⟨lineRequest, .submitted⟩
  resCache := ∅
  pubkeyShares := HMap.ofKeys ["prover1", "prover2", "prover3"] lineProvers_nodup fun peerId =>
    secpKeys (5 + 3 * proverIdx peerId)
  ready := true
  readyNodes := {1, 2, 3}
  newCachedElectedProvers := []
  tstarProvers := ∅
  newProvers := ∅
  batchCache := ∅
  pubsubCache := ∅
  redis := ∅
  saved := ⟨none, none, none, none, none, none⟩

theorem lineRelay_pending : Pending lineRelay "request" := ⟨rfl, rfl, rfl⟩

theorem lineRelay_requestOf {id : String} {r : RequestToNetwork} (h : lineRelay.requestOf id = some r) :
    r = lineRequest := by
  rw [Relay.requestOf, lineRelay, HMap.get?_insert] at h
  split at h
  · exact (Option.some.inj h).symm
  · cases h

theorem lineRelay_keyOf {peerId : PeerId} {m : Method} {key : Bytes} (h : lineRelay.keyOf peerId m = some key) :
    m = .oprfSecp256k1 ∧ key = scalarBytes .secp256k1 (5 + 3 * proverIdx peerId) := by
  rw [Relay.keyOf, lineRelay, HMap.get?_ofKeys] at h
  split at h
  · exact secpKeys_get? h
  · cases h

theorem lineRelay_keyOf_eq {peerId : PeerId} {x : CurveId.Scalar .secp256k1}
    (h : peerId ∈ ["prover1", "prover2", "prover3"]) (hx : 5 + 3 * (proverIdx peerId : _) = x) :
    lineRelay.keyOf peerId .oprfSecp256k1 = some (scalarBytes .secp256k1 x) := by
  rw [Relay.keyOf, lineRelay, HMap.get?_ofKeys, if_pos h, Option.bind_some, hx, secpKeys, HMap.get?_insert_self]

theorem lineRelay_prover1 : lineRelay.keyOf "prover1" .oprfSecp256k1 = some (scalarBytes .secp256k1 8) := by
  apply lineRelay_keyOf_eq (by decide)
  show (5 + 3 * (1 : ℕ) : CurveId.Scalar .secp256k1) = 8
  norm_num

theorem lineRelay_prover2 : lineRelay.keyOf "prover2" .oprfSecp256k1 = some (scalarBytes .secp256k1 11) := by
  apply lineRelay_keyOf_eq (by decide)
  show (5 + 3 * (2 : ℕ) : CurveId.Scalar .secp256k1) = 11
  norm_num

theorem lineQuorum_share (m : Method) (peerId : PeerId) : lineQuorum.share m peerId = 5 + 3 * (proverIdx peerId : _) :=
  eval_line 5 3 _

theorem lineQuorum_secret (m : Method) : lineQuorum.secret m = 5 := eval_line_zero 5 3

theorem lineQuorum_stored : lineQuorum.Stored lineRelay where
  t := rfl
  key {peerId m key} h := by
    obtain ⟨rfl, rfl⟩ := lineRelay_keyOf h
    refine ⟨proverIdx_valid peerId, ?_⟩
    rw [lineQuorum_share]
    exact fromEncoded_key _

section scalarAnswers
variable {c : CurveId} {s : Relay} {id : String} {r : RequestToNetwork} {peerId : PeerId} {method : Method}
  {x : c.Scalar} {proof : DLEQProof (scalarCurve c)}

def Answers (x : c.Scalar) (proof : DLEQProof (scalarCurve c)) : Prop :=
  ∃ draw, DLEQProof.new scalarRelay.hs draw (scalarCurve c).basePointOrGenerator x = .ok proof

theorem exists_answers (draw : c.RandSpace) (x : c.Scalar) : ∃ proof : DLEQProof (scalarCurve c), Answers x proof := by
  obtain ⟨proof, hproof⟩ := DLEQProof.exists_new scalarRelay.hs (C := scalarCurve c) draw
    (scalarCurve c).basePointOrGenerator x fun _ => rfl
  exact ⟨proof, draw, hproof⟩

def secpDraw : CurveId.RandSpace .secp256k1 := (1 : CurveId.Scalar .secp256k1)

variable (hpending : Pending s id) (ht : s.t = 2) (hreq : s.requestOf id = some r)
  (hpoint : (scalarCurve c).fromEncoded r.point = .ok (scalarCurve c).basePointOrGenerator)
  (hkey : s.keyOf peerId method = some (scalarBytes c x)) (hproof : Answers x proof)
include hpending ht hreq hpoint hkey hproof

theorem scalarRelay_first (hres : s.resCache.get? id = none) :
    ∃ s', Relay.Step scalarRelay s (.processReceivedProof c 1 peerId id proof method .ok) s' ∧ Pending s' id ∧
      Keeps s s' ∧ s'.resCache.get? id = some ((StoredMultResult.new c).push 1 (scalarBytes c x)) := by
  obtain ⟨draw, hproof⟩ := hproof
  exact Pending.first hreq hpoint (order_nsmul_scalar _) hkey (fromEncoded_key x) hproof hpending ht
    (encode_generator x) hres

theorem scalarRelay_second {a b y : c.Scalar}
    (hres : s.resCache.get? id = some ((StoredMultResult.new c).push 1 (scalarBytes c y)))
    (hone : a + b * 1 = y) (htwo : a + b * 2 = x) :
    ∃ s', Relay.Step scalarRelay s (.processReceivedProof c 2 peerId id proof method .ok) s' ∧
      ∃ res, s'.resCache.get? id = some res ∧ res.reconstructedPoint = some (scalarBytes c a) := by
  obtain ⟨draw, hproof⟩ := hproof
  refine Pending.second hreq hpoint (order_nsmul_scalar _) hkey (fromEncoded_key x) hproof hpending ht
    (f := line a b) hres (degree_line a b) ?_ ((eval_line a b 2).trans htwo) ?_
  · rw [eval_line, hone]
    exact encode_generator y
  · rw [eval_line_zero]
    exact encode_generator a

end scalarAnswers

theorem lineRelay_first : ∃ (proof : DLEQProof (scalarCurve .secp256k1)) (s : Relay), Answers 8 proof ∧
    Relay.Step scalarRelay lineRelay (.processReceivedProof .secp256k1 1 "prover1" "request" proof .oprfSecp256k1 .ok) s ∧
      Pending s "request" ∧ Keeps lineRelay s ∧
      s.resCache.get? "request" = some ((StoredMultResult.new .secp256k1).push 1 (scalarBytes .secp256k1 8)) := by
  obtain ⟨proof, hproof⟩ := exists_answers secpDraw 8
  obtain ⟨s, h⟩ := scalarRelay_first lineRelay_pending rfl (r := lineRequest) rfl (scalarCurve_fromEncoded_bytes _ 1)
    lineRelay_prover1 hproof rfl
  exact ⟨proof, s, hproof, h⟩

theorem not_reconstructs {s : Relay} {secret : (m : Method) → (scalarRelay.curve m.curve).FieldEl}
    {a : CurveId.Scalar .secp256k1} (hsecret : secret .oprfSecp256k1 = 5)
    (h : ∃ res, s.resCache.get? "request" = some res ∧ res.reconstructedPoint = some (scalarBytes .secp256k1 a))
    (ha : a ≠ 5) : ¬ s.Reconstructs (fun _ => lineRequest) secret := by
  intro hrec
  obtain ⟨res, hres, hpoint⟩ := h
  obtain ⟨P, hP, hb⟩ := hrec "request" res _ hres hpoint
  obtain rfl := Except.ok.inj ((scalarCurve_fromEncoded_bytes .secp256k1 1).symm.trans hP)
  have hbytes := Option.some.inj ((encode_generator (c := .secp256k1) _).symm.trans hb)
  exact ha ((scalarBytes_injective _ hbytes).symm.trans hsecret)

/-- Along every run in which the provers give their own answers, what the relay reconstructs for a request is
the secret of its method times its point. -/
theorem relay_integrity [∀ c, (env.curve c).FaithfulEncodings] (q : Quorum env) (request : String → RequestToNetwork)
    {s₀ s : Relay} (hstored : q.Stored s₀) (hrequests : ∀ id r, s₀.requestOf id = some r → r = request id)
    (hempty : s₀.resCache = ∅)
    (hrun : Reach (Relay.Step env) (fun s e => Quorum.Fixed request e ∧ q.OwnAnswers request s e) s₀ s) :
    s.Reconstructs request q.secret := by
  have hcollects : s₀.Collects request fun id => q.sharing (request id).method :=
    Relay.collects_of_empty hrequests hempty
  have hinv := hrun.invariant (I := fun s => q.Stored s ∧ s.Collects request fun id => q.sharing (request id).method)
    ⟨hstored, hcollects⟩ ?_
  · exact hinv.2.reconstructs fun _ => rfl
  · rintro s e s' ⟨hstored, hcollects⟩ ⟨hfixed, hown⟩ hstep
    exact ⟨hstored.step hfixed.fixesQuorum hstep, hcollects.step (hstored.fits hfixed hown) hstep⟩

theorem relay_integrity_lineRelay : ∃ s,
    Reach (Relay.Step scalarRelay) (fun s e => Quorum.Fixed (fun _ => lineRequest) e ∧
      lineQuorum.OwnAnswers (fun _ => lineRequest) s e) lineRelay s ∧
    (∃ res, s.resCache.get? "request" = some res ∧ res.reconstructedPoint = some (scalarBytes .secp256k1 5)) ∧
    s.Reconstructs (fun _ => lineRequest) lineQuorum.secret := by
  obtain ⟨proof₁, s₁, ⟨draw₁, hproof₁⟩, hstep₁, hpending, hkeeps, hres₁⟩ := lineRelay_first
  obtain ⟨proof₂, draw₂, hproof₂⟩ := exists_answers secpDraw 11
  obtain ⟨s₂, hstep₂, hres₂⟩ := scalarRelay_second hpending hkeeps.t (r := lineRequest) (hkeeps.requestOf _)
    (scalarCurve_fromEncoded_bytes _ 1) ((hkeeps.keyOf _ _).trans lineRelay_prover2) ⟨draw₂, hproof₂⟩ (a := 5) (b := 3)
    hres₁ (by norm_num) (by norm_num)
  have hrun : Reach (Relay.Step scalarRelay) (fun s e => Quorum.Fixed (fun _ => lineRequest) e ∧
      lineQuorum.OwnAnswers (fun _ => lineRequest) s e) lineRelay s₂ := by
    refine Reach.tail (Reach.tail .refl ?_ hstep₁) ?_ hstep₂
    · exact ⟨DLEQProof.sound_new hproof₁, fun P out _ => ⟨rfl, List.not_mem_nil, rfl, rfl, order_nsmul_scalar P⟩⟩
    · refine ⟨DLEQProof.sound_new hproof₂, fun P out _ => ⟨rfl, ?_, rfl, rfl, order_nsmul_scalar P⟩⟩
      have hfresh : 2 ∉ [1] := by decide
      rw [Relay.indices, hres₁]
      exact hfresh
  exact ⟨s₂, hrun, hres₂, relay_integrity lineQuorum (fun _ => lineRequest) lineQuorum_stored
    (fun _ _ h => lineRelay_requestOf h) rfl hrun⟩

/-- One prover alone, whose accepted proof comes under the indices 1 and 2, has the relay reconstruct its own
product 8 in place of the product 5 with the secret. -/
theorem relay_reconstructs_product_of_one_prover : lineQuorum.Stored lineRelay ∧ ∃ s,
    Reach (Relay.Step scalarRelay) (fun _ e => Quorum.Fixed (fun _ => lineRequest) e) lineRelay s ∧
    (∃ res, s.resCache.get? "request" = some res ∧ res.reconstructedPoint = some (scalarBytes .secp256k1 8)) ∧
    ¬ s.Reconstructs (fun _ => lineRequest) lineQuorum.secret := by
  obtain ⟨proof, s₁, hproof, hstep₁, hpending, hkeeps, hres₁⟩ := lineRelay_first
  obtain ⟨s₂, hstep₂, hres₂⟩ := scalarRelay_second hpending hkeeps.t (r := lineRequest) (hkeeps.requestOf _)
    (scalarCurve_fromEncoded_bytes _ 1) ((hkeeps.keyOf _ _).trans lineRelay_prover1) hproof (a := 8) (b := 0) hres₁
    (by norm_num) (by norm_num)
  obtain ⟨draw, hnew⟩ := hproof
  have hsound : proof.Sound scalarRelay.hs := DLEQProof.sound_new hnew
  have hrun : Reach (Relay.Step scalarRelay) (fun _ e => Quorum.Fixed (fun _ => lineRequest) e) lineRelay s₂ := by
    refine Reach.tail (Reach.tail .refl ?_ hstep₁) ?_ hstep₂
    · exact hsound
    · exact hsound
  have hne : (8 : CurveId.Scalar .secp256k1) ≠ 5 := by
    exact_mod_cast (CurveId.natCast_inj .secp256k1 (i := 8) (j := 5) (by decide) (by decide)).not.2 (by decide)
  exact ⟨lineQuorum_stored, s₂, hrun, hres₂, not_reconstructs (lineQuorum_secret _) hres₂ hne⟩

end HumanNetwork
