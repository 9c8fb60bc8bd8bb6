import HumanNetwork.Lib.Reach
import HumanNetwork.RelayStep

/-!
# What the relay collects

Every request id stands for one request (`request`), and a polynomial is given for each (`poly`).
`Relay.Collects` is the invariant of the relay: the collection of a request has products of the request's
point with values of its polynomial at distinct indices, and a reconstructed point is the product with the
value at 0. `Relay.Collects.step` keeps it when an accepted proof carries such a product under a new index
and the threshold exceeds the degree (`Fits`).
-/

namespace HumanNetwork
open Outcome

/-! ### A collection of products -/

/-- The collection has products of `P` with values of `f` at distinct indices, and what is reconstructed is
the product with the value at 0. -/
structure Collected (C : Curve) (P : C.Point) (f : Polynomial C.FieldEl) (r : StoredMultResult) : Prop where
  numNodes : r.numNodes = r.mulResults.length
  nodup : (r.mulResults.map Prod.fst).Nodup
  valid : ∀ i ∈ r.mulResults.map Prod.fst, 0 < i ∧ i < 2 ^ 32
  encodes : ∀ e ∈ r.mulResults, C.encode (C.scalarMul P (f.eval (e.1 : C.FieldEl))) = some e.2
  reconstructed : ∀ b, r.reconstructedPoint = some b → C.encode (C.scalarMul P (f.eval 0)) = some b

namespace Collected
variable {C : Curve} {P : C.Point} {f : Polynomial C.FieldEl} {r : StoredMultResult}

theorem new (c : CurveId) : Collected C P f (.new c) where
  numNodes := rfl
  nodup := List.nodup_nil
  valid _ hi := absurd hi List.not_mem_nil
  encodes _ he := absurd he List.not_mem_nil
  reconstructed _ hb := by cases hb

theorem push (h : Collected C P f r) {i : ℕ} {b : Bytes} (hi : 0 < i ∧ i < 2 ^ 32)
    (hfresh : i ∉ r.mulResults.map Prod.fst)
    (hb : C.encode (C.scalarMul P (f.eval (i : C.FieldEl))) = some b) : Collected C P f (r.push i b) := by
  have hindices : (r.push i b).mulResults.map Prod.fst = r.mulResults.map Prod.fst ++ [i] := List.map_append
  refine ⟨?_, ?_, fun j hj => ?_, fun e he => ?_, h.reconstructed⟩
  · show r.numNodes + 1 = (r.mulResults ++ [(i, b)]).length
    rw [h.numNodes, List.length_append, List.length_singleton]
  · rw [hindices, ← List.concat_eq_append]
    exact h.nodup.concat hfresh
  · rw [hindices, List.mem_append, List.mem_singleton] at hj
    rcases hj with hj | rfl
    · exact h.valid j hj
    · exact hi
  · rcases List.mem_append.1 he with he | he
    · exact h.encodes e he
    · rw [List.mem_singleton.1 he]
      exact hb

theorem interpolates [C.FaithfulEncodings] (h : Collected C P f r) (hP : C.id.order • P = 0)
    (hf : f.degree < r.numNodes) {ε : Type} :
    ∃ points, (r.mulResults.mapM fun e => C.fromEncoded e.2) = .ok points ∧
      (thresholdUnchecked points (r.mulResults.map Prod.fst) : Outcome ε C.Point) = .ok (C.scalarMul P (f.eval 0)) := by
  refine ⟨r.mulResults.map fun e => C.scalarMul P (f.eval (e.1 : C.FieldEl)), mapM_eq_ok_map fun e he => ?_, ?_⟩
  · exact Curve.FaithfulEncodings.fromEncoded_encode (Curve.order_nsmul_scalarMul hP _) (h.encodes e he)
  · have hlen : f.degree < (r.mulResults.map Prod.fst).length := by rwa [List.length_map, ← h.numNodes]
    have heq := thresholdUnchecked_eq h.nodup h.valid hlen hP (ε := ε)
    rwa [List.map_map] at heq

theorem verifies {env : RelayEnv} {c : CurveId} [(env.curve c).FaithfulEncodings] {P : (env.curve c).Point}
    {f : Polynomial (env.curve c).FieldEl} {t : ℕ} {res : StoredMultResult} (h : Collected (env.curve c) P f r)
    (hP : (env.curve c).id.order • P = 0) (hf : f.degree < t) (hres : Verifies env c t r res) :
    Collected (env.curve c) P f res := by
  rcases hres with rfl | ⟨ht, points, point, b, hpoints, hpoint, hb, rfl⟩
  · exact h
  · obtain ⟨points', hpoints', hpoint'⟩ := h.interpolates hP (hf.trans_le (by exact_mod_cast ht)) (ε := Empty)
    obtain rfl := Except.ok.inj (hpoints.symm.trans hpoints')
    obtain rfl := Except.ok.inj (hpoint.symm.trans hpoint')
    exact ⟨h.numNodes, h.nodup, h.valid, h.encodes, fun b' hb' => Option.some.inj hb' ▸ hb⟩

end Collected

/-! ### The relay -/

variable {env : RelayEnv}

def Relay.indices (s : Relay) (id : String) : List ℕ :=
  match s.resCache.get? id with
  | some r => r.mulResults.map Prod.fst
  | none => []

theorem Relay.indices_collection (s : Relay) (c : CurveId) (id : String) :
    (s.collection c id).mulResults.map Prod.fst = s.indices id := by
  unfold collection indices
  cases s.resCache.get? id <;> rfl

theorem Relay.Step.mem_indices {s s' : Relay} {e : Event env} (h : Relay.Step env s e s') {id : String} {i : ℕ}
    (hi : i ∈ s'.indices id) : i ∈ s.indices id ∨ ∃ c peerId proof method redis P out,
      e = .processReceivedProof c i peerId id proof method redis ∧
        Accepted env s c peerId id proof method P out := by
  rcases h.cases with ⟨c, nodeIdx, peerId, id', proof, method, redis, rfl, -, P, out, b, res, hacc, -, hver, hget⟩ |
    ⟨hres, -⟩
  · rw [indices, hget] at hi
    split at hi
    next res' hres' =>
      split at hres'
      next hid =>
        obtain rfl := Option.some.inj hres'
        subst hid
        rw [hver.mulResults, StoredMultResult.push, List.map_append, s.indices_collection, List.mem_append,
          List.map_singleton, List.mem_singleton] at hi
        rcases hi with hi | rfl
        · exact .inl hi
        · exact .inr ⟨c, peerId, proof, method, redis, P, out, rfl, hacc⟩
      next =>
        left
        rwa [indices, hres']
    next => cases hi
  · left
    unfold indices at hi
    split at hi
    next res hres' => rwa [indices, hres id res hres']
    next => cases hi

section invariant
variable (request : String → RequestToNetwork)
  (poly : (id : String) → Polynomial (env.curve (request id).method.curve).FieldEl)

inductive IsProduct (id : String) (i : ℕ) : (c : CurveId) → (P out : (env.curve c).Point) → Prop
  | mk {P : (env.curve (request id).method.curve).Point} (hP : (env.curve (request id).method.curve).id.order • P = 0) :
    IsProduct id i (request id).method.curve P ((env.curve (request id).method.curve).scalarMul P ((poly id).eval ↑i))

/-- What keeps the collections in order: a proof that the relay accepts has the product for a new index,
and a request is the one of its id. -/
def Fits (s : Relay) : Event env → Prop
  | .processReceivedProof c nodeIdx peerId requestId proof method _ =>
    ∀ P out, Accepted env s c peerId requestId proof method P out →
      (0 < nodeIdx ∧ nodeIdx < 2 ^ 32) ∧ nodeIdx ∉ s.indices requestId ∧ (poly requestId).degree < s.t ∧
        IsProduct request poly requestId nodeIdx c P out
  | .mulRequest r id _ => r = request id
  | _ => True

structure Relay.Collects (s : Relay) : Prop where
  requests : ∀ id r, s.requestOf id = some r → r = request id
  collected : ∀ id res, s.resCache.get? id = some res →
    ∃ P, (env.curve (request id).method.curve).fromEncoded (request id).point = .ok P ∧
      Collected (env.curve (request id).method.curve) P (poly id) res

variable {request poly} {s s' : Relay} {e : Event env}

theorem Relay.collects_of_empty (hrequests : ∀ id r, s.requestOf id = some r → r = request id)
    (hempty : s.resCache = ∅) : s.Collects request poly := by
  refine ⟨hrequests, fun id res hres => ?_⟩
  rw [hempty, HMap.get?_empty] at hres
  cases hres

theorem Relay.Collects.collection (h : s.Collects request poly) {id : String}
    {P : (env.curve (request id).method.curve).Point}
    (hP : (env.curve (request id).method.curve).fromEncoded (request id).point = .ok P) (c : CurveId) :
    Collected (env.curve (request id).method.curve) P (poly id) (s.collection c id) := by
  unfold Relay.collection
  cases hres : s.resCache.get? id with
  | none => exact .new c
  | some res =>
    obtain ⟨P', hP', hcol⟩ := h.collected id res hres
    obtain rfl := Except.ok.inj (hP.symm.trans hP')
    exact hcol

theorem Relay.Collects.step [∀ c, (env.curve c).FaithfulEncodings] (h : s.Collects request poly)
    (hfits : Fits request poly s e) (hstep : Relay.Step env s e s') : s'.Collects request poly := by
  rcases hstep.cases with ⟨c, nodeIdx, peerId, id, proof, method, redis, rfl, hkeeps, P, out, b, res, hacc, hb, hver, hget⟩ |
    ⟨hres, hreq⟩
  · obtain ⟨hi, hfresh, hdegree, hproduct⟩ := hfits P out hacc
    obtain ⟨r, hr, hP⟩ := hacc.request
    obtain rfl := h.requests id r hr
    cases hproduct with
    | mk horder =>
      -- one product more in the collection of the request, the others as they were
      refine ⟨fun id' r' hr' => h.requests id' r' ((hkeeps.requestOf id').symm.trans hr'), fun id' res' hres' => ?_⟩
      rw [hget] at hres'
      split at hres'
      next hid =>
        obtain rfl := Option.some.inj hres'
        subst hid
        rw [← s.indices_collection] at hfresh
        exact ⟨_, hP, ((h.collection hP _).push hi hfresh hb).verifies horder hdegree hver⟩
      next => exact h.collected id' res' hres'
  · refine ⟨fun id r hr => ?_, fun id res hres' => h.collected id res (hres id res hres')⟩
    rcases hreq id r hr with hr | ⟨reply, rfl⟩
    · exact h.requests id r hr
    · exact hfits

end invariant

def Relay.Reconstructs (request : String → RequestToNetwork) (secret : (m : Method) → (env.curve m.curve).FieldEl)
    (s : Relay) : Prop :=
  ∀ id res b, s.resCache.get? id = some res → res.reconstructedPoint = some b →
    ∃ P, (env.curve (request id).method.curve).fromEncoded (request id).point = .ok P ∧
      (env.curve (request id).method.curve).encode
        ((env.curve (request id).method.curve).scalarMul P (secret (request id).method)) = some b

theorem Relay.Collects.reconstructs {request : String → RequestToNetwork}
    {poly : (id : String) → Polynomial (env.curve (request id).method.curve).FieldEl}
    {secret : (m : Method) → (env.curve m.curve).FieldEl} {s : Relay} (h : s.Collects request poly)
    (hsecret : ∀ id, (poly id).eval 0 = secret (request id).method) : s.Reconstructs request secret := by
  intro id res b hres hb
  obtain ⟨P, hP, hcol⟩ := h.collected id res hres
  refine ⟨P, hP, ?_⟩
  rw [← hsecret id]
  exact hcol.reconstructed b hb

/-! ### Counting a proof -/

abbrev RedisReply.ok : RedisReply := ⟨true, true, true, true⟩

/-- Every point, request and proof can be written down. -/
class RelayEnv.Total (env : RelayEnv) : Prop where
  encode : ∀ c p, ((env.curve c).encode p).isSome
  serializeRequest : ∀ r, (env.serializeRequest r).isSome
  serializeProof : ∀ c p, (env.serializeProof c p).isSome

structure Pending (s : Relay) (id : String) : Prop where
  request : (s.requestOf id).isSome
  batchCache : s.batchCache = ∅
  pubsubCache : s.pubsubCache = ∅

section pending
variable {s : Relay} {id : String} {c : CurveId} {peerId : PeerId} {method : Method} {proof : DLEQProof (env.curve c)}
  {P out : (env.curve c).Point} {b : Bytes} [henv : env.Total]

theorem processReceivedProof_eq_verification (hempty : s.batchCache = ∅)
    (hacc : Accepted env s c peerId id proof method P out) (hb : (env.curve c).encode out = some b) (i : ℕ) :
    ∃ s' data hash, Keeps s s' ∧ (s'.batchCache = ∅ ∧ s'.pubsubCache = s.pubsubCache) ∧
      s'.resCache = s.resCache.insert id ((s.collection c id).push i b) ∧
      processReceivedProof env c s i peerId id proof method .ok =
        ((s.collection c id).push i b).processVerification env c data id hash .ok s' := by
  obtain ⟨r, hr, hP⟩ := hacc.request
  obtain ⟨data, hdata, rfl⟩ := Option.map_eq_some_iff.1 hr
  obtain ⟨key, K, hkey, hK, hout⟩ := hacc.verifies
  obtain ⟨shares, hshares, hkey⟩ := Option.bind_eq_some_iff.1 hkey
  obtain ⟨bK, hbK⟩ := Option.isSome_iff_exists.1 (henv.encode c K)
  obtain ⟨bP, hbP⟩ := Option.isSome_iff_exists.1 (henv.encode c P)
  obtain ⟨sp, hsp⟩ := Option.isSome_iff_exists.1 (henv.serializeProof c proof)
  obtain ⟨sr, hsr⟩ := Option.isSome_iff_exists.1 (henv.serializeRequest data.request)
  have hbatch : s.batchCache.containsKey (hexEncode (env.hs.hash256 sr)) = false := by
    rw [hempty]
    rfl
  obtain ⟨s', heq, ⟨hreq, hres, hkeys, ht⟩, hbatch, hpubsub⟩ : ∃ s' : Relay,
      processReceivedProof env c s i peerId id proof method .ok =
        ((s.collection c id).push i b).processVerification env c { data with status := .constructedProof } id
          (hexEncode (env.hs.hash256 sr)) .ok s' ∧
      (s'.reqCache = s.reqCache.insert id { data with status := .constructedProof } ∧
        s'.resCache = s.resCache.insert id ((s.collection c id).push i b) ∧
        s'.pubkeyShares = s.pubkeyShares ∧ s'.t = s.t) ∧
      s'.batchCache = s.batchCache ∧ s'.pubsubCache = s.pubsubCache := by
    simp only [processReceivedProof, storeProof, hdata, hshares, hkey, toOption_eq_some.2 hP, toOption_eq_some.2 hK,
      toOption_eq_some.2 hout, hb, hsp, hsr, hbK, hbP, hbatch, bind_ok, unwrap, Bool.false_eq_true, not_true_eq_false,
      if_false]
    exact ⟨_, rfl, ⟨rfl, rfl, rfl, rfl⟩, rfl, rfl⟩
  exact ⟨s', _, _, keeps_of_insert hdata hkeys ht hreq, ⟨hbatch.trans hempty, hpubsub⟩, hres, heq⟩

variable (h : Pending s id) (hacc : Accepted env s c peerId id proof method P out)
  (hb : (env.curve c).encode out = some b) (i : ℕ)
include h hacc hb

theorem Pending.processReceivedProof_eq :
    ∃ s' data hash, (Pending s' id ∧ Keeps s s') ∧ s'.resCache = s.resCache.insert id ((s.collection c id).push i b) ∧
      processReceivedProof env c s i peerId id proof method .ok =
        ((s.collection c id).push i b).processVerification env c data id hash .ok s' := by
  obtain ⟨s', data, hash, hkeeps, ⟨hbatch, hpubsub⟩, hres, heq⟩ :=
    processReceivedProof_eq_verification h.batchCache hacc hb i
  refine ⟨s', data, hash, ⟨⟨?_, hbatch, hpubsub.trans h.pubsubCache⟩, hkeeps⟩, hres, heq⟩
  rw [hkeeps.requestOf]
  exact h.request

theorem Pending.counts (ht : (s.collection c id).numNodes + 1 < s.t) :
    ∃ s', Relay.Step env s (.processReceivedProof c i peerId id proof method .ok) s' ∧ Pending s' id ∧ Keeps s s' ∧
      s'.resCache = s.resCache.insert id ((s.collection c id).push i b) := by
  obtain ⟨s', data, hash, ⟨hpending, hkeeps⟩, hres, heq⟩ := h.processReceivedProof_eq hacc hb i
  refine ⟨s', ⟨[], heq.trans ?_⟩, hpending, hkeeps, hres⟩
  apply StoredMultResult.processVerification_below
  rw [hkeeps.t]
  exact ht

/-- At the threshold the relay takes the value at 0 of any polynomial through the products. -/
theorem Pending.reconstructs [(env.curve c).FaithfulEncodings] {f : Polynomial (env.curve c).FieldEl} {b' : Bytes}
    (hcol : Collected (env.curve c) P f ((s.collection c id).push i b)) (hP : (env.curve c).id.order • P = 0)
    (ht : s.t ≤ (s.collection c id).numNodes + 1) (hf : f.degree < s.t)
    (hb' : (env.curve c).encode ((env.curve c).scalarMul P (f.eval 0)) = some b') :
    ∃ s', Relay.Step env s (.processReceivedProof c i peerId id proof method .ok) s' ∧
      ∃ res, s'.resCache.get? id = some res ∧ res.reconstructedPoint = some b' := by
  obtain ⟨mid, data, hash, ⟨hpending, hkeeps⟩, hres, heq⟩ := h.processReceivedProof_eq hacc hb i
  have hf' : f.degree < ((s.collection c id).push i b).numNodes := hf.trans_le (by exact_mod_cast ht)
  obtain ⟨points, hpoints, hpoint⟩ := hcol.interpolates hP hf' (ε := Empty)
  have hpubsub : mid.pubsubCache.containsKey id = false := by
    rw [hpending.pubsubCache]
    rfl
  obtain ⟨s', effects, hs', hres'⟩ :=
    StoredMultResult.processVerification_reaches (hkeeps.t.trans_le ht) hpoints hpoint hb' hpubsub
  exact ⟨s', ⟨effects, heq.trans hs'⟩, _, hres', rfl⟩

end pending

end HumanNetwork
