import HumanNetwork.RelayIntegrity

/-!
# The relay across resharings

A resharing gives new provers new shares of the old secret, so the sharings of a network follow one another
(`Sharings`). The relay clears the old keys, stores the new ones and sets the new threshold, but the products
that are already collected for a request stay in `res_cache`, and are interpolated together with those of
the next sharing.

The provers are honest here (`Sharings.Honest`): each answers a request once, with its share of some sharing
and under its index in it. `relay_integrity_across_resharing`: where the answers to one request come from one
sharing, and the relay's threshold is not below that of the sharing, every reconstructed point is the
product with the secret. `relay_mixes_sharings` is a run in which a re-election comes between two answers.
-/

namespace HumanNetwork
open Outcome Polynomial

variable {env : RelayEnv}

/-- The sharings of a network, in the order of the resharings: the members with their indices, and for each
method a polynomial whose value at 0 stays. -/
structure Sharings (env : RelayEnv) where
  members : ℕ → Finset PeerId
  idx : ℕ → PeerId → ℕ
  threshold : ℕ → ℕ
  sharing : ℕ → (m : Method) → (env.curve m.curve).FieldEl[X]
  secret : (m : Method) → (env.curve m.curve).FieldEl
  idx_valid : ∀ k, ∀ p ∈ members k, 0 < idx k p ∧ idx k p < 2 ^ 32
  idx_injOn : ∀ k, Set.InjOn (idx k) (members k)
  degree_lt : ∀ k m, (sharing k m).degree < threshold k
  eval_zero : ∀ k m, (sharing k m).eval 0 = secret m

structure RelayNetwork where
  relay : Relay
  answered : List (PeerId × String)

def Event.answer : Event env → List (PeerId × String)
  | .processReceivedProof _ _ peerId requestId _ _ _ => [(peerId, requestId)]
  | _ => []

def RelayNetwork.Step (env : RelayEnv) (w : RelayNetwork) (e : Event env) (w' : RelayNetwork) : Prop :=
  Relay.Step env w.relay e w'.relay ∧ w'.answered = e.answer ++ w.answered

theorem RelayNetwork.deliver {ok : RelayNetwork → Event env → Prop} {w : RelayNetwork} {s s' : Relay}
    {answered : List (PeerId × String)} {e : Event env} (h : Reach (RelayNetwork.Step env) ok w ⟨s, answered⟩)
    (hstep : Relay.Step env s e s') (hok : ok ⟨s, answered⟩ e) :
    Reach (RelayNetwork.Step env) ok w ⟨s', e.answer ++ answered⟩ :=
  h.tail hok ⟨hstep, rfl⟩

namespace Sharings
variable (σ : Sharings env) (request : String → RequestToNetwork)

def share (k : ℕ) (m : Method) (peerId : PeerId) : (env.curve m.curve).FieldEl :=
  (σ.sharing k m).eval ↑(σ.idx k peerId)

inductive Answer (k : ℕ) (peerId : PeerId) (id : String) : Event env → Prop
  | mk {P : (env.curve (request id).method.curve).Point} {draw : (env.curve (request id).method.curve).id.RandSpace}
      {proof : DLEQProof (env.curve (request id).method.curve)} {redis : RedisReply} (hmember : peerId ∈ σ.members k)
      (hP : (env.curve (request id).method.curve).fromEncoded (request id).point = .ok P)
      (hproof : DLEQProof.new env.hs draw P (σ.share k (request id).method peerId) = .ok proof) :
    Answer k peerId id (.processReceivedProof (request id).method.curve (σ.idx k peerId) peerId id proof
      (request id).method redis)

def Keys (k : ℕ) (peerId : PeerId) (shares : PubkeyShares) (idx : ℕ) : Prop :=
  peerId ∈ σ.members k ∧ idx = σ.idx k peerId ∧ ∀ m key, shares.get? m.keyName = some key →
    (env.curve m.curve).fromEncoded key =
      .ok ((env.curve m.curve).scalarMul (env.curve m.curve).basePointOrGenerator (σ.share k m peerId))

/-- The messages in a network of honest provers: each answers a request once and sends the keys of its shares.
What the relay does with its own state is not restricted. -/
def Honest (w : RelayNetwork) (e : Event env) : Prop :=
  match e with
  | .processReceivedProof _ _ peerId id _ _ _ => (peerId, id) ∉ w.answered ∧ ∃ k, σ.Answer request k peerId id e
  | .mulRequest r id _ => r = request id
  | .storeKSet peerId shares idx _ | .resharingStoreKSet peerId shares idx => ∃ k, σ.Keys k peerId shares idx
  | _ => True

/-- The accepted answers to a request come from one sharing, the relay's threshold is at least the one of that
sharing, and the request's point is in the prime-order subgroup. -/
def OneSharing (epochOf : String → ℕ) (w : RelayNetwork) (e : Event env) : Prop :=
  match e with
  | .processReceivedProof c _ peerId id proof method _ =>
    ∀ P out, Accepted env w.relay c peerId id proof method P out →
      σ.Answer request (epochOf id) peerId id e ∧ σ.threshold (epochOf id) ≤ w.relay.t ∧
        (env.curve c).id.order • P = 0
  | _ => True

def Accounted (epochOf : String → ℕ) (w : RelayNetwork) : Prop :=
  ∀ id, ∀ i ∈ w.relay.indices id, ∃ peerId ∈ σ.members (epochOf id),
    (peerId, id) ∈ w.answered ∧ i = σ.idx (epochOf id) peerId

variable {σ request} {epochOf : String → ℕ} {w w' : RelayNetwork} {e : Event env}

theorem Accounted.step (h : σ.Accounted epochOf w) (hone : σ.OneSharing request epochOf w e)
    (hstep : RelayNetwork.Step env w e w') : σ.Accounted epochOf w' := by
  intro id i hi
  rw [hstep.2]
  rcases hstep.1.mem_indices hi with hi | ⟨c, peerId, proof, method, redis, P, out, rfl, hacc⟩
  · obtain ⟨peerId, hmember, hanswered, rfl⟩ := h id i hi
    exact ⟨peerId, hmember, List.mem_append_right _ hanswered, rfl⟩
  · obtain ⟨hanswer, -, -⟩ := hone P out hacc
    cases hanswer with
    | mk hmember => exact ⟨peerId, hmember, List.mem_cons_self, rfl⟩

theorem Accounted.fits (h : σ.Accounted epochOf w)
    (hcollects : w.relay.Collects request fun id => σ.sharing (epochOf id) (request id).method)
    (hhonest : σ.Honest request w e) (hone : σ.OneSharing request epochOf w e) :
    Fits request (fun id => σ.sharing (epochOf id) (request id).method) w.relay e := by
  cases e with
  | processReceivedProof c nodeIdx peerId id proof method redis =>
    intro P out hacc
    obtain ⟨hanswer, hthreshold, horder⟩ := hone P out hacc
    obtain ⟨hfirst, -⟩ := hhonest
    cases hanswer with
    | mk hmember hP hproof =>
      obtain ⟨r, hr, hP'⟩ := hacc.request
      obtain rfl := hcollects.requests id r hr
      obtain rfl := Except.ok.inj (hP.symm.trans hP')
      obtain ⟨key, K, -, -, hverify⟩ := hacc.verifies
      obtain ⟨-, -, rfl⟩ := DLEQProof.verifyAndGetOutput_eq_ok hverify
      rw [(DLEQProof.new_eq_ok hproof).2.2.2.1]
      refine ⟨σ.idx_valid _ _ hmember, fun hi => ?_, (σ.degree_lt _ _).trans_le (by exact_mod_cast hthreshold),
        .mk horder⟩
      -- an index that is counted already belongs to a prover of the same sharing that has answered
      obtain ⟨peerId', hmember', hanswered, hidx⟩ := h id _ hi
      obtain rfl := σ.idx_injOn _ hmember hmember' hidx
      exact hfirst hanswered
  | mulRequest => exact hhonest
  | _ => trivial

end Sharings

/-! ### Two sharings over the scalars -/

theorem proverIdx_inj : ∀ p ∈ ({"prover1", "prover2", "prover3"} : Finset PeerId),
    ∀ p' ∈ ({"prover1", "prover2", "prover3"} : Finset PeerId), proverIdx p = proverIdx p' → p = p' := by
  decide

/-- The provers share 5 by the line `5 + 3x`, then by `5 + 4x`, and so on. -/
noncomputable def lineSharings : Sharings scalarRelay where
  members _ := {"prover1", "prover2", "prover3"}
  idx _ := proverIdx
  threshold _ := 2
  sharing k _ := line (5 : ℕ) (3 + k : ℕ)
  secret _ := (5 : ℕ)
  idx_valid _ p _ := proverIdx_valid p
  idx_injOn _ p hp p' hp' h := proverIdx_inj p hp p' hp' h
  degree_lt _ _ := degree_line _ _
  eval_zero _ _ := eval_line_zero _ _

theorem lineSharings_share (k : ℕ) (m : Method) (peerId : PeerId) :
    lineSharings.share k m peerId = 5 + (3 + k) * (proverIdx peerId : _) := by
  refine (eval_line _ _ _).trans ?_
  push_cast
  rfl

theorem lineSharings_answer {k : ℕ} {peerId : PeerId} {x : CurveId.Scalar .secp256k1}
    {proof : DLEQProof (scalarCurve .secp256k1)} (hmember : peerId ∈ lineSharings.members k)
    (hx : 5 + (3 + k) * (proverIdx peerId : _) = x) (hproof : Answers x proof) :
    lineSharings.Answer (fun _ => lineRequest) k peerId "request"
      (.processReceivedProof .secp256k1 (proverIdx peerId) peerId "request" proof .oprfSecp256k1 .ok) := by
  obtain ⟨draw, hproof⟩ := hproof
  have hshare : lineSharings.share k .oprfSecp256k1 peerId = x := (lineSharings_share k _ peerId).trans hx
  rw [← hshare] at hproof
  exact Sharings.Answer.mk hmember (scalarCurve_fromEncoded_bytes .secp256k1 1) hproof

theorem lineSharings_prover1 {proof : DLEQProof (scalarCurve .secp256k1)} (hproof : Answers 8 proof) :
    lineSharings.Answer (fun _ => lineRequest) 0 "prover1" "request"
      (.processReceivedProof .secp256k1 1 "prover1" "request" proof .oprfSecp256k1 .ok) := by
  refine lineSharings_answer (by decide) ?_ hproof
  show (5 + (3 + (0 : ℕ)) * (1 : ℕ) : CurveId.Scalar .secp256k1) = 8
  norm_num

theorem prover2_not_mem : ("prover2", "request") ∉ [("prover1", "request")] := by decide

def proversMap : HMap PeerId (ProverInfo × ℕ) :=
  HMap.ofKeys ["prover1", "prover2", "prover3"] lineProvers_nodup fun p => (⟨p, proverIdx p⟩, proverIdx p)

def reElected (s : Relay) : Relay :=
  storeResharingKset "prover2" (secpKeys 13) 2 <| updateThreshold ⟨2, 0, 3⟩ <| storeQuorumMap proversMap proversMap <|
    updateElectedProvers lineRelay.activeProvers true <| clearShares s

theorem checkMemoryUsage_secpKeys (x : CurveId.Scalar .secp256k1) : checkMemoryUsage (secpKeys x) 100 = true := by
  have hlen : (scalarBytes .secp256k1 x).length = 33 := by
    rw [scalarBytes, CurveId.compressed, List.length_cons, Bytes.length_toBe]
  show ([scalarBytes .secp256k1 x].all fun value => decide (value.length ≤ 100)) = true
  rw [List.all_cons, hlen]
  rfl

theorem reElected_eq (s : Relay) : ∃ readyNodes activeProvers, reElected s = { s with
    pubkeyShares := HMap.insert ∅ "prover2" (secpKeys 13), ready := false, readyNodes := readyNodes
    newCachedElectedProvers := lineRelay.activeProvers, activeProvers := activeProvers
    tstarProvers := proversMap, newProvers := proversMap, n := 3, t := 2, epsilon := 0 } := by
  obtain ⟨activeProvers, h⟩ := storeResharingKset_of_elected (updateThreshold ⟨2, 0, 3⟩ <|
    storeQuorumMap proversMap proversMap <| updateElectedProvers lineRelay.activeProvers true <| clearShares s)
    "prover2" 2 (checkMemoryUsage_secpKeys 13) rfl
  exact ⟨_, activeProvers, h⟩

theorem reElected_keyOf (s : Relay) :
    (reElected s).keyOf "prover2" .oprfSecp256k1 = some (scalarBytes .secp256k1 13) := by
  obtain ⟨readyNodes, activeProvers, heq⟩ := reElected_eq s
  rw [heq]
  rfl

theorem reElected_pending {s : Relay} (h : Pending s "request") : Pending (reElected s) "request" := by
  obtain ⟨readyNodes, activeProvers, heq⟩ := reElected_eq s
  rw [heq]
  exact ⟨h.request, h.batchCache, h.pubsubCache⟩

abbrev LineRun (w w' : RelayNetwork) : Prop :=
  Reach (RelayNetwork.Step scalarRelay) (lineSharings.Honest fun _ => lineRequest) w w'

theorem LineRun.reElected {w : RelayNetwork} {s : Relay} {answered : List (PeerId × String)}
    (h : LineRun w ⟨s, answered⟩) : LineRun w ⟨reElected s, answered⟩ := by
  have hkeys : lineSharings.Keys 1 "prover2" (secpKeys 13) 2 := by
    refine ⟨by decide, rfl, fun m key hkey => ?_⟩
    obtain ⟨rfl, rfl⟩ := secpKeys_get? hkey
    have hshare : lineSharings.share 1 .oprfSecp256k1 "prover2" = 13 := by
      rw [lineSharings_share]
      show (5 + (3 + (1 : ℕ)) * (2 : ℕ) : CurveId.Scalar .secp256k1) = 13
      norm_num
    rw [hshare]
    exact fromEncoded_key _
  have hcleared : LineRun w ⟨clearShares s, answered⟩ := h.tail (e := .clearShares) trivial ⟨⟨[], rfl⟩, rfl⟩
  have helected : LineRun w ⟨updateElectedProvers lineRelay.activeProvers true (clearShares s), answered⟩ :=
    hcleared.tail (e := .updateElectedProvers lineRelay.activeProvers true) trivial ⟨⟨[], rfl⟩, rfl⟩
  have hmap : LineRun w ⟨storeQuorumMap proversMap proversMap <|
      updateElectedProvers lineRelay.activeProvers true <| clearShares s, answered⟩ :=
    helected.tail (e := .storeQuorumMap proversMap proversMap) trivial ⟨⟨[], rfl⟩, rfl⟩
  have hthreshold : LineRun w ⟨updateThreshold ⟨2, 0, 3⟩ <| storeQuorumMap proversMap proversMap <|
      updateElectedProvers lineRelay.activeProvers true <| clearShares s, answered⟩ :=
    hmap.tail (e := .updatedThreshold ⟨2, 0, 3⟩) trivial ⟨⟨[], rfl⟩, rfl⟩
  exact hthreshold.tail (e := .resharingStoreKSet "prover2" (secpKeys 13) 2) ⟨1, hkeys⟩ ⟨⟨[], rfl⟩, rfl⟩

/-- Along every run of a network of honest provers in which each request is answered from one sharing, with
a threshold that suffices for it, what the relay reconstructs is the secret times the request's point. -/
theorem relay_integrity_across_resharing [∀ c, (env.curve c).FaithfulEncodings] (σ : Sharings env)
    (request : String → RequestToNetwork) (epochOf : String → ℕ) {w₀ w : RelayNetwork}
    (hrequests : ∀ id r, w₀.relay.requestOf id = some r → r = request id) (hempty : w₀.relay.resCache = ∅)
    (hrun : Reach (RelayNetwork.Step env) (fun w e => σ.Honest request w e ∧ σ.OneSharing request epochOf w e) w₀ w) :
    w.relay.Reconstructs request σ.secret := by
  have hcollects : w₀.relay.Collects request fun id => σ.sharing (epochOf id) (request id).method :=
    Relay.collects_of_empty hrequests hempty
  have haccounted : σ.Accounted epochOf w₀ := by
    intro id i hi
    rw [Relay.indices, hempty, HMap.get?_empty] at hi
    cases hi
  have hinv := hrun.invariant (I := fun w => σ.Accounted epochOf w ∧
    w.relay.Collects request fun id => σ.sharing (epochOf id) (request id).method) ⟨haccounted, hcollects⟩ ?_
  · exact hinv.2.reconstructs fun id => σ.eval_zero _ _
  · rintro w e w' ⟨haccounted, hcollects⟩ ⟨hhonest, hone⟩ hstep
    exact ⟨haccounted.step hone hstep, hcollects.step (haccounted.fits hcollects hhonest hone) hstep.1⟩

theorem relay_integrity_across_resharing_line : ∃ w,
    Reach (RelayNetwork.Step scalarRelay) (fun w e => lineSharings.Honest (fun _ => lineRequest) w e ∧
      lineSharings.OneSharing (fun _ => lineRequest) (fun _ => 0) w e) ⟨lineRelay, []⟩ w ∧
    (∃ res, w.relay.resCache.get? "request" = some res ∧ res.reconstructedPoint = some (scalarBytes .secp256k1 5)) ∧
    w.relay.Reconstructs (fun _ => lineRequest) lineSharings.secret := by
  obtain ⟨proof₁, s₁, hproof₁, hstep₁, hpending, hkeeps, hres₁⟩ := lineRelay_first
  obtain ⟨proof₂, hproof₂⟩ := exists_answers secpDraw 11
  obtain ⟨s₂, hstep₂, hres₂⟩ := scalarRelay_second hpending hkeeps.t (r := lineRequest) (hkeeps.requestOf _)
    (scalarCurve_fromEncoded_bytes _ 1) ((hkeeps.keyOf _ _).trans lineRelay_prover2) hproof₂ (a := 5) (b := 3)
    hres₁ (by norm_num) (by norm_num)
  have hanswer₁ := lineSharings_prover1 hproof₁
  have hanswer₂ : lineSharings.Answer (fun _ => lineRequest) 0 "prover2" "request"
      (.processReceivedProof .secp256k1 2 "prover2" "request" proof₂ .oprfSecp256k1 .ok) := by
    refine lineSharings_answer (by decide) ?_ hproof₂
    show (5 + (3 + (0 : ℕ)) * (2 : ℕ) : CurveId.Scalar .secp256k1) = 11
    norm_num
  have hclear : Relay.Step scalarRelay s₂ .clearShares (clearShares s₂) := ⟨[], rfl⟩
  have hstart : Reach (RelayNetwork.Step scalarRelay) (fun w e => lineSharings.Honest (fun _ => lineRequest) w e ∧
    lineSharings.OneSharing (fun _ => lineRequest) (fun _ => 0) w e) ⟨lineRelay, []⟩ ⟨lineRelay, []⟩ := .refl
  have hfirst := RelayNetwork.deliver hstart hstep₁ ?_
  have hsecond := RelayNetwork.deliver hfirst hstep₂ ?_
  have hrun := RelayNetwork.deliver hsecond hclear ⟨trivial, trivial⟩
  · exact ⟨_, hrun, hres₂, relay_integrity_across_resharing lineSharings (fun _ => lineRequest) (fun _ => 0)
      (fun _ _ h => lineRelay_requestOf h) rfl hrun⟩
  · exact ⟨⟨prover2_not_mem, 0, hanswer₂⟩, fun P out _ => ⟨hanswer₂, hkeeps.t.ge, order_nsmul_scalar P⟩⟩
  · exact ⟨⟨List.not_mem_nil, 0, hanswer₁⟩, fun P out _ => ⟨hanswer₁, le_rfl, order_nsmul_scalar P⟩⟩

/-- The first prover answers from the first sharing with 8, then comes a re-election, and the second prover answers
from the second sharing with 13. The relay reconstructs 3, not 5. -/
theorem relay_mixes_sharings : ∃ w, LineRun ⟨lineRelay, []⟩ w ∧
    (∃ res, w.relay.resCache.get? "request" = some res ∧ res.reconstructedPoint = some (scalarBytes .secp256k1 3)) ∧
    ¬ w.relay.Reconstructs (fun _ => lineRequest) lineSharings.secret := by
  obtain ⟨proof₁, s₁, hproof₁, hstep₁, hpending, hkeeps, hres₁⟩ := lineRelay_first
  obtain ⟨proof₂, hproof₂⟩ := exists_answers secpDraw 13
  obtain ⟨readyNodes, activeProvers, heq⟩ := reElected_eq s₁
  obtain ⟨s₂, hstep₂, hres₂⟩ := scalarRelay_second (reElected_pending hpending) (by rw [heq]) (r := lineRequest)
    (by rw [heq]; exact hkeeps.requestOf _) (scalarCurve_fromEncoded_bytes _ 1) (reElected_keyOf s₁) hproof₂ (a := 3)
    (b := 5) (by rw [heq]; exact hres₁) (by norm_num) (by norm_num)
  have hfirst : LineRun ⟨lineRelay, []⟩ ⟨s₁, [("prover1", "request")]⟩ := by
    refine Reach.tail .refl ?_ ⟨hstep₁, rfl⟩
    exact ⟨List.not_mem_nil, 0, lineSharings_prover1 hproof₁⟩
  have hsecond : LineRun ⟨lineRelay, []⟩ ⟨s₂, [("prover2", "request"), ("prover1", "request")]⟩ := by
    refine Reach.tail hfirst.reElected ?_ ⟨hstep₂, rfl⟩
    refine ⟨prover2_not_mem, 1, lineSharings_answer (by decide) ?_ hproof₂⟩
    show (5 + (3 + (1 : ℕ)) * (2 : ℕ) : CurveId.Scalar .secp256k1) = 13
    norm_num
  have hne : (3 : CurveId.Scalar .secp256k1) ≠ 5 := by
    exact_mod_cast (CurveId.natCast_inj .secp256k1 (i := 3) (j := 5) (by decide) (by decide)).not.2 (by decide)
  exact ⟨_, hsecond, hres₂, not_reconstructs rfl hres₂ hne⟩

end HumanNetwork
