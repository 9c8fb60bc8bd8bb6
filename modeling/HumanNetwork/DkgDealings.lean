import HumanNetwork.KeyIsolation
import HumanNetwork.Sessions

/-!
# What the nodes of a key generation deal and keep (`dkg_engine_actor.rs`)

An output of round 1 deals a polynomial (`DealsPoly`): what a member decrypts is the value at its index, and the first
commitment is that of the free term. Round 2 with the dealings of all members gives the value of the sum of their
polynomials (`Node.dkgRound2_of_dealt`). The other messages of the engine leave its nodes as they are (`SameNodes`).

A `SessionSetup` is what the nodes of a key generation are given: the quorum and the threshold of each attempt, and an RSA
key for each node. `Placed` is the engine of a node that was initialised with it.
-/

namespace HumanNetwork
open Outcome DkgEngineState

/-! ### Round 1 and round 2 of a node -/

section node
variable {R : Rsa} {C : Curve} [C.PrimeOrder] {self node : Node R C} {network : Network R}

/-- The output deals the polynomial from the index `j` to the members of the network: what a member decrypts is the value
at its index, and the first commitment is that of the free term. -/
structure DealsPoly (network : Network R) (j : ℕ) (f : Polynomial C.FieldEl) (output : Round1Output) : Prop where
  other : ∀ i ∈ output.1.keys, i ≠ j
  value : ∀ i ct sk, output.1.get? i = some ct → network.publicKeys.get? i = some (R.publicKey sk) →
    R.decrypt sk ct = some (C.id.toRepr (f.eval (i : C.FieldEl)))
  freeTerm : ∀ v, List.Forall₂ (fun x point => C.fromEncoded x = .ok point) output.2.1 v →
    v[0]? = some (f.eval 0 • C.basePointOrGenerator)

structure Node.KeepsPoly (node : Node R C) (f : Polynomial C.FieldEl) : Prop where
  ownPartialShare : node.ownPartialShare = f.eval (node.id : C.FieldEl)
  initPubShare : node.initPubShare = f.eval 0 • C.basePointOrGenerator

/-- The share of the node is the value of the polynomial at the index, and it has the group key of the free term, which
can be encoded. -/
structure Node.OnPoly (node : Node R C) (i : ℕ) (F : Polynomial C.FieldEl) : Prop where
  privateShare : node.privateShare = F.eval (i : C.FieldEl)
  networkPubkey : node.networkPubkey = F.eval 0 • C.basePointOrGenerator
  encoded : ∃ b, C.encode node.networkPubkey = some b

theorem eq_of_decoded [C.FaithfulEncodings] {points points' : List C.Point} {encoded : List Bytes}
    (hencoded : List.Forall₂ (fun point x => C.encode point = some x) points encoded)
    (hdecoded : List.Forall₂ (fun x point => C.fromEncoded x = .ok point) encoded points') : points' = points := by
  induction hencoded generalizing points' with
  | nil => exact List.forall₂_nil_left_iff.1 hdecoded
  | cons hpoint _ ih =>
    obtain ⟨point', rest, hpoint', hrest, rfl⟩ := List.forall₂_cons_left_iff.1 hdecoded
    have hback := Curve.FaithfulEncodings.fromEncoded_encode (Curve.PrimeOrder.order_nsmul _) hpoint
    rw [ih hrest, Except.ok.inj (hpoint'.symm.trans hback)]

theorem Node.processDkgRound1_deals [C.FaithfulEncodings] [R.Lossless] {rng : ℕ → C.FieldEl} {coins : ℕ → R.Coin}
    {output : Round1Output} (h : self.processDkgRound1 network rng coins = .ok (node, output)) :
    node.KeepsPoly (dkgPoly network rng).toPolynomial ∧
      DealsPoly (C := C) network self.id (dkgPoly network rng).toPolynomial output := by
  have hpos : 0 < (dkgPoly network rng).coefficients.length := by
    rw [length_dkgPoly]
    exact network.threshold_pos
  have hfree := getElem?_zero_feldmanCommitments C hpos
  simp only [processDkgRound1, bind_eq_ok, Prod.exists, unwrap_eq_ok, pure_eq_ok, Except.ok.injEq, Prod.mk.injEq] at h
  obtain ⟨yCt, v, yii, hround1, v0, hv0, encoded, hencoded, rfl, rfl⟩ := h
  obtain ⟨hyCt, rfl, rfl⟩ := Node.dkgRound1_ok hround1
  rw [hfree, Option.some.injEq] at hv0
  refine ⟨⟨rfl, hv0.symm⟩, fun i hi => ?_, fun i ct sk hct hkey => ?_, fun v' hv' => ?_⟩
  · rintro rfl
    rw [keys_encryptShares _ hyCt, ← HMap.get?_isSome, HMap.get?_remove, if_pos rfl] at hi
    cases hi
  · obtain ⟨pk, yi, hpk, hyi, henc⟩ := encryptShares_ok _ hyCt hct
    obtain rfl : pk = R.publicKey sk := Option.some.inj ((HMap.get?_of_remove hpk).symm.trans hkey)
    rw [get?_feldmanShares, hkey, Option.map_some, Option.some.injEq] at hyi
    rw [Rsa.Lossless.decrypt_encrypt henc, ← hyi]
  · have hpoints : List.Forall₂ (fun point x => C.encode point = some x) (feldmanCommitments C (dkgPoly network rng))
        encoded := by
      refine (mapM_eq_ok.1 hencoded).imp fun point x hx => ?_
      exact unwrap_eq_ok.1 hx
    rw [eq_of_decoded hpoints hv', hfree]

/-- Round 2 with the dealings of all the members `ids`: the share is the value of the sum of their polynomials. -/
theorem Node.dkgRound2_of_dealt {prof : Profile} {inputY : HMap ℕ Bytes} {inputV : HMap ℕ (List C.Point)}
    {ids : Finset ℕ} {f : ℕ → Polynomial C.FieldEl} {ki : C.FieldEl} {Ki K : C.Point} (hid : self.id ∈ ids)
    (hkeeps : self.KeepsPoly (f self.id)) (hkeysY : ∀ j, j ∈ inputY.keys ↔ j ∈ ids.erase self.id)
    (hkeysV : ∀ j, j ∈ inputV.keys ↔ j ∈ ids.erase self.id)
    (hY : ∀ j ct, inputY.get? j = some ct →
      R.decrypt self.rsaSeckey ct = some (C.id.toRepr ((f j).eval (self.id : C.FieldEl))))
    (hV : ∀ j v, inputV.get? j = some v → v[0]? = some ((f j).eval 0 • C.basePointOrGenerator))
    (h : self.dkgRound2 prof network inputY inputV = .ok (ki, Ki, K)) :
    OnPoly { self with privateShare := ki, networkPubkey := K } self.id (∑ j ∈ ids, f j) := by
  simp only [dkgRound2, bind_eq_ok, pure_eq_ok, Except.ok.injEq, Prod.mk.injEq] at h
  obtain ⟨_, -, _, -, y, hy, _, -, K, hK, b, hb, rfl, -, rfl⟩ := h
  refine ⟨?_, ?_, b, unwrap_eq_ok.1 hb⟩
  · obtain rfl := Except.ok.inj (hy.symm.trans (decryptShares_honest _ hY))
    have hsum : ∀ (l : List C.FieldEl) (a : C.FieldEl), l.foldl (· + ·) a = a + l.sum := by
      intro l a
      rw [← List.sum_cons, List.sum_eq_foldl, List.foldl_cons, zero_add]
    show List.foldl _ _ _ = _
    rw [hsum, HMap.values_mapVal_keys, HMap.sum_map_keys hkeysY, hkeeps.ownPartialShare,
      Finset.add_sum_erase _ (fun j => (f j).eval (self.id : C.FieldEl)) hid, Polynomial.eval_finsetSum]
  · rw [sumFreeTerms_eq_ok hV, Except.ok.injEq] at hK
    show K = _
    rw [← hK, HMap.sum_map_keys hkeysV, hkeeps.initPubShare,
      Finset.add_sum_erase _ (fun j => (f j).eval 0 • C.basePointOrGenerator) hid, Polynomial.eval_finsetSum,
      Finset.sum_smul]

end node

variable {env : EngineEnv}

/-! ### The nodes of an engine -/

def NodeDataVariant.node (self : NodeDataVariant env) : (c : CurveId) × Node env.R (env.curve c) := ⟨self.c, self.data.node⟩

namespace DkgEngineState
variable {self after : DkgEngineState env}

def nodeOf (self : DkgEngineState env) (key : String) : Option ((c : CurveId) × Node env.R (env.curve c)) :=
  (self.dkgNodes.get? key).map NodeDataVariant.node

theorem nodeOf_eq_some {key : String} {c : CurveId} {data : NodeData env.R (env.curve c)}
    (h : self.dkgNodes.get? key = some ⟨c, data⟩) : self.nodeOf key = some ⟨c, data.node⟩ := by
  rw [nodeOf, h]
  rfl

structure SameNodes (before after : DkgEngineState env) : Prop where
  frame : after = { before with dkgNodes := after.dkgNodes }
  keys : after.dkgNodes.keys = before.dkgNodes.keys
  nodeOf : ∀ key, after.nodeOf key = before.nodeOf key

theorem SameNodes.refl (self : DkgEngineState env) : self.SameNodes self := ⟨rfl, rfl, fun _ => rfl⟩

theorem SameNodes.of_changed {change : String → NodeDataVariant env → NodeDataVariant env → Prop}
    (h : NodesChanged change self after) (hchange : ∀ key node node', change key node node' → node'.node = node.node) :
    self.SameNodes after := by
  refine ⟨h.frame, h.keys, fun key => ?_⟩
  cases hnode' : after.dkgNodes.get? key with
  | none =>
    have hnone : self.dkgNodes.get? key = none := by
      rw [HMap.get?_eq_none, ← h.keys]
      exact HMap.get?_eq_none.1 hnode'
    rw [DkgEngineState.nodeOf, DkgEngineState.nodeOf, hnode', hnone]
  | some node' =>
    obtain ⟨node, hnode, hsame⟩ := h.node key node' hnode'
    have heq : node'.node = node.node := by
      rcases hsame with rfl | hchanged
      · rfl
      · exact hchange key node node' hchanged
    rw [DkgEngineState.nodeOf, DkgEngineState.nodeOf, hnode', hnode, Option.map_some, Option.map_some, heq]

theorem sameNodes_handleRound1Output {idx : ℕ} {outputs : HMap String Round1Output} {report : List PeerId}
    (h : self.handleRound1Output env idx outputs = .ok (after, report)) : self.SameNodes after := by
  refine .of_changed (handleRound1Output_changes h) ?_
  rintro key node node' ⟨output, -, hregistered⟩
  simp only [NodeDataVariant.registerRound1ResultFromOtherNode, NodeDataVariant.registerOutput, bind_eq_ok, pure_eq_ok,
    Except.ok.injEq] at hregistered
  obtain ⟨_, -, _, -, rfl⟩ := hregistered
  rfl

theorem sameNodes_handleStoreReceivedPubshare {idx : ℕ} {pubshares : HMap String Bytes} {report : List PeerId}
    (h : self.handleStoreReceivedPubshare idx pubshares = .ok (after, report)) : self.SameNodes after := by
  unfold DkgEngineState.handleStoreReceivedPubshare at h
  split at h
  · obtain ⟨rfl, -⟩ := Prod.mk.inj (Except.ok.inj h)
    exact .refl _
  · split at h
    · obtain ⟨rfl, -⟩ := Prod.mk.inj (Except.ok.inj h)
      exact .refl _
    · refine .of_changed (storePubshares_changes h) ?_
      rintro key node node' ⟨pubshare, -, hstored⟩
      simp only [NodeDataVariant.storePubshareForNode, bind_eq_ok, pure_eq_ok, Except.ok.injEq] at hstored
      obtain ⟨_, -, rfl⟩ := hstored
      rfl

theorem sameNodes_handleRound3 {out : Option (HMap String Bytes) × Option Completion}
    (h : self.handleRound3 false = .ok (after, out)) : self.SameNodes after := by
  simp only [DkgEngineState.handleRound3, bind_eq_ok, pure_eq_ok, Except.ok.injEq, Prod.mk.injEq] at h
  obtain ⟨_, -, _, -, _, -, rfl, -⟩ := h
  exact .refl _

theorem runRound1_deals {network : Network env.R} {rng : String → (c : CurveId) → ℕ → (env.curve c).FieldEl}
    {coins : String → ℕ → env.R.Coin} {entries : List (String × NodeDataVariant env)}
    {nodes nodes' : HMap String (NodeDataVariant env)} {outputs outputs' : HMap String Round1Output}
    (hnodup : (entries.map Prod.fst).Nodup) (hkeys : ∀ e ∈ entries, e.1 ∈ nodes.keys)
    (h : runRound1 network rng coins entries nodes outputs = .ok (nodes', some outputs')) :
    (∀ key ∉ entries.map Prod.fst, nodes'.get? key = nodes.get? key ∧ outputs'.get? key = outputs.get? key) ∧
      ∀ e ∈ entries, ∃ dealt output, e.2.dkgRound1 network (rng e.1) (coins e.1) = .ok (dealt, output) ∧
        nodes'.get? e.1 = some dealt ∧ outputs'.get? e.1 = some output := by
  induction entries generalizing nodes outputs with
  | nil =>
    obtain ⟨rfl, hout⟩ := Prod.mk.inj (Except.ok.inj h)
    obtain rfl := Option.some.inj hout
    exact ⟨fun _ _ => ⟨rfl, rfl⟩, nofun⟩
  | cons e entries ih =>
    obtain ⟨key, node⟩ := e
    rw [List.map_cons, List.nodup_cons] at hnodup
    simp only [runRound1, bind_eq_ok] at h
    obtain ⟨dealt, hdealt, h⟩ := h
    cases dealt with
    | none => cases h
    | some dealt =>
      obtain ⟨dealt, output⟩ := dealt
      obtain ⟨hrest, hentries⟩ := ih hnodup.2 (fun e he => by
        rw [HMap.keys_mapVal]
        exact hkeys e (List.mem_cons_of_mem _ he)) h
      refine ⟨fun k hk => ?_, ?_⟩
      · rw [List.map_cons, List.mem_cons, not_or] at hk
        have hne : k ≠ key := hk.1
        obtain ⟨hnodes, houtputs⟩ := hrest k hk.2
        simp only [hnodes, houtputs, HMap.get?_mapVal, HMap.get?_insert_of_ne _ _ hne, if_neg hne, Option.map_id', and_self]
      · rw [List.forall_mem_cons]
        refine ⟨⟨dealt, output, toOption_eq_some.1 hdealt, ?_, ?_⟩, hentries⟩
        · obtain ⟨old, hold⟩ := HMap.exists_get? (hkeys (key, node) List.mem_cons_self)
          rw [(hrest key hnodup.1).1, HMap.get?_mapVal, hold, Option.map_some, if_pos rfl]
        · rw [(hrest key hnodup.1).2, HMap.get?_insert_self]

theorem handleRound1_deals {rng : String → (c : CurveId) → ℕ → (env.curve c).FieldEl} {coins : String → ℕ → env.R.Coin}
    {outputs : HMap String Round1Output} {report : List PeerId}
    (h : self.handleRound1 rng coins = .ok (after, some outputs, report)) {key : String} {node : NodeDataVariant env}
    (hnode : self.dkgNodes.get? key = some node) : ∃ dealt output,
      node.data.node.processDkgRound1 self.network (rng key node.c) (coins key) = .ok (dealt, output) ∧
      after.nodeOf key = some ⟨node.c, dealt⟩ ∧ outputs.get? key = some output := by
  obtain ⟨nodes, hround1, rfl⟩ := handleRound1_eq_ok h
  have hkeys : ∀ e ∈ self.dkgNodes.entries, e.1 ∈ self.dkgNodes.keys := fun e he => HMap.mem_keys_of_mem he
  obtain ⟨_, output, hdealt, hafter, houtput⟩ := (runRound1_deals self.dkgNodes.nodup hkeys hround1).2 (key, node)
    (HMap.get?_eq_some.1 hnode)
  simp only [NodeDataVariant.dkgRound1, bind_eq_ok, pure_eq_ok, Except.ok.injEq, Prod.mk.injEq] at hdealt
  obtain ⟨⟨dealt, _⟩, hdealt, rfl, rfl⟩ := hdealt
  refine ⟨dealt, _, hdealt, ?_, houtput⟩
  rw [nodeOf, hafter]
  rfl

end DkgEngineState

/-! ### What the nodes of an attempt are given -/

/-- The quorum and the threshold that the relay gives to the nodes of each attempt, and their RSA keys. The indices of a
quorum are distinct, and the registry has the public keys. -/
structure SessionSetup (env : EngineEnv) where
  quorum : ℕ → QuorumMap
  threshold : ℕ → ℕ
  rsaKey : PeerId → env.R.SecretKey
  distinct : ∀ {a p q r r' j}, (quorum a).get? p = some (r, j) → (quorum a).get? q = some (r', j) → p = q
  valid : ∀ {a p r j}, (quorum a).get? p = some (r, j) → 0 < j ∧ j < 2 ^ 32
  registered : ∀ {a p r j}, (quorum a).get? p = some (r, j) →
    env.fromPkcs1Pem (r.rsaPubKey.replace "\\r" "\n") = .ok (env.R.publicKey (rsaKey p))

abbrev DealtPolys (env : EngineEnv) := ℕ → ℕ → (m : Method) → Polynomial (env.curve m.curve).FieldEl

namespace SessionSetup
variable (setup : SessionSetup env) {p q : PeerId} {a i j : ℕ}

def ids (a : ℕ) : Finset ℕ := quorumIds (setup.quorum a)

theorem mem_ids : j ∈ setup.ids a ↔ ∃ p r, (setup.quorum a).get? p = some (r, j) := by
  simp only [ids, quorumIds, List.mem_toFinset, HMap.values, List.map_map, List.mem_map, Prod.exists]
  constructor
  · rintro ⟨p, r, i, he, rfl⟩
    exact ⟨p, r, HMap.get?_eq_some.2 he⟩
  · rintro ⟨p, r, hp⟩
    exact ⟨p, r, j, HMap.get?_eq_some.1 hp, rfl⟩

theorem card_ids (a : ℕ) : (setup.ids a).card = (setup.quorum a).len := by
  have hinj : ∀ e ∈ (setup.quorum a).entries, ∀ e' ∈ (setup.quorum a).entries, e.2.2 = e'.2.2 → e = e' := by
    rintro ⟨p, r, i⟩ he ⟨q, r', j⟩ he' rfl
    obtain rfl := setup.distinct (HMap.get?_eq_some.2 he) (HMap.get?_eq_some.2 he')
    rw [HMap.eq_of_mem_of_mem he he']
  have hnodup : ((setup.quorum a).values.map Prod.snd).Nodup := by
    rw [HMap.values, List.map_map]
    exact (List.Nodup.of_map _ (setup.quorum a).nodup).map_on hinj
  rw [ids, quorumIds, List.toFinset_card_of_nodup hnodup, List.length_map, HMap.length_values]

noncomputable def groupPoly (polys : DealtPolys env) (a : ℕ) (m : Method) : Polynomial (env.curve m.curve).FieldEl :=
  ∑ j ∈ setup.ids a, polys a j m

structure Networked (a : ℕ) (network : Network env.R) : Prop where
  threshold : network.threshold = setup.threshold a
  totalNodes : network.totalNodes = (setup.quorum a).len
  key : ∀ {q r j}, (setup.quorum a).get? q = some (r, j) →
    network.publicKeys.get? j = some (env.R.publicKey (setup.rsaKey q))
  listed : ∀ j ∈ network.publicKeys.keys, j ∈ setup.ids a
  threshold_lt : network.threshold < network.totalNodes

/-- The engine of the node in the attempt, with its RSA key and with a node for each key on the curve of the key. -/
structure Placed (p : PeerId) (a : ℕ) (engine : DkgEngineState env) : Prop where
  peerId : engine.peerId = p
  newProvers : engine.newProvers = setup.quorum a
  tstarProvers : engine.tstarProvers = ∅
  network : setup.Networked a engine.network
  named : ∀ key ∈ engine.dkgNodes.keys, ∃ m : Method, m.keyName = key
  node : ∀ {m : Method} {c node}, engine.nodeOf m.keyName = some ⟨c, node⟩ → c = m.curve ∧ node.rsaSeckey = setup.rsaKey p

structure Gives (p : PeerId) (a : ℕ) (engine : DkgEngineState env) : Prop where
  threshold : engine.network.threshold = setup.threshold a
  rsaSeckey : ∀ key c node, engine.nodeOf key = some ⟨c, node⟩ → node.rsaSeckey = setup.rsaKey p

theorem networked_of_keyedNetwork {text keyText : String} {threshold : ℕ} {network : Network env.R}
    (hthreshold : network.threshold = setup.threshold a)
    (h : keyedNetwork env text keyText threshold (setup.quorum a) false = .ok network) : setup.Networked a network := by
  obtain ⟨ht, htotal⟩ := keyedNetwork_params h
  simp only [keyedNetwork, newNetwork, parseRsaKeys, bind_eq_ok, mapErr_eq_ok, pure_eq_ok, Except.ok.injEq] at h
  obtain ⟨built, hbuilt, _, ⟨keys, hkeys, rfl⟩, rfl⟩ := h
  -- every entry of the map is the key of a member
  have hentry : ∀ entry ∈ keys, ∃ q r, (setup.quorum a).get? q = some (r, entry.1) ∧
      entry.2 = env.R.publicKey (setup.rsaKey q) := by
    intro entry hmem
    obtain ⟨⟨q, r, j⟩, he, hparsed⟩ := (exists_of_mapM hkeys).2 entry hmem
    obtain ⟨hkey, rfl⟩ := parseRsaKey_eq_ok.1 hparsed
    have hq := HMap.get?_eq_some.2 he
    exact ⟨q, r, hq, Except.ok.inj (hkey.symm.trans (setup.registered hq))⟩
  refine ⟨hthreshold, htotal, fun {q r j} hq => ?_, fun j hj => ?_, ?_⟩
  · obtain ⟨⟨i, key⟩, hmem, hparsed⟩ := (exists_of_mapM hkeys).1 _ (HMap.get?_eq_some.1 hq)
    obtain ⟨-, rfl⟩ := parseRsaKey_eq_ok.1 hparsed
    obtain ⟨pk, hpk⟩ := HMap.exists_get? (HMap.mem_keys_collect.2 ⟨_, hmem, rfl⟩ :
      i ∈ (HMap.collect Prod.fst Prod.snd keys).keys)
    show (HMap.collect Prod.fst Prod.snd keys).get? i = _
    rw [hpk]
    rw [HMap.get?_collect, Option.map_eq_some_iff] at hpk
    obtain ⟨entry, hfind, rfl⟩ := hpk
    obtain ⟨q', r', hq', hkey⟩ := hentry entry (List.mem_reverse.1 (List.mem_of_find?_eq_some hfind))
    have hindex : entry.1 = i := by simpa using List.find?_some hfind
    obtain rfl := setup.distinct hq (hindex ▸ hq')
    rw [hkey]
  · obtain ⟨entry, hmem, rfl⟩ := HMap.mem_keys_collect.1 hj
    obtain ⟨q, r, hq, -⟩ := hentry entry hmem
    exact setup.mem_ids.2 ⟨q, r, hq⟩
  · obtain ⟨-, hlt, -, ht', htotal', -⟩ := Network.new_dkg_eq_ok hbuilt
    show built.threshold < built.totalNodes
    rw [ht', htotal']
    exact hlt

theorem placed_of_dkgInit {idx threshold : ℕ} {sk : env.R.SecretKey} {coins : NodeCoins env} {self : DkgEngineState env}
    (hgives : setup.Gives p a self) (h : dkgInit env p idx sk (setup.quorum a) threshold coins = .ok self) :
    setup.Placed p a self := by
  simp only [dkgInit, bind_eq_ok, pure_eq_ok, Except.ok.injEq] at h
  obtain ⟨network, hnetwork, rfl⟩ := h
  refine ⟨rfl, rfl, rfl, setup.networked_of_keyedNetwork hgives.threshold hnetwork, fun key hkey => ?_,
    fun {m c node} hnode => ?_⟩
  · obtain ⟨m, -, hm⟩ := HMap.mem_keys_collect.1 hkey
    exact ⟨m, hm⟩
  refine ⟨?_, hgives.rsaSeckey _ c node hnode⟩
  simp only [nodeOf, HMap.get?_collect, Option.map_map, Option.map_eq_some_iff] at hnode
  obtain ⟨m', hfind, hm'⟩ := hnode
  have hname : m'.keyName = m.keyName := by simpa using List.find?_some hfind
  have hcurve : m'.curve = c := congrArg Sigma.fst hm'
  rw [← hcurve]
  cases m <;> cases m' <;> first | rfl | exact absurd hname (by decide)

variable {setup}

theorem Placed.of_sameNodes {self after : DkgEngineState env} (h : setup.Placed p a self) (hsame : self.SameNodes after) :
    setup.Placed p a after := by
  have hframe := hsame.frame
  refine ⟨?_, ?_, ?_, ?_, hsame.keys ▸ h.named, fun {m c node} hnode => h.node (by rwa [← hsame.nodeOf])⟩
  · rw [hframe]; exact h.peerId
  · rw [hframe]; exact h.newProvers
  · rw [hframe]; exact h.tstarProvers
  · rw [hframe]; exact h.network

theorem Placed.setNodes {self : DkgEngineState env} (h : setup.Placed p a self) {nodes : HMap String (NodeDataVariant env)}
    (hnodes : ∀ key node', nodes.get? key = some node' → ∃ node, self.dkgNodes.get? key = some node ∧ node'.c = node.c ∧
      node'.data.node.rsaSeckey = node.data.node.rsaSeckey) : setup.Placed p a { self with dkgNodes := nodes } := by
  refine ⟨h.peerId, h.newProvers, h.tstarProvers, h.network, fun key hkey => ?_, fun {m c node} hnode => ?_⟩
  · obtain ⟨node', hnode'⟩ := HMap.exists_get? hkey
    obtain ⟨old, hold, -⟩ := hnodes key node' hnode'
    exact h.named key (HMap.get?_isSome.1 (by rw [hold]; rfl))
  rw [nodeOf, Option.map_eq_some_iff] at hnode
  obtain ⟨node', hnode', heq⟩ := hnode
  obtain ⟨old, hold, hc, hsk⟩ := hnodes _ _ hnode'
  cases heq
  have hplaced := h.node (nodeOf_eq_some hold)
  exact ⟨hc.trans hplaced.1, hsk.trans hplaced.2⟩

theorem Placed.handleRound1 {self after : DkgEngineState env} (h : setup.Placed p a self)
    {rng : String → (c : CurveId) → ℕ → (env.curve c).FieldEl} {coins : String → ℕ → env.R.Coin}
    {outputs : Option (HMap String Round1Output)} {report : List PeerId}
    (hok : self.handleRound1 rng coins = .ok (after, outputs, report)) : setup.Placed p a after := by
  obtain ⟨nodes, hround1, rfl⟩ := handleRound1_eq_ok hok
  refine h.setNodes (runRound1_forall (P := fun key node' => ∃ node, self.dkgNodes.get? key = some node ∧ node'.c = node.c ∧
    node'.data.node.rsaSeckey = node.data.node.rsaSeckey) ?_ (fun e he => ⟨e.2, HMap.get?_eq_some.2 he, rfl, rfl⟩)
    (fun key node hnode => ⟨node, hnode, rfl, rfl⟩) hround1).2
  rintro key node node' output ⟨old, hold, hc, hsk⟩ hdealt
  simp only [NodeDataVariant.dkgRound1, bind_eq_ok, pure_eq_ok, Except.ok.injEq, Prod.mk.injEq] at hdealt
  obtain ⟨⟨dealt, _⟩, hdealt, rfl, -⟩ := hdealt
  exact ⟨old, hold, hc, (Node.processDkgRound1_frame hdealt).2.1.trans hsk⟩

end SessionSetup

end HumanNetwork
