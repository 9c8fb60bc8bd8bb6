import HumanNetwork.Lib.Ledger
import HumanNetwork.VerifiedRequests
import HumanNetwork.TaskProofs

/-!
# Batches of requests and their submission (`process_batch`)

A request that is verified for the first time moves from its own entry in Redis to the list `request_batch`, and when
the counter has reached `TASK_SIZE`, the list is pinned and posted as a task. After that the list is deleted and the
counter reset, whatever became of the task; and the entry of the request is deleted, whether or not it was pushed.

The relay has `process_batch` only up to the list (`processBatch`); `TaskRelay` is the relay with the list and the
counter. `History` records which requests were handed to `process_batch` and which tasks were submitted.
`batched_once_iff` says when each of these requests is in one task or waits in the list.
-/

namespace HumanNetwork
open Outcome

variable {env : RelayEnv} {prof : Profile}

/-- How `post_to_othentic_nodes` ends, within the time it is given. -/
inductive Posted where
  | ok
  | error (message : String)
  | timeout
deriving DecidableEq, Repr

structure TaskReply where
  lrange : Bool
  pin : Bool
  post : Posted
  del : Bool

inductive TaskEffect where
  | submitted (task : TaskProof)
  | reset

structure TaskRelay where
  relay : Relay
  requestBatch : List RequestToNetworkWithProofs
  batchSize : ℕ

/-- The second half of `process_batch`. -/
def TaskRelay.submitBatch (reply : TaskReply) (state : TaskRelay) : TaskRelay × List TaskEffect :=
  if state.batchSize ≥ TASK_SIZE then
    if reply.lrange then
      let taskProof : TaskProof := ⟨state.requestBatch⟩
      let submitted : List TaskEffect :=
        if reply.pin then
          match reply.post with
          | .ok => [.submitted taskProof]
          | .error _ | .timeout => []
        else []
      ({ state with
        requestBatch := if reply.del then [] else state.requestBatch
        batchSize := 0 }, submitted ++ [.reset])
    else (state, [])
  else (state, [])

/-- A signed request that is accounted for and forwarded counts for the batch. -/
def countRequest (prof : Profile) (batchSize : ℕ) (event : Event env) (effects : List (Effect env)) : Outcome Empty ℕ :=
  match event, effects with
  | .mulRequest _ _ ⟨_, some (_, .ok incrBy)⟩, [.forward _ _] => addU32 prof batchSize incrBy
  | _, _ => .ok batchSize

def Effect.batch? : Effect env → Option RequestToNetworkWithProofs
  | .batch request => some request
  | _ => none

/-- The hash that a message has put into the batch cache. This is where `process_batch` is called. -/
def processedHash (env : RelayEnv) (s s' : Relay) : Event env → Option String
  | .processReceivedProof _ _ _ requestId _ _ _ =>
    (s.hashOf env requestId).filter fun hash => !s.batchCache.containsKey hash && s'.batchCache.containsKey hash
  | _ => none

def TaskRelay.handle (env : RelayEnv) (prof : Profile) (state : TaskRelay) (event : Event env) (reply : TaskReply) :
    Outcome Empty (TaskRelay × List TaskEffect) := do
  let (relay, effects) ← HumanNetwork.handle env state.relay event
  let batchSize ← countRequest prof state.batchSize event effects
  let after : TaskRelay := ⟨relay, state.requestBatch ++ effects.filterMap Effect.batch?, batchSize⟩
  match processedHash env state.relay relay event with
  | some _ => pure (after.submitBatch reply)
  | none => pure (after, [])

/-! ### Runs with their history -/

def submittedTasks (effects : List TaskEffect) : List TaskProof :=
  effects.filterMap fun
    | .submitted task => some task
    | .reset => none

structure History where
  verified : List String
  tasks : List TaskProof

structure TaskRun extends TaskRelay where
  history : History

namespace TaskRun

def entries (s : TaskRun) : List RequestToNetworkWithProofs := s.history.tasks.flatMap TaskProof.data ++ s.requestBatch

def hashes (env : RelayEnv) (entries : List RequestToNetworkWithProofs) : List String :=
  entries.filterMap fun entry => requestHash env entry.base

/-- Each verified request is in exactly one submitted task, or else waits in the list. -/
def Accounted (env : RelayEnv) (s : TaskRun) : Prop := OnceIn s.history.verified (hashes env s.entries)

def Step (env : RelayEnv) (prof : Profile) (s : TaskRun) (e : Event env × TaskReply) (effects : List TaskEffect)
    (s' : TaskRun) : Prop :=
  s.toTaskRelay.handle env prof e.1 e.2 = .ok (s'.toTaskRelay, effects) ∧
    s'.history = ⟨s.history.verified ++ (processedHash env s.relay s'.relay e.1).toList,
      s.history.tasks ++ submittedTasks effects⟩

end TaskRun

def ResetsAfterSubmission (effects : List TaskEffect) : Prop :=
  ∀ before after, effects = before ++ TaskEffect.reset :: after → ∃ task, .submitted task ∈ before

/-- The message of a prover completes the request with this hash, and whether the request can be pushed. -/
def Relay.Completing (env : RelayEnv) (s : Relay) (hash : String) (rpush : Bool) : Event env → Prop
  | .processReceivedProof c nodeIdx peerId requestId proof method redis => redis.rpush = rpush ∧
    ∃ data collection, Counts env s c nodeIdx peerId requestId proof method data collection ∧
      env.serializeProof c proof ≠ none ∧ requestHash env data.request = some hash ∧
      s.batchCache.containsKey hash = false ∧ Completes env s c redis collection
  | _ => False

/-- A request that is completed is pushed to the list, unless it has been completed before; and when the counter is
full and the list can be read, the task is pinned and posted, and the list deleted. -/
def TaskRun.Delivers (env : RelayEnv) (s : TaskRun) (e : Event env × TaskReply) : Prop :=
  ∀ hash rpush, s.relay.Completing env hash rpush e.1 → (rpush = true ↔ hash ∉ s.history.verified) ∧
    (TASK_SIZE ≤ s.batchSize → e.2.lrange = true → (e.2.pin = true ∧ e.2.post = .ok) ∧
      (e.2.del = true ∨ s.requestBatch = [] ∧ rpush = false))

/-! ### What a message hands to `process_batch` -/

theorem Relay.Completing.unique {s : Relay} {e : Event env} {hash hash' : String} {rpush rpush' : Bool}
    (h : s.Completing env hash rpush e) (h' : s.Completing env hash' rpush' e) : hash = hash' ∧ rpush = rpush' := by
  cases e with
  | processReceivedProof c nodeIdx peerId requestId proof method redis =>
    obtain ⟨hrpush, data, collection, counts, -, hhash, -⟩ := h
    obtain ⟨hrpush', data', collection', counts', -, hhash', -⟩ := h'
    obtain ⟨rfl, rfl⟩ := counts.unique counts'
    exact ⟨Option.some.inj (hhash.symm.trans hhash'), hrpush.symm.trans hrpush'⟩
  | _ => exact h.elim

theorem processedHash_of_batchCache_eq {s s' : Relay} (h : s'.batchCache = s.batchCache) (e : Event env) :
    processedHash env s s' e = none := by
  cases e with
  | processReceivedProof c nodeIdx peerId requestId proof method redis =>
    rw [processedHash, h]
    refine Option.filter_eq_none_iff.2 fun hash _ => ?_
    simp
  | _ => rfl

theorem processReceivedProof_batches {c : CurveId} {s s' : Relay} {nodeIdx : ℕ} {peerId : PeerId} {requestId : String}
    {proof : DLEQProof (env.curve c)} {method : Method} {redis : RedisReply} {effects : List (Effect env)} {e : Event env}
    (he : e = .processReceivedProof c nodeIdx peerId requestId proof method redis)
    (h : ProofStep env s c nodeIdx peerId requestId proof method redis s' effects) :
    ((∀ hash rpush, ¬ s.Completing env hash rpush e) ∧ processedHash env s s' e = none ∧
      effects.filterMap Effect.batch? = []) ∨
    ∃ hash rpush request p, s.Completing env hash rpush e ∧ processedHash env s s' e = some hash ∧
      requestHash env request = some hash ∧ (∀ n, countRequest prof n e effects = .ok n) ∧
      effects.filterMap Effect.batch? = if rpush then [s.entryWith hash request p] else [] := by
  subst he
  have hnone : s'.batchCache = s.batchCache →
      processedHash env s s' (.processReceivedProof c nodeIdx peerId requestId proof method redis) = none :=
    fun h => processedHash_of_batchCache_eq h _
  cases h with
  | ignored rejected =>
    refine .inl ⟨?_, hnone rfl, rfl⟩
    rintro hash rpush ⟨-, data, collection, counts, -⟩
    obtain ⟨P, out, b, hacc, -⟩ := counts.product
    exact rejected P out hacc
  | unserialized counts unserialized =>
    refine .inl ⟨?_, hnone rfl, rfl⟩
    rintro hash rpush ⟨-, data', collection', counts', hserialized, hhash, -⟩
    obtain ⟨rfl, rfl⟩ := counts.unique counts'
    rcases unserialized with hnone | hnone
    · exact hserialized hnone
    · rw [hnone] at hhash
      cases hhash
  | batched counts _ hashed batched =>
    refine .inl ⟨?_, hnone rfl, rfl⟩
    rintro hash rpush ⟨-, data', collection', counts', -, hhash, hunbatched, -⟩
    obtain ⟨rfl, rfl⟩ := counts.unique counts'
    obtain rfl := Option.some.inj (hashed.symm.trans hhash)
    exact Bool.false_ne_true (hunbatched.symm.trans batched)
  | constructed counts _ _ _ incomplete =>
    refine .inl ⟨?_, hnone rfl, rfl⟩
    rintro hash rpush ⟨-, data', collection', counts', -, -, -, hcompletes⟩
    obtain ⟨rfl, rfl⟩ := counts.unique counts'
    exact incomplete hcompletes
  | @verified data collection hash b p pubsub published counts serialized hashed unbatched replies enough interpolates
      published_not_batch =>
    have hpublished : published.filterMap Effect.batch? = [] := by
      refine List.filterMap_eq_nil_iff.2 fun effect heffect => ?_
      cases effect with
      | batch request => exact absurd heffect (published_not_batch request)
      | _ => rfl
    refine .inr ⟨hash, redis.rpush, data.request, p, ⟨rfl, data, collection, counts, serialized, hashed, unbatched,
      replies, enough, b, interpolates⟩, ?_, hashed, fun n => rfl, ?_⟩
    · rw [processedHash, counts.hashOf, hashed, Option.filter_some, unbatched, HMap.containsKey_insert.2 (.inl rfl)]
      rfl
    · rw [List.filterMap_append, hpublished]
      cases redis.rpush <;> rfl

/-- No other message does anything to the batches. -/
theorem handle_batches {s s' : Relay} {e : Event env} {effects : List (Effect env)}
    (h : HumanNetwork.handle env s e = .ok (s', effects)) :
    ((∀ hash rpush, ¬ s.Completing env hash rpush e) ∧ processedHash env s s' e = none ∧
      effects.filterMap Effect.batch? = []) ∨
    ∃ hash rpush request p, s.Completing env hash rpush e ∧ processedHash env s s' e = some hash ∧
      requestHash env request = some hash ∧ (∀ n, countRequest prof n e effects = .ok n) ∧
      effects.filterMap Effect.batch? = if rpush then [s.entryWith hash request p] else [] := by
  cases e with
  | processReceivedProof => exact processReceivedProof_batches rfl (processReceivedProof_step h)
  | expire cache key =>
    obtain ⟨rfl, rfl⟩ := Prod.mk.inj (Except.ok.inj h)
    exact .inl ⟨fun _ _ => id, rfl, rfl⟩
  | mulRequest request requestId reply =>
    refine .inl ⟨fun _ _ => id, rfl, ?_⟩
    obtain ⟨reqCache, effect, -, heffect, heq⟩ := handleMultiplicationRequest_cases env s request requestId reply
    obtain ⟨-, rfl⟩ := Prod.mk.inj (heq.symm.trans (Except.ok.inj h))
    rcases heffect with ⟨response, rfl⟩ | rfl <;> rfl
  | _ =>
    obtain ⟨-, rfl⟩ := Prod.mk.inj (Except.ok.inj h)
    exact .inl ⟨fun _ _ => id, rfl, rfl⟩

/-! ### Which requests are verified -/

/-- The hashes of the batch cache and of the verified requests are among these. -/
structure Relay.Logged (env : RelayEnv) (verified : List String) (s : Relay) : Prop where
  batched : ∀ hash, s.batchCache.containsKey hash = true → hash ∈ verified
  verified : ∀ id, s.IsVerified id → ∃ hash ∈ verified, s.hashOf env id = some hash

namespace Relay.Logged
variable {verified : List String} {s s' : Relay} (h : s.Logged env verified)
include h

theorem mono {verified' : List String} (hsub : ∀ hash ∈ verified, hash ∈ verified') : s.Logged env verified' where
  batched hash hbatched := hsub hash (h.batched hash hbatched)
  verified id hid := by
    obtain ⟨hash, hmem, hhash⟩ := h.verified id hid
    exact ⟨hash, hsub hash hmem, hhash⟩

theorem of_imp (hbatch : ∀ hash, s'.batchCache.containsKey hash = true → s.batchCache.containsKey hash = true ∨ hash ∈ verified)
    (hver : ∀ id, s'.IsVerified id → s'.hashOf env id = s.hashOf env id ∧
      (s.IsVerified id ∨ ∃ hash ∈ verified, s.hashOf env id = some hash)) : s'.Logged env verified where
  batched hash hbatched := (hbatch hash hbatched).elim (h.batched hash) id
  verified id hid := by
    obtain ⟨hhash, hold⟩ := hver id hid
    rw [hhash]
    exact hold.elim (h.verified id) fun hold => hold

theorem proofStep {c : CurveId} {nodeIdx : ℕ} {peerId : PeerId} {requestId : String} {proof : DLEQProof (env.curve c)}
    {method : Method} {redis : RedisReply} {effects : List (Effect env)}
    (hstep : ProofStep env s c nodeIdx peerId requestId proof method redis s' effects)
    (hnew : ∀ hash rpush, s.Completing env hash rpush
      (.processReceivedProof c nodeIdx peerId requestId proof method redis) → hash ∈ verified) :
    s'.Logged env verified := by
  have hhash : ∀ id, s'.hashOf env id = s.hashOf env id := fun id => by
    rw [hashOf, hashOf, hstep.keeps.requestOf]
  cases hstep with
  | ignored => exact h
  | unserialized => exact h.of_imp (fun _ hbatched => .inl hbatched) fun id hid => ⟨hhash id, .inl hid⟩
  | @batched data collection hash counts _ hashed batched =>
    refine h.of_imp (fun _ hbatched => .inl hbatched) fun id hid => ⟨hhash id, ?_⟩
    rw [isVerified_insert rfl] at hid
    split at hid
    next hid' => exact .inr ⟨hash, h.batched hash batched, by rw [hid', counts.hashOf, hashed]⟩
    next => exact .inl hid
  | constructed =>
    refine h.of_imp (fun _ hbatched => .inl hbatched) fun id hid => ⟨hhash id, .inl ?_⟩
    rw [isVerified_insert rfl] at hid
    split at hid
    · cases hid
    · exact hid
  | @verified data collection hash b p pubsub published counts serialized hashed unbatched replies enough interpolates =>
    have hmem : hash ∈ verified := hnew hash redis.rpush
      ⟨rfl, data, collection, counts, serialized, hashed, unbatched, replies, enough, b, interpolates⟩
    refine h.of_imp (fun hash' hbatched => ?_) fun id hid => ⟨hhash id, ?_⟩
    · rcases HMap.containsKey_insert.1 hbatched with rfl | hbatched
      · exact .inr hmem
      · exact .inl hbatched
    · rw [isVerified_insert rfl] at hid
      split at hid
      next hid' => exact .inr ⟨hash, hmem, by rw [hid', counts.hashOf, hashed]⟩
      next => exact .inl hid

theorem step {e : Event env} (hstep : Relay.Step env s e s')
    (hnew : ∀ hash rpush, s.Completing env hash rpush e → hash ∈ verified) : s'.Logged env verified := by
  cases e with
  | processReceivedProof c nodeIdx peerId requestId proof method redis =>
    obtain ⟨effects, hstep⟩ := hstep
    exact h.proofStep (processReceivedProof_step hstep) hnew
  | expire cache key =>
    obtain rfl := hstep.eq rfl
    cases cache with
    | req =>
      refine h.of_imp (fun _ hbatched => .inl hbatched) fun id ⟨data, hdata, hstatus⟩ => ?_
      have hold := HMap.get?_of_remove hdata
      refine ⟨?_, .inl ⟨data, hold, hstatus⟩⟩
      rw [hashOf, hashOf, requestOf, requestOf, hdata, hold]
    | batch =>
      refine h.of_imp (fun hash hbatched => .inl ?_) fun id hid => ⟨rfl, .inl hid⟩
      obtain ⟨u, hu⟩ := Option.isSome_iff_exists.1 hbatched
      exact Option.isSome_iff_exists.2 ⟨u, HMap.get?_of_remove hu⟩
    | res | pubsub => exact h.of_imp (fun _ hbatched => .inl hbatched) fun id hid => ⟨rfl, .inl hid⟩
  | _ =>
    obtain ⟨-, hbatch, -, hreq⟩ := hstep.caches rfl
    have hsame := hstep.isVerified_and_pointOf rfl
    refine h.of_imp (fun hash hbatched => .inl (by rwa [hbatch] at hbatched)) fun id hid => ?_
    have hold := (hsame id).1.1 hid
    exact ⟨hashOf_of_isVerified hreq hold, .inl hold⟩

end Relay.Logged

/-! ### The entries in Redis -/

/-- Each entry stands under the hash of its request. -/
def Relay.EntriesHashed (env : RelayEnv) (s : Relay) : Prop :=
  ∀ hash entry, s.redis.get? hash = some entry → requestHash env entry.base = some hash

namespace Relay.EntriesHashed
variable {s s' : Relay} (h : s.EntriesHashed env)
include h

theorem entryWith {hash : String} {request : RequestToNetwork} (hrequest : requestHash env request = some hash)
    (p : String × String × String × String) : requestHash env (s.entryWith hash request p).base = some hash := by
  unfold Relay.entryWith
  split
  next existing hexisting => exact h hash existing hexisting
  next => exact hrequest

theorem insert {hash : String} {entry : RequestToNetworkWithProofs} (hentry : requestHash env entry.base = some hash)
    (hs' : s'.redis = s.redis.insert hash entry) : s'.EntriesHashed env := by
  intro hash' entry' hget
  rw [hs', HMap.get?_insert] at hget
  split at hget
  next heq =>
    obtain rfl := Option.some.inj hget
    rwa [heq]
  next => exact h hash' entry' hget

theorem step {e : Event env} (hstep : Relay.Step env s e s') : s'.EntriesHashed env := by
  have hsame : s'.redis = s.redis → s'.EntriesHashed env := fun heq hash entry hget => h hash entry (by rwa [heq] at hget)
  cases e with
  | processReceivedProof c nodeIdx peerId requestId proof method redis =>
    obtain ⟨effects, hstep⟩ := hstep
    cases processReceivedProof_step hstep with
    | ignored | unserialized | batched => exact hsame rfl
    | constructed _ _ hashed _ _ stored =>
      rcases stored with rfl | ⟨p, rfl⟩
      · exact hsame rfl
      · exact h.insert (h.entryWith hashed p) rfl
    | @verified data collection hash b p _ _ _ _ hashed =>
      have hinserted : Relay.EntriesHashed env { s with redis := s.redis.insert hash (s.entryWith hash data.request p) } :=
        h.insert (h.entryWith hashed p) rfl
      intro hash' entry' hget
      refine hinserted hash' entry' ?_
      dsimp only at hget
      split at hget
      · exact HMap.get?_of_remove hget
      · exact hget
  | expire cache key =>
    obtain rfl := hstep.eq rfl
    cases cache <;> exact hsame rfl
  | _ => exact hsame (hstep.caches rfl).2.2.1

end Relay.EntriesHashed

/-! ### One step -/

theorem TaskRelay.submitBatch_cases (reply : TaskReply) (state : TaskRelay) :
    (¬ (TASK_SIZE ≤ state.batchSize ∧ reply.lrange = true) ∧ state.submitBatch reply = (state, [])) ∨
    (TASK_SIZE ≤ state.batchSize ∧ reply.lrange = true) ∧ ∃ submitted,
      state.submitBatch reply =
        ({ state with requestBatch := if reply.del then [] else state.requestBatch, batchSize := 0 },
          submitted ++ [.reset]) ∧
      ((reply.pin = true ∧ reply.post = .ok) ∧ submitted = [.submitted ⟨state.requestBatch⟩] ∨
        ¬ (reply.pin = true ∧ reply.post = .ok) ∧ submitted = []) := by
  by_cases hfull : TASK_SIZE ≤ state.batchSize
  swap
  · exact .inl ⟨fun h => hfull h.1, if_neg hfull⟩
  rw [submitBatch, if_pos hfull]
  cases hlrange : reply.lrange
  · exact .inl ⟨fun h => Bool.false_ne_true h.2, rfl⟩
  refine .inr ⟨⟨hfull, rfl⟩, ?_⟩
  cases hpin : reply.pin
  · exact ⟨[], rfl, .inr ⟨fun h => Bool.false_ne_true h.1, rfl⟩⟩
  cases hpost : reply.post with
  | ok => exact ⟨_, rfl, .inl ⟨⟨rfl, rfl⟩, rfl⟩⟩
  | error | timeout =>
    refine ⟨[], rfl, .inr ⟨fun h => ?_, rfl⟩⟩
    cases h.2

theorem TaskRelay.submitBatch_relay (reply : TaskReply) (state : TaskRelay) :
    (state.submitBatch reply).1.relay = state.relay := by
  rcases submitBatch_cases reply state with ⟨-, h⟩ | ⟨-, submitted, h, -⟩
  · rw [h]
  · rw [h]

def TaskRun.pushed (s : TaskRun) (rpush : Bool) (entry : RequestToNetworkWithProofs) : List RequestToNetworkWithProofs :=
  s.requestBatch ++ if rpush then [entry] else []

theorem TaskRun.Step.cases {s s' : TaskRun} {e : Event env × TaskReply} {effects : List TaskEffect}
    (h : s.Step env prof e effects s') :
    Relay.Step env s.relay e.1 s'.relay ∧
    (((∀ hash rpush, ¬ s.relay.Completing env hash rpush e.1) ∧ effects = [] ∧ s'.requestBatch = s.requestBatch ∧
      s'.history = s.history) ∨
    ∃ hash rpush request p, s.relay.Completing env hash rpush e.1 ∧ requestHash env request = some hash ∧
      TaskRelay.submitBatch e.2 ⟨s'.relay, s.pushed rpush (s.relay.entryWith hash request p), s.batchSize⟩ =
        (s'.toTaskRelay, effects) ∧
      s'.history = ⟨s.history.verified ++ [hash], s.history.tasks ++ submittedTasks effects⟩) := by
  obtain ⟨hhandle, hhistory⟩ := h
  rw [TaskRelay.handle, bind_eq_ok] at hhandle
  obtain ⟨⟨relay, relayEffects⟩, hrelay, hhandle⟩ := hhandle
  rw [bind_eq_ok] at hhandle
  obtain ⟨batchSize, hcount, hhandle⟩ := hhandle
  dsimp only at hhandle
  rcases handle_batches hrelay with
    ⟨hnot, hnone, hbatch⟩ | ⟨hash, rpush, request, p, hcompleting, hsome, hhash, hcount', hbatch⟩
  · rw [hnone, hbatch, List.append_nil] at hhandle
    obtain ⟨hstate, rfl⟩ := Prod.mk.inj (Except.ok.inj hhandle)
    have hrelay' : s'.relay = relay := (congrArg TaskRelay.relay hstate).symm
    rw [hrelay', hnone] at hhistory
    refine ⟨⟨relayEffects, by rw [hrelay', hrelay]⟩, .inl ⟨hnot, rfl, ?_, hhistory.trans ?_⟩⟩
    · exact (congrArg TaskRelay.requestBatch hstate).symm
    · simp [submittedTasks]
  · rw [hcount'] at hcount
    obtain rfl := Except.ok.inj hcount
    rw [hsome, hbatch] at hhandle
    have hsubmit := Except.ok.inj hhandle
    have hrelay' : s'.relay = relay := by
      have hkept := TaskRelay.submitBatch_relay e.2 ⟨relay, s.pushed rpush (s.relay.entryWith hash request p), s.batchSize⟩
      rwa [TaskRun.pushed, hsubmit] at hkept
    rw [hrelay', hsome] at hhistory
    exact ⟨⟨relayEffects, by rw [hrelay', hrelay]⟩,
      .inr ⟨hash, rpush, request, p, hcompleting, hhash, by rw [hrelay']; exact hsubmit, hhistory⟩⟩

theorem not_resetsAfterSubmission : ¬ ResetsAfterSubmission [.reset] := by
  intro h
  obtain ⟨task, htask⟩ := h [] [] rfl
  cases htask

theorem resetsAfterSubmission_submitted (task : TaskProof) : ResetsAfterSubmission [.submitted task, .reset] := by
  intro before after h
  cases before with
  | nil => cases (List.cons.inj h).1
  | cons effect before =>
    obtain ⟨rfl, -⟩ := List.cons.inj h
    exact ⟨task, List.mem_cons_self⟩

namespace TaskRun

structure Recorded (env : RelayEnv) (s : TaskRun) : Prop where
  redis : s.relay.EntriesHashed env
  entries : ∀ entry ∈ s.entries, ∃ hash ∈ s.history.verified, requestHash env entry.base = some hash

theorem hashes_append (l l' : List RequestToNetworkWithProofs) : hashes env (l ++ l') = hashes env l ++ hashes env l' :=
  List.filterMap_append

variable {s s' : TaskRun} {e : Event env × TaskReply} {effects : List TaskEffect} {hash : String} {rpush : Bool}
  {entry : RequestToNetworkWithProofs}

theorem Recorded.mem_of_mem_hashes (h : s.Recorded env) {hash : String} (hmem : hash ∈ hashes env s.entries) :
    hash ∈ s.history.verified := by
  obtain ⟨entry, hentry, hhash⟩ := List.mem_filterMap.1 hmem
  obtain ⟨hash', hverified, hhash'⟩ := h.entries entry hentry
  obtain rfl := Option.some.inj (hhash.symm.trans hhash')
  exact hverified

theorem tasks_append_pushed (s : TaskRun) (rpush : Bool) (entry : RequestToNetworkWithProofs) :
    s.history.tasks.flatMap TaskProof.data ++ s.pushed rpush entry = s.entries ++ if rpush then [entry] else [] := by
  rw [pushed, entries, List.append_assoc]

theorem hashes_pushed (hentry : requestHash env entry.base = some hash) :
    hashes env (s.history.tasks.flatMap TaskProof.data ++ s.pushed rpush entry) =
      hashes env s.entries ++ if rpush then [hash] else [] := by
  rw [tasks_append_pushed, hashes_append]
  cases rpush with
  | false => rfl
  | true => simp [hashes, hentry]

theorem Recorded.pushed (h : s.Recorded env) (hentry : requestHash env entry.base = some hash) (rpush : Bool) :
    ∀ entry' ∈ s.history.tasks.flatMap TaskProof.data ++ s.pushed rpush entry,
      ∃ hash' ∈ s.history.verified ++ [hash], requestHash env entry'.base = some hash' := by
  intro entry' hmem
  rw [tasks_append_pushed] at hmem
  rcases List.mem_append.1 hmem with hold | hnew
  · obtain ⟨hash', hverified, hhash'⟩ := h.entries entry' hold
    exact ⟨hash', List.mem_append_left _ hverified, hhash'⟩
  · cases rpush with
    | false => cases hnew
    | true =>
      obtain rfl := List.mem_singleton.1 hnew
      exact ⟨hash, List.mem_append_right _ (List.mem_singleton_self _), hentry⟩

theorem Recorded.onceIn_pushed_iff (h : s.Recorded env) (hacc : s.Accounted env)
    (hentry : requestHash env entry.base = some hash) :
    OnceIn (s.history.verified ++ [hash]) (hashes env (s.history.tasks.flatMap TaskProof.data ++ s.pushed rpush entry)) ↔
      (rpush = true ↔ hash ∉ s.history.verified) := by
  rw [hashes_pushed hentry]
  exact onceIn_push_iff hacc (fun _ => h.mem_of_mem_hashes) hash rpush

theorem hashes_eq_nil_iff {l : List RequestToNetworkWithProofs} (h : ∀ entry ∈ l, ∃ hash, requestHash env entry.base = some hash) :
    hashes env l = [] ↔ l = [] := by
  constructor
  · intro hnil
    refine List.eq_nil_iff_forall_not_mem.2 fun entry hentry => ?_
    obtain ⟨hash, hhash⟩ := h entry hentry
    rw [List.filterMap_eq_nil_iff.1 hnil entry hentry] at hhash
    cases hhash
  · rintro rfl
    rfl

theorem pushed_eq_nil_iff : s.pushed rpush entry = [] ↔ s.requestBatch = [] ∧ rpush = false := by
  rw [TaskRun.pushed, List.append_eq_nil_iff]
  cases rpush <;> simp

/-- When the list stays although its task has been submitted, it has to be empty. -/
theorem Recorded.onceIn_kept_iff (h : s.Recorded env) (hacc : s.Accounted env)
    (hentry : requestHash env entry.base = some hash) :
    OnceIn (s.history.verified ++ [hash]) (hashes env
      (s.history.tasks.flatMap TaskProof.data ++ s.pushed rpush entry ++ s.pushed rpush entry)) ↔
      (rpush = true ↔ hash ∉ s.history.verified) ∧ s.requestBatch = [] ∧ rpush = false := by
  have hpart := h.pushed hentry rpush
  rw [hashes_append, hashes_append, onceIn_append_self_iff, ← hashes_append, h.onceIn_pushed_iff hacc hentry,
    hashes_eq_nil_iff, pushed_eq_nil_iff]
  · intro entry' hmem
    obtain ⟨hash', -, hhash'⟩ := hpart entry' (List.mem_append_right _ hmem)
    exact ⟨hash', hhash'⟩
  · intro hash' hmem
    obtain ⟨entry', hentry', hhash'⟩ := List.mem_filterMap.1 hmem
    obtain ⟨hash'', hverified, hhash''⟩ := hpart entry' (List.mem_append_right _ hentry')
    obtain rfl := Option.some.inj (hhash'.symm.trans hhash'')
    exact hverified

theorem delivers_iff_of_completing (h : s.relay.Completing env hash rpush e.1) :
    s.Delivers env e ↔ (rpush = true ↔ hash ∉ s.history.verified) ∧
      (TASK_SIZE ≤ s.batchSize → e.2.lrange = true → (e.2.pin = true ∧ e.2.post = .ok) ∧
        (e.2.del = true ∨ s.requestBatch = [] ∧ rpush = false)) := by
  refine ⟨fun hdelivers => hdelivers hash rpush h, fun hcond hash' rpush' h' => ?_⟩
  obtain ⟨rfl, rfl⟩ := h.unique h'
  exact hcond

/-- What has to be asked of a step, exactly. -/
theorem Step.delivers_iff (h : s.Step env prof e effects s') (hrec : s.Recorded env) (hacc : s.Accounted env) :
    (s'.Accounted env ∧ ResetsAfterSubmission effects) ↔ s.Delivers env e := by
  obtain ⟨-, ⟨hnot, rfl, hbatch, hhistory⟩ | ⟨hash, rpush, request, p, hcompleting, hhash, hsubmit, hhistory⟩⟩ := h.cases
  · refine iff_of_true ⟨?_, fun before after heq => ?_⟩ fun hash rpush h => absurd h (hnot hash rpush)
    · rwa [Accounted, entries, hhistory, hbatch]
    · exact absurd heq.symm (by simp)
  have hentry := hrec.redis.entryWith hhash p
  rw [delivers_iff_of_completing hcompleting]
  rcases TaskRelay.submitBatch_cases e.2 ⟨s'.relay, s.pushed rpush (s.relay.entryWith hash request p), s.batchSize⟩ with
    ⟨hnot, heq⟩ | ⟨⟨hfull, hlrange⟩, submitted, heq, ⟨hok, rfl⟩ | ⟨hnot, rfl⟩⟩
  -- the batch is not full, or cannot be read
  · obtain ⟨hstate, rfl⟩ := Prod.mk.inj (hsubmit.symm.trans heq)
    have hentries : s'.entries = s.history.tasks.flatMap TaskProof.data ++
        s.pushed rpush (s.relay.entryWith hash request p) := by
      rw [entries, hhistory, hstate]
      simp [submittedTasks]
    rw [Accounted, hentries, hhistory, hrec.onceIn_pushed_iff hacc hentry]
    refine ⟨fun ⟨hpushed, _⟩ => ⟨hpushed, fun hfull hlrange => absurd ⟨hfull, hlrange⟩ hnot⟩, fun h => ⟨h.1, ?_⟩⟩
    intro before after heq
    exact absurd heq.symm (by simp)
  -- a task is submitted
  · obtain ⟨hstate, rfl⟩ := Prod.mk.inj (hsubmit.symm.trans heq)
    have hentries : s'.entries = s.history.tasks.flatMap TaskProof.data ++
        s.pushed rpush (s.relay.entryWith hash request p) ++
          if e.2.del then [] else s.pushed rpush (s.relay.entryWith hash request p) := by
      rw [entries, hhistory, hstate]
      simp [submittedTasks]
    refine (and_iff_left (resetsAfterSubmission_submitted _)).trans ?_
    rw [Accounted, hentries, hhistory]
    cases hdel : e.2.del with
    | true =>
      rw [if_pos rfl, List.append_nil, hrec.onceIn_pushed_iff hacc hentry]
      exact ⟨fun hpushed => ⟨hpushed, fun _ _ => ⟨hok, .inl rfl⟩⟩, fun h => h.1⟩
    | false =>
      rw [if_neg Bool.false_ne_true, hrec.onceIn_kept_iff hacc hentry]
      refine and_congr_right fun _ => ⟨fun hnil _ _ => ⟨hok, .inr hnil⟩, fun h => ?_⟩
      exact (h hfull hlrange).2.resolve_left Bool.false_ne_true
  -- the list is reset without one
  · obtain ⟨-, rfl⟩ := Prod.mk.inj (hsubmit.symm.trans heq)
    exact iff_of_false (fun h => not_resetsAfterSubmission h.2) fun h => hnot (h.2 hfull hlrange).1

theorem Step.recorded (h : s.Step env prof e effects s') (hrec : s.Recorded env) : s'.Recorded env := by
  obtain ⟨hstep, ⟨-, -, hbatch, hhistory⟩ | ⟨hash, rpush, request, p, -, hhash, hsubmit, hhistory⟩⟩ := h.cases
  · refine ⟨hrec.redis.step hstep, ?_⟩
    rw [entries, hhistory, hbatch]
    exact hrec.entries
  refine ⟨hrec.redis.step hstep, fun entry hmem => ?_⟩
  -- what is in the new tasks and in the list was in the list after the push
  have hfrom : (∀ entry ∈ (submittedTasks effects).flatMap TaskProof.data,
      entry ∈ s.pushed rpush (s.relay.entryWith hash request p)) ∧
      ∀ entry ∈ s'.requestBatch, entry ∈ s.pushed rpush (s.relay.entryWith hash request p) := by
    rcases TaskRelay.submitBatch_cases e.2
      ⟨s'.relay, s.pushed rpush (s.relay.entryWith hash request p), s.batchSize⟩ with
      ⟨-, heq⟩ | ⟨-, submitted, heq, hsubmitted⟩
    · obtain ⟨hstate, rfl⟩ := Prod.mk.inj (hsubmit.symm.trans heq)
      rw [hstate]
      exact ⟨nofun, fun _ hmem => hmem⟩
    · obtain ⟨hstate, rfl⟩ := Prod.mk.inj (hsubmit.symm.trans heq)
      rw [hstate]
      constructor
      · rcases hsubmitted with ⟨-, rfl⟩ | ⟨-, rfl⟩
        · simp [submittedTasks]
        · exact nofun
      · cases e.2.del with
        | true => exact nofun
        | false => exact fun _ hmem => hmem
  rw [hhistory]
  refine hrec.pushed (hrec.redis.entryWith hhash p) rpush entry (List.mem_append.2 ?_)
  rw [entries, hhistory, List.flatMap_append, List.append_assoc, List.mem_append, List.mem_append] at hmem
  rcases hmem with hold | hnew | hnew
  · exact .inl hold
  · exact .inr (hfrom.1 entry hnew)
  · exact .inr (hfrom.2 entry hnew)

structure IsFresh (s : TaskRun) : Prop where
  relay : s.relay.IsFresh
  redis : s.relay.redis = ∅
  requestBatch : s.requestBatch = []
  history : s.history = ⟨[], []⟩

theorem Step.logged (h : s.Step env prof e effects s') (hlog : s.relay.Logged env s.history.verified) :
    s'.relay.Logged env s'.history.verified := by
  obtain ⟨hstep, ⟨hnot, -, -, hhistory⟩ | ⟨hash, rpush, request, p, hcompleting, -, -, hhistory⟩⟩ := h.cases
  · rw [hhistory]
    exact hlog.step hstep fun hash rpush h => absurd h (hnot hash rpush)
  · rw [hhistory]
    refine (hlog.mono fun _ => List.mem_append_left _).step hstep fun hash' rpush' h' => ?_
    rw [← (hcompleting.unique h').1]
    exact List.mem_append_right _ (List.mem_singleton_self hash)

theorem IsFresh.recorded (h : s.IsFresh) : s.Recorded env where
  redis hash entry hget := by
    rw [h.redis] at hget
    cases hget
  entries entry hmem := by
    rw [entries, h.history, h.requestBatch] at hmem
    cases hmem

theorem IsFresh.logged (h : s.IsFresh) : s.relay.Logged env s.history.verified where
  batched hash hbatched := by
    rw [h.relay.batchCache] at hbatched
    cases hbatched
  verified id hid := absurd hid (h.relay.not_isVerified id)

theorem IsFresh.accounted (h : s.IsFresh) : s.Accounted env := by
  intro hash hmem
  rw [h.history] at hmem
  cases hmem

end TaskRun

/-- Along every run the verified requests are on record. Each of them is in exactly one submitted task or waits in the
list, and nothing is reset before a task has been submitted, exactly if every step delivers. -/
theorem batched_once_iff {s₀ s : TaskRun} (es : List (Event env × TaskReply)) (hfresh : s₀.IsFresh) :
    (Run (fun s e s' => ∃ effects, s.Step env prof e effects s') s₀ es s →
      ∀ id, s.relay.IsVerified id → ∃ hash ∈ s.history.verified, s.relay.hashOf env id = some hash) ∧
    (Run (fun s e s' => ∃ effects, s.Step env prof e effects s' ∧ s'.Accounted env ∧ ResetsAfterSubmission effects)
        s₀ es s ↔
      Run (fun s e s' => ∃ effects, s.Step env prof e effects s' ∧ s.Delivers env e) s₀ es s) := by
  constructor
  · intro hrun
    refine Relay.Logged.verified (hrun.invariant (I := fun s => s.relay.Logged env s.history.verified) hfresh.logged ?_)
    rintro s e s' hlog ⟨effects, hstep⟩
    exact hstep.logged hlog
  · refine Run.congr (I := fun s => s.Recorded env ∧ s.Accounted env) (fun {s e s'} ⟨hrec, hacc⟩ => ⟨?_, ?_⟩)
      ⟨hfresh.recorded, hfresh.accounted⟩
    · exact exists_congr fun effects => and_congr_right fun hstep => hstep.delivers_iff hrec hacc
    · rintro ⟨effects, hstep, hacc', -⟩
      exact ⟨hstep.recorded hrec, hacc'⟩

def twinTasks (batchSize : ℕ) : TaskRun := ⟨⟨twinRelay, [], batchSize⟩, ⟨[], []⟩⟩

theorem twinTasks_isFresh (batchSize : ℕ) : (twinTasks batchSize).IsFresh :=
  ⟨twinRelay_isFresh, rfl, rfl, rfl⟩

def pushedProof (rpush : Bool) : Event scalarRelay :=
  .processReceivedProof .secp256k1 1 "prover1" "first" (zeroProof .secp256k1 1) .oprfSecp256k1 ⟨true, true, rpush, true⟩

theorem TaskRun.step_of_handle {s : TaskRun} {e : Event env × TaskReply} {after : TaskRelay} {effects : List TaskEffect}
    (h : s.toTaskRelay.handle env prof e.1 e.2 = .ok (after, effects)) :
    s.Step env prof e effects ⟨after, ⟨s.history.verified ++ (processedHash env s.relay after.relay e.1).toList,
      s.history.tasks ++ submittedTasks effects⟩⟩ := ⟨h, rfl⟩

def allWell : TaskReply := ⟨true, true, .ok, true⟩

set_option maxRecDepth 20000 in
theorem batched_once_twinTasks : (twinTasks 0).IsFresh ∧ ∃ s,
    Run (fun s e s' => ∃ effects, s.Step scalarRelay .release e effects s' ∧ s'.Accounted scalarRelay ∧
      ResetsAfterSubmission effects) (twinTasks 0) [(twinRequest "first", allWell), (pushedProof true, allWell)] s := by
  refine ⟨twinTasks_isFresh 0, _, (batched_once_iff _ (twinTasks_isFresh 0)).2.2
    ⟨_, ⟨_, TaskRun.step_of_handle rfl, ?request⟩, _, ⟨_, TaskRun.step_of_handle rfl, ?proof⟩, rfl⟩⟩
  case request => exact fun hash rpush h => h.elim
  case proof =>
    rintro hash rpush ⟨hrpush, -⟩
    exact ⟨iff_of_true hrpush.symm List.not_mem_nil, fun hfull => absurd hfull (by decide)⟩

set_option maxRecDepth 20000 in
/-- A request whose push fails is deleted, and so is a full list whose task could not be pinned. -/
theorem verified_request_lost :
    (∃ s, Run (fun s e s' => ∃ effects, s.Step scalarRelay .release e effects s') (twinTasks 0)
      [(twinRequest "first", allWell), (pushedProof false, allWell)] s ∧
      s.relay.IsVerified "first" ∧ s.history.verified ≠ [] ∧ s.relay.redis = ∅ ∧ s.entries = [] ∧
      ¬ s.Accounted scalarRelay) ∧
    ∃ s, Run (fun s e s' => ∃ effects, s.Step scalarRelay .release e effects s') (twinTasks TASK_SIZE)
      [(twinRequest "first", allWell), (pushedProof true, ⟨true, false, .ok, true⟩)] s ∧
      s.relay.IsVerified "first" ∧ s.history.verified ≠ [] ∧ s.relay.redis = ∅ ∧ s.entries = [] ∧
      ¬ s.Accounted scalarRelay := by
  refine ⟨⟨_, ⟨_, ⟨_, TaskRun.step_of_handle rfl⟩, _, ⟨_, TaskRun.step_of_handle rfl⟩, rfl⟩, ⟨_, rfl, rfl⟩,
      List.cons_ne_nil _ _, rfl, rfl, fun h => ?_⟩,
    ⟨_, ⟨_, ⟨_, TaskRun.step_of_handle rfl⟩, _, ⟨_, TaskRun.step_of_handle rfl⟩, rfl⟩, ⟨_, rfl, rfl⟩,
      List.cons_ne_nil _ _, rfl, rfl, fun h => ?_⟩⟩
  · exact absurd (h _ List.mem_cons_self) Nat.zero_ne_one
  · exact absurd (h _ List.mem_cons_self) Nat.zero_ne_one

end HumanNetwork
