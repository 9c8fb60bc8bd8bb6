import HumanNetwork.IngestDb

/-!
# The monitor of the attestation center (`ContractEventMonitor`)

The monitor subscribes to the logs after the last processed block and ingests them one by one. How far it has got is one
block number, which every stored event overwrites with its own: a log that fails is passed over as soon as a later one is
stored, and a subscription that ends in the middle of a block is resumed after it. `lost_forever` is that such a log never
comes back.

`Tracks` is what holds between two attempts: an event of the chain is stored at most once, and only up to the mark. Which
attempts lose nothing is `Keeps` (`Recoverable.attempt`).
-/

namespace HumanNetwork.TaskMonitor
open Outcome

/-! ### The contract and its logs -/

structure TaskLog where
  operator : Address
  taskNumber : ℕ
  proofOfTask : String
  data : Bytes
  taskDefinitionId : ℕ
  attestersIds : List ℕ
  blockNumber : ℕ
  transactionHash : Bytes
  logIndex : ℕ

def TaskLog.key (log : TaskLog) : Bytes × ℕ := (log.transactionHash, log.logIndex)

def TaskLog.IsInternal (log : TaskLog) : Prop := log.taskDefinitionId = 10001 ∨ log.taskDefinitionId = 10002

instance (log : TaskLog) : Decidable log.IsInternal := inferInstanceAs (Decidable (_ ∨ _))

structure TaskData where
  taskSize : ℕ
  performers : List Address

def zeroAddress : Address := List.replicate 20 0

/-- The contract: its logs in the order of the chain, the operators of its ids, and the encoding of the data of a task. An
id that nobody has belongs to the zero address, and an id never changes hands. -/
structure AttestationCenter where
  logs : List TaskLog
  ordered : logs.Pairwise fun a b => a.blockNumber ≤ b.blockNumber
  nodup : (logs.map TaskLog.key).Nodup
  operatorOf : ℕ → Address
  abiDecode : Bytes → Option TaskData

/-- What the calls for one log return. The calls of `getActiveOperatorsDetails` and `getOperatorPaymentDetail` are numbered
by the position of the attester they are made for; the first call for the operators, made before the loop, has number 0. -/
structure LogEnv where
  activeOperators : ℕ → Except String (List ℕ)
  paymentDetail : ℕ → Except String Unit
  timestamp : ℤ
  fault : Option DbFault

namespace AttestationCenter
variable (center : AttestationCenter)

/-! ### One log (`process_log`) -/

/-- `getActiveOperatorsDetails()`, where the given ids are active. -/
def activeOperatorsDetails (ids : List ℕ) : List (ℕ × Address) :=
  (ids.filter fun id => center.operatorOf id ≠ zeroAddress).map fun id => (id, center.operatorOf id)

/-- The map that is returned is a copy of the cache. -/
def getOperatorAddressMap (forceRefresh : Bool) (answer : Except String (List ℕ)) (cache : HMap ℕ Address) :
    Outcome String (HMap ℕ Address) :=
  if forceRefresh = false ∧ cache.len ≠ 0 then .ok cache
  else match answer with
    | .error e => fail ("Failed to fetch operator details: " ++ e)
    | .ok ids => .ok ((center.activeOperatorsDetails ids).foldl (fun cache details => cache.insert details.1 details.2) cache)

/-- The loop over `attesters_ids` from the given position on. What it adds to the cache stays if it fails. -/
def attesterAddresses (env : LogEnv) : ℕ → List ℕ → HMap ℕ Address → HMap ℕ Address → List Address →
    HMap ℕ Address × Outcome String (List Address)
  | _, [], _, cache, addresses => (cache, .ok addresses)
  | i, id :: ids, operatorMap, cache, addresses =>
    match operatorMap.get? id with
    | some address => attesterAddresses env (i + 1) ids operatorMap cache (addresses ++ [address])
    | none =>
      match center.getOperatorAddressMap true (env.activeOperators i) cache with
      | .error e => (cache, .error e)
      | .ok operatorMap =>
        match operatorMap.get? id, env.paymentDetail i with
        | some address, _ => attesterAddresses env (i + 1) ids operatorMap operatorMap (addresses ++ [address])
        | none, .ok () =>
          let address := center.operatorOf id
          if address ≠ zeroAddress then
            attesterAddresses env (i + 1) ids operatorMap (operatorMap.insert id address) (addresses ++ [address])
          else attesterAddresses env (i + 1) ids operatorMap operatorMap addresses
        | none, .error _ => attesterAddresses env (i + 1) ids operatorMap operatorMap addresses

def fromLog (log : TaskLog) : TaskSubmittedEvent where
  operator := log.operator
  taskNumber := log.taskNumber
  proofOfTask := log.proofOfTask
  data := log.data
  taskSize := 0
  performers := []
  taskDefinitionId := log.taskDefinitionId
  attestersIds := log.attestersIds
  attesterAddresses := []
  blockNumber := log.blockNumber
  transactionHash := log.transactionHash
  logIndex := log.logIndex

/-- `AttestationCenter::TaskData::abi_decode(&event.data, true)`: data that cannot be decoded is left out, a size of more
than 64 bits panics. -/
def decodeData (event : TaskSubmittedEvent) : Outcome String TaskSubmittedEvent :=
  match center.abiDecode event.data with
  | some data => do
    check (data.taskSize < 2 ^ 64) "Uint conversion error"
    return { event with taskSize := data.taskSize, performers := data.performers }
  | none => .ok event

def processLog (log : TaskLog) (env : LogEnv) (cache : HMap ℕ Address) (db : IngestDb) :
    HMap ℕ Address × IngestDb × Outcome String Unit :=
  if log.IsInternal then (cache, db, .ok ())
  else match center.decodeData (fromLog log) with
    | .error e => (cache, db, .error e)
    | .ok event =>
      match center.getOperatorAddressMap false (env.activeOperators 0) cache with
      | .error e => (cache, db, .error e)
      | .ok operatorMap =>
        match center.attesterAddresses env 1 event.attestersIds operatorMap operatorMap [] with
        | (cache, .error e) => (cache, db, .error e)
        | (cache, .ok addresses) =>
          let event := { event with attesterAddresses := addresses }
          (cache, (event.ingest env.timestamp env.fault db).1, .ok ())

end AttestationCenter

/-! ### The loop of the monitor (`monitor_events`, `run`) -/

structure EventMonitor where
  db : IngestDb
  operatorAddressCache : HMap ℕ Address
  retryCount : ℕ
  exited : Bool

def EventMonitor.new (db : IngestDb) : EventMonitor := ⟨db, ∅, 0, false⟩

def maxRetries : ℕ := 5

/-- How `monitor_events` can go: the last processed block cannot be read, the subscription fails, or it delivers a number of
logs and ends. After `run` has returned, only a new process starts another attempt. -/
inductive Attempt where
  | unreadable
  | unsubscribed
  | live (latest delivered : ℕ) (env : TaskLog → LogEnv)
  | restart

namespace AttestationCenter
variable (center : AttestationCenter)

/-- `while let Some(log) = stream.next().await`. Errors are only logged; a panic ends the process. -/
def deliver (env : TaskLog → LogEnv) : List TaskLog → EventMonitor → EventMonitor
  | [], monitor => monitor
  | log :: logs, monitor =>
    let (cache, db, result) := center.processLog log (env log) monitor.operatorAddressCache monitor.db
    let monitor := { monitor with db := db, operatorAddressCache := cache }
    match result with
    | .error (.panic _) => { monitor with exited := true }
    | _ => deliver env logs monitor

/-- `block_tag`. -/
def fromBlock (latest : ℕ) (db : IngestDb) : ℕ :=
  match db.lastProcessedBlock with
  | some block => block + 1
  | none => latest

def logsFrom (block : ℕ) : List TaskLog := center.logs.filter fun log => block ≤ log.blockNumber

def attempt (monitor : EventMonitor) : Attempt → EventMonitor
  | .restart => .new monitor.db
  | .live latest delivered env =>
    if monitor.exited then monitor
    else
      let logs := (center.logsFrom (fromBlock latest monitor.db)).take delivered
      { center.deliver env logs monitor with retryCount := 0 }
  | .unreadable | .unsubscribed =>
    if monitor.exited then monitor
    else
      let retryCount := monitor.retryCount + 1
      { monitor with retryCount := retryCount, exited := decide (maxRetries ≤ retryCount) }

end AttestationCenter

/-! ### Attesters -/

/-- No call for the log fails. -/
structure LogEnv.Healthy (env : LogEnv) : Prop where
  activeOperators : ∀ i, ∃ ids, env.activeOperators i = .ok ids
  paymentDetail : ∀ i, env.paymentDetail i = .ok ()
  fault : env.fault = none

namespace AttestationCenter
variable {center : AttestationCenter} {env : LogEnv} {cache operatorMap : HMap ℕ Address} {ids : List ℕ}

variable (center) in
def attesters (ids : List ℕ) : List Address := (ids.map center.operatorOf).filter fun address => address ≠ zeroAddress

variable (center) in
/-- The cache says of an id what the contract says. -/
def Agrees (cache : HMap ℕ Address) : Prop :=
  ∀ id address, cache.get? id = some address → address = center.operatorOf id ∧ address ≠ zeroAddress

theorem Agrees.empty : center.Agrees ∅ := by
  intro id address h
  cases h

theorem Agrees.insert (h : center.Agrees cache) {id : ℕ} (hne : center.operatorOf id ≠ zeroAddress) :
    center.Agrees (cache.insert id (center.operatorOf id)) := by
  intro id' address haddress
  rw [HMap.get?_insert] at haddress
  split at haddress
  next heq =>
    obtain rfl := Option.some.inj haddress
    exact ⟨by rw [heq], hne⟩
  next => exact h id' address haddress

theorem Agrees.refresh (h : center.Agrees cache) (ids : List ℕ) :
    center.Agrees ((center.activeOperatorsDetails ids).foldl (fun cache details => cache.insert details.1 details.2) cache) := by
  induction ids generalizing cache with
  | nil => exact h
  | cons id ids ih =>
    by_cases hne : center.operatorOf id ≠ zeroAddress
    · rw [activeOperatorsDetails, List.filter_cons_of_pos (by simpa using hne)]
      exact ih (h.insert hne)
    · rw [activeOperatorsDetails, List.filter_cons_of_neg (by simpa using hne)]
      exact ih h

theorem Agrees.getOperatorAddressMap (h : center.Agrees cache) {forceRefresh : Bool} {answer : Except String (List ℕ)}
    (hmap : center.getOperatorAddressMap forceRefresh answer cache = .ok operatorMap) : center.Agrees operatorMap := by
  unfold AttestationCenter.getOperatorAddressMap at hmap
  split at hmap
  · exact Except.ok.inj hmap ▸ h
  · split at hmap
    · cases hmap
    · exact Except.ok.inj hmap ▸ h.refresh _

theorem exists_getOperatorAddressMap {answer : Except String (List ℕ)} (h : ∃ ids, answer = .ok ids) (forceRefresh : Bool)
    (cache : HMap ℕ Address) : ∃ operatorMap, center.getOperatorAddressMap forceRefresh answer cache = .ok operatorMap := by
  obtain ⟨ids, rfl⟩ := h
  unfold getOperatorAddressMap
  split
  exacts [⟨_, rfl⟩, ⟨_, rfl⟩]

theorem agrees_attesterAddresses {i : ℕ} {addresses : List Address} (hmap : center.Agrees operatorMap)
    (hcache : center.Agrees cache) : center.Agrees (center.attesterAddresses env i ids operatorMap cache addresses).1 := by
  fun_induction attesterAddresses center env i ids operatorMap cache addresses with
  | case1 => exact hcache
  | case2 i id ids operatorMap cache addresses address _ ih => exact ih hmap hcache
  | case3 => exact hcache
  | case4 i id ids operatorMap cache addresses _ operatorMap' hok address _ ih =>
    exact ih (hcache.getOperatorAddressMap hok) (hcache.getOperatorAddressMap hok)
  | case5 i id ids operatorMap cache addresses _ operatorMap' hok _ _ address hne ih =>
    exact ih (hcache.getOperatorAddressMap hok) ((hcache.getOperatorAddressMap hok).insert hne)
  | case6 i id ids operatorMap cache addresses _ operatorMap' hok _ _ address _ ih =>
    exact ih (hcache.getOperatorAddressMap hok) (hcache.getOperatorAddressMap hok)
  | case7 i id ids operatorMap cache addresses _ operatorMap' hok _ _ _ ih =>
    exact ih (hcache.getOperatorAddressMap hok) (hcache.getOperatorAddressMap hok)

theorem attesterAddresses_of_healthy (henv : env.Healthy) {i : ℕ} {addresses : List Address} (hmap : center.Agrees operatorMap)
    (hcache : center.Agrees cache) :
    (center.attesterAddresses env i ids operatorMap cache addresses).2 = .ok (addresses ++ center.attesters ids) := by
  have hcons {id : ℕ} {ids : List ℕ} {addresses : List Address} (hne : center.operatorOf id ≠ zeroAddress) :
      addresses ++ center.attesters (id :: ids) = addresses ++ [center.operatorOf id] ++ center.attesters ids := by
    simp [attesters, hne]
  fun_induction attesterAddresses center env i ids operatorMap cache addresses with
  | case1 => simp [attesters]
  | case2 i id ids operatorMap cache addresses address haddress ih =>
    obtain ⟨rfl, hne⟩ := hmap id address haddress
    rw [ih hmap hcache, hcons hne]
  | case3 i id ids operatorMap cache addresses _ e he =>
    obtain ⟨operatorMap', hok⟩ := exists_getOperatorAddressMap (henv.activeOperators i) true cache
    rw [hok] at he
    cases he
  | case4 i id ids operatorMap cache addresses _ operatorMap' hok address haddress ih =>
    have hmap' := hcache.getOperatorAddressMap hok
    obtain ⟨rfl, hne⟩ := hmap' id address haddress
    rw [ih hmap' hmap', hcons hne]
  | case5 i id ids operatorMap cache addresses _ operatorMap' hok _ _ address hne ih =>
    have hmap' := hcache.getOperatorAddressMap hok
    rw [ih hmap' (hmap'.insert hne), hcons hne]
  | case6 i id ids operatorMap cache addresses _ operatorMap' hok _ _ address hzero ih =>
    have hmap' := hcache.getOperatorAddressMap hok
    have hskip : center.attesters (id :: ids) = center.attesters ids := by
      simp only [attesters, List.map_cons]
      rw [List.filter_cons_of_neg (by simpa using hzero)]
    rw [ih hmap' hmap', hskip]
  | case7 i id ids operatorMap cache addresses _ operatorMap' hok e he _ ih =>
    rw [henv.paymentDetail i] at he
    cases he

/-! ### The event of a log -/

variable {log : TaskLog} {db : IngestDb}

variable (center) in
def taskData (log : TaskLog) : TaskData := (center.abiDecode log.data).getD ⟨0, []⟩

variable (center) in
def eventOf (log : TaskLog) (addresses : List Address) : TaskSubmittedEvent :=
  { fromLog log with
    taskSize := (center.taskData log).taskSize
    performers := (center.taskData log).performers
    attesterAddresses := addresses }

theorem decodeData_fromLog :
    center.decodeData (fromLog log) =
      if (center.taskData log).taskSize < 2 ^ 64 then .ok (center.eventOf log []) else crash "Uint conversion error" := by
  unfold decodeData eventOf taskData
  show (match center.abiDecode log.data with
    | some data => _
    | none => _) = _
  cases center.abiDecode log.data with
  | none => rfl
  | some data =>
    simp only [Option.getD_some, check]
    split
    exacts [rfl, rfl]

/-- All that `process_log` can do: an internal task is skipped, a size of more than 64 bits panics, a call that fails gives up
the log, and otherwise its event is ingested, with all attesters if no call fails. -/
theorem processLog_cases (log : TaskLog) (env : LogEnv) (db : IngestDb) (hcache : center.Agrees cache) :
    center.Agrees (center.processLog log env cache db).1 ∧
      (log.IsInternal ∧ (center.processLog log env cache db).2 = (db, .ok ()) ∨
      ¬ log.IsInternal ∧ ¬ (center.taskData log).taskSize < 2 ^ 64 ∧
        (center.processLog log env cache db).2 = (db, crash "Uint conversion error") ∨
      ¬ log.IsInternal ∧ ¬ env.Healthy ∧ (∃ e, (center.processLog log env cache db).2 = (db, .error e)) ∨
      ¬ log.IsInternal ∧ (center.taskData log).taskSize < 2 ^ 64 ∧ ∃ addresses,
        (env.Healthy → addresses = center.attesters log.attestersIds) ∧
        (center.processLog log env cache db).2 =
          (((center.eventOf log addresses).ingest env.timestamp env.fault db).1, .ok ())) := by
  by_cases hinternal : log.IsInternal
  · rw [processLog, if_pos hinternal]
    exact ⟨hcache, .inl ⟨hinternal, rfl⟩⟩
  by_cases hsize : (center.taskData log).taskSize < 2 ^ 64
  swap
  · rw [processLog, if_neg hinternal, decodeData_fromLog, if_neg hsize]
    exact ⟨hcache, .inr (.inl ⟨hinternal, hsize, rfl⟩)⟩
  cases hmap : center.getOperatorAddressMap false (env.activeOperators 0) cache with
  | error e =>
    have hprocess : center.processLog log env cache db = (cache, db, .error e) := by
      simp only [processLog, if_neg hinternal, decodeData_fromLog, if_pos hsize, hmap]
    rw [hprocess]
    refine ⟨hcache, .inr (.inr (.inl ⟨hinternal, fun henv => ?_, e, rfl⟩))⟩
    obtain ⟨operatorMap, hok⟩ := exists_getOperatorAddressMap (henv.activeOperators 0) false cache
    rw [hok] at hmap
    cases hmap
  | ok operatorMap =>
    have hagrees := hcache.getOperatorAddressMap hmap
    have hfound :
        center.Agrees (center.attesterAddresses env 1 (center.eventOf log []).attestersIds operatorMap operatorMap []).1 :=
      agrees_attesterAddresses hagrees hagrees
    have hall (henv : env.Healthy) :
        (center.attesterAddresses env 1 (center.eventOf log []).attestersIds operatorMap operatorMap []).2 =
          .ok (center.attesters log.attestersIds) := attesterAddresses_of_healthy henv hagrees hagrees
    rcases hres : center.attesterAddresses env 1 (center.eventOf log []).attestersIds operatorMap operatorMap [] with ⟨cache', r⟩
    rw [hres] at hfound hall
    cases r with
    | error e =>
      have hprocess : center.processLog log env cache db = (cache', db, .error e) := by
        simp only [processLog, if_neg hinternal, decodeData_fromLog, if_pos hsize, hmap, hres]
      rw [hprocess]
      refine ⟨hfound, .inr (.inr (.inl ⟨hinternal, fun henv => ?_, e, rfl⟩))⟩
      cases hall henv
    | ok addresses =>
      have hprocess : center.processLog log env cache db =
          (cache', ((center.eventOf log addresses).ingest env.timestamp env.fault db).1, .ok ()) := by
        simp only [processLog, if_neg hinternal, decodeData_fromLog, if_pos hsize, hmap, hres]
        rfl
      rw [hprocess]
      exact ⟨hfound, .inr (.inr (.inr ⟨hinternal, hsize, addresses, fun henv => Except.ok.inj (hall henv), rfl⟩))⟩

/-! ### The mark -/

def storedLogs (db : IngestDb) : List (Bytes × ℕ) := db.tasks.map TaskRow.log

variable (center) in
/-- The last processed block, and what it says: nothing is stored twice, and nothing of a later block. -/
structure Tracks (db : IngestDb) (block : ℕ) : Prop where
  drawn : db.Drawn
  nodup : (storedLogs db).Nodup
  mark : db.lastProcessedBlock = some block
  stored : ∀ log ∈ center.logs, log.key ∈ storedLogs db → log.blockNumber ≤ block

theorem eq_of_key_eq {log log' : TaskLog} (hlog : log ∈ center.logs) (hlog' : log' ∈ center.logs) (heq : log.key = log'.key) :
    log = log' := List.inj_on_of_nodup_map center.nodup hlog hlog' heq

theorem mem_storedLogs_store {addresses : List Address} {timestamp : ℤ} {key : Bytes × ℕ} :
    key ∈ storedLogs (db.store (center.eventOf log addresses) timestamp) ↔ key ∈ storedLogs db ∨ key = log.key := by
  rw [storedLogs, IngestDb.store, List.map_append, List.mem_append, List.map_singleton, List.mem_singleton]
  rfl

section Steps
variable {block : ℕ}

theorem Tracks.store (h : center.Tracks db block) {addresses : List Address} {timestamp : ℤ} (hlog : log ∈ center.logs)
    (hle : block ≤ log.blockNumber) (hnew : log.key ∉ storedLogs db) :
    center.Tracks (db.store (center.eventOf log addresses) timestamp) log.blockNumber where
  drawn := h.drawn.store
  nodup := by
    rw [storedLogs, IngestDb.store, List.map_append, List.nodup_append]
    refine ⟨h.nodup, List.nodup_singleton _, ?_⟩
    rintro key hkey _ hmem rfl
    have heq : key = log.key := List.mem_singleton.1 hmem
    exact hnew (heq ▸ hkey)
  mark := rfl
  stored log' hlog' hkey := by
    rcases mem_storedLogs_store.1 hkey with hkey | heq
    · exact (h.stored log' hlog' hkey).trans hle
    · rw [eq_of_key_eq hlog' hlog heq]

theorem Tracks.rollback (h : center.Tracks db block) (drawn : Bool) : center.Tracks (db.rollback drawn) block :=
  ⟨h.drawn.rollback drawn, h.nodup, h.mark, h.stored⟩

/-- One log moves the mark up to its own block or not at all, and adds nothing but itself. -/
theorem Tracks.processLog (h : center.Tracks db block) (env : LogEnv) (hcache : center.Agrees cache)
    (hlog : log ∈ center.logs) (hle : block ≤ log.blockNumber) :
    ∃ block', center.Tracks (center.processLog log env cache db).2.1 block' ∧
      (block' = block ∨ ¬ log.IsInternal ∧ block' = log.blockNumber) ∧
      ∀ key ∈ storedLogs (center.processLog log env cache db).2.1, key ∈ storedLogs db ∨ key = log.key := by
  have hsame : ∃ block', center.Tracks db block' ∧ (block' = block ∨ ¬ log.IsInternal ∧ block' = log.blockNumber) ∧
      ∀ key ∈ storedLogs db, key ∈ storedLogs db ∨ key = log.key := ⟨block, h, .inl rfl, fun _ => .inl⟩
  obtain ⟨-, ⟨-, heq⟩ | ⟨-, -, heq⟩ | ⟨-, -, e, heq⟩ | ⟨hexternal, -, addresses, -, heq⟩⟩ := processLog_cases log env db hcache
  · rwa [heq]
  · rwa [heq]
  · rwa [heq]
  · rw [heq]
    show ∃ block', center.Tracks ((center.eventOf log addresses).ingest env.timestamp env.fault db).1 block' ∧ _
    rcases ingest_cases h.drawn env.fault with ⟨hstorable, heq⟩ | ⟨-, drawn, heq⟩
    · rw [heq]
      exact ⟨log.blockNumber, h.store hlog hle hstorable.log, .inr ⟨hexternal, rfl⟩, fun key => mem_storedLogs_store.1⟩
    · rw [heq]
      exact ⟨block, h.rollback drawn, .inl rfl, fun _ => .inl⟩

variable {monitor : EventMonitor} {logs : List TaskLog} {envs : TaskLog → LogEnv}

/-- The logs of a subscription: of the chain, in its order, and not before the mark. -/
structure Pending (center : AttestationCenter) (block : ℕ) (logs : List TaskLog) : Prop where
  mem : ∀ log ∈ logs, log ∈ center.logs
  le : ∀ log ∈ logs, block ≤ log.blockNumber
  ordered : logs.Pairwise fun a b => a.blockNumber ≤ b.blockNumber

theorem Pending.tail {block' : ℕ} (h : Pending center block (log :: logs)) (hle : block' ≤ log.blockNumber) :
    Pending center block' logs where
  mem log' hlog' := h.mem log' (List.mem_cons_of_mem _ hlog')
  le log' hlog' := hle.trans ((List.pairwise_cons.1 h.ordered).1 log' hlog')
  ordered := (List.pairwise_cons.1 h.ordered).2

theorem Pending.mark_le {block' : ℕ} (h : Pending center block (log :: logs))
    (hmark : block' = block ∨ ¬ log.IsInternal ∧ block' = log.blockNumber) : block' ≤ log.blockNumber := by
  rcases hmark with rfl | ⟨-, rfl⟩
  exacts [h.le log List.mem_cons_self, le_rfl]

theorem Pending.take (h : Pending center block logs) (delivered : ℕ) : Pending center block (logs.take delivered) where
  mem log hlog := h.mem log (List.mem_of_mem_take hlog)
  le log hlog := h.le log (List.mem_of_mem_take hlog)
  ordered := h.ordered.sublist (List.take_sublist _ _)

theorem mem_logsFrom : log ∈ center.logsFrom (block + 1) ↔ log ∈ center.logs ∧ block < log.blockNumber := by
  rw [logsFrom, List.mem_filter, decide_eq_true_iff, Nat.succ_le_iff]

theorem pending_logsFrom : Pending center block (center.logsFrom (block + 1)) where
  mem _ hlog := (mem_logsFrom.1 hlog).1
  le _ hlog := (mem_logsFrom.1 hlog).2.le
  ordered := center.ordered.sublist List.filter_sublist

variable (envs) in
theorem Tracks.deliver (monitor : EventMonitor) (h : center.Tracks monitor.db block)
    (hcache : center.Agrees monitor.operatorAddressCache) (hlogs : Pending center block logs) :
    center.Agrees (center.deliver envs logs monitor).operatorAddressCache ∧
      ∃ block', center.Tracks (center.deliver envs logs monitor).db block' ∧
        (block' = block ∨ ∃ log ∈ logs, ¬ log.IsInternal ∧ block' = log.blockNumber) ∧
        ∀ key ∈ storedLogs (center.deliver envs logs monitor).db, key ∈ storedLogs monitor.db ∨ ∃ log ∈ logs, key = log.key := by
  induction logs generalizing monitor block with
  | nil => exact ⟨hcache, block, h, .inl rfl, fun _ => .inl⟩
  | cons log logs ih =>
    have hagrees := (processLog_cases log (envs log) monitor.db hcache).1
    obtain ⟨block', h', hmark, hkeys⟩ :=
      h.processLog (envs log) hcache (hlogs.mem log List.mem_cons_self) (hlogs.le log List.mem_cons_self)
    have hmark' : block' = block ∨ ∃ log' ∈ log :: logs, ¬ log'.IsInternal ∧ block' = log'.blockNumber :=
      hmark.imp_right fun hmark => ⟨log, List.mem_cons_self, hmark⟩
    unfold AttestationCenter.deliver
    dsimp only
    split
    · refine ⟨hagrees, block', h', hmark', fun key hkey => (hkeys key hkey).imp_right fun heq => ⟨log, List.mem_cons_self, heq⟩⟩
    · obtain ⟨hagrees', block'', h'', hmark'', hkeys'⟩ :=
        ih { monitor with db := _, operatorAddressCache := _ } h' hagrees (hlogs.tail (hlogs.mark_le hmark))
      refine ⟨hagrees', block'', h'', ?_, fun key hkey => ?_⟩
      · rcases hmark'' with rfl | ⟨log', hlog', hmark''⟩
        · exact hmark'
        · exact .inr ⟨log', List.mem_cons_of_mem _ hlog', hmark''⟩
      · rcases hkeys' key hkey with hkey | ⟨log', hlog', heq⟩
        · exact (hkeys key hkey).imp_right fun heq => ⟨log, List.mem_cons_self, heq⟩
        · exact .inr ⟨log', List.mem_cons_of_mem _ hlog', heq⟩

variable (center) in
/-- The mark has not gone back, and nothing that it had passed has been stored since. -/
structure Advances (db : IngestDb) (block : ℕ) (db' : IngestDb) (block' : ℕ) : Prop where
  tracks : center.Tracks db' block'
  le : block ≤ block'
  passed : ∀ log ∈ center.logs, log.blockNumber ≤ block → log.key ∈ storedLogs db' → log.key ∈ storedLogs db

theorem Advances.refl (h : center.Tracks db block) : center.Advances db block db block := ⟨h, le_rfl, fun _ _ _ => id⟩

theorem Advances.trans {db' db'' : IngestDb} {block' block'' : ℕ} (h : center.Advances db block db' block')
    (h' : center.Advances db' block' db'' block'') : center.Advances db block db'' block'' where
  tracks := h'.tracks
  le := h.le.trans h'.le
  passed log hlog hle hkey := h.passed log hlog hle (h'.passed log hlog (hle.trans h.le) hkey)

theorem Tracks.attempt (h : center.Tracks monitor.db block) (hcache : center.Agrees monitor.operatorAddressCache) (a : Attempt) :
    center.Agrees (center.attempt monitor a).operatorAddressCache ∧
      ∃ block', center.Advances monitor.db block (center.attempt monitor a).db block' := by
  by_cases hexited : monitor.exited = true
  · cases a with
    | restart => exact ⟨.empty, block, .refl h⟩
    | unreadable | unsubscribed | live => rw [AttestationCenter.attempt, if_pos hexited]; exact ⟨hcache, block, .refl h⟩
  cases a with
  | restart => exact ⟨.empty, block, .refl h⟩
  | unreadable | unsubscribed => rw [AttestationCenter.attempt, if_neg hexited]; exact ⟨hcache, block, .refl h⟩
  | live latest delivered env =>
    rw [AttestationCenter.attempt, if_neg hexited, fromBlock, h.mark]
    obtain ⟨hagrees, block', h', hmark, hkeys⟩ := h.deliver env monitor hcache (pending_logsFrom.take delivered)
    have hle : block ≤ block' := by
      rcases hmark with rfl | ⟨log, hlog, -, rfl⟩
      · exact le_rfl
      · exact (mem_logsFrom.1 (List.mem_of_mem_take hlog)).2.le
    refine ⟨hagrees, block', h', hle, fun log hlog hpassed hkey => (hkeys log.key hkey).resolve_right ?_⟩
    rintro ⟨log', hlog', heq⟩
    -- the subscription starts after the mark
    obtain ⟨hlog', hlater⟩ := mem_logsFrom.1 (List.mem_of_mem_take hlog')
    obtain rfl := eq_of_key_eq hlog hlog' heq
    exact absurd hpassed hlater.not_ge

theorem Tracks.run (h : center.Tracks monitor.db block) (hcache : center.Agrees monitor.operatorAddressCache)
    (attempts : List Attempt) :
    center.Agrees (attempts.foldl center.attempt monitor).operatorAddressCache ∧
      ∃ block', center.Advances monitor.db block (attempts.foldl center.attempt monitor).db block' := by
  induction attempts generalizing monitor block with
  | nil => exact ⟨hcache, block, .refl h⟩
  | cons a attempts ih =>
    obtain ⟨hagrees, block', h'⟩ := h.attempt hcache a
    obtain ⟨hagrees', block'', h''⟩ := ih h'.tracks hagrees
    exact ⟨hagrees', block'', h'.trans h''⟩

/-- A log that the mark has passed between two attempts without being stored is never stored. -/
theorem lost_forever (h : center.Tracks monitor.db block) (hcache : center.Agrees monitor.operatorAddressCache)
    (hlog : log ∈ center.logs) (hpassed : log.blockNumber ≤ block) (hlost : log.key ∉ storedLogs monitor.db)
    (attempts : List Attempt) : log.key ∉ storedLogs (attempts.foldl center.attempt monitor).db := by
  obtain ⟨-, block', h'⟩ := h.run hcache attempts
  exact fun hkey => hlost (h'.passed log hlog hpassed hkey)

/-! ### A subscription without failures -/

structure Storable (center : AttestationCenter) (log : TaskLog) : Prop where
  size : (center.taskData log).taskSize < 2 ^ 64
  performers : (center.taskData log).performers.Nodup
  attesters : (center.attesters log.attestersIds).Nodup

theorem mem_storedLogs_processLog (hdb : db.Drawn) (hcache : center.Agrees cache) (henv : env.Healthy) {key : Bytes × ℕ} :
    key ∈ storedLogs (center.processLog log env cache db).2.1 ↔
      key ∈ storedLogs db ∨ ¬ log.IsInternal ∧ center.Storable log ∧ key = log.key := by
  obtain ⟨-, ⟨hinternal, heq⟩ | ⟨-, hsize, heq⟩ | ⟨-, hfailed, -⟩ | ⟨hexternal, hsize, addresses, hall, heq⟩⟩ :=
    processLog_cases log env db hcache
  · rw [heq]
    exact ⟨.inl, fun h => h.resolve_right fun h => h.1 hinternal⟩
  · rw [heq]
    exact ⟨.inl, fun h => h.resolve_right fun h => hsize h.2.1.size⟩
  · exact absurd henv hfailed
  obtain rfl := hall henv
  rw [heq, henv.fault]
  show key ∈ storedLogs ((center.eventOf log (center.attesters log.attestersIds)).ingest env.timestamp none db).1 ↔ _
  rcases ingest_cases hdb none with ⟨hstorable, heq⟩ | ⟨hviolated, drawn, heq⟩
  · rw [heq, mem_storedLogs_store]
    have hlog : center.Storable log := ⟨hsize, hstorable.performers, hstorable.attesters⟩
    exact or_congr_right ⟨fun h => ⟨hexternal, hlog, h⟩, fun h => h.2.2⟩
  · rw [heq]
    refine ⟨.inl, fun h => h.elim id ?_⟩
    rintro ⟨-, hlog, rfl⟩
    by_contra hnew
    exact hviolated rfl ⟨hnew, hlog.performers, hlog.attesters⟩

theorem not_storable_of_panic (hcache : center.Agrees cache) (henv : env.Healthy) {msg : String}
    (h : (center.processLog log env cache db).2.2 = .error (.panic msg)) : ¬ log.IsInternal ∧ ¬ center.Storable log := by
  obtain ⟨-, ⟨-, heq⟩ | ⟨hexternal, hsize, -⟩ | ⟨-, hfailed, -⟩ | ⟨-, -, addresses, -, heq⟩⟩ := processLog_cases log env db hcache
  · rw [heq] at h
    cases h
  · exact ⟨hexternal, fun hlog => hsize hlog.size⟩
  · exact absurd henv hfailed
  · rw [heq] at h
    cases h

theorem mem_storedLogs_deliver (monitor : EventMonitor) (h : center.Tracks monitor.db block)
    (hcache : center.Agrees monitor.operatorAddressCache) (hlogs : Pending center block logs) (henvs : ∀ log, (envs log).Healthy)
    (key : Bytes × ℕ) :
    (key ∈ storedLogs (center.deliver envs logs monitor).db →
      key ∈ storedLogs monitor.db ∨ ∃ log ∈ logs, center.Storable log ∧ key = log.key) ∧
    ((∀ log ∈ logs, ¬ log.IsInternal → center.Storable log) →
      (key ∈ storedLogs monitor.db ∨ ∃ log ∈ logs, ¬ log.IsInternal ∧ key = log.key) →
      key ∈ storedLogs (center.deliver envs logs monitor).db) := by
  induction logs generalizing monitor block with
  | nil => exact ⟨.inl, fun _ h => h.elim id fun ⟨_, hlog, _⟩ => by cases hlog⟩
  | cons log logs ih =>
    have hagrees := (processLog_cases log (envs log) monitor.db hcache).1
    obtain ⟨block', h', hmark, -⟩ :=
      h.processLog (envs log) hcache (hlogs.mem log List.mem_cons_self) (hlogs.le log List.mem_cons_self)
    have hstep : key ∈ storedLogs (center.processLog log (envs log) monitor.operatorAddressCache monitor.db).2.1 ↔ _ :=
      mem_storedLogs_processLog h.drawn hcache (henvs log)
    unfold AttestationCenter.deliver
    dsimp only
    split
    next msg hpanic =>
      obtain ⟨hexternal, hlog⟩ := not_storable_of_panic hcache (henvs log) hpanic
      refine ⟨fun hkey => ?_, fun hall => absurd (hall log List.mem_cons_self hexternal) hlog⟩
      exact .inl ((hstep.1 hkey).resolve_right fun h => hlog h.2.1)
    next =>
      obtain ⟨hsound, hcomplete⟩ := ih { monitor with db := _, operatorAddressCache := _ } h' hagrees (hlogs.tail (hlogs.mark_le hmark))
      constructor
      · intro hkey
        rcases hsound hkey with hkey | ⟨log', hlog', hstorable⟩
        · refine (hstep.1 hkey).imp_right ?_
          rintro ⟨-, hstorable⟩
          exact ⟨log, List.mem_cons_self, hstorable⟩
        · exact .inr ⟨log', List.mem_cons_of_mem _ hlog', hstorable⟩
      · intro hall hkey
        refine hcomplete (fun log' hlog' => hall log' (List.mem_cons_of_mem _ hlog')) ?_
        rcases hkey with hkey | ⟨log', hlog', hexternal, heq⟩
        · exact .inl (hstep.2 (.inl hkey))
        rcases List.mem_cons.1 hlog' with rfl | hlog'
        · exact .inl (hstep.2 (.inr ⟨hexternal, hall _ List.mem_cons_self hexternal, heq⟩))
        · exact .inr ⟨log', hlog', hexternal, heq⟩

theorem exited_deliver (monitor : EventMonitor) (hcache : center.Agrees monitor.operatorAddressCache)
    (henvs : ∀ log, (envs log).Healthy) (hall : ∀ log ∈ logs, ¬ log.IsInternal → center.Storable log) :
    (center.deliver envs logs monitor).exited = monitor.exited := by
  induction logs generalizing monitor with
  | nil => rfl
  | cons log logs ih =>
    have hagrees := (processLog_cases log (envs log) monitor.db hcache).1
    unfold AttestationCenter.deliver
    dsimp only
    split
    next msg hpanic =>
      obtain ⟨hexternal, hlog⟩ := not_storable_of_panic hcache (henvs log) hpanic
      exact absurd (hall log List.mem_cons_self hexternal) hlog
    next => exact ih { monitor with db := _, operatorAddressCache := _ } hagrees fun log' hlog' =>
        hall log' (List.mem_cons_of_mem _ hlog')

end Steps

/-! ### Every event exactly once -/

/-- The first block has been processed, and the logs of the chain come after it. -/
structure Started (center : AttestationCenter) (db : IngestDb) : Prop where
  drawn : db.Drawn
  nodup : (storedLogs db).Nodup
  mark : ∃ block, db.lastProcessedBlock = some block ∧ ∀ log ∈ center.logs, block < log.blockNumber
  new : ∀ log ∈ center.logs, log.key ∉ storedLogs db

theorem Started.tracks (h : center.Started db) : ∃ block, center.Tracks db block := by
  obtain ⟨block, hmark, -⟩ := h.mark
  exact ⟨block, h.drawn, h.nodup, hmark, fun log hlog hkey => absurd hkey (h.new log hlog)⟩

/-- The mark has passed no event that is not stored, and the monitor runs and can store every event that is left. -/
structure Recoverable (center : AttestationCenter) (monitor : EventMonitor) : Prop where
  passed : ∀ log ∈ center.logs, ¬ log.IsInternal → ∀ block, monitor.db.lastProcessedBlock = some block →
    log.blockNumber ≤ block → log.key ∈ storedLogs monitor.db
  left : ∀ log ∈ center.logs, ¬ log.IsInternal → ∀ block, monitor.db.lastProcessedBlock = some block →
    block < log.blockNumber → monitor.exited = false ∧ center.Storable log

section Complete
variable {monitor : EventMonitor} {block : ℕ} {envs : TaskLog → LogEnv}

theorem attempt_live (h : center.Tracks monitor.db block) (hexited : ¬ monitor.exited = true) (latest : ℕ) :
    (center.attempt monitor (.live latest center.logs.length envs)).db =
      (center.deliver envs (center.logsFrom (block + 1)) monitor).db := by
  have hall : (center.logsFrom (block + 1)).take center.logs.length = center.logsFrom (block + 1) :=
    List.take_of_length_le (List.length_filter_le _ _)
  rw [attempt, if_neg hexited, fromBlock, h.mark]
  exact congrArg (fun logs => (center.deliver envs logs monitor).db) hall

theorem stored_once_iff_recoverable (h : center.Tracks monitor.db block) (hcache : center.Agrees monitor.operatorAddressCache)
    (latest : ℕ) (henvs : ∀ log, (envs log).Healthy) :
    (∀ log ∈ center.logs, ¬ log.IsInternal →
      (storedLogs (center.attempt monitor (.live latest center.logs.length envs)).db).count log.key = 1) ↔
      center.Recoverable monitor := by
  obtain ⟨-, block', h'⟩ := h.attempt hcache (.live latest center.logs.length envs)
  have hcount (key : Bytes × ℕ) :
      (storedLogs (center.attempt monitor (.live latest center.logs.length envs)).db).count key = 1 ↔
        key ∈ storedLogs (center.attempt monitor (.live latest center.logs.length envs)).db :=
    ⟨fun heq => List.count_pos_iff.1 (heq ▸ Nat.one_pos), List.count_eq_one_of_mem h'.tracks.nodup⟩
  have hmark {block' : ℕ} (hblock : monitor.db.lastProcessedBlock = some block') : block' = block :=
    Option.some.inj (hblock.symm.trans h.mark)
  have hsession := mem_storedLogs_deliver monitor h hcache pending_logsFrom henvs
  constructor
  · intro hall
    refine ⟨fun log hlog hexternal _ hblock hle => ?_, fun log hlog hexternal _ hblock hlt => ?_⟩
    · rw [hmark hblock] at hle
      exact h'.passed log hlog hle ((hcount _).1 (hall log hlog hexternal))
    · rw [hmark hblock] at hlt
      have hkey := (hcount _).1 (hall log hlog hexternal)
      have hnew : log.key ∉ storedLogs monitor.db := fun hkey => absurd (h.stored log hlog hkey) hlt.not_ge
      by_cases hexited : monitor.exited = true
      · rw [attempt, if_pos hexited] at hkey
        exact absurd hkey hnew
      · rw [attempt_live h hexited] at hkey
        obtain ⟨log', hlog', hstorable, heq⟩ := ((hsession _).1 hkey).resolve_left hnew
        obtain rfl := eq_of_key_eq hlog (mem_logsFrom.1 hlog').1 heq
        exact ⟨Bool.eq_false_of_not_eq_true hexited, hstorable⟩
  · intro hrecoverable log hlog hexternal
    rw [hcount]
    have hall : ∀ log ∈ center.logsFrom (block + 1), ¬ log.IsInternal → monitor.exited = false ∧ center.Storable log :=
      fun log hlog hexternal => hrecoverable.left log (mem_logsFrom.1 hlog).1 hexternal block h.mark (mem_logsFrom.1 hlog).2
    have hkey : log.key ∈ storedLogs monitor.db ∨ log ∈ center.logsFrom (block + 1) := by
      by_cases hle : log.blockNumber ≤ block
      · exact .inl (hrecoverable.passed log hlog hexternal block h.mark hle)
      · exact .inr (mem_logsFrom.2 ⟨hlog, Nat.lt_of_not_le hle⟩)
    by_cases hexited : monitor.exited = true
    · rw [attempt, if_pos hexited]
      refine hkey.resolve_right fun hleft => ?_
      rw [(hall log hleft hexternal).1] at hexited
      cases hexited
    · rw [attempt_live h hexited]
      exact (hsession _).2 (fun log hlog hexternal => (hall log hlog hexternal).2)
        (hkey.imp_right fun hleft => ⟨log, hleft, hexternal, rfl⟩)

/-- The attempts after which nothing is lost: a subscription without failures that does not end between two events of one
block, a failure after which `run` tries again, and a restart. -/
def Keeps (center : AttestationCenter) (monitor : EventMonitor) : Attempt → Prop
  | .restart => True
  | .live latest delivered envs => (∀ log, (envs log).Healthy) ∧
      ∀ log ∈ (center.logsFrom (fromBlock latest monitor.db)).take delivered,
        ∀ log' ∈ (center.logsFrom (fromBlock latest monitor.db)).drop delivered,
          ¬ log.IsInternal → ¬ log'.IsInternal → log.blockNumber < log'.blockNumber
  | .unreadable | .unsubscribed => monitor.retryCount + 1 < maxRetries

/-- A subscription without failures loses events exactly if it ends between two events of one block. -/
theorem Recoverable.attempt_live_iff (hrec : center.Recoverable monitor) (h : center.Tracks monitor.db block)
    (hcache : center.Agrees monitor.operatorAddressCache) (hexited : ¬ monitor.exited = true) (latest delivered : ℕ)
    (henvs : ∀ log, (envs log).Healthy) :
    center.Recoverable (center.attempt monitor (.live latest delivered envs)) ↔
      center.Keeps monitor (.live latest delivered envs) := by
  have hfrom : fromBlock latest monitor.db = block + 1 := by rw [fromBlock, h.mark]
  rw [attempt, if_neg hexited, Keeps, hfrom]
  have hstorable : ∀ log ∈ (center.logsFrom (block + 1)).take delivered, ¬ log.IsInternal → center.Storable log := by
    intro log hlog hexternal
    obtain ⟨hlog, hlt⟩ := mem_logsFrom.1 (List.mem_of_mem_take hlog)
    exact (hrec.left log hlog hexternal block h.mark hlt).2
  obtain ⟨-, block', h', hmoved, hkeys⟩ := h.deliver envs monitor hcache (pending_logsFrom.take delivered)
  have hstored key := (mem_storedLogs_deliver monitor h hcache (pending_logsFrom.take delivered) henvs key).2 hstorable
  constructor
  · refine fun hrec' => ⟨henvs, fun log hlog log' hlog' hexternal hexternal' => ?_⟩
    by_contra hlt
    obtain ⟨hmem', hlater⟩ := mem_logsFrom.1 (List.mem_of_mem_drop hlog')
    have hle := h'.stored log (mem_logsFrom.1 (List.mem_of_mem_take hlog)).1 (hstored _ (.inr ⟨log, hlog, hexternal, rfl⟩))
    have hpassed := hrec'.passed log' hmem' hexternal' block' h'.mark (by omega)
    rcases hkeys _ hpassed with hkey | ⟨log'', hlog'', heq⟩
    · exact absurd (h.stored log' hmem' hkey) hlater.not_ge
    · obtain rfl := eq_of_key_eq hmem' (mem_logsFrom.1 (List.mem_of_mem_take hlog'')).1 heq
      exact List.disjoint_take_drop ((List.Nodup.of_map _ center.nodup).filter _) le_rfl hlog'' hlog'
  · rintro ⟨-, hends⟩
    refine ⟨fun log hlog hexternal _ hblock hle => ?_, fun log hlog hexternal _ hblock hlt => ?_⟩
    all_goals obtain rfl := Option.some.inj (hblock.symm.trans h'.mark)
    · by_cases hpassed : log.blockNumber ≤ block
      · exact hstored _ (.inl (hrec.passed log hlog hexternal block h.mark hpassed))
      have hmem : log ∈ center.logsFrom (block + 1) := mem_logsFrom.2 ⟨hlog, Nat.lt_of_not_le hpassed⟩
      rw [← List.take_append_drop delivered (center.logsFrom (block + 1)), List.mem_append] at hmem
      rcases hmem with hmem | hmem
      · exact hstored _ (.inr ⟨log, hmem, hexternal, rfl⟩)
      · rcases hmoved with rfl | ⟨last, hlast, hexternal', rfl⟩
        · exact absurd hle hpassed
        · exact absurd hle (hends last hlast log hmem hexternal' hexternal).not_ge
    · have hlt' : block < log.blockNumber := by
        rcases hmoved with rfl | ⟨last, hlast, -, rfl⟩
        · exact hlt
        · exact (mem_logsFrom.1 (List.mem_of_mem_take hlast)).2.trans hlt
      exact ⟨(exited_deliver monitor hcache henvs hstorable).trans (Bool.eq_false_of_not_eq_true hexited),
        (hrec.left log hlog hexternal block h.mark hlt').2⟩

theorem Recoverable.attempt (hrec : center.Recoverable monitor) (h : center.Tracks monitor.db block)
    (hcache : center.Agrees monitor.operatorAddressCache) {a : Attempt} (ha : center.Keeps monitor a) :
    center.Recoverable (center.attempt monitor a) := by
  cases a with
  | restart => exact ⟨hrec.passed, fun log hlog hexternal block hblock hlt => ⟨rfl, (hrec.left log hlog hexternal block hblock hlt).2⟩⟩
  | live latest delivered envs =>
    by_cases hexited : monitor.exited = true
    · rwa [AttestationCenter.attempt, if_pos hexited]
    · exact (hrec.attempt_live_iff h hcache hexited latest delivered ha.1).2 ha
  | unreadable | unsubscribed =>
    by_cases hexited : monitor.exited = true
    · rwa [AttestationCenter.attempt, if_pos hexited]
    · rw [AttestationCenter.attempt, if_neg hexited]
      refine ⟨hrec.passed, fun log hlog hexternal block hblock hlt => ⟨?_, (hrec.left log hlog hexternal block hblock hlt).2⟩⟩
      exact decide_eq_false (not_le.2 ha)

theorem Recoverable.run (hrec : center.Recoverable monitor) (h : center.Tracks monitor.db block)
    (hcache : center.Agrees monitor.operatorAddressCache) (attempts : List Attempt)
    (hkeeps : ∀ before a after, attempts = before ++ a :: after → center.Keeps (before.foldl center.attempt monitor) a) :
    center.Recoverable (attempts.foldl center.attempt monitor) := by
  induction attempts generalizing monitor block with
  | nil => exact hrec
  | cons a attempts ih =>
    obtain ⟨hagrees, block', h'⟩ := h.attempt hcache a
    refine ih (hrec.attempt h hcache (hkeeps [] a attempts rfl)) h'.tracks hagrees fun before a' after heq => ?_
    exact hkeeps (a :: before) a' after (by rw [heq, List.cons_append])

theorem Started.recoverable (h : center.Started db) (hall : ∀ log ∈ center.logs, ¬ log.IsInternal → center.Storable log) :
    center.Recoverable (.new db) := by
  obtain ⟨block, hmark, hlater⟩ := h.mark
  refine ⟨fun log hlog _ block' hblock hle => ?_, fun log hlog hexternal _ _ _ => ⟨rfl, hall log hlog hexternal⟩⟩
  obtain rfl : block' = block := Option.some.inj (hblock.symm.trans hmark)
  exact absurd hle (hlater log hlog).not_ge

end Complete

variable (center) in
/-- After any attempts with any failures, a subscription without failures that delivers all logs brings every event of the
chain into the tables exactly once, just if the state in which it starts is `Recoverable`. -/
theorem chain_events_stored_once_iff (hstart : center.Started db) (attempts : List Attempt) (latest : ℕ)
    (envs : TaskLog → LogEnv) (henvs : ∀ log, (envs log).Healthy) :
    (∀ log ∈ center.logs, ¬ log.IsInternal →
      (storedLogs (center.attempt (attempts.foldl center.attempt (.new db)) (.live latest center.logs.length envs)).db).count
        log.key = 1) ↔
      center.Recoverable (attempts.foldl center.attempt (.new db)) := by
  obtain ⟨block, hnew⟩ : ∃ block, center.Tracks (EventMonitor.new db).db block := hstart.tracks
  obtain ⟨hcache, block', h⟩ := hnew.run .empty attempts
  exact stored_once_iff_recoverable h.tracks hcache latest henvs

def sampleLog (block logIndex : ℕ) : TaskLog where
  operator := [1]
  taskNumber := logIndex
  proofOfTask := "proof"
  data := [30]
  taskDefinitionId := 0
  attestersIds := [1]
  blockNumber := block
  transactionHash := [9]
  logIndex := logIndex

def twoLogs (block : ℕ) (h : 5 ≤ block) : AttestationCenter where
  logs := [sampleLog 5 0, sampleLog block 1]
  ordered := by simpa [sampleLog] using h
  nodup := by simp [sampleLog, TaskLog.key]
  operatorOf _ := [1]
  abiDecode _ := some ⟨30, [[1]]⟩

def quiet (_ : TaskLog) : LogEnv := ⟨fun _ => .ok [1], fun _ => .ok (), 0, none⟩

theorem healthy_quiet (log : TaskLog) : (quiet log).Healthy := ⟨fun _ => ⟨[1], rfl⟩, fun _ => rfl, rfl⟩

def processedFour : IngestDb := { IngestDb.empty with lastProcessedBlock := some 4 }

theorem started_twoLogs {block : ℕ} (h : 5 ≤ block) : (twoLogs block h).Started processedFour where
  drawn := ⟨nofun, nofun, nofun, nofun⟩
  nodup := List.nodup_nil
  mark := by
    refine ⟨4, rfl, fun log hlog => ?_⟩
    rcases List.mem_cons.1 hlog with rfl | hlog
    · decide
    · rw [List.mem_singleton.1 hlog]
      exact h
  new _ _ := List.not_mem_nil

/-- With the logs in two blocks, a subscription that ends between them does no harm. -/
theorem chain_events_stored_once_reconnect :
    (storedLogs ((twoLogs 6 (by decide)).attempt
        ([.unsubscribed, .live 0 1 quiet].foldl (twoLogs 6 (by decide)).attempt (.new processedFour))
        (.live 0 2 quiet)).db).count (sampleLog 5 0).key = 1 ∧
      (storedLogs ((twoLogs 6 (by decide)).attempt
        ([.unsubscribed, .live 0 1 quiet].foldl (twoLogs 6 (by decide)).attempt (.new processedFour))
        (.live 0 2 quiet)).db).count (sampleLog 6 1).key = 1 := by
  have hall := (chain_events_stored_once_iff (twoLogs 6 (by decide)) (started_twoLogs _) [.unsubscribed, .live 0 1 quiet] 0 quiet
    healthy_quiet).2 ?_
  · exact ⟨hall _ List.mem_cons_self (by decide), hall _ (List.mem_cons_of_mem _ List.mem_cons_self) (by decide)⟩
  obtain ⟨block, htracks⟩ := (started_twoLogs (by decide : 5 ≤ 6)).tracks
  refine ((started_twoLogs (by decide)).recoverable ?_).run htracks .empty _ ?_
  · intro log hlog _
    rcases List.mem_cons.1 hlog with rfl | hlog
    · exact ⟨by decide, by decide, by decide⟩
    · rw [List.mem_singleton.1 hlog]
      exact ⟨by decide, by decide, by decide⟩
  · rintro before a after heq
    rcases List.cons_eq_append_iff.1 heq with ⟨rfl, heq⟩ | ⟨before, rfl, heq'⟩
    · cases heq
      exact (by decide : 0 + 1 < maxRetries)
    rcases List.cons_eq_append_iff.1 heq' with ⟨rfl, heq⟩ | ⟨before, rfl, heq⟩
    · cases heq
      exact ⟨healthy_quiet, by decide⟩
    · exact absurd heq (by simp)

/-- In one block, the log behind the end of the first subscription is never stored, although no call fails. -/
theorem chain_event_lost :
    sampleLog 5 1 ∈ (twoLogs 5 le_rfl).logs ∧ ¬ (sampleLog 5 1).IsInternal ∧ (twoLogs 5 le_rfl).Storable (sampleLog 5 1) ∧
      ∀ attempts : List Attempt, (sampleLog 5 1).key ∉
        storedLogs (attempts.foldl (twoLogs 5 le_rfl).attempt
          ((twoLogs 5 le_rfl).attempt (.new processedFour) (.live 0 1 quiet))).db := by
  refine ⟨by simp [twoLogs], by decide, ⟨by decide, by decide, by decide⟩, ?_⟩
  obtain ⟨block, hnew⟩ : ∃ block, (twoLogs 5 le_rfl).Tracks (EventMonitor.new processedFour).db block :=
    (started_twoLogs le_rfl).tracks
  obtain ⟨hcache, block', h⟩ := hnew.attempt .empty (.live 0 1 quiet)
  obtain rfl : 5 = block' := Option.some.inj h.tracks.mark
  exact lost_forever h.tracks hcache (by simp [twoLogs]) le_rfl (by decide)

end AttestationCenter

end HumanNetwork.TaskMonitor
