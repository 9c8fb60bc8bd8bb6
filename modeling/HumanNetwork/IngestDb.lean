import HumanNetwork.Jwt
import HumanNetwork.Lib.Reach
import HumanNetwork.Lib.Table

/-!
# The tables of the ingester (`TaskSubmittedEvent::ingest`)

An event of the attestation center is stored in one transaction: a row for the task, one for each performer and attestor,
their points in the ledger, and the number of its block. A log that is there already, or an address that comes twice in one
of the lists, violates a key and rolls all of it back; only the sequence of the task ids goes on. `ingest_cases` is all that
a call can do to the tables, and `ingest_atomic_idempotent` what follows for the databases that calls lead to.
-/

namespace HumanNetwork
open Outcome

/-! ### Rows -/

inductive OperatorRole where
  | performer
  | attestor
deriving DecidableEq

structure TaskSubmittedEvent where
  operator : Address
  taskNumber : ℕ
  proofOfTask : String
  data : Bytes
  taskSize : ℕ
  performers : List Address
  taskDefinitionId : ℕ
  attestersIds : List ℕ
  attesterAddresses : List Address
  blockNumber : ℕ
  transactionHash : Bytes
  logIndex : ℕ

def asI64 (n : ℕ) : ℤ := Int.bmod n (2 ^ 64)

theorem asI64_of_lt {n : ℕ} (h : n < 2 ^ 63) : asI64 n = n := by
  have hle : (n : ℤ) < 2 ^ 63 := by exact_mod_cast h
  exact Int.bmod_eq_of_le (by norm_num) (by norm_num at hle ⊢; exact hle)

/-- A row of `tasks`. The other casts between integers of one width are read back as they were and left out. -/
structure TaskRow where
  id : ℕ
  taskNumber : ℕ
  taskDefinitionId : ℕ
  taskSize : ℤ
  proofOfTask : String
  operator : Address
  blockNumber : ℕ
  transactionHash : Bytes
  logIndex : ℕ
  timestamp : ℤ

/-- `UNIQUE (transaction_hash, log_index)`. -/
def TaskRow.log (row : TaskRow) : Bytes × ℕ := (row.transactionHash, row.logIndex)

structure LedgerRow where
  operator : Address
  taskId : ℕ
  role : OperatorRole
  points : ℚ
  createdAt : ℤ

/-- `UNIQUE (task_id, operator, role)`. -/
def LedgerRow.key (row : LedgerRow) : ℕ × Address × OperatorRole := (row.taskId, row.operator, row.role)

structure IngestDb where
  nextTaskId : ℕ
  tasks : List TaskRow
  taskPerformers : List (ℕ × Address)
  taskAttestors : List (ℕ × Address)
  operatorPointsLedger : List LedgerRow
  operatorPointsDaily : HMap (Address × ℤ) ℚ
  lastProcessedBlock : Option ℕ

def IngestDb.empty : IngestDb := ⟨1, [], [], [], [], ∅, none⟩

/-! ### The transaction -/

inductive DieselError where
  | notFound
  | uniqueViolation
  | databaseError
deriving DecidableEq

/-- `if !rows.is_empty() { insert_into(table).values(rows).execute(conn)? }`. -/
def insertRows {ρ κ : Type} [DecidableEq κ] (key : ρ → κ) (table rows : List ρ) : Outcome DieselError (List ρ) :=
  if rows.isEmpty then .ok table else okOr (Table.insertAll key table rows) .uniqueViolation

namespace TaskSubmittedEvent

def log (self : TaskSubmittedEvent) : Bytes × ℕ := (self.transactionHash, self.logIndex)

def newTask (self : TaskSubmittedEvent) (taskId : ℕ) (timestamp : ℤ) : TaskRow where
  id := taskId
  taskNumber := self.taskNumber
  taskDefinitionId := self.taskDefinitionId
  taskSize := asI64 self.taskSize
  proofOfTask := self.proofOfTask
  operator := self.operator
  blockNumber := self.blockNumber
  transactionHash := self.transactionHash
  logIndex := self.logIndex
  timestamp := timestamp

def performerPoints (self : TaskSubmittedEvent) (taskId : ℕ) (timestamp : ℤ) : List LedgerRow :=
  self.performers.map fun addr => ⟨addr, taskId, .performer, self.taskSize, timestamp⟩

def attestorPoints (self : TaskSubmittedEvent) (taskId : ℕ) (timestamp : ℤ) : List LedgerRow :=
  self.attesterAddresses.map fun addr => ⟨addr, taskId, .attestor, 1 / 10 * self.taskSize, timestamp⟩

def transaction (self : TaskSubmittedEvent) (timestamp : ℤ) (db : IngestDb) : Outcome DieselError IngestDb := do
  let taskId := db.nextTaskId
  let tasks ← okOr (Table.insertAll TaskRow.log db.tasks [self.newTask taskId timestamp]) .uniqueViolation
  let taskPerformers ← insertRows id db.taskPerformers (self.performers.map fun addr => (taskId, addr))
  let taskAttestors ← insertRows id db.taskAttestors (self.attesterAddresses.map fun addr => (taskId, addr))
  let ledger := Table.insertNew LedgerRow.key db.operatorPointsLedger (self.performerPoints taskId timestamp)
  let ledger := Table.insertNew LedgerRow.key ledger (self.attestorPoints taskId timestamp)
  return { db with
    nextTaskId := taskId + 1
    tasks := tasks
    taskPerformers := taskPerformers
    taskAttestors := taskAttestors
    operatorPointsLedger := ledger
    lastProcessedBlock := some self.blockNumber }

end TaskSubmittedEvent

/-- How the database can fail a call: there is no connection, the transaction is rolled back (after it has drawn an id, or
before), or it is committed and the answer gets lost. -/
inductive DbFault where
  | noConnection
  | aborted (drawn : Bool)
  | answerLost
deriving DecidableEq

/-- A rollback does not give back the id. -/
def IngestDb.rollback (db : IngestDb) (drawn : Bool) : IngestDb :=
  { db with nextTaskId := if drawn then db.nextTaskId + 1 else db.nextTaskId }

def TaskSubmittedEvent.ingest (self : TaskSubmittedEvent) (timestamp : ℤ) (fault : Option DbFault) (db : IngestDb) :
    IngestDb × Outcome DieselError Unit :=
  match fault with
  | some .noConnection => (db, fail .notFound)
  | some (.aborted drawn) => (db.rollback drawn, fail .databaseError)
  | _ =>
    match self.transaction timestamp db with
    | .ok db' => (db', if fault = some .answerLost then fail .databaseError else .ok ())
    | .error e => (db.rollback true, .error e)

/-! ### What a call does to the tables -/

/-- The ids that the tables refer to have been drawn. -/
structure IngestDb.Drawn (db : IngestDb) : Prop where
  tasks : ∀ t ∈ db.tasks, t.id < db.nextTaskId
  performers : ∀ r ∈ db.taskPerformers, r.1 < db.nextTaskId
  attestors : ∀ r ∈ db.taskAttestors, r.1 < db.nextTaskId
  ledger : ∀ r ∈ db.operatorPointsLedger, r.taskId < db.nextTaskId

/-- The log is new, and no address comes twice in one of the lists. -/
structure TaskSubmittedEvent.Storable (event : TaskSubmittedEvent) (db : IngestDb) : Prop where
  log : event.log ∉ db.tasks.map TaskRow.log
  performers : event.performers.Nodup
  attesters : event.attesterAddresses.Nodup

def IngestDb.store (db : IngestDb) (event : TaskSubmittedEvent) (timestamp : ℤ) : IngestDb :=
  { db with
    nextTaskId := db.nextTaskId + 1
    tasks := db.tasks ++ [event.newTask db.nextTaskId timestamp]
    taskPerformers := db.taskPerformers ++ event.performers.map fun addr => (db.nextTaskId, addr)
    taskAttestors := db.taskAttestors ++ event.attesterAddresses.map fun addr => (db.nextTaskId, addr)
    operatorPointsLedger := db.operatorPointsLedger ++ event.performerPoints db.nextTaskId timestamp ++
      event.attestorPoints db.nextTaskId timestamp
    lastProcessedBlock := some event.blockNumber }

section Transaction
variable {event : TaskSubmittedEvent} {timestamp : ℤ} {db db' : IngestDb} {addrs : List Address} {table : List (ℕ × Address)}

theorem insertRows_eq_ok {ρ κ : Type} [DecidableEq κ] {key : ρ → κ} {table rows table' : List ρ} :
    insertRows key table rows = .ok table' ↔ Table.Fresh key table rows ∧ table' = table ++ rows := by
  unfold insertRows
  split
  next h =>
    obtain rfl := List.isEmpty_iff.1 h
    have hfresh : Table.Fresh key table [] := ⟨List.nodup_nil, fun r hr => by cases hr⟩
    simp [hfresh, eq_comm]
  next h => rw [okOr_eq_ok, Table.insertAll_eq_some]

theorem fresh_addresses_iff {n : ℕ} (h : ∀ r ∈ table, r.1 < n) :
    Table.Fresh id table (addrs.map fun addr => (n, addr)) ↔ addrs.Nodup := by
  have hinj : Function.Injective fun addr : Address => (n, addr) := Prod.mk_right_injective n
  constructor
  · rintro ⟨hnodup, -⟩
    rw [List.map_id] at hnodup
    exact hnodup.of_map _
  · intro hnodup
    refine Table.fresh_of_forall_ne (by rw [List.map_id]; exact hnodup.map hinj) ?_
    rintro ⟨m, addr⟩ hmem r hr rfl
    obtain ⟨addr', -, heq⟩ := List.mem_map.1 hr
    have hlt := h _ hmem
    obtain ⟨rfl, -⟩ := Prod.mk.inj heq
    exact Nat.lt_irrefl _ hlt

theorem fresh_points {n : ℕ} {role : OperatorRole} {points : ℚ} {ledger : List LedgerRow} (hnodup : addrs.Nodup)
    (h : ∀ r ∈ ledger, r.taskId = n → r.role ≠ role) :
    Table.Fresh LedgerRow.key ledger (addrs.map fun addr => ⟨addr, n, role, points, timestamp⟩) := by
  refine Table.fresh_of_forall_ne ?_ ?_
  · rw [List.map_map]
    refine hnodup.map fun addr addr' heq => ?_
    exact (Prod.mk.inj (Prod.mk.inj heq).2).1
  · intro r hr r' hr' heq
    obtain ⟨addr, -, rfl⟩ := List.mem_map.1 hr'
    obtain ⟨htask, hrest⟩ := Prod.mk.inj heq
    exact h r hr htask (Prod.mk.inj hrest).2

/-- The ledger has nothing of a task whose id is drawn now: the points never conflict. -/
theorem insertNew_points (hdb : db.Drawn) (hperformers : event.performers.Nodup) (hattesters : event.attesterAddresses.Nodup) :
    Table.insertNew LedgerRow.key
        (Table.insertNew LedgerRow.key db.operatorPointsLedger (event.performerPoints db.nextTaskId timestamp))
        (event.attestorPoints db.nextTaskId timestamp) =
      (db.store event timestamp).operatorPointsLedger := by
  have hnew : ∀ r ∈ db.operatorPointsLedger, r.taskId ≠ db.nextTaskId := fun r hr => (hdb.ledger r hr).ne
  have hfirst : Table.Fresh LedgerRow.key db.operatorPointsLedger (event.performerPoints db.nextTaskId timestamp) :=
    fresh_points hperformers fun r hr h => absurd h (hnew r hr)
  rw [Table.insertNew_of_fresh hfirst]
  refine Table.insertNew_of_fresh (fresh_points hattesters fun r hr h => ?_)
  rcases List.mem_append.1 hr with hr | hr
  · exact absurd h (hnew r hr)
  · obtain ⟨addr, -, rfl⟩ := List.mem_map.1 hr
    exact OperatorRole.noConfusion

theorem transaction_eq_ok (hdb : db.Drawn) :
    event.transaction timestamp db = .ok db' ↔ event.Storable db ∧ db' = db.store event timestamp := by
  have hlog : Table.Fresh TaskRow.log db.tasks [event.newTask db.nextTaskId timestamp] ↔
      event.log ∉ db.tasks.map TaskRow.log := by
    simp [Table.Fresh, TaskSubmittedEvent.newTask, TaskRow.log, TaskSubmittedEvent.log]
  simp only [TaskSubmittedEvent.transaction, bind_eq_ok, okOr_eq_ok, Table.insertAll_eq_some, insertRows_eq_ok, hlog,
    fresh_addresses_iff hdb.performers, fresh_addresses_iff hdb.attestors, pure_eq_ok, Except.ok.injEq]
  constructor
  · rintro ⟨tasks, ⟨hlog, rfl⟩, performers, ⟨hperformers, rfl⟩, attestors, ⟨hattesters, rfl⟩, rfl⟩
    rw [insertNew_points hdb hperformers hattesters]
    exact ⟨⟨hlog, hperformers, hattesters⟩, rfl⟩
  · rintro ⟨⟨hlog, hperformers, hattesters⟩, rfl⟩
    refine ⟨_, ⟨hlog, rfl⟩, _, ⟨hperformers, rfl⟩, _, ⟨hattesters, rfl⟩, ?_⟩
    rw [insertNew_points hdb hperformers hattesters]
    rfl

/-- A call stores the event or rolls back; without a fault it rolls back only what a key forbids. -/
theorem ingest_cases (hdb : db.Drawn) (fault : Option DbFault) :
    (event.Storable db ∧ (event.ingest timestamp fault db).1 = db.store event timestamp) ∨
      ((fault = none → ¬ event.Storable db) ∧ ∃ drawn, (event.ingest timestamp fault db).1 = db.rollback drawn) := by
  have htransaction (hfault : fault = none ∨ fault = some .answerLost) :
      (event.Storable db ∧ (event.ingest timestamp fault db).1 = db.store event timestamp) ∨
        (¬ event.Storable db ∧ (event.ingest timestamp fault db).1 = db.rollback true) := by
    cases h : event.transaction timestamp db with
    | ok db' =>
      obtain ⟨hstorable, rfl⟩ := (transaction_eq_ok hdb).1 h
      refine .inl ⟨hstorable, ?_⟩
      rcases hfault with rfl | rfl <;> simp only [TaskSubmittedEvent.ingest, h]
    | error e =>
      refine .inr ⟨fun hstorable => ?_, ?_⟩
      · rw [(transaction_eq_ok hdb).2 ⟨hstorable, rfl⟩] at h
        cases h
      · rcases hfault with rfl | rfl <;> simp only [TaskSubmittedEvent.ingest, h]
  rcases fault with _ | (_ | drawn | _)
  · exact (htransaction (.inl rfl)).imp_right fun h => ⟨fun _ => h.1, true, h.2⟩
  · exact .inr ⟨nofun, false, rfl⟩
  · exact .inr ⟨nofun, drawn, rfl⟩
  · exact (htransaction (.inr rfl)).imp_right fun h => ⟨nofun, true, h.2⟩

namespace IngestDb.Drawn

theorem empty : IngestDb.empty.Drawn := by constructor <;> intro r hr <;> cases hr

theorem rollback (hdb : db.Drawn) (drawn : Bool) : (db.rollback drawn).Drawn := by
  have hle : db.nextTaskId ≤ (db.rollback drawn).nextTaskId := by
    cases drawn
    · exact Nat.le_refl _
    · exact Nat.le_succ _
  exact ⟨fun t ht => (hdb.tasks t ht).trans_le hle, fun r hr => (hdb.performers r hr).trans_le hle,
    fun r hr => (hdb.attestors r hr).trans_le hle, fun r hr => (hdb.ledger r hr).trans_le hle⟩

theorem lt_of_mem_append {ρ : Type} {id : ρ → ℕ} {rows new : List ρ} {n : ℕ} (hrows : ∀ r ∈ rows, id r < n)
    (hnew : ∀ r ∈ new, id r = n) : ∀ r ∈ rows ++ new, id r < n + 1 := by
  intro r hr
  rcases List.mem_append.1 hr with hr | hr
  · exact (hrows r hr).trans (Nat.lt_succ_self n)
  · rw [hnew r hr]
    exact Nat.lt_succ_self n

theorem store (hdb : db.Drawn) : (db.store event timestamp).Drawn where
  tasks := lt_of_mem_append hdb.tasks (by simp [TaskSubmittedEvent.newTask])
  performers := lt_of_mem_append hdb.performers (by simp)
  attestors := lt_of_mem_append hdb.attestors (by simp)
  ledger := by
    rw [IngestDb.store, List.append_assoc]
    refine lt_of_mem_append hdb.ledger fun r hr => ?_
    rcases List.mem_append.1 hr with hr | hr
    · obtain ⟨addr, -, rfl⟩ := List.mem_map.1 hr
      rfl
    · obtain ⟨addr, -, rfl⟩ := List.mem_map.1 hr
      rfl

theorem ingest (hdb : db.Drawn) (fault : Option DbFault) : (event.ingest timestamp fault db).1.Drawn := by
  rcases ingest_cases hdb fault with ⟨-, h⟩ | ⟨-, drawn, h⟩
  · exact h ▸ hdb.store
  · exact h ▸ hdb.rollback drawn

end IngestDb.Drawn

end Transaction

/-! ### Runs of the ingester -/

structure IngestCall where
  event : TaskSubmittedEvent
  timestamp : ℤ
  fault : Option DbFault

namespace IngestDb
variable {db db' : IngestDb}

def ingest (db : IngestDb) (call : IngestCall) : IngestDb := (call.event.ingest call.timestamp call.fault db).1

abbrev Ingested : IngestDb → IngestDb → Prop :=
  Reach (fun db call db' => db' = db.ingest call) fun _ _ => True

/-- The tables are the same; the sequence of the task ids may have gone on. -/
def SameTables (db db' : IngestDb) : Prop := db' = { db with nextTaskId := db'.nextTaskId }

theorem sameTables_rollback (drawn : Bool) : SameTables db (db.rollback drawn) := rfl

theorem Ingested.drawn (h : Ingested db db') (hdb : db.Drawn) : db'.Drawn := by
  refine h.invariant hdb ?_
  rintro db call _ hdb - rfl
  exact hdb.ingest call.fault

theorem ingest_eq (hdb : db.Drawn) (call : IngestCall) :
    (call.event.log ∉ db.tasks.map TaskRow.log ∧ db.ingest call = db.store call.event call.timestamp) ∨
      SameTables db (db.ingest call) := by
  rcases ingest_cases hdb call.fault with ⟨hstorable, h⟩ | ⟨-, drawn, h⟩
  · exact .inl ⟨hstorable.log, h⟩
  · refine .inr ?_
    rw [ingest, h]
    exact sameTables_rollback drawn

theorem Ingested.mem_log (h : Ingested db db') (hdb : db.Drawn) {log : Bytes × ℕ} (hlog : log ∈ db.tasks.map TaskRow.log) :
    log ∈ db'.tasks.map TaskRow.log := by
  refine (h.invariant (I := fun db => db.Drawn ∧ log ∈ db.tasks.map TaskRow.log) ⟨hdb, hlog⟩ ?_).2
  rintro db call _ ⟨hdb, hlog⟩ - rfl
  refine ⟨hdb.ingest call.fault, ?_⟩
  rcases ingest_eq hdb call with ⟨-, h⟩ | h
  · rw [h, store, List.map_append]
    exact List.mem_append_left _ hlog
  · rw [h]
    exact hlog

/-- A call of `ingest` stores all of its event or leaves the tables as they are. Once a log is stored, every call with an
event of this log leaves them as they are. -/
theorem ingest_atomic_idempotent {db : IngestDb} (h : Ingested .empty db) :
    (∀ call, db.ingest call = db.store call.event call.timestamp ∨ SameTables db (db.ingest call)) ∧
      ∀ log ∈ db.tasks.map TaskRow.log, ∀ db', Ingested db db' → ∀ call, call.event.log = log →
        SameTables db' (db'.ingest call) := by
  have hdb := h.drawn .empty
  refine ⟨fun call => (ingest_eq hdb call).imp_left And.right, ?_⟩
  rintro log hlog db' hrun call rfl
  have hmem := hrun.mem_log hdb hlog
  exact (ingest_eq (hrun.drawn hdb) call).resolve_left fun hstored => hstored.1 hmem

def sampleCall : IngestCall where
  event := ⟨[1], 7, "proof", [], 20, [[2], [3]], 1, [5], [[4]], 100, [0xaa], 0⟩
  timestamp := 0
  fault := none

theorem ingest_atomic_idempotent_twice :
    IngestDb.empty.ingest sampleCall = IngestDb.empty.store sampleCall.event 0 ∧
      SameTables (IngestDb.empty.ingest sampleCall)
        ((IngestDb.empty.ingest sampleCall).ingest { sampleCall with timestamp := 9 }) := by
  have hstored : IngestDb.empty.ingest sampleCall = IngestDb.empty.store sampleCall.event 0 := rfl
  have hreach : Ingested .empty (IngestDb.empty.ingest sampleCall) := Reach.refl.tail trivial rfl
  refine ⟨hstored, (ingest_atomic_idempotent hreach).2 sampleCall.event.log ?_ _ .refl _ rfl⟩
  rw [hstored]
  exact List.mem_singleton.2 rfl

end IngestDb

end HumanNetwork
