import HumanNetwork.Accounting
import HumanNetwork.IngestDb
import HumanNetwork.SymbioticFilters
import Mathlib.Data.List.Lex
import Mathlib.Data.List.Sort
import Mathlib.Data.Prod.Lex

/-!
# The points of the operators (`handlers.rs`, `daily_points_updater.rs`)

The points can be read in three ways: from the tasks, joined with their performers and attestors, from the ledger, and
from the snapshots that the updater takes of the ledger. Points are exact here, not floating-point numbers.

`Balanced` is what every run keeps: the ledger is the two joins, put together in some order, and a snapshot belongs to a
day on which the ledger has points of its operator. The second part is why a snapshot that an earlier update wrote is never
later than the last one of the next update, which overwrites it.
-/

namespace HumanNetwork
open Outcome

/-! ### The updater -/

section Updater
/- `date_trunc('day', _)`: the day depends on the time zone of the session, which is the same for all updates. -/
variable (dateTrunc : ℤ → ℤ)

/-- `daily_points`. -/
def dailyPoints (db : IngestDb) : HMap (Address × ℤ) ℚ :=
  Table.groupSum (db.operatorPointsLedger.map fun row => ((row.operator, dateTrunc row.createdAt), row.points))

/-- `SUM(earned) OVER (PARTITION BY operator ORDER BY snapshot_time)`. -/
def cumulative (daily : HMap (Address × ℤ) ℚ) : HMap (Address × ℤ) ℚ :=
  daily.mapVal fun key _ => Table.sumOver (fun key' => key'.1 = key.1 ∧ key'.2 ≤ key.2) daily.entries

def IngestDb.snapshot (db : IngestDb) : IngestDb :=
  { db with
    operatorPointsDaily :=
      (cumulative (dailyPoints dateTrunc db)).entries.foldl (fun daily e => daily.insert e.1 e.2) db.operatorPointsDaily }

/-- The statement is a transaction of its own. -/
def updateOperatorPointsDaily (fault : Option DbFault) (db : IngestDb) : IngestDb × Outcome DbFault Unit :=
  match fault with
  | none => (db.snapshot dateTrunc, .ok ())
  | some .answerLost => (db.snapshot dateTrunc, fail .answerLost)
  | some fault => (db, fail fault)

end Updater

/-! ### The endpoints -/

structure OperatorPointsResponse where
  address : String
  points : ℚ

def formatAddress (bytes : Bytes) : String := "0x" ++ hexEncode bytes

def respond (rows : List (Address × ℚ)) : List OperatorPointsResponse :=
  (rows.map fun row => ⟨formatAddress row.1, row.2⟩).mergeSort fun a b => decide (b.points ≤ a.points)

/-- `links.inner_join(tasks)`, with the columns that are selected. -/
def joinTasks (links : List (ℕ × Address)) (tasks : List TaskRow) : List (Address × ℤ) :=
  links.flatMap fun link => (tasks.filter fun task => task.id = link.1).map fun task => (link.2, task.taskSize)

/-- `SUM(task_size)::BIGINT`, grouped by address. -/
def sumTaskSize (rows : List (Address × ℤ)) : Outcome ApiError (HMap Address ℤ) := do
  let sums := Table.groupSum rows
  ensure (∀ e ∈ sums.entries, -2 ^ 63 ≤ e.2 ∧ e.2 < 2 ^ 63) (.databaseQuery "bigint out of range")
  return sums

/-- `*operator_points.entry(addr).or_insert(0.0) += points(size)` for each row. -/
def addPoints (points : ℤ → ℚ) (operatorPoints : HMap Address ℚ) (rows : HMap Address ℤ) : HMap Address ℚ :=
  rows.entries.foldl (fun m e => m.insert e.1 ((m.get? e.1).getD 0 + points e.2)) operatorPoints

def getOperatorPoints (pool : Outcome String IngestDb) : Outcome ApiError (List OperatorPointsResponse) := do
  let db ← mapErr .databaseConnection pool
  let performerPoints ← sumTaskSize (joinTasks db.taskPerformers db.tasks)
  let attestorPoints ← sumTaskSize (joinTasks db.taskAttestors db.tasks)
  let operatorPoints := addPoints (fun size => size) ∅ performerPoints
  let operatorPoints := addPoints (fun size => 1 / 10 * size) operatorPoints attestorPoints
  return respond operatorPoints.entries

def ledgerPoints (db : IngestDb) : List (Address × ℚ) := db.operatorPointsLedger.map fun row => (row.operator, row.points)

def getOperatorPointsV2 (pool : Outcome String IngestDb) : Outcome ApiError (List OperatorPointsResponse) := do
  let db ← mapErr .databaseConnection pool
  return respond (Table.groupSum (ledgerPoints db)).entries

/-- `ORDER BY operator ASC, snapshot_time DESC`. -/
def orderKey (e : (Address × ℤ) × ℚ) : List ℕ ×ₗ ℤᵒᵈ := toLex (e.1.1.map UInt8.toNat, OrderDual.toDual e.1.2)

def latestSnapshots (daily : HMap (Address × ℤ) ℚ) : List (Address × ℚ) :=
  let snapshots := daily.entries.mergeSort fun a b => decide (orderKey a ≤ orderKey b)
  (Table.distinctOn (fun e => e.1.1) snapshots).map fun e => (e.1.1, e.2)

def getOperatorPointsV3 (pool : Outcome String IngestDb) : Outcome ApiError (List OperatorPointsResponse) := do
  let db ← mapErr .databaseConnection pool
  return respond (latestSnapshots db.operatorPointsDaily)

/-! ### What a response says of an operator -/

def pointsOf (response : List OperatorPointsResponse) (operator : Address) : Option ℚ :=
  (response.map fun r => (r.address, r.points)).lookup (formatAddress operator)

theorem formatAddress_injective : Function.Injective formatAddress := by
  intro bytes bytes' h
  exact hexEncode_injective (String.append_right_inj _ |>.1 h)

theorem pointsOf_respond {rows : List (Address × ℚ)} (hrows : (rows.map Prod.fst).Nodup) (operator : Address) :
    pointsOf (respond rows) operator = (⟨rows, hrows⟩ : HMap Address ℚ).get? operator := by
  have hperm : ((respond rows).map fun r => (r.address, r.points)).Perm
      (rows.map fun row => (formatAddress row.1, row.2)) := by
    have := (List.mergeSort_perm (rows.map fun row => (⟨formatAddress row.1, row.2⟩ : OperatorPointsResponse))
      fun a b => decide (b.points ≤ a.points)).map fun r => (r.address, r.points)
    rwa [List.map_map] at this
  have hnodup : ((rows.map fun row => (formatAddress row.1, row.2)).map Prod.fst).Nodup := by
    have := hrows.map formatAddress_injective
    rwa [List.map_map] at this ⊢
  rw [pointsOf, ← HMap.lookup_eq_of_perm hperm.symm hnodup, HMap.lookup_map_of_injective formatAddress_injective]
  rfl

/-! ### The tables over a run -/

inductive PointsEvent where
  | ingest (event : TaskSubmittedEvent) (timestamp : ℤ) (fault : Option DbFault)
  | update (fault : Option DbFault)

def IngestDb.apply (dateTrunc : ℤ → ℤ) (db : IngestDb) : PointsEvent → IngestDb
  | .ingest event timestamp fault => (event.ingest timestamp fault db).1
  | .update fault => (updateOperatorPointsDaily dateTrunc fault db).1

def joinedPoints (db : IngestDb) : List (Address × ℚ) :=
  ((joinTasks db.taskPerformers db.tasks).map fun r => (r.1, (r.2 : ℚ))) ++
    (joinTasks db.taskAttestors db.tasks).map fun r => (r.1, 1 / 10 * (r.2 : ℚ))

structure Balanced (dateTrunc : ℤ → ℤ) (db : IngestDb) : Prop where
  drawn : db.Drawn
  sizes : ∀ task ∈ db.tasks, 0 ≤ task.taskSize
  ledger : (ledgerPoints db).Perm (joinedPoints db)
  daily : ∀ key ∈ db.operatorPointsDaily.keys, ∃ row ∈ db.operatorPointsLedger, (row.operator, dateTrunc row.createdAt) = key

section Run
variable {dateTrunc : ℤ → ℤ} {db : IngestDb} {event : TaskSubmittedEvent} {timestamp : ℤ}

theorem joinTasks_append {links : List (ℕ × Address)} {tasks : List TaskRow} {n : ℕ} (task : TaskRow) (addrs : List Address)
    (hlinks : ∀ r ∈ links, r.1 < n) (htasks : ∀ t ∈ tasks, t.id < n) (hid : task.id = n) :
    joinTasks (links ++ addrs.map fun addr => (n, addr)) (tasks ++ [task]) =
      joinTasks links tasks ++ addrs.map fun addr => (addr, task.taskSize) := by
  subst hid
  unfold joinTasks
  rw [List.flatMap_append]
  congr 1
  · refine List.flatMap_congr fun link hlink => ?_
    simp [(hlinks link hlink).ne']
  · rw [List.flatMap_map, List.map_eq_flatMap]
    refine List.flatMap_congr fun addr _ => ?_
    have hnone : tasks.filter (fun t => t.id = task.id) = [] :=
      List.filter_eq_nil_iff.2 fun t ht => by simpa using (htasks t ht).ne
    simp [hnone]

theorem newTask_taskSize {n : ℕ} (hsize : event.taskSize < 2 ^ 63) : (event.newTask n timestamp).taskSize = event.taskSize := by
  rw [TaskSubmittedEvent.newTask, asI64_of_lt hsize]

theorem Balanced.store (h : Balanced dateTrunc db) (hsize : event.taskSize < 2 ^ 63) :
    Balanced dateTrunc (db.store event timestamp) where
  drawn := h.drawn.store
  sizes task htask := by
    rcases List.mem_append.1 htask with htask | htask
    · exact h.sizes task htask
    · rw [List.mem_singleton.1 htask, newTask_taskSize hsize]
      exact Int.natCast_nonneg _
  ledger := by
    -- the ledger gets the points of both roles at its end, the joins get them at the end of each
    have hrows : ledgerPoints (db.store event timestamp) = ledgerPoints db ++
        ((event.performers.map fun addr => (addr, (event.taskSize : ℚ))) ++
          event.attesterAddresses.map fun addr => (addr, 1 / 10 * (event.taskSize : ℚ))) := by
      simp [ledgerPoints, IngestDb.store, TaskSubmittedEvent.performerPoints, TaskSubmittedEvent.attestorPoints,
        Function.comp_def]
    have hjoined : joinedPoints (db.store event timestamp) =
        ((joinTasks db.taskPerformers db.tasks).map fun r => (r.1, (r.2 : ℚ))) ++
            (event.performers.map fun addr => (addr, (event.taskSize : ℚ))) ++
          (((joinTasks db.taskAttestors db.tasks).map fun r => (r.1, 1 / 10 * (r.2 : ℚ))) ++
            event.attesterAddresses.map fun addr => (addr, 1 / 10 * (event.taskSize : ℚ))) := by
      unfold joinedPoints IngestDb.store
      rw [joinTasks_append _ _ h.drawn.performers h.drawn.tasks rfl, joinTasks_append _ _ h.drawn.attestors h.drawn.tasks rfl,
        newTask_taskSize hsize]
      simp [Function.comp_def]
    rw [hrows, hjoined]
    refine (h.ledger.append_right _).trans ?_
    rw [joinedPoints, List.append_assoc, List.append_assoc]
    exact (List.perm_append_comm_assoc _ _ _).append_left _
  daily key hkey := by
    obtain ⟨row, hrow, heq⟩ := h.daily key hkey
    exact ⟨row, List.mem_append_left _ (List.mem_append_left _ hrow), heq⟩

/-! ### Snapshots -/

theorem mem_keys_dailyPoints {key : Address × ℤ} :
    key ∈ (dailyPoints dateTrunc db).keys ↔ ∃ row ∈ db.operatorPointsLedger, (row.operator, dateTrunc row.createdAt) = key := by
  rw [dailyPoints, Table.mem_keys_groupSum, List.map_map, List.mem_map]
  rfl

theorem get?_snapshot (key : Address × ℤ) :
    (db.snapshot dateTrunc).operatorPointsDaily.get? key =
      ((cumulative (dailyPoints dateTrunc db)).get? key).elim (db.operatorPointsDaily.get? key) some :=
  HMap.get?_foldl_update (fun _ points => points) _ _ key

theorem get?_snapshot_of_mem {row : LedgerRow} (hrow : row ∈ db.operatorPointsLedger) :
    (db.snapshot dateTrunc).operatorPointsDaily.get? (row.operator, dateTrunc row.createdAt) =
      some (((db.operatorPointsLedger.filter fun row' => row'.operator = row.operator ∧
        dateTrunc row'.createdAt ≤ dateTrunc row.createdAt).map LedgerRow.points).sum) := by
  obtain ⟨points, hpoints⟩ := HMap.exists_get? (mem_keys_dailyPoints.2 ⟨row, hrow, rfl⟩)
  rw [get?_snapshot, cumulative, HMap.get?_mapVal, hpoints]
  show some (Table.sumOver _ (Table.groupSum _).entries) = _
  rw [Table.sumOver_groupSum, Table.sumOver, List.filter_map, List.map_map]
  rfl

theorem mem_keys_snapshot_iff (h : Balanced dateTrunc db) {key : Address × ℤ} :
    key ∈ (db.snapshot dateTrunc).operatorPointsDaily.keys ↔
      ∃ row ∈ db.operatorPointsLedger, (row.operator, dateTrunc row.createdAt) = key := by
  constructor
  · intro hkey
    obtain ⟨points, hpoints⟩ := HMap.exists_get? hkey
    rw [get?_snapshot] at hpoints
    cases hnew : (cumulative (dailyPoints dateTrunc db)).get? key with
    | some points' =>
      refine mem_keys_dailyPoints.1 ?_
      rw [← HMap.keys_mapVal, ← HMap.get?_isSome]
      exact Option.isSome_iff_exists.2 ⟨points', hnew⟩
    | none =>
      rw [hnew] at hpoints
      exact h.daily key (HMap.get?_isSome.1 (Option.isSome_iff_exists.2 ⟨points, hpoints⟩))
  · rintro ⟨row, hrow, rfl⟩
    exact HMap.get?_isSome.1 (by rw [get?_snapshot_of_mem hrow]; rfl)

theorem Balanced.snapshot (h : Balanced dateTrunc db) : Balanced dateTrunc (db.snapshot dateTrunc) :=
  ⟨⟨h.drawn.tasks, h.drawn.performers, h.drawn.attestors, h.drawn.ledger⟩, h.sizes, h.ledger,
    fun _ hkey => (mem_keys_snapshot_iff h).1 hkey⟩

theorem Balanced.rollback (h : Balanced dateTrunc db) (drawn : Bool) : Balanced dateTrunc (db.rollback drawn) :=
  ⟨h.drawn.rollback drawn, h.sizes, h.ledger, h.daily⟩

theorem Balanced.empty : Balanced dateTrunc .empty :=
  ⟨.empty, nofun, .nil, nofun⟩

theorem Balanced.apply (h : Balanced dateTrunc db) {e : PointsEvent}
    (hsize : ∀ event timestamp fault, e = .ingest event timestamp fault → event.taskSize < 2 ^ 63) :
    Balanced dateTrunc (db.apply dateTrunc e) := by
  cases e with
  | ingest event timestamp fault =>
    show Balanced dateTrunc (event.ingest timestamp fault db).1
    rcases ingest_cases h.drawn fault with ⟨-, heq⟩ | ⟨-, drawn, heq⟩
    · exact heq ▸ h.store (hsize event timestamp fault rfl)
    · exact heq ▸ h.rollback drawn
  | update fault =>
    rcases fault with _ | (_ | _ | _)
    exacts [h.snapshot, h, h, h.snapshot]

theorem Balanced.run {es : List PointsEvent} (h : Balanced dateTrunc db)
    (hsize : ∀ event timestamp fault, .ingest event timestamp fault ∈ es → event.taskSize < 2 ^ 63) :
    Balanced dateTrunc (es.foldl (IngestDb.apply dateTrunc) db) := by
  induction es generalizing db with
  | nil => exact h
  | cons e es ih =>
    refine ih (h.apply fun event timestamp fault heq => ?_) fun event timestamp fault hmem => ?_
    · exact hsize event timestamp fault (heq ▸ List.mem_cons_self)
    · exact hsize event timestamp fault (List.mem_cons_of_mem _ hmem)

/-! ### The totals of the endpoints -/

variable {operator : Address}

theorem get?_addPoints_addPoints (f g : ℤ →+ ℚ) (rows rows' : List (Address × ℤ)) :
    (addPoints g (addPoints f ∅ (Table.groupSum rows)) (Table.groupSum rows')).get? operator =
      (Table.groupSum ((rows.map fun r => (r.1, f r.2)) ++ rows'.map fun r => (r.1, g r.2))).get? operator := by
  have hupdate (points : ℤ → ℚ) (m : HMap Address ℚ) (rows : HMap Address ℤ) :=
    HMap.get?_foldl_update (fun total size => total.getD 0 + points size) rows m operator
  have hsum : Table.sumOf operator ((rows.map fun r => (r.1, f r.2)) ++ rows'.map fun r => (r.1, g r.2)) =
      f (Table.sumOf operator rows) + g (Table.sumOf operator rows') := by
    rw [Table.sumOf, Table.sumOver_append, Table.sumOver_map, Table.sumOver_map]
    rfl
  have hmem : operator ∈ ((rows.map fun r => (r.1, f r.2)) ++ rows'.map fun r => (r.1, g r.2)).map Prod.fst ↔
      operator ∈ rows.map Prod.fst ∨ operator ∈ rows'.map Prod.fst := by
    rw [List.map_append, List.mem_append, List.map_map, List.map_map]
    rfl
  simp only [addPoints, hupdate, Table.get?_groupSum, hsum, hmem, HMap.get?_empty]
  by_cases h : operator ∈ rows.map Prod.fst
  · by_cases h' : operator ∈ rows'.map Prod.fst
    · simp [h, h']
    · simp [h, h', Table.sumOf_eq_zero h']
  · by_cases h' : operator ∈ rows'.map Prod.fst
    · simp [h, h', Table.sumOf_eq_zero h]
    · simp [h, h']

theorem nonneg_of_mem_joinTasks {links : List (ℕ × Address)} {tasks : List TaskRow} (h : ∀ task ∈ tasks, 0 ≤ task.taskSize)
    {r : Address × ℤ} (hr : r ∈ joinTasks links tasks) : 0 ≤ r.2 := by
  obtain ⟨link, -, hr⟩ := List.mem_flatMap.1 hr
  obtain ⟨task, htask, rfl⟩ := List.mem_map.1 hr
  exact h task (List.mem_of_mem_filter htask)

theorem sumTaskSize_eq_ok {rows : List (Address × ℤ)} (hnonneg : ∀ r ∈ rows, 0 ≤ r.2)
    (hlt : ∀ operator, Table.sumOf operator rows < 2 ^ 63) : sumTaskSize rows = .ok (Table.groupSum rows) := by
  have hfits : ∀ e ∈ (Table.groupSum rows).entries, -2 ^ 63 ≤ e.2 ∧ e.2 < 2 ^ 63 := by
    rintro ⟨operator, size⟩ he
    have hget := HMap.get?_eq_some.2 he
    rw [Table.get?_groupSum] at hget
    split at hget
    · obtain rfl := Option.some.inj hget
      have hsum : 0 ≤ Table.sumOf operator rows := by
        refine List.sum_nonneg fun size hsize => ?_
        obtain ⟨r, hr, rfl⟩ := List.mem_map.1 hsize
        exact hnonneg r (List.mem_of_mem_filter hr)
      exact ⟨le_trans (by norm_num) hsum, hlt operator⟩
    · cases hget
  rw [sumTaskSize, ensure, if_pos hfits]
  rfl

theorem sorted_snapshots (daily : HMap (Address × ℤ) ℚ) :
    (daily.entries.mergeSort fun a b => decide (orderKey a ≤ orderKey b)).Pairwise fun a b => orderKey a ≤ orderKey b := by
  refine (List.pairwise_mergeSort ?_ ?_ _).imp of_decide_eq_true
  · intro a b c hab hbc
    exact decide_eq_true ((of_decide_eq_true hab).trans (of_decide_eq_true hbc))
  · intro a b
    simpa using le_total (orderKey a) (orderKey b)

theorem nodup_latestSnapshots (daily : HMap (Address × ℤ) ℚ) : ((latestSnapshots daily).map Prod.fst).Nodup := by
  rw [latestSnapshots, List.map_map]
  exact Table.nodup_distinctOn

theorem exists_of_mem_latestSnapshots {daily : HMap (Address × ℤ) ℚ} {points : ℚ}
    (h : (operator, points) ∈ latestSnapshots daily) :
    ∃ day, daily.get? (operator, day) = some points ∧ ∀ day', (operator, day') ∈ daily.keys → day' ≤ day := by
  obtain ⟨⟨⟨addr, day⟩, points'⟩, he, heq⟩ := List.mem_map.1 h
  obtain ⟨rfl, rfl⟩ := Prod.mk.inj heq
  have hperm := List.mergeSort_perm daily.entries fun a b => decide (orderKey a ≤ orderKey b)
  refine ⟨day, HMap.get?_eq_some.2 (hperm.mem_iff.1 (Table.mem_of_mem_distinctOn he)), fun day' hday' => ?_⟩
  obtain ⟨⟨key, points'⟩, he', rfl⟩ := List.mem_map.1 hday'
  rcases Table.rel_of_mem_distinctOn (sorted_snapshots daily) he (hperm.mem_iff.2 he') rfl with heq | hle
  · rw [(Prod.mk.inj (Prod.mk.inj heq).1).2]
  · rcases Prod.Lex.le_iff.1 hle with hlt | ⟨-, hle⟩
    · exact absurd hlt (lt_irrefl _)
    · exact OrderDual.toDual_le_toDual.1 hle

theorem exists_mem_latestSnapshots {daily : HMap (Address × ℤ) ℚ} {day : ℤ} (h : (operator, day) ∈ daily.keys) :
    ∃ points, (operator, points) ∈ latestSnapshots daily := by
  obtain ⟨e, he, heq⟩ := List.mem_map.1 h
  have hmem := (List.mergeSort_perm daily.entries fun a b => decide (orderKey a ≤ orderKey b)).mem_iff.2 he
  obtain ⟨e', he', hkey⟩ : ∃ e' ∈ Table.distinctOn (fun e : (Address × ℤ) × ℚ => e.1.1) _, e'.1.1 = e.1.1 :=
    Table.exists_mem_distinctOn hmem
  refine ⟨e'.2, List.mem_map.2 ⟨e', he', ?_⟩⟩
  rw [hkey, heq]

theorem get?_latestSnapshots (h : Balanced dateTrunc db) :
    (⟨_, nodup_latestSnapshots (db.snapshot dateTrunc).operatorPointsDaily⟩ : HMap Address ℚ).get? operator =
      (Table.groupSum (ledgerPoints db)).get? operator := by
  have hmem : operator ∈ (ledgerPoints db).map Prod.fst ↔ ∃ row ∈ db.operatorPointsLedger, row.operator = operator := by
    rw [ledgerPoints, List.map_map, List.mem_map]
    rfl
  rw [Table.get?_groupSum]
  split
  next hoperator =>
    obtain ⟨row, hrow, rfl⟩ := hmem.1 hoperator
    obtain ⟨points, hpoints⟩ := exists_mem_latestSnapshots ((mem_keys_snapshot_iff h).2 ⟨row, hrow, rfl⟩)
    obtain ⟨day, hday, hlast⟩ := exists_of_mem_latestSnapshots hpoints
    obtain ⟨row', hrow', heq⟩ := (mem_keys_snapshot_iff h).1 (HMap.mem_keys_of_mem (HMap.get?_eq_some.1 hday))
    obtain ⟨hoperator', rfl⟩ := Prod.mk.inj heq
    rw [← hoperator', get?_snapshot_of_mem hrow'] at hday
    obtain rfl := Option.some.inj hday
    refine (HMap.get?_eq_some.2 hpoints).trans (congrArg some ?_)
    have hall : (db.operatorPointsLedger.filter fun r => r.operator = row'.operator ∧
          dateTrunc r.createdAt ≤ dateTrunc row'.createdAt) =
        db.operatorPointsLedger.filter fun r => r.operator = row.operator := by
      refine List.filter_congr fun r hr => decide_eq_decide.2 ⟨fun hearlier => hearlier.1.trans hoperator', fun hr' => ?_⟩
      -- the day is the last one, so that no row of the operator is left out
      exact ⟨hr'.trans hoperator'.symm, hlast _ ((mem_keys_snapshot_iff h).2 ⟨r, hr, by rw [hr']⟩)⟩
    rw [hall, Table.sumOf, Table.sumOver, ledgerPoints, List.filter_map, List.map_map]
    rfl
  next hoperator =>
    refine HMap.get?_eq_none.2 fun hkey => hoperator (hmem.2 ?_)
    obtain ⟨⟨_, points⟩, hpoints, rfl⟩ := List.mem_map.1 hkey
    obtain ⟨day, hday, -⟩ := exists_of_mem_latestSnapshots hpoints
    obtain ⟨row, hrow, heq⟩ := (mem_keys_snapshot_iff h).1 (HMap.mem_keys_of_mem (HMap.get?_eq_some.1 hday))
    exact ⟨row, hrow, (Prod.mk.inj heq).1⟩

structure SumsFit (db : IngestDb) : Prop where
  performers : ∀ operator, Table.sumOf operator (joinTasks db.taskPerformers db.tasks) < 2 ^ 63
  attestors : ∀ operator, Table.sumOf operator (joinTasks db.taskAttestors db.tasks) < 2 ^ 63

theorem getOperatorPoints_eq_ok (h : Balanced dateTrunc db) (hsums : SumsFit db) :
    ∃ response, getOperatorPoints (.ok db) = .ok response ∧
      ∀ operator, pointsOf response operator = (Table.groupSum (ledgerPoints db)).get? operator := by
  have hperformers := sumTaskSize_eq_ok (fun _ hr => nonneg_of_mem_joinTasks h.sizes hr) hsums.performers
  have hattestors := sumTaskSize_eq_ok (fun _ hr => nonneg_of_mem_joinTasks h.sizes hr) hsums.attestors
  refine ⟨_, by rw [getOperatorPoints, mapErr, bind_ok, hperformers, bind_ok, hattestors, bind_ok]; rfl, fun operator => ?_⟩
  rw [pointsOf_respond (HMap.nodup _), Table.get?_groupSum_perm h.ledger]
  exact get?_addPoints_addPoints (Int.castAddHom ℚ) ((AddMonoidHom.mulLeft (1 / 10)).comp (Int.castAddHom ℚ)) _ _

end Run

/-- After any ingested events, repeated and failing ones among them, and any updates, the first two endpoints give every
operator the same points, and so does the third one right after an update. -/
theorem points_endpoints_agree (dateTrunc : ℤ → ℤ) (es : List PointsEvent)
    (hsize : ∀ event timestamp fault, .ingest event timestamp fault ∈ es → event.taskSize < 2 ^ 63)
    (hsums : SumsFit (es.foldl (IngestDb.apply dateTrunc) .empty)) :
    let db := es.foldl (IngestDb.apply dateTrunc) .empty
    let updated := (updateOperatorPointsDaily dateTrunc none db).1
    ∃ r₁ r₂ r₃, getOperatorPoints (.ok db) = .ok r₁ ∧ getOperatorPointsV2 (.ok db) = .ok r₂ ∧
      getOperatorPoints (.ok updated) = .ok r₁ ∧ getOperatorPointsV3 (.ok updated) = .ok r₃ ∧
      ∀ operator, pointsOf r₁ operator = pointsOf r₂ operator ∧ pointsOf r₁ operator = pointsOf r₃ operator := by
  intro db updated
  have h : Balanced dateTrunc db := Balanced.empty.run hsize
  obtain ⟨r₁, hr₁, hpoints⟩ := getOperatorPoints_eq_ok h hsums
  refine ⟨r₁, _, _, hr₁, rfl, hr₁, rfl, fun operator => ⟨?_, ?_⟩⟩
  · rw [hpoints, pointsOf_respond (HMap.nodup _)]
  · rw [hpoints, ← get?_latestSnapshots h, ← pointsOf_respond]
    rfl

def sampleTask (logIndex : ℕ) : TaskSubmittedEvent where
  operator := [1]
  taskNumber := 7
  proofOfTask := "proof"
  data := []
  taskSize := 30
  performers := [[1]]
  taskDefinitionId := 0
  attestersIds := [1, 2]
  attesterAddresses := [[1], [2]]
  blockNumber := 90
  transactionHash := [9]
  logIndex := logIndex

/-- Two tasks on two days with an update in between; the first one is ingested again, and the answer for the second is lost. -/
def sampleHistory : List PointsEvent :=
  [.ingest (sampleTask 0) 10 none, .update none, .ingest (sampleTask 0) 20 none, .ingest (sampleTask 1) 30 (some .answerLost)]

def sampleDb : IngestDb := sampleHistory.foldl (IngestDb.apply (· / 24)) .empty

theorem points_endpoints_agree_history :
    joinTasks sampleDb.taskPerformers sampleDb.tasks = [([1], 30), ([1], 30)] ∧
      ∃ r₁ r₂ r₃, getOperatorPoints (.ok sampleDb) = .ok r₁ ∧ getOperatorPointsV2 (.ok sampleDb) = .ok r₂ ∧
        getOperatorPointsV3 (.ok (sampleDb.snapshot (· / 24))) = .ok r₃ ∧
        ∀ operator, pointsOf r₁ operator = pointsOf r₂ operator ∧ pointsOf r₁ operator = pointsOf r₃ operator := by
  have hperformed : joinTasks sampleDb.taskPerformers sampleDb.tasks = [([1], 30), ([1], 30)] := by decide
  have hattested : joinTasks sampleDb.taskAttestors sampleDb.tasks = [([1], 30), ([2], 30), ([1], 30), ([2], 30)] := by decide
  have hsums : SumsFit sampleDb := by
    constructor <;> intro operator
    · rw [hperformed, Table.sumOf]
      simp only [Table.sumOver_cons, Table.sumOver_nil]
      split <;> norm_num
    · rw [hattested, Table.sumOf]
      simp only [Table.sumOver_cons, Table.sumOver_nil]
      split <;> split <;> norm_num
  have hsize : ∀ event timestamp fault, .ingest event timestamp fault ∈ sampleHistory → event.taskSize < 2 ^ 63 := by
    intro event timestamp fault hmem
    have heq : event.taskSize = 30 := by
      simp only [sampleHistory, List.mem_cons, PointsEvent.ingest.injEq, reduceCtorEq, List.not_mem_nil, or_false,
        false_or] at hmem
      rcases hmem with ⟨rfl, -⟩ | ⟨rfl, -⟩ | ⟨rfl, -⟩ <;> rfl
    rw [heq]
    norm_num
  obtain ⟨r₁, r₂, r₃, hr₁, hr₂, -, hr₃, hagree⟩ := points_endpoints_agree (· / 24) sampleHistory hsize hsums
  exact ⟨hperformed, r₁, r₂, r₃, hr₁, hr₂, hr₃, hagree⟩

end HumanNetwork
