import HumanNetwork.SymbioticFilters
import Mathlib.Algebra.BigOperators.Ring.Finset
import Mathlib.Algebra.Order.BigOperators.Group.List
import Mathlib.Data.NNRat.Floor

/-!
# The points that the Symbiotic API reports (`symbiotic_stats`, `symbiotic_points`)

Both handlers scale points by `10 ^ 18`, take the floor and cast to `i64`, and the cast of a number that is too large gives
the largest `i64`. Points are non-negative rationals here. A table is given with the order of its texts and the order in
which it returns rows; `filtersOf` are the filters whose text is in the queries (`statsQuery_eq`, `pointsQuery_eq`).

The sum of the floors is at most the floor of the sum, and the total counts rows that no record shows. So the values are
exact, and the total is no less than their sum, exactly if the sum is below `2 ^ 63` (`symbiotic_exact_iff`).
-/

namespace HumanNetwork
open Outcome NNRat

namespace Symbiotic

/-! ### The filters of a request -/

def DateText.ofText (text : String) (h : ∃ d : DateText, d.text = text) : DateText where
  text := text
  length_eq := by
    obtain ⟨d, rfl⟩ := h
    exact d.length_eq
  dash := by
    obtain ⟨d, rfl⟩ := h
    exact d.dash
  digit := by
    obtain ⟨d, rfl⟩ := h
    exact d.digit

def dateOf (ts : String) : Outcome ApiError DateText :=
  match h : parseDateFilter ts with
  | .ok date => .ok (.ofText date (parseDateFilter_eq_ok h).2)
  | .error e => .error e

def receiverTypeOf (receiverType : String) : Outcome ApiError ReceiverType :=
  if receiverType = "operator" then .ok .operator
  else if receiverType = "staker" then .ok .staker
  else fail (.internal "receiver_type must be 'operator' or 'staker'")

/-- The checks of `append_symbiotic_filters`, in its order. -/
def filtersOf (timestamp receiverType : Option String) : Outcome ApiError Filters := do
  let date ← timestamp.mapM dateOf
  let receiverType ← receiverType.mapM receiverTypeOf
  return ⟨date, receiverType⟩

theorem map_text_dateOf (ts : String) : (dateOf ts).map DateText.text = parseDateFilter ts := by
  unfold dateOf
  split
  next date h => exact h.symm
  next e h => exact h.symm

theorem appendDate_eq (query : String) (timestamp : Option String) :
    appendDate query timestamp = timestamp.mapM dateOf >>= fun date => pure (query ++ date.elim "" DateText.sql) := by
  cases timestamp with
  | none => exact congrArg Except.ok String.append_empty.symm
  | some ts =>
    show (parseDateFilter ts >>= fun datePart => pure (query ++ s!" AND date <= '{datePart}'")) =
      (dateOf ts >>= fun d => pure (some d)) >>= _
    rw [← map_text_dateOf]
    cases dateOf ts with
    | error e => rfl
    | ok d => rfl

theorem appendReceiverType_eq (query : String) (receiverType : Option String) :
    appendReceiverType query receiverType =
      receiverType.mapM receiverTypeOf >>= fun r => pure (query ++ r.elim "" ReceiverType.sql) := by
  cases receiverType with
  | none => exact congrArg Except.ok String.append_empty.symm
  | some rt =>
    show (validateReceiverType rt >>= fun _ => pure (query ++ s!" AND address_type = '{rt}'")) =
      (receiverTypeOf rt >>= fun r => pure (some r)) >>= _
    by_cases hoperator : rt = "operator"
    · subst hoperator; rfl
    by_cases hstaker : rt = "staker"
    · subst hstaker; rfl
    rw [validateReceiverType, if_neg (not_or.2 ⟨hoperator, hstaker⟩), receiverTypeOf, if_neg hoperator, if_neg hstaker]
    rfl

theorem appendSymbioticFilters_eq (query : String) (timestamp receiverType : Option String) :
    appendSymbioticFilters query timestamp receiverType =
      filtersOf timestamp receiverType >>= fun f => pure (query ++ f.sql) := by
  simp only [appendSymbioticFilters, filtersOf, appendDate_eq, appendReceiverType_eq, bind_assoc, pure_bind, Filters.sql,
    String.append_assoc]

/-! ### The table -/

/-- A row of `symbiotic_points_daily`. Every column may be `NULL`. -/
structure PointRow where
  date : Option String
  address : Option String
  addressType : Option String
  vault : Option String
  points : Option ℚ≥0

/-- The table, with the collation that compares texts and with `ORDER BY date DESC, address ASC, vault ASC`, which leaves
the order of equal rows open. -/
structure PointsDb where
  rows : List PointRow
  le : String → String → Bool
  orderBy : List PointRow → List PointRow
  perm : ∀ rows, (orderBy rows).Perm rows

namespace PointsDb
variable (db : PointsDb) (f : Filters)

/-- The `WHERE` clause. A comparison with `NULL` is not true. -/
def admits (row : PointRow) : Bool :=
  (row.addressType == some "operator" || row.addressType == some "staker") &&
    f.date.all (fun d => row.date.any fun date => db.le date d.text) &&
    f.receiverType.all fun r => row.addressType == some r.text

def selected : List PointRow := db.rows.filter (db.admits f)

end PointsDb

structure StatsRow where
  totalPoints : ℚ≥0
  stakers : ℕ
  operators : ℕ

/-- `COUNT(DISTINCT CASE WHEN address_type = … THEN address END)`. -/
def countDistinct (addressType : String) (rows : List PointRow) : ℕ :=
  ((rows.filter fun row => row.addressType == some addressType).filterMap PointRow.address).dedup.length

namespace PointsDb
variable (db : PointsDb) (f : Filters)

/-- The answer to the query of `symbiotic_stats`. `SUM` leaves out `NULL`. -/
def stats : StatsRow where
  totalPoints := ((db.selected f).filterMap PointRow.points).sum
  stakers := countDistinct "staker" (db.selected f)
  operators := countDistinct "operator" (db.selected f)

def load (offset limit : ℤ) : List PointRow := ((db.orderBy (db.selected f)).drop offset.toNat).take limit.toNat

end PointsDb

/-! ### The handlers -/

/-- `(points * 1e18).floor()`. -/
def scaled (points : ℚ≥0) : ℕ := ⌊points * (10 ^ 18 : ℕ)⌋₊

/-- `(points * 1e18).floor() as i64`: the cast of a float saturates. -/
def reported (points : ℚ≥0) : ℤ := min (scaled points) (2 ^ 63 - 1)

structure SymbioticPointRecord where
  receiverAddress : String
  receiverType : String
  timestamp : String
  networkAddress : String
  vaultAddress : String
  points : ℤ
deriving DecidableEq

structure SymbioticStatsResponse where
  totalPoints : ℤ
  stakers : ℤ
  networks : ℤ
  operators : ℤ

def humanNetworkAddress : String := "0x42F15F9E4dF4994317453477e80e24797CC1A929"

/-- The record of a row with the points as `value` gives them. A row with a `NULL` has none, but for points. -/
def PointRow.recordWith (value : ℚ≥0 → ℤ) (row : PointRow) : Option SymbioticPointRecord := do
  let address ← row.address
  let addressType ← row.addressType
  let date ← row.date
  let vault ← row.vault
  return ⟨address, addressType, s!"{date}T00:00:00Z", humanNetworkAddress, vault, value (row.points.getD 0)⟩

/-- Nothing that a record shows is `NULL`. -/
def PointRow.complete (row : PointRow) : Bool :=
  row.address.isSome && row.addressType.isSome && row.date.isSome && row.vault.isSome

def orFail {α : Type} (r : Except String α) (e : String → ApiError) : Outcome ApiError α :=
  match r with
  | .ok a => .ok a
  | .error message => fail (e message)

/-- The pool gives a connection or not, and the query on it has the table or fails. -/
abbrev Pool := Except String (Except String PointsDb)

def symbioticStats (pool : Pool) (timestamp receiverType : Option String) : Outcome ApiError SymbioticStatsResponse := do
  let conn ← orFail pool .databaseConnection
  let f ← filtersOf timestamp receiverType
  let db ← orFail conn .databaseQuery
  let row := db.stats f
  return ⟨reported row.totalPoints, row.stakers, 0, row.operators⟩

def symbioticPoints (pool : Pool) (timestamp : Option String) (offset limit : ℤ) (receiverType : Option String) :
    Outcome ApiError (List SymbioticPointRecord) := do
  let conn ← orFail pool .databaseConnection
  let limit := max 1 (min limit maxSymbioticPageSize)
  let offset := max offset 0
  let f ← filtersOf timestamp receiverType
  let db ← orFail conn .databaseQuery
  return (db.load f offset limit).filterMap (PointRow.recordWith reported)

theorem statsQuery_eq (timestamp receiverType : Option String) : statsQuery timestamp receiverType =
    filtersOf timestamp receiverType >>= fun f => pure ("SELECT COALESCE(SUM(points), 0) AS total_points, " ++
      "COUNT(DISTINCT CASE WHEN address_type = 'staker' THEN address END) AS stakers, " ++
      "COUNT(DISTINCT CASE WHEN address_type = 'operator' THEN address END) AS operators " ++
      "FROM symbiotic_points_daily WHERE address_type IN ('operator', 'staker')" ++ f.sql) :=
  appendSymbioticFilters_eq _ timestamp receiverType

theorem pointsQuery_eq (timestamp : Option String) (offset limit : ℤ) (receiverType : Option String) :
    pointsQuery timestamp offset limit receiverType =
      let size := max 1 (min limit maxSymbioticPageSize)
      filtersOf timestamp receiverType >>= fun f => pure ("SELECT date, address, address_type, vault, points " ++
        "FROM symbiotic_points_daily WHERE address_type IN ('operator', 'staker')" ++ f.sql ++
        s!" ORDER BY date DESC, address ASC, vault ASC OFFSET {max offset 0} LIMIT {size}") := by
  rw [pointsQuery, appendSymbioticFilters_eq, bind_assoc]
  rfl

/-! ### Exact values -/

section exact
variable {points : ℚ≥0} {row : PointRow} {rows : List PointRow}

theorem scaled_add_le (a b : ℚ≥0) : scaled a + scaled b ≤ scaled (a + b) := by
  refine Nat.le_floor ?_
  rw [Nat.cast_add, add_mul]
  exact add_le_add (Nat.floor_le zero_le) (Nat.floor_le zero_le)

/-- The sum of the floors is at most the floor of the sum. -/
theorem sum_scaled_le (l : List ℚ≥0) : (l.map scaled).sum ≤ scaled l.sum := by
  induction l with
  | nil => exact Nat.zero_le _
  | cons a l ih =>
    rw [List.map_cons, List.sum_cons, List.sum_cons]
    exact (Nat.add_le_add_left ih _).trans (scaled_add_le a l.sum)

theorem reported_eq_iff : reported points = scaled points ↔ scaled points < 2 ^ 63 := by
  unfold reported
  omega

theorem sum_filterMap_points (rows : List PointRow) :
    (rows.filterMap PointRow.points).sum = (rows.map fun row => row.points.getD 0).sum := by
  induction rows with
  | nil => rfl
  | cons row rows ih =>
    rw [List.map_cons, List.sum_cons, ← ih]
    cases h : row.points with
    | none => rw [List.filterMap_cons_none h, Option.getD_none, zero_add]
    | some p => rw [List.filterMap_cons_some h, List.sum_cons, Option.getD_some]

theorem recordWith_congr {value value' : ℚ≥0 → ℤ} (h : value (row.points.getD 0) = value' (row.points.getD 0)) :
    row.recordWith value = row.recordWith value' := by
  simp only [PointRow.recordWith, h]

theorem map_points_recordWith (value : ℚ≥0 → ℤ) (row : PointRow) : (row.recordWith value).map SymbioticPointRecord.points =
    if row.complete then some (value (row.points.getD 0)) else none := by
  obtain ⟨date, address, addressType, vault, points⟩ := row
  cases address with
  | none => rfl
  | some _ =>
    cases addressType with
    | none => rfl
    | some _ =>
      cases date with
      | none => rfl
      | some _ => cases vault <;> rfl

theorem recordWith_eq_none {value : ℚ≥0 → ℤ} (h : row.complete = false) : row.recordWith value = none := by
  have hpoints := map_points_recordWith value row
  rw [h, if_neg Bool.false_ne_true, Option.map_eq_none_iff] at hpoints
  exact hpoints

theorem map_points_records (value : ℚ≥0 → ℤ) (rows : List PointRow) :
    (rows.filterMap (PointRow.recordWith value)).map SymbioticPointRecord.points =
      (rows.filter PointRow.complete).map fun row => value (row.points.getD 0) := by
  rw [List.map_filterMap, ← List.filterMap_eq_map, List.filterMap_filter]
  exact List.filterMap_congr fun row _ => map_points_recordWith value row

end exact

namespace PointsDb
variable (db : PointsDb) (f : Filters)

def records : List SymbioticPointRecord := (db.orderBy (db.selected f)).filterMap (PointRow.recordWith reported)

/-- No value that a record shows is too large. -/
def Exact : Prop := ∀ row ∈ db.selected f, row.complete = true → scaled (row.points.getD 0) < 2 ^ 63

def exactTotal : ℕ := (((db.selected f).filter PointRow.complete).map fun row => scaled (row.points.getD 0)).sum

end PointsDb

section handlers
variable {db : PointsDb} {f : Filters} {timestamp receiverType : Option String}

theorem symbioticStats_eq (hf : filtersOf timestamp receiverType = .ok f) :
    symbioticStats (.ok (.ok db)) timestamp receiverType =
      .ok ⟨reported (db.stats f).totalPoints, (db.stats f).stakers, 0, (db.stats f).operators⟩ := by
  rw [symbioticStats, hf]
  rfl

theorem symbioticPoints_eq (hf : filtersOf timestamp receiverType = .ok f) (offset limit : ℤ) :
    symbioticPoints (.ok (.ok db)) timestamp offset limit receiverType =
      .ok ((db.load f (max offset 0) (max 1 (min limit maxSymbioticPageSize))).filterMap
        (PointRow.recordWith reported)) := by
  rw [symbioticPoints, hf]
  rfl

theorem load_one {i : ℕ} {row : PointRow} (h : (db.orderBy (db.selected f))[i]? = some row) : db.load f i 1 = [row] := by
  show ((db.orderBy (db.selected f)).drop i).take 1 = [row]
  rw [List.take_one, List.head?_drop, h]
  rfl

theorem exactTotal_le : db.exactTotal f ≤ scaled (db.stats f).totalPoints := by
  show _ ≤ scaled ((db.selected f).filterMap PointRow.points).sum
  rw [sum_filterMap_points]
  refine le_trans ?_ (sum_scaled_le _)
  rw [List.map_map]
  exact (List.filter_sublist.map _).sum_le_sum fun _ _ => Nat.zero_le _

theorem scaled_le_exactTotal {row : PointRow} (hrow : row ∈ db.selected f) (hcomplete : row.complete = true) :
    scaled (row.points.getD 0) ≤ db.exactTotal f :=
  List.single_le_sum (fun _ _ => Nat.zero_le _) _ (List.mem_map_of_mem (List.mem_filter.2 ⟨hrow, hcomplete⟩))

theorem sum_records (h : db.Exact f) : ((db.records f).map SymbioticPointRecord.points).sum = db.exactTotal f := by
  rw [PointsDb.records, map_points_records, (((db.perm (db.selected f)).filter _).map _).sum_eq, PointsDb.exactTotal,
    Nat.cast_list_sum, List.map_map]
  refine congrArg List.sum (List.map_congr_left fun row hrow => ?_)
  obtain ⟨hselected, hcomplete⟩ := List.mem_filter.1 hrow
  exact reported_eq_iff.2 (h row hselected hcomplete)

theorem recordWith_eq_iff {row : PointRow} : row.recordWith reported = row.recordWith (fun points => scaled points) ↔
    (row.complete = true → scaled (row.points.getD 0) < 2 ^ 63) := by
  constructor
  · intro h hcomplete
    have hpoints := congrArg (Option.map SymbioticPointRecord.points) h
    rw [map_points_recordWith, map_points_recordWith, if_pos hcomplete, if_pos hcomplete] at hpoints
    exact reported_eq_iff.1 (Option.some.inj hpoints)
  · intro h
    cases hcomplete : row.complete with
    | true => exact recordWith_congr (reported_eq_iff.2 (h hcomplete))
    | false => rw [recordWith_eq_none hcomplete, recordWith_eq_none hcomplete]

/-- Every page has the exact values: a row is alone on a page of its own. -/
theorem pages_exact_iff (hf : filtersOf timestamp receiverType = .ok f) :
    (∀ offset limit, symbioticPoints (.ok (.ok db)) timestamp offset limit receiverType =
      .ok ((db.load f (max offset 0) (max 1 (min limit maxSymbioticPageSize))).filterMap
        (PointRow.recordWith fun points => scaled points))) ↔ db.Exact f := by
  constructor
  · intro h row hrow
    obtain ⟨i, hi⟩ := List.getElem?_of_mem ((db.perm (db.selected f)).mem_iff.2 hrow)
    have hpage := Except.ok.inj ((symbioticPoints_eq hf i 1).symm.trans (h i 1))
    have hoffset : max (i : ℤ) 0 = i := max_eq_left (Int.natCast_nonneg i)
    rw [hoffset, show max 1 (min 1 maxSymbioticPageSize) = 1 from rfl, load_one hi] at hpage
    refine recordWith_eq_iff.1 ?_
    have hsingle (value : ℚ≥0 → ℤ) : ([row].filterMap (PointRow.recordWith value)).head? = row.recordWith value := by
      cases h : row.recordWith value with
      | none => rw [List.filterMap_cons_none h]; rfl
      | some record => rw [List.filterMap_cons_some h]; rfl
    rw [← hsingle, hpage, hsingle]
  · intro h offset limit
    rw [symbioticPoints_eq hf]
    refine congrArg Except.ok (List.filterMap_congr fun row hrow => recordWith_eq_iff.2 (h row ?_))
    exact (db.perm (db.selected f)).mem_iff.1 (List.mem_of_mem_drop (List.mem_of_mem_take hrow))

end handlers

/-- Every record has the exact value, and the total is no less than the sum of the values of all records, exactly if the
exact values sum to less than `2 ^ 63`. -/
theorem symbiotic_exact_iff (db : PointsDb) (timestamp receiverType : Option String) (f : Filters)
    (hf : filtersOf timestamp receiverType = .ok f) :
    ((∀ offset limit, symbioticPoints (.ok (.ok db)) timestamp offset limit receiverType =
        .ok ((db.load f (max offset 0) (max 1 (min limit maxSymbioticPageSize))).filterMap
          (PointRow.recordWith fun points => scaled points))) ∧
      ∀ stats, symbioticStats (.ok (.ok db)) timestamp receiverType = .ok stats →
        ((db.records f).map SymbioticPointRecord.points).sum ≤ stats.totalPoints) ↔
    db.exactTotal f < 2 ^ 63 := by
  rw [pages_exact_iff hf]
  constructor
  · rintro ⟨hexact, htotal⟩
    have hsum := htotal _ (symbioticStats_eq hf)
    rw [sum_records hexact] at hsum
    have hmax : reported (db.stats f).totalPoints ≤ 2 ^ 63 - 1 := min_le_right _ _
    have hlt : (db.exactTotal f : ℤ) ≤ 2 ^ 63 - 1 := le_trans hsum hmax
    omega
  · intro hlt
    have hexact : db.Exact f := fun row hrow hcomplete => (scaled_le_exactTotal hrow hcomplete).trans_lt hlt
    refine ⟨hexact, fun stats hstats => ?_⟩
    obtain rfl := Except.ok.inj ((symbioticStats_eq hf).symm.trans hstats)
    rw [sum_records hexact]
    show (db.exactTotal f : ℤ) ≤ reported (db.stats f).totalPoints
    have hle : db.exactTotal f ≤ scaled (db.stats f).totalPoints := exactTotal_le
    unfold reported
    omega

def oneDay (values : List ℚ≥0) : PointsDb where
  rows := values.map fun points => ⟨some "2025-01-15", some "0xa1", some "staker", some "0xb2", some points⟩
  le _ _ := true
  orderBy := id
  perm _ := .rfl

theorem exactTotal_oneDay (values : List ℚ≥0) : (oneDay values).exactTotal ⟨none, none⟩ = (values.map scaled).sum := by
  induction values with
  | nil => rfl
  | cons points values ih => exact congrArg (scaled points + ·) ih

theorem scaled_natCast (n : ℕ) : scaled n = n * 10 ^ 18 := by
  rw [scaled, ← Nat.cast_mul, Nat.floor_natCast]

theorem symbiotic_exact_oneDay :
    (∀ offset limit, symbioticPoints (.ok (.ok (oneDay [1, 2]))) none offset limit none =
      .ok (((oneDay [1, 2]).load ⟨none, none⟩ (max offset 0) (max 1 (min limit maxSymbioticPageSize))).filterMap
        (PointRow.recordWith fun points => scaled points))) ∧
    ∀ stats, symbioticStats (.ok (.ok (oneDay [1, 2]))) none none = .ok stats →
      (((oneDay [1, 2]).records ⟨none, none⟩).map SymbioticPointRecord.points).sum ≤ stats.totalPoints := by
  refine (symbiotic_exact_iff (oneDay [1, 2]) none none ⟨none, none⟩ rfl).2 ?_
  have h1 : scaled 1 = 1 * 10 ^ 18 := mod_cast scaled_natCast 1
  have h2 : scaled 2 = 2 * 10 ^ 18 := mod_cast scaled_natCast 2
  rw [exactTotal_oneDay]
  simp [h1, h2]

/-- Ten points are reported as the largest `i64`, and so is the total of five and five. -/
theorem symbiotic_saturates :
    (∃ record, symbioticPoints (.ok (.ok (oneDay [10]))) none 0 100 none = .ok [record] ∧
      record.points = 9223372036854775807 ∧ scaled 10 = 10000000000000000000) ∧
    ∃ stats, symbioticStats (.ok (.ok (oneDay [5, 5]))) none none = .ok stats ∧
      stats.totalPoints = 9223372036854775807 ∧
      (((oneDay [5, 5]).records ⟨none, none⟩).map SymbioticPointRecord.points).sum = 10000000000000000000 := by
  have h5 : scaled 5 = 5 * 10 ^ 18 := mod_cast scaled_natCast 5
  have h10 : scaled 10 = 10 * 10 ^ 18 := mod_cast scaled_natCast 10
  refine ⟨⟨_, rfl, ?_, ?_⟩, _, rfl, ?_, ?_⟩
  · show min (scaled 10 : ℤ) _ = _
    rw [h10]
    rfl
  · rw [h10]
    rfl
  · show min (scaled (5 + (5 + 0)) : ℤ) _ = _
    rw [show (5 + (5 + 0) : ℚ≥0) = 10 by norm_num, h10]
    rfl
  · show (min (scaled 5 : ℤ) _) + ((min (scaled 5 : ℤ) _) + 0) = _
    rw [h5]
    rfl

end Symbiotic
end HumanNetwork
