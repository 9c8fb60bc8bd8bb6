import HumanNetwork.Lib.Outcome
import Mathlib.Data.String.Basic
import Mathlib.Tactic.IntervalCases

/-!
# The filters of the Symbiotic points API (`ingester/src/handlers.rs`)

The queries of `/symbiotic/stats` and `/symbiotic/points` are built as text, with a date and a receiver type
of the request pasted between quotes. `Filters` is the abstract side: a date that has the form of a date, one
of two receiver types, and the text that stands for them. What `appendSymbioticFilters` accepts adds the text of
such filters to the query, so nothing else of the request gets into the SQL.
-/

namespace HumanNetwork
open Outcome

/-- Of the errors of the API, those of the filters and of the queries for points. -/
inductive ApiError where
  | databaseConnection (message : String)
  | databaseQuery (message : String)
  | internal (message : String)
deriving DecidableEq, Repr

namespace Symbiotic

/-- `ts.split('T').next().unwrap_or(ts)`. -/
def datePart (ts : String) : String := ((ts.toList.splitOn 'T').head?.map String.ofList).getD ts

def validDateChar (i : ℕ) (c : Char) : Bool :=
  match i with
  | 4 | 7 => c == '-'
  | _ => c.isDigit

/-- The length is that of the text in bytes, the positions are those of its characters. -/
def parseDateFilter (ts : String) : Outcome ApiError String :=
  let datePart := datePart ts
  if datePart.utf8ByteSize == 10 && datePart.toList.zipIdx.all fun (c, i) => validDateChar i c then .ok datePart
  else fail (.internal "Invalid timestamp format, expected YYYY-MM-DD")

def validateReceiverType (receiverType : String) : Outcome ApiError Unit :=
  if receiverType = "operator" ∨ receiverType = "staker" then .ok ()
  else fail (.internal "receiver_type must be 'operator' or 'staker'")

/-- The first `if let` of `append_symbiotic_filters`. -/
def appendDate (query : String) (timestamp : Option String) : Outcome ApiError String :=
  match timestamp with
  | some ts => do
    let datePart ← parseDateFilter ts
    pure (query ++ s!" AND date <= '{datePart}'")
  | none => pure query

/-- The second `if let` of `append_symbiotic_filters`. -/
def appendReceiverType (query : String) (receiverType : Option String) : Outcome ApiError String :=
  match receiverType with
  | some rt => do
    validateReceiverType rt
    pure (query ++ s!" AND address_type = '{rt}'")
  | none => pure query

/-- The query after the call. On an error both callers return, and the query is dropped. -/
def appendSymbioticFilters (query : String) (timestamp receiverType : Option String) : Outcome ApiError String := do
  let query ← appendDate query timestamp
  appendReceiverType query receiverType

def statsQuery (timestamp receiverType : Option String) : Outcome ApiError String :=
  appendSymbioticFilters
    ("SELECT COALESCE(SUM(points), 0) AS total_points, " ++
      "COUNT(DISTINCT CASE WHEN address_type = 'staker' THEN address END) AS stakers, " ++
      "COUNT(DISTINCT CASE WHEN address_type = 'operator' THEN address END) AS operators " ++
      "FROM symbiotic_points_daily WHERE address_type IN ('operator', 'staker')")
    timestamp receiverType

def maxSymbioticPageSize : ℤ := 1000

def pointsQuery (timestamp : Option String) (offset limit : ℤ) (receiverType : Option String) :
    Outcome ApiError String := do
  let limit := max 1 (min limit maxSymbioticPageSize)
  let offset := max offset 0
  let query ← appendSymbioticFilters
    ("SELECT date, address, address_type, vault, points " ++
      "FROM symbiotic_points_daily WHERE address_type IN ('operator', 'staker')")
    timestamp receiverType
  pure (query ++ s!" ORDER BY date DESC, address ASC, vault ASC OFFSET {offset} LIMIT {limit}")

/-! ### Filters -/

structure DateText where
  text : String
  length_eq : text.length = 10
  dash : text.toList[4]? = some '-' ∧ text.toList[7]? = some '-'
  digit : ∀ i c, text.toList[i]? = some c → i ≠ 4 → i ≠ 7 → '0' ≤ c ∧ c ≤ '9'

inductive ReceiverType where
  | operator
  | staker
deriving DecidableEq, Repr

def ReceiverType.text : ReceiverType → String
  | operator => "operator"
  | staker => "staker"

structure Filters where
  date : Option DateText
  receiverType : Option ReceiverType

def DateText.sql (d : DateText) : String := " AND date <= '" ++ d.text ++ "'"

def ReceiverType.sql (r : ReceiverType) : String := " AND address_type = '" ++ r.text ++ "'"

def Filters.sql (f : Filters) : String := f.date.elim "" DateText.sql ++ f.receiverType.elim "" ReceiverType.sql

def clauseChars : List Char := " AND date <= '' AND address_type = '' 0123456789- operator staker".toList

/-! ### What the checks accept -/

theorem validDateChar_iff {i : ℕ} {c : Char} :
    validDateChar i c = true ↔ if i = 4 ∨ i = 7 then c = '-' else c.isDigit = true := by
  unfold validDateChar
  split <;> simp_all

theorem le_nine_of_isDigit {c : Char} (h : c.isDigit = true) : '0' ≤ c ∧ c ≤ '9' := by
  rwa [Char.isDigit, Bool.and_eq_true, decide_eq_true_iff, decide_eq_true_iff] at h

theorem utf8Size_of_validDateChar {i : ℕ} {c : Char} (h : validDateChar i c = true) : c.utf8Size = 1 := by
  rw [validDateChar_iff] at h
  split at h
  · subst h; rfl
  · have hle : c.val ≤ 57 := (le_nine_of_isDigit h).2
    exact Char.utf8Size_eq_one_iff.2 (UInt32.le_trans hle (by decide))

theorem utf8Len_eq_length {l : List Char} (h : ∀ c ∈ l, c.utf8Size = 1) : String.utf8Len l = l.length := by
  induction l with
  | nil => rfl
  | cons c l ih =>
    rw [String.utf8Len_cons, ih fun d hd => h d (List.mem_cons_of_mem _ hd), h c List.mem_cons_self, List.length_cons]

theorem parseDateFilter_eq_ok {ts date : String} (h : parseDateFilter ts = .ok date) :
    date = datePart ts ∧ ∃ d : DateText, d.text = date := by
  unfold parseDateFilter at h
  dsimp only at h
  split at h
  case isFalse => cases h
  next hvalid =>
  cases h
  rw [Bool.and_eq_true, beq_iff_eq, List.all_eq_true] at hvalid
  obtain ⟨hsize, hchars⟩ := hvalid
  have hvalid : ∀ i c, (datePart ts).toList[i]? = some c → validDateChar i c = true :=
    fun i c hc => hchars (c, i) (List.mem_zipIdx_iff_getElem?.2 hc)
  have hbytes : ∀ c ∈ (datePart ts).toList, c.utf8Size = 1 := by
    intro c hc
    obtain ⟨i, hi⟩ := List.getElem?_of_mem hc
    exact utf8Size_of_validDateChar (hvalid i c hi)
  have hlength : (datePart ts).toList.length = 10 := by
    rw [← utf8Len_eq_length hbytes, ← String.utf8ByteSize_ofList, String.ofList_toList, hsize]
  have hdash : ∀ i, i = 4 ∨ i = 7 → (datePart ts).toList[i]? = some '-' := by
    intro i hi
    have hlt : i < (datePart ts).toList.length := by omega
    have := validDateChar_iff.1 (hvalid i _ (List.getElem?_eq_getElem hlt))
    rw [if_pos hi] at this
    rw [List.getElem?_eq_getElem hlt, this]
  refine ⟨rfl, ⟨datePart ts, hlength, ⟨hdash 4 (.inl rfl), hdash 7 (.inr rfl)⟩, ?_⟩, rfl⟩
  intro i c hc h4 h7
  have := validDateChar_iff.1 (hvalid i c hc)
  rw [if_neg (not_or.2 ⟨h4, h7⟩)] at this
  exact le_nine_of_isDigit this

theorem validateReceiverType_eq_ok {receiverType : String} (h : validateReceiverType receiverType = .ok ()) :
    ∃ r : ReceiverType, r.text = receiverType := by
  unfold validateReceiverType at h
  split at h
  case isFalse => cases h
  next hr =>
  rcases hr with rfl | rfl
  · exact ⟨.operator, rfl⟩
  · exact ⟨.staker, rfl⟩

theorem appendDate_eq_ok {query query' : String} {timestamp : Option String} (h : appendDate query timestamp = .ok query') :
    ∃ date : Option DateText, query' = query ++ date.elim "" DateText.sql ∧
      date.map DateText.text = timestamp.map datePart := by
  cases timestamp with
  | none =>
    cases h
    exact ⟨none, String.append_empty.symm, rfl⟩
  | some ts =>
    obtain ⟨date, hparse, h⟩ := bind_eq_ok.1 h
    cases h
    obtain ⟨rfl, d, hd⟩ := parseDateFilter_eq_ok hparse
    refine ⟨some d, ?_, congrArg some hd⟩
    exact congrArg (fun date => query ++ s!" AND date <= '{date}'") hd.symm

theorem appendReceiverType_eq_ok {query query' : String} {receiverType : Option String}
    (h : appendReceiverType query receiverType = .ok query') :
    ∃ r : Option ReceiverType, query' = query ++ r.elim "" ReceiverType.sql ∧ r.map ReceiverType.text = receiverType := by
  cases receiverType with
  | none =>
    cases h
    exact ⟨none, String.append_empty.symm, rfl⟩
  | some rt =>
    obtain ⟨⟨⟩, hvalid, h⟩ := bind_eq_ok.1 h
    obtain ⟨r, rfl⟩ := validateReceiverType_eq_ok hvalid
    exact ⟨some r, (Except.ok.inj h).symm, rfl⟩

theorem appendSymbioticFilters_eq_ok {query query' : String} {timestamp receiverType : Option String}
    (h : appendSymbioticFilters query timestamp receiverType = .ok query') :
    ∃ f : Filters, query' = query ++ f.sql ∧ f.date.map DateText.text = timestamp.map datePart ∧
      f.receiverType.map ReceiverType.text = receiverType := by
  obtain ⟨dated, hdate, h⟩ := bind_eq_ok.1 h
  obtain ⟨date, rfl, hd⟩ := appendDate_eq_ok hdate
  obtain ⟨r, rfl, hr⟩ := appendReceiverType_eq_ok h
  exact ⟨⟨date, r⟩, String.append_assoc, hd, hr⟩

/-! ### The characters of the clauses -/

theorem digit_mem_clauseChars {c : Char} (h0 : '0' ≤ c) (h9 : c ≤ '9') : c ∈ clauseChars := by
  have h0' : 48 ≤ c.toNat := h0
  have h9' : c.toNat ≤ 57 := h9
  rw [← Char.ofNat_toNat c]
  revert h0' h9'
  generalize c.toNat = n
  intro h0' h9'
  interval_cases n <;> decide

theorem DateText.mem_clauseChars (d : DateText) {c : Char} (hc : c ∈ d.text.toList) : c ∈ clauseChars := by
  obtain ⟨i, hi⟩ := List.getElem?_of_mem hc
  by_cases hdash : i = 4 ∨ i = 7
  · have : c = '-' := by
      rcases hdash with rfl | rfl
      · exact Option.some_inj.1 (hi.symm.trans d.dash.1)
      · exact Option.some_inj.1 (hi.symm.trans d.dash.2)
    rw [this]
    decide
  · rw [not_or] at hdash
    obtain ⟨h0, h9⟩ := d.digit i c hi hdash.1 hdash.2
    exact digit_mem_clauseChars h0 h9

theorem mem_clauseChars_of_all {text : String} (h : text.toList.all (· ∈ clauseChars) = true) {c : Char}
    (hc : c ∈ text.toList) : c ∈ clauseChars := of_decide_eq_true (List.all_eq_true.1 h c hc)

theorem ReceiverType.mem_clauseChars (r : ReceiverType) {c : Char} (hc : c ∈ r.text.toList) : c ∈ clauseChars := by
  cases r with
  | operator => exact mem_clauseChars_of_all (by decide +kernel) hc
  | staker => exact mem_clauseChars_of_all (by decide +kernel) hc

theorem quoted_mem_clauseChars {text before : String} (hbefore : ∀ c ∈ before.toList, c ∈ clauseChars)
    (htext : ∀ c ∈ text.toList, c ∈ clauseChars) {c : Char} (hc : c ∈ (before ++ text ++ "'").toList) :
    c ∈ clauseChars := by
  rw [String.toList_append, String.toList_append, List.mem_append, List.mem_append] at hc
  rcases hc with (hc | hc) | hc
  · exact hbefore c hc
  · exact htext c hc
  · exact mem_clauseChars_of_all (by decide +kernel) hc

theorem Filters.mem_clauseChars (f : Filters) {c : Char} (hc : c ∈ f.sql.toList) : c ∈ clauseChars := by
  rw [Filters.sql, String.toList_append, List.mem_append] at hc
  rcases hc with hc | hc
  · cases hd : f.date with
    | none => rw [hd] at hc; cases hc
    | some d =>
      rw [hd] at hc
      exact quoted_mem_clauseChars (fun _ => mem_clauseChars_of_all (by decide +kernel)) (fun _ => d.mem_clauseChars) hc
  · cases hr : f.receiverType with
    | none => rw [hr] at hc; cases hc
    | some r =>
      rw [hr] at hc
      exact quoted_mem_clauseChars (fun _ => mem_clauseChars_of_all (by decide +kernel)) (fun _ => r.mem_clauseChars) hc

/-- Of a request, only a date and a receiver type get into the query. -/
theorem append_symbiotic_filters_safe (query query' : String) (timestamp receiverType : Option String)
    (h : appendSymbioticFilters query timestamp receiverType = .ok query') :
    ∃ f : Filters, query' = query ++ f.sql ∧ f.date.map DateText.text = timestamp.map datePart ∧
      f.receiverType.map ReceiverType.text = receiverType ∧ ∀ c ∈ f.sql.toList, c ∈ clauseChars := by
  obtain ⟨f, hquery, hdate, hreceiver⟩ := appendSymbioticFilters_eq_ok h
  exact ⟨f, hquery, hdate, hreceiver, fun _ => f.mem_clauseChars⟩

theorem append_symbiotic_filters_safe_staker :
    appendSymbioticFilters "SELECT" (some "2025-01-15T00:00:00Z") (some "staker") =
      .ok "SELECT AND date <= '2025-01-15' AND address_type = 'staker'" ∧
    ∃ f : Filters, "SELECT AND date <= '2025-01-15' AND address_type = 'staker'" = "SELECT" ++ f.sql ∧
      f.date.map DateText.text = some (datePart "2025-01-15T00:00:00Z") ∧
      f.receiverType.map ReceiverType.text = some "staker" ∧ ∀ c ∈ f.sql.toList, c ∈ clauseChars :=
  have h : appendSymbioticFilters "SELECT" (some "2025-01-15T00:00:00Z") (some "staker") =
    .ok "SELECT AND date <= '2025-01-15' AND address_type = 'staker'" := by decide +kernel
  ⟨h, append_symbiotic_filters_safe _ _ _ _ h⟩

/-- A character of three bytes counts three times, so eight characters of which one is `－` fail at a position. -/
example : parseDateFilter "2025－1-1" ≠ .ok "2025－1-1" := by decide +kernel

end Symbiotic
end HumanNetwork
