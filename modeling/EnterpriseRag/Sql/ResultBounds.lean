import EnterpriseRag.Library.Budget
import EnterpriseRag.Sql.Masking

/-!
# What is returned of a result

`PostgresReadOnlySQLExecutor.execute` fetches one row more than it returns, shortens long cells
and counts the bytes of what it returns. `execute_honest` : the rows are the longest prefix of
those that may be returned within the bytes, and the flag says whether a fetched row is missing.
-/

namespace EnterpriseRag

/-! ## The executor -/

/-- `SQLExecutionLimits`, as far as a result is concerned. -/
structure SQLExecutionLimits where
  maxResultRows : ℕ
  maxResultBytes : ℕ
  maxCellChars : ℕ
  maxResultRows_pos : 0 < maxResultRows
  maxResultBytes_pos : 0 < maxResultBytes
  maxCellChars_pos : 0 < maxCellChars

/-- A cursor after a statement. -/
structure SQLCursor where
  description : Option (List String)
  fetchmany : ℕ → List (List Cell)

/-- A connection of the pool. -/
structure SQLConnection where
  prepareTransaction : SQLPrincipal → Except Raised Unit
  execute : String → Except Raised SQLCursor
  durationMs : ℚ

/-- `str` of a cell. -/
def Cell.str : Cell → String
  | .text s => s
  | .other s => s

namespace SQLExecutionLimits

variable (limits : SQLExecutionLimits)

/-- `_bound_cell`. -/
def boundCell : Cell → Cell
  | .text s =>
    if limits.maxCellChars < s.length then
      .text (.ofList (s.toList.take limits.maxCellChars ++ ['…']))
    else .text s
  | .other s => .other s

/-- The bytes of a cell as it is returned. -/
def cellBytes (cell : Cell) : ℕ :=
  (limits.boundCell cell).str.utf8ByteSize

/-- The loop over the cells of a row, with the bytes so far and the cells of the row so far.
There is no row where the bytes are over the budget. -/
def boundRow : ℕ → List Cell → List Cell → ℕ × Option (List Cell)
  | totalBytes, safeRow, [] => (totalBytes, some safeRow)
  | totalBytes, safeRow, cell :: row =>
    let value := limits.boundCell cell
    let totalBytes := totalBytes + value.str.utf8ByteSize
    if limits.maxResultBytes < totalBytes then (totalBytes, none)
    else boundRow totalBytes (safeRow ++ [value]) row

/-- The loop over the rows, with the rows so far, the bytes so far and the flag. -/
def boundRows : List (List Cell) → ℕ → Bool → List (List Cell) → List (List Cell) × ℕ × Bool
  | bounded, totalBytes, truncated, [] => (bounded, totalBytes, truncated)
  | bounded, totalBytes, truncated, row :: rows =>
    match limits.boundRow totalBytes [] row with
    | (totalBytes, none) => (bounded, totalBytes, true)
    | (totalBytes, some safeRow) => boundRows (bounded ++ [safeRow]) totalBytes truncated rows

/-- `PostgresReadOnlySQLExecutor.execute`. -/
def execute (conn : SQLConnection) (query : ValidatedSQL) (principal : SQLPrincipal) :
    Except Raised SQLExecutionResult := do
  conn.prepareTransaction principal
  let cursor ← conn.execute query.sql
  let fetched := cursor.fetchmany (limits.maxResultRows + 1)
  let (bounded, totalBytes, truncated) := limits.boundRows [] 0
    (limits.maxResultRows < fetched.length) (fetched.take limits.maxResultRows)
  return {
    columns := cursor.description.getD []
    rows := bounded
    rowCount := bounded.length
    truncated
    durationMs := conn.durationMs
    bytesReturned := totalBytes }

/-! ## What it returns -/

/-- The bytes of a row as it is returned. -/
def rowBytes (row : List Cell) : ℕ :=
  (row.map limits.cellBytes).sum

/-- The result has the longest prefix within the bytes of the rows that may be returned, with
every cell, and the flag if and only if a fetched row is missing. -/
structure Honest (fetched kept : List (List Cell)) (result : SQLExecutionResult) : Prop where
  kept_prefix : kept <+: fetched.take limits.maxResultRows
  within : Budget.total limits.rowBytes kept ≤ limits.maxResultBytes
  longest : ∀ rows, rows <+: fetched.take limits.maxResultRows →
    Budget.total limits.rowBytes rows ≤ limits.maxResultBytes → rows <+: kept
  rows : result.rows = kept.map fun row => row.map limits.boundCell
  rowCount : result.rowCount = result.rows.length
  truncated : result.truncated = true ↔ kept ≠ fetched

/-- `bytes` are counted where there are `total` : all of them, or more than there may be. -/
def Counts (total bytes : ℕ) : Prop :=
  (total ≤ limits.maxResultBytes → bytes = total) ∧
    (limits.maxResultBytes < total → limits.maxResultBytes < bytes)

variable {limits}

theorem boundRow_eq : ∀ {row safeRow : List Cell} {totalBytes : ℕ},
    totalBytes + limits.rowBytes row ≤ limits.maxResultBytes →
      limits.boundRow totalBytes safeRow row =
        (totalBytes + limits.rowBytes row, some (safeRow ++ row.map limits.boundCell))
  | [], safeRow, totalBytes, _ => by
    rw [boundRow, List.map_nil, List.append_nil]
    rfl
  | cell :: row, safeRow, totalBytes, h => by
    have hbytes : limits.rowBytes (cell :: row) = limits.cellBytes cell + limits.rowBytes row :=
      List.sum_cons
    rw [hbytes, ← Nat.add_assoc] at h ⊢
    rw [boundRow, ← cellBytes, if_neg (by omega), boundRow_eq h, List.append_assoc]
    rfl

theorem boundRow_over : ∀ {row safeRow : List Cell} {totalBytes : ℕ},
    totalBytes ≤ limits.maxResultBytes →
      limits.maxResultBytes < totalBytes + limits.rowBytes row →
        ∃ spent, limits.maxResultBytes < spent ∧
          limits.boundRow totalBytes safeRow row = (spent, none)
  | [], _, totalBytes, h, hover => absurd hover (not_lt.2 h)
  | cell :: row, safeRow, totalBytes, _, hover => by
    have hbytes : limits.rowBytes (cell :: row) = limits.cellBytes cell + limits.rowBytes row :=
      List.sum_cons
    rw [hbytes, ← Nat.add_assoc] at hover
    rw [boundRow, ← cellBytes]
    split
    · rename_i hcell
      exact ⟨_, hcell, rfl⟩
    · exact boundRow_over (by omega) hover

/-- The loop returns the rows that fit into the bytes that are left, and counts the bytes of all
rows, or more bytes than there may be. -/
theorem boundRows_eq : ∀ {rows bounded : List (List Cell)} {totalBytes : ℕ} {truncated : Bool},
    totalBytes ≤ limits.maxResultBytes →
      ∃ bytes, limits.boundRows bounded totalBytes truncated rows =
        (bounded ++ (Budget.fitting limits.rowBytes (limits.maxResultBytes - totalBytes) rows).map
          (fun row => row.map limits.boundCell), bytes,
          truncated || decide (Budget.fitting limits.rowBytes
            (limits.maxResultBytes - totalBytes) rows ≠ rows)) ∧
        limits.Counts (totalBytes + Budget.total limits.rowBytes rows) bytes
  | [], bounded, totalBytes, truncated, h => by
    refine ⟨totalBytes, ?_, fun _ => rfl, fun hover => absurd h (not_le.2 hover)⟩
    simp [boundRows, Budget.fitting]
  | row :: rows, bounded, totalBytes, truncated, h => by
    rw [boundRows, Budget.fitting]
    by_cases hfits : limits.rowBytes row ≤ limits.maxResultBytes - totalBytes
    · obtain ⟨bytes, hrest, hcounts⟩ := @boundRows_eq rows
        (bounded ++ [row.map limits.boundCell]) (totalBytes + limits.rowBytes row) truncated
        (by omega)
      rw [Budget.total_cons, ← Nat.add_assoc]
      refine ⟨bytes, ?_, hcounts⟩
      rw [boundRow_eq (by omega), if_pos hfits]
      dsimp only
      rw [List.nil_append, hrest, Nat.sub_add_eq]
      simp
    · obtain ⟨spent, hover, hrow⟩ : ∃ spent, limits.maxResultBytes < spent ∧
          limits.boundRow totalBytes [] row = (spent, none) := boundRow_over h (by omega)
      refine ⟨spent, ?_, fun hall => absurd hall ?_, fun _ => hover⟩
      · rw [hrow, if_neg hfits]
        simp
      · rw [Budget.total_cons]
        omega

variable {conn : SQLConnection} {query : ValidatedSQL} {principal : SQLPrincipal}
  {cursor : SQLCursor}

/-- The rows that are returned. -/
def keptRows (limits : SQLExecutionLimits) (cursor : SQLCursor) : List (List Cell) :=
  Budget.fitting limits.rowBytes limits.maxResultBytes
    ((cursor.fetchmany (limits.maxResultRows + 1)).take limits.maxResultRows)

/-- A row is missing if there was one too many or one that did not fit. -/
theorem keptRows_eq_iff : limits.keptRows cursor = cursor.fetchmany (limits.maxResultRows + 1) ↔
    (cursor.fetchmany (limits.maxResultRows + 1)).length ≤ limits.maxResultRows ∧
      limits.keptRows cursor =
        (cursor.fetchmany (limits.maxResultRows + 1)).take limits.maxResultRows := by
  constructor
  · intro h
    have hprefix : limits.keptRows cursor <+:
        (cursor.fetchmany (limits.maxResultRows + 1)).take limits.maxResultRows :=
      Budget.fitting_prefix
    have hlength : (cursor.fetchmany (limits.maxResultRows + 1)).length ≤ limits.maxResultRows := by
      rw [h] at hprefix
      exact hprefix.length_le.trans (List.length_take_le _ _)
    exact ⟨hlength, h.trans (List.take_of_length_le hlength).symm⟩
  · rintro ⟨hlength, h⟩
    rw [h, List.take_of_length_le hlength]

theorem execute_eq (hprepare : conn.prepareTransaction principal = .ok ())
    (hexecute : conn.execute query.sql = .ok cursor) :
    ∃ bytes, limits.execute conn query principal = .ok
      { columns := cursor.description.getD []
        rows := (limits.keptRows cursor).map fun row => row.map limits.boundCell
        rowCount := (limits.keptRows cursor).length
        truncated := decide (limits.keptRows cursor ≠ cursor.fetchmany (limits.maxResultRows + 1))
        durationMs := conn.durationMs
        bytesReturned := bytes } ∧
      limits.Counts (Budget.total limits.rowBytes
        ((cursor.fetchmany (limits.maxResultRows + 1)).take limits.maxResultRows)) bytes := by
  obtain ⟨bytes, hrows, hcounts⟩ := @boundRows_eq limits
    ((cursor.fetchmany (limits.maxResultRows + 1)).take limits.maxResultRows) [] 0
    (limits.maxResultRows < (cursor.fetchmany (limits.maxResultRows + 1)).length) (Nat.zero_le _)
  rw [Nat.zero_add] at hcounts
  refine ⟨bytes, bind_eq_ok.2 ⟨(), hprepare, bind_eq_ok.2 ⟨cursor, hexecute, ?_⟩⟩, hcounts⟩
  have hflag : (decide (limits.maxResultRows <
        (cursor.fetchmany (limits.maxResultRows + 1)).length) ||
      decide (limits.keptRows cursor ≠
        (cursor.fetchmany (limits.maxResultRows + 1)).take limits.maxResultRows)) =
      decide (limits.keptRows cursor ≠ cursor.fetchmany (limits.maxResultRows + 1)) := by
    rw [← Bool.decide_or, decide_eq_decide, ne_eq, ne_eq, keptRows_eq_iff, not_and_or, not_le]
  rw [List.nil_append, Nat.sub_zero, ← keptRows, hflag] at hrows
  dsimp only
  rw [hrows]
  dsimp only
  rw [List.length_map]
  rfl

/-- A result that was returned. -/
theorem of_execute {result : SQLExecutionResult}
    (h : limits.execute conn query principal = .ok result) :
    ∃ cursor, conn.execute query.sql = .ok cursor ∧
      result.rows = (limits.keptRows cursor).map (fun row => row.map limits.boundCell) ∧
      (result.truncated = true ↔
        limits.keptRows cursor ≠ cursor.fetchmany (limits.maxResultRows + 1)) ∧
      limits.Counts (Budget.total limits.rowBytes
        ((cursor.fetchmany (limits.maxResultRows + 1)).take limits.maxResultRows))
        result.bytesReturned := by
  obtain ⟨_, hprepare, hrest⟩ := bind_eq_ok.1 h
  obtain ⟨cursor, hexecute, -⟩ := bind_eq_ok.1 hrest
  obtain ⟨bytes, hrun, hcounts⟩ := @execute_eq limits conn query principal cursor hprepare hexecute
  obtain rfl := Except.ok.inj (hrun.symm.trans h)
  exact ⟨cursor, hexecute, rfl, decide_eq_true_iff, hcounts⟩

/-- What is fetched of any statement is returned as far as it may be, and no further. -/
theorem execute_honest (hprepare : conn.prepareTransaction principal = .ok ())
    (hexecute : conn.execute query.sql = .ok cursor) :
    ∃ result kept, limits.execute conn query principal = .ok result ∧
      limits.Honest (cursor.fetchmany (limits.maxResultRows + 1)) kept result := by
  obtain ⟨bytes, hrun, -⟩ := @execute_eq limits conn query principal cursor hprepare hexecute
  refine ⟨_, limits.keptRows cursor, hrun, ⟨Budget.fitting_prefix, Budget.total_fitting_le _ _,
    fun rows hrows hbytes => (Budget.prefix_fitting_iff hrows).2 hbytes, rfl,
    (List.length_map _).symm, decide_eq_true_iff⟩⟩

/-- Two rows may be returned, with six bytes. The ellipsis of the second takes three. -/
def twoRows : SQLExecutionLimits where
  maxResultRows := 2
  maxResultBytes := 6
  maxCellChars := 2
  maxResultRows_pos := by decide
  maxResultBytes_pos := by decide
  maxCellChars_pos := by decide

/-- A connection that answers every statement with these rows. -/
def answering (rows : List (List Cell)) : SQLConnection where
  prepareTransaction _ := .ok ()
  execute _ := .ok { description := some ["name"], fetchmany := rows.take }
  durationMs := 1

def countQuery : ValidatedSQL where
  sql := "SELECT p.name AS name FROM bank.people AS p LIMIT 2"
  fingerprint := "f"
  referencedTables := ["bank.people"]
  referencedColumns := ["bank.people.name"]
  projectionSensitive := [true]
  rowLimit := 2
  policyVersion := "sql-policy-v1"

theorem execute_honest_twoRows :
    ∃ result kept, twoRows.execute (answering [[.text "a"], [.text "bcd"], [.text "e"]]) countQuery
        ⟨"alice", false, none, []⟩ = .ok result ∧
      twoRows.Honest [[.text "a"], [.text "bcd"], [.text "e"]] kept result :=
  @execute_honest twoRows (answering _) countQuery _ _ rfl rfl

end SQLExecutionLimits

end EnterpriseRag
