import EnterpriseRag.Sql.ResultBounds

/-!
# What a result says of its size

`bytes_returned` is the bytes the loop counted, those of a row it then drops included, and only
text is shortened. `accounted_iff` : the size is right exactly when no row is dropped and what is
not text is short.
-/

namespace EnterpriseRag

namespace SQLExecutionLimits

/-- The bytes of a result are those of its cells and within the limit, and its cells are short. -/
structure Accounted (limits : SQLExecutionLimits) (result : SQLExecutionResult) : Prop where
  bytes : result.bytesReturned =
    Budget.total (fun row => (row.map fun cell => cell.str.utf8ByteSize).sum) result.rows
  within : result.bytesReturned ≤ limits.maxResultBytes
  /-- One character more is the ellipsis. -/
  cells : ∀ row ∈ result.rows, ∀ cell ∈ row, cell.str.length ≤ limits.maxCellChars + 1

variable {limits : SQLExecutionLimits}

/-- A shortened text has the ellipsis at its end. -/
theorem length_boundCell_text_le (s : String) :
    (limits.boundCell (.text s)).str.length ≤ limits.maxCellChars + 1 := by
  rw [boundCell]
  split
  · rw [Cell.str, String.length_ofList, List.length_append, List.length_take]
    exact Nat.add_le_add_right (min_le_left _ _) 1
  · rw [Cell.str]
    omega

theorem total_map_boundCell (rows : List (List Cell)) :
    Budget.total (fun row => (row.map fun cell => cell.str.utf8ByteSize).sum)
        (rows.map fun row => row.map limits.boundCell) =
      Budget.total limits.rowBytes rows := by
  rw [Budget.total, Budget.total, List.map_map]
  refine congrArg List.sum (List.map_congr_left fun row _ => ?_)
  rw [Function.comp_apply, List.map_map]
  rfl

variable {conn : SQLConnection} {query : ValidatedSQL} {principal : SQLPrincipal}
  {cursor : SQLCursor} {result : SQLExecutionResult}

/-- The size of a result is right exactly if the fetched rows that may be returned are within the
bytes, and their cells that are not text are short. -/
theorem accounted_iff (hcursor : conn.execute query.sql = .ok cursor)
    (hresult : limits.execute conn query principal = .ok result) :
    limits.Accounted result ↔
      Budget.total limits.rowBytes ((cursor.fetchmany (limits.maxResultRows + 1)).take
        limits.maxResultRows) ≤ limits.maxResultBytes ∧
      ∀ row ∈ (cursor.fetchmany (limits.maxResultRows + 1)).take limits.maxResultRows,
        ∀ s, Cell.other s ∈ row → s.length ≤ limits.maxCellChars + 1 := by
  obtain ⟨cursor', hcursor', hrows, -, hcounts⟩ := of_execute hresult
  obtain rfl := Except.ok.inj (hcursor.symm.trans hcursor')
  constructor
  · intro h
    have hbytes := not_lt.1 fun hover => absurd h.within (not_le.2 (hcounts.2 hover))
    refine ⟨hbytes, fun row hrow s hs => ?_⟩
    rw [keptRows, Budget.fitting_eq_self_iff.2 hbytes] at hrows
    have hcells := h.cells (row.map limits.boundCell)
      (hrows ▸ List.mem_map_of_mem (f := fun row => row.map limits.boundCell) hrow)
    exact hcells _ (List.mem_map.2 ⟨.other s, hs, rfl⟩)
  · rintro ⟨hbytes, hshort⟩
    rw [keptRows, Budget.fitting_eq_self_iff.2 hbytes] at hrows
    refine ⟨?_, (hcounts.1 hbytes).trans_le hbytes, ?_⟩
    · rw [hrows, total_map_boundCell, hcounts.1 hbytes]
    · rw [hrows]
      intro row hrow cell hcell
      obtain ⟨fetched, hfetched, rfl⟩ := List.mem_map.1 hrow
      obtain ⟨value, hvalue, rfl⟩ := List.mem_map.1 hcell
      cases value with
      | text s => exact length_boundCell_text_le s
      | other s => exact hshort fetched hfetched s hvalue

/-- The second row is dropped, and its bytes are counted. -/
theorem dropped_row_counted : ∃ result,
    twoRows.execute (answering [[.text "ab"], [.text "abcd"]]) countQuery
      ⟨"alice", false, none, []⟩ = .ok result ∧
    result.rows = [[.text "ab"]] ∧ result.bytesReturned = 7 ∧ ¬twoRows.Accounted result := by
  refine ⟨_, rfl, rfl, rfl, fun h => ?_⟩
  exact absurd h.within (by decide)

theorem accounted_iff_abc : ∃ result,
    twoRows.execute (answering [[.text "abc"], [.other "1"]]) countQuery
      ⟨"alice", false, none, []⟩ = .ok result ∧
    (twoRows.Accounted result ↔
      Budget.total twoRows.rowBytes [[.text "abc"], [.other "1"]] ≤ 6 ∧
      ∀ row ∈ [[Cell.text "abc"], [Cell.other "1"]], ∀ s, Cell.other s ∈ row → s.length ≤ 3) :=
  ⟨_, rfl, @accounted_iff twoRows (answering _) countQuery ⟨"alice", false, none, []⟩ _ _ rfl rfl⟩

end SQLExecutionLimits

end EnterpriseRag
