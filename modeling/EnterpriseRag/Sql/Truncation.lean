import EnterpriseRag.Sql.ResultBounds
import Mathlib

/-!
# Is truncation told

The policy limits a statement to `max_rows` rows, and the executor takes a result for cut if it
fetches a row more than that. `truncation_told_iff` : with one limit for both the row more is
never there, and a result is only taken for cut where it has too many bytes.
-/

namespace EnterpriseRag

namespace SQLPolicy

/-- A statement without its limit. -/
def withoutLimit (tree : Node) : Node :=
  .node tree.label (tree.children.filter fun c => Node.argKey c ≠ "limit")

theorem args_withoutLimit (tree : Node) : Node.args (withoutLimit tree) "limit" = [] := by
  rw [Node.args, withoutLimit, RoseTree.children, List.filter_filter, List.filter_eq_nil_iff]
  intro c _
  simp

theorem withoutLimit_eq {tree : Node} (h : Node.args tree "limit" = []) :
    withoutLimit tree = tree := by
  obtain ⟨label, children⟩ := tree
  refine congrArg (RoseTree.node label) (List.filter_eq_self.2 fun c hc => ?_)
  simpa using List.filter_eq_nil_iff.1 h c hc

theorem withoutLimit_setLimit (tree : Node) (rowLimit : ℤ) :
    withoutLimit (setLimit tree rowLimit) = withoutLimit tree := by
  obtain ⟨label, children⟩ := tree
  refine congrArg (RoseTree.node label) ?_
  dsimp only [setLimit, Node.set, RoseTree.children]
  rw [List.filter_append, List.filter_cons_of_neg (by simp [Node.argKey, RoseTree.label]),
    List.filter_filter]
  simp only [Bool.and_self]
  rw [← List.filter_append, List.takeWhile_append_dropWhile]

end SQLPolicy

/-- A database : the rows of a statement, and a connection that is sent its text. -/
structure Postgres where
  answer : Node → List (List Cell)
  connection : SQLConnection

/-- What is relied on of the database and of `sqlglot`. -/
structure Postgres.Lawful (db : Postgres) (policy : SQLPolicy) : Prop where
  /-- A printed statement is answered with its rows. -/
  printed : ∀ tree text cursor, policy.sql tree = .ok text →
    db.connection.execute text = .ok cursor → ∀ n, cursor.fetchmany n = (db.answer tree).take n
  /-- A qualified statement has the same rows. -/
  qualified : ∀ parsed schema tree, policy.qualify parsed schema = .ok tree →
    db.answer tree = db.answer parsed
  /-- With a limit there are the first rows. -/
  limited : ∀ tree limit others this more n, Node.args tree "limit" = limit :: others →
    (Node.args limit "expression").map Node.type = .literal this false :: more →
      policy.int this = some n → 0 < n →
        db.answer tree = (db.answer (SQLPolicy.withoutLimit tree)).take n.toNat
  /-- `int` reads what `str` writes. -/
  int : ∀ n : ℤ, policy.int (toString n) = some n

/-! ## The rows of the statement that is run -/

namespace Postgres

open SQLPolicy

variable {db : Postgres} {policy : SQLPolicy} {catalog : CatalogSnapshot}

theorem Lawful.answer_setLimit (h : db.Lawful policy) (tree : Node) {rowLimit : ℤ}
    (hpos : 0 < rowLimit) :
    db.answer (setLimit tree rowLimit) = (db.answer (withoutLimit tree)).take rowLimit.toNat := by
  rw [← withoutLimit_setLimit tree rowLimit]
  exact h.limited _ _ _ _ _ _ (Node.args_set _ _ _ _) rfl (h.int rowLimit) hpos

/-- The statement with its new limit has the first rows of the statement as it was. -/
theorem Lawful.answer_rewriteLimit (h : db.Lawful policy) {tree final : Node} {rowLimit : ℤ}
    (hlimit : policy.rewriteLimit tree = .ok (rowLimit, final)) :
    db.answer final = (db.answer tree).take policy.maxRows := by
  have hpos := policy.maxRows_pos
  unfold SQLPolicy.rewriteLimit at hlimit
  split at hlimit
  · rename_i hnone
    obtain ⟨rfl, rfl⟩ := Prod.mk.inj (Except.ok.inj hlimit)
    rw [h.answer_setLimit tree (by omega), withoutLimit_eq hnone]
    rfl
  · rename_i limit others hargs
    split at hlimit
    · rename_i this more hliteral
      split at hlimit
      · rename_i requested hint
        split at hlimit
        · exact nomatch hlimit
        · rename_i hrequested
          obtain ⟨rfl, rfl⟩ := Prod.mk.inj (Except.ok.inj hlimit)
          rw [h.answer_setLimit tree (by omega),
            h.limited _ _ _ _ _ _ hargs hliteral hint (by omega), List.take_take]
          congr 1
          omega
      · exact nomatch hlimit
    · exact nomatch hlimit

/-- A statement is answered with the first rows of what was proposed. -/
theorem Lawful.fetchmany_eq (h : db.Lawful policy) {sql : String} {parsed : Node}
    {principal : SQLPrincipal} {v : ValidatedSQL} {cursor : SQLCursor}
    (hparsed : policy.parseSelect sql = .ok parsed)
    (haccepted : policy.validateAndRewrite sql catalog principal = .ok v)
    (hcursor : db.connection.execute v.sql = .ok cursor) (n : ℕ) :
    cursor.fetchmany n = ((db.answer parsed).take policy.maxRows).take n := by
  obtain ⟨tree, tables, root, final, hqualified, hfinal⟩ := validateAndRewrite_ok haccepted
  obtain ⟨parsed', hparsed'⟩ := qualified_ok hqualified
  obtain rfl := Except.ok.inj (hparsed.symm.trans hparsed'.parse)
  rw [h.printed _ _ _ hfinal.sql hcursor, h.answer_rewriteLimit hfinal.limit,
    h.qualified _ _ _ hparsed'.qualified]

end Postgres

/-! ## When it is told -/

section Told

variable {db : Postgres} {policy : SQLPolicy} {catalog : CatalogSnapshot}
  {limits : SQLExecutionLimits} {sql : String} {parsed : Node} {principal reader : SQLPrincipal}
  {v : ValidatedSQL} {result : SQLExecutionResult} {safe : SanitizedSQLResult} {now : Timestamp}

theorem truncated_of_applyResultPolicy
    (h : applyResultPolicy now result principal catalog v = .ok safe) :
    safe.truncated = result.truncated := by
  obtain ⟨rows, -, h⟩ := bind_eq_ok.1 h
  rw [← Except.ok.inj h]

/-- With the executor's limit in the policy, a result without all rows that were proposed is
taken for cut exactly if no more rows were proposed than the limit, or those up to the limit
have too many bytes. -/
theorem truncation_told_iff (hlaw : db.Lawful policy)
    (hlimits : limits.maxResultRows = policy.maxRows)
    (hparsed : policy.parseSelect sql = .ok parsed)
    (haccepted : policy.validateAndRewrite sql catalog principal = .ok v)
    (hresult : limits.execute db.connection v reader = .ok result)
    (hsafe : applyResultPolicy now result reader catalog v = .ok safe) :
    (result.rows.length < (db.answer parsed).length →
      result.truncated = true ∧ safe.truncated = true) ↔
    (db.answer parsed).length ≤ policy.maxRows ∨
      limits.maxResultBytes <
        Budget.total limits.rowBytes ((db.answer parsed).take policy.maxRows) := by
  obtain ⟨cursor, hcursor, hrows, htruncated, -⟩ := SQLExecutionLimits.of_execute hresult
  have hfetched := hlaw.fetchmany_eq hparsed haccepted hcursor
  -- the row more is beyond the limit of the statement
  have hshort : cursor.fetchmany (limits.maxResultRows + 1) =
      (db.answer parsed).take policy.maxRows := by
    rw [hfetched, List.take_take, hlimits, Nat.min_eq_right (Nat.le_succ _)]
  have hkept : limits.keptRows cursor = Budget.fitting limits.rowBytes limits.maxResultBytes
      ((db.answer parsed).take policy.maxRows) := by
    rw [SQLExecutionLimits.keptRows, hshort, List.take_take, hlimits, Nat.min_self]
  rw [hkept, hshort, ne_eq, Budget.fitting_eq_self_iff, not_le] at htruncated
  rw [truncated_of_applyResultPolicy hsafe, and_self, htruncated, hrows, List.length_map, hkept]
  constructor
  · intro htold
    by_cases hbytes : limits.maxResultBytes <
        Budget.total limits.rowBytes ((db.answer parsed).take policy.maxRows)
    · exact Or.inr hbytes
    · refine Or.inl (not_lt.1 fun hmore => hbytes (htold ?_))
      rw [Budget.fitting_eq_self_iff.2 (not_lt.1 hbytes), List.length_take]
      omega
  · rintro (hall | hbytes) hmissing
    · rw [List.take_of_length_le hall] at hmissing ⊢
      by_contra hfits
      rw [Budget.fitting_eq_self_iff.2 (not_lt.1 hfits)] at hmissing
      exact absurd hmissing (lt_irrefl _)
    · exact hbytes

end Told

/-! ## A table of people -/

def peopleText : List Char :=
  "SELECT p.name AS name FROM bank.people AS p".toList

/-- The text of a limit. -/
def limitText (tree : Node) : List Char :=
  match Node.args tree "limit" with
  | [] => []
  | limit :: _ =>
    match (Node.args limit "expression").map Node.type with
    | .literal this false :: _ => " LIMIT ".toList ++ this.toList
    | _ => []

/-- The rows of a text. -/
def rowsOfText (rows : List (List Cell)) (text : List Char) : List (List Cell) :=
  if text = peopleText then rows
  else
    match (String.ofList (text.drop (peopleText.length + 7))).toInt? with
    | some n => rows.take n.toNat
    | none => []

/-- At most one row, of the one statement there is. -/
def oneRowPolicy : SQLPolicy where
  toSQLPolicyConfig := { bankConfig with maxRows := 1, maxRows_pos := Nat.one_pos }
  toSqlGlot := { glotFor peopleQuery "" with
    sql := fun tree => .ok (.ofList (peopleText ++ limitText tree)) }

def oneRow : SQLExecutionLimits where
  maxResultRows := 1
  maxResultBytes := 1000
  maxCellChars := 100
  maxResultRows_pos := by decide
  maxResultBytes_pos := by decide
  maxCellChars_pos := by decide

def peopleDatabase (rows : List (List Cell)) : Postgres where
  answer tree := rowsOfText rows (peopleText ++ limitText tree)
  connection :=
    { prepareTransaction := fun _ => .ok ()
      execute := fun text =>
        .ok { description := some ["name"], fetchmany := (rowsOfText rows text.toList).take }
      durationMs := 1 }

theorem rowsOfText_limit {rows : List (List Cell)} {tree limit : Node} {others : List Node}
    {this : String} {more : List NodeType} {n : ℤ}
    (hlimit : Node.args tree "limit" = limit :: others)
    (hliteral : (Node.args limit "expression").map Node.type = .literal this false :: more)
    (hint : this.toInt? = some n) :
    rowsOfText rows (peopleText ++ limitText tree) = rows.take n.toNat := by
  have htext : limitText tree = " LIMIT ".toList ++ this.toList := by
    rw [limitText, hlimit]
    dsimp only
    rw [hliteral]
  have hdrop : (peopleText ++ (" LIMIT ".toList ++ this.toList)).drop (peopleText.length + 7) =
      this.toList := by
    rw [← List.append_assoc]
    exact List.drop_left' List.length_append
  have hlonger : peopleText ++ (" LIMIT ".toList ++ this.toList) ≠ peopleText := by
    rw [ne_eq, List.append_right_eq_self]
    exact List.append_ne_nil_of_left_ne_nil (by decide) _
  rw [rowsOfText, htext, if_neg hlonger, hdrop, String.ofList_toList, hint]

theorem rowsOfText_people (rows : List (List Cell)) : rowsOfText rows peopleText = rows :=
  if_pos rfl

theorem lawful_peopleDatabase (rows : List (List Cell)) :
    (peopleDatabase rows).Lawful oneRowPolicy where
  printed tree text cursor htext hcursor n := by
    obtain rfl := Except.ok.inj htext
    obtain rfl := Except.ok.inj hcursor
    dsimp only [peopleDatabase]
    rw [String.toList_ofList]
  qualified parsed schema tree h := by
    obtain rfl := Except.ok.inj h
    rfl
  limited tree limit others this more n hlimit hliteral hint hpos := by
    have hwithout : limitText (SQLPolicy.withoutLimit tree) = [] := by
      rw [limitText, SQLPolicy.args_withoutLimit]
    dsimp only [peopleDatabase]
    rw [rowsOfText_limit hlimit hliteral hint, hwithout, List.append_nil, rowsOfText_people]
  int := Int.toInt?_repr

/-- A table of two people. -/
def twoPeople : Postgres :=
  peopleDatabase [[.text "Asha"], [.text "Ravi"]]

/-- One of them is returned. -/
theorem exists_run_twoPeople : ∃ v result safe,
    oneRowPolicy.validateAndRewrite "SELECT name FROM bank.people" bankCatalog
      ⟨"alice", false, none, []⟩ = .ok v ∧
    oneRow.execute twoPeople.connection v ⟨"alice", false, none, []⟩ = .ok result ∧
    applyResultPolicy 0 result ⟨"alice", false, none, []⟩ bankCatalog v = .ok safe ∧
    result.rows.length = 1 ∧ result.truncated = false ∧ safe.truncated = false := by
  have hrows : rowsOfText [[.text "Asha"], [.text "Ravi"]]
      (peopleText ++ limitText (SQLPolicy.setLimit peopleQuery 1)) = [[.text "Asha"]] :=
    rowsOfText_limit rfl rfl (Int.toInt?_repr 1)
  have hexecute : twoPeople.connection.execute
      (.ofList (peopleText ++ limitText (SQLPolicy.setLimit peopleQuery 1))) =
        .ok { description := some ["name"], fetchmany := [[.text "Asha"]].take } := by
    dsimp only [twoPeople, peopleDatabase]
    rw [String.toList_ofList, hrows]
  obtain ⟨v, hv, hsql, hflags⟩ : ∃ v,
      oneRowPolicy.validateAndRewrite "SELECT name FROM bank.people" bankCatalog
        ⟨"alice", false, none, []⟩ = .ok v ∧
      v.sql = .ofList (peopleText ++ limitText (SQLPolicy.setLimit peopleQuery 1)) ∧
      v.projectionSensitive = [true] :=
    ⟨_, rfl, rfl, rfl⟩
  rw [← hsql] at hexecute
  obtain ⟨bytes, hresult, -⟩ := @SQLExecutionLimits.execute_eq oneRow _ v ⟨"alice", false, none, []⟩ _
    rfl hexecute
  refine ⟨v, _, ⟨["name"], [[mask]], 1, false, 0⟩, hv, hresult, ?_, rfl, rfl, rfl⟩
  rw [applyResultPolicy, hflags]
  rfl

theorem length_answer_twoPeople : (twoPeople.answer peopleQuery).length = 2 := by
  change (rowsOfText _ peopleText).length = 2
  rw [rowsOfText_people]
  rfl

/-- Two rows are proposed, and one is returned as if it were all. -/
theorem truncation_not_told : ∃ v result safe, twoPeople.Lawful oneRowPolicy ∧
    oneRow.maxResultRows = oneRowPolicy.maxRows ∧
    oneRowPolicy.parseSelect "SELECT name FROM bank.people" = .ok peopleQuery ∧
    oneRowPolicy.validateAndRewrite "SELECT name FROM bank.people" bankCatalog
      ⟨"alice", false, none, []⟩ = .ok v ∧
    oneRow.execute twoPeople.connection v ⟨"alice", false, none, []⟩ = .ok result ∧
    applyResultPolicy 0 result ⟨"alice", false, none, []⟩ bankCatalog v = .ok safe ∧
    result.rows.length < (twoPeople.answer peopleQuery).length ∧
    result.truncated = false ∧ safe.truncated = false := by
  obtain ⟨v, result, safe, hv, hresult, hsafe, hlength, htruncated⟩ := exists_run_twoPeople
  refine ⟨v, result, safe, lawful_peopleDatabase _, rfl, rfl, hv, hresult, hsafe, ?_, htruncated⟩
  rw [hlength, length_answer_twoPeople]
  exact Nat.lt_succ_self 1

theorem truncation_told_iff_twoPeople : ∃ v result safe,
    oneRow.execute twoPeople.connection v ⟨"alice", false, none, []⟩ = .ok result ∧
    applyResultPolicy 0 result ⟨"alice", false, none, []⟩ bankCatalog v = .ok safe ∧
    ((result.rows.length < (twoPeople.answer peopleQuery).length →
      result.truncated = true ∧ safe.truncated = true) ↔
    (twoPeople.answer peopleQuery).length ≤ 1 ∨
      1000 < Budget.total oneRow.rowBytes ((twoPeople.answer peopleQuery).take 1)) := by
  obtain ⟨v, result, safe, hv, hresult, hsafe, -⟩ := exists_run_twoPeople
  exact ⟨v, result, safe, hresult, hsafe,
    truncation_told_iff (lawful_peopleDatabase _) rfl rfl hv hresult hsafe⟩

end EnterpriseRag
