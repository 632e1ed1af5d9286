import EnterpriseRag.Core.Text
import EnterpriseRag.Library.LastMatch
import EnterpriseRag.Sql.Ast
import Mathlib.Data.List.DropRight
import Mathlib.Data.List.Infix
import Mathlib.Data.List.Sort

/-!
# The SQL policy

`validateAndRewrite` accepts a generated statement or raises the violation it found
first. Each block of the source is a definition of its own, in the order of the source :
`parseSelect`, `checkStructure`, `checkTable`, `qualifyTree`, `checkColumn`,
`columnIsSensitive`, `checkFunctions`, `rewriteLimit`. `Accepted` is what is known of a
statement that passed them all (`validateAndRewrite_ok`).

The parser, the qualifier, the scopes and the printer of `sqlglot` are parameters
(`SqlGlot`), and so are the text functions of the language.
-/

open LastMatch

namespace EnterpriseRag

structure SQLPolicyConfig where
  policyVersion : String
  allowedSchemas : List String
  allowedFunctions : List String
  maxJoins : ℕ
  maxRows : ℕ
  maxRows_pos : 0 < maxRows
  requireQualifiedTables : Bool := true

/-! ## What the policy uses -/

/-- A source of a scope : a table, or anything else (another scope). -/
inductive Source
  | table (ref : TableRef)
  | scope
  deriving DecidableEq, Repr

structure ScopeInfo where
  sources : List (String × Source)
  columns : List ColumnRef

/-- A scope and the scopes inside it. -/
abbrev Scope := RoseTree ScopeInfo

/-- What `sqlglot` raises : a `ParseError`, another `SqlglotError`, or something else. -/
inductive GlotError
  | parseError
  | sqlglotError (name : String)
  | other (error : Raised)

/-- `{schema: {table: {column: data_type}}}`. -/
abbrev QualifySchema := List (String × List (String × List (String × String)))

structure SqlGlot where
  /-- `str.casefold`. -/
  casefold : String → String
  /-- `int` of a string. -/
  int : String → Option ℤ
  sha256 : String → String
  parse : String → Except GlotError (List (Option Node))
  qualify : Node → QualifySchema → Except GlotError Node
  buildScope : Node → Except Raised (Option Scope)
  /-- `tree.sql(dialect="postgres", pretty=False)`. -/
  sql : Node → Except Raised String

structure SQLPolicy extends SQLPolicyConfig, SqlGlot

/-- A check of the policy. -/
def require (p : Prop) [Decidable p] (code : String) : Except Raised Unit :=
  if p then .ok () else .error (.sqlPolicyViolation code)

theorem require_eq_ok {p : Prop} [Decidable p] {code : String} {u : Unit} :
    require p code = .ok u ↔ p := by
  simp [require]

/-- `rstrip`. -/
def rstrip (p : Char → Bool) (s : List Char) : List Char :=
  s.rdropWhile p

/-- Change the value of a key of a dictionary. -/
def setKey {α : Type} (key : String) (f : Option α → α) :
    List (String × α) → List (String × α)
  | [] => [(key, f none)]
  | (k, a) :: rest => if k = key then (k, f (some a)) :: rest else (k, a) :: setKey key f rest

/-- `_build_qualify_schema`. -/
def buildQualifySchema (columns : List CatalogColumn) : QualifySchema :=
  columns.foldl
    (fun schema c => setKey c.schemaName
      (fun tables => setKey c.tableName
        (fun tableColumns => setKey c.columnName (fun _ => c.dataType) (tableColumns.getD []))
        (tables.getD []))
      schema) []

/-- `_FORBIDDEN_NODES`. -/
def forbiddenNodes : List NodeType :=
  [.insert, .update, .delete, .merge, .create, .drop, .alter, .command, .transaction, .commit,
    .rollback, .grant]

/-- The classes no accepted statement holds a node of. -/
def NodeType.isForbidden (type : NodeType) : Bool :=
  type ∈ forbiddenNodes ++ [.into, .lock, .star, .cte, .subquery, .union, .setOperation, .lateral]

namespace SQLPolicy

/-! ## The blocks of `validate_and_rewrite` -/

/-- `sqlglot.parse`, with its `ParseError` as a violation. -/
def parseStatements (policy : SQLPolicy) (sql : String) : Except Raised (List (Option Node)) :=
  match policy.parse sql with
  | .ok statements => .ok statements
  | .error .parseError => .error (.sqlPolicyViolation "parse_error")
  | .error (.sqlglotError name) => .error (.exception name)
  | .error (.other e) => .error e

def parseSelect (policy : SQLPolicy) (sql : String) : Except Raised Node := do
  require (¬("--".toList <:+: sql.toList ∨ "/*".toList <:+: sql.toList ∨
    "*/".toList <:+: sql.toList)) "comments_forbidden"
  require (';' ∉ rstrip (· = ';') (rstrip isSpace sql.toList)) "multiple_statements"
  match (← policy.parseStatements sql).filterMap id with
  | [tree] => do
    require (Node.type tree = .select) "select_only"
    return tree
  | _ => .error (.sqlPolicyViolation "multiple_statements")

def checkStructure (policy : SQLPolicy) (tree : Node) : Except Raised Unit := do
  require (∀ type ∈ forbiddenNodes, ¬Node.has tree (· = type)) "forbidden_statement"
  require (¬Node.has tree (· = .into)) "select_into_forbidden"
  require (¬Node.has tree (· = .lock)) "locking_forbidden"
  require (¬Node.has tree (· = .star)) "select_star_forbidden"
  require (¬(Node.has tree (· = .cte) ∨ Node.args tree "with" ≠ []))
    "cte_forbidden_initial_release"
  require (¬Node.has tree (· = .subquery)) "subquery_forbidden_initial_release"
  require (¬(Node.has tree (· = .union) ∨
    Node.has tree (fun type => type = .union ∨ type = .setOperation)))
    "set_operation_forbidden_initial_release"
  require (¬Node.has tree (· = .lateral)) "lateral_forbidden_initial_release"
  require ((tree.walk.filter fun n => Node.type n = .join).length ≤ policy.maxJoins)
    "too_many_joins"

/-- The casefolded names of a table. -/
def tableKey (policy : SQLPolicy) (t : TableRef) : String × String :=
  (policy.casefold t.db.this, policy.casefold t.name.this)

/-- The casefolded names of a column of a table. -/
def columnKey (policy : SQLPolicy) (t : TableRef) (c : ColumnRef) : String × String × String :=
  (policy.casefold t.db.this, policy.casefold t.name.this, policy.casefold c.name.this)

/-- The casefolded names of a catalog entry. -/
def entryKey (policy : SQLPolicy) (e : CatalogColumn) : String × String × String :=
  (policy.casefold e.schemaName, policy.casefold e.tableName, policy.casefold e.columnName)

def checkTable (policy : SQLPolicy) (catalog : CatalogSnapshot) (t : TableRef) :
    Except Raised String := do
  let (schemaName, tableName) := policy.tableKey t
  require (¬(policy.requireQualifiedTables ∧ schemaName = "")) "unqualified_table"
  require (schemaName ∈ policy.allowedSchemas) "schema_not_allowed"
  require ((schemaName, tableName) ∈
    catalog.columns.map fun e => (policy.casefold e.schemaName, policy.casefold e.tableName))
    "table_not_allowed"
  return schemaName ++ "." ++ tableName

/-- `qualify`, with every `SqlglotError` as a violation. -/
def qualifyColumns (policy : SQLPolicy) (catalog : CatalogSnapshot) (parsed : Node) :
    Except Raised Node :=
  match policy.qualify parsed (buildQualifySchema catalog.columns) with
  | .ok tree => .ok tree
  | .error (.other e) => .error e
  | .error _ => .error (.sqlPolicyViolation "column_qualification_failed")

def qualifyTree (policy : SQLPolicy) (catalog : CatalogSnapshot) (parsed : Node) :
    Except Raised Node := do
  let tree ← policy.qualifyColumns catalog parsed
  require (Node.type tree = .select) "select_only"
  return tree

def rootScope (policy : SQLPolicy) (tree : Node) : Except Raised Scope := do
  match ← policy.buildScope tree with
  | some root => .ok root
  | none => .error (.sqlPolicyViolation "scope_resolution_failed")

/-- The table a column's qualifier names, in a dictionary of casefolded aliases. -/
def sourceOf (policy : SQLPolicy) (sources : List (String × Source)) (c : ColumnRef) :
    Except Raised TableRef := do
  let qualifier := policy.casefold c.table.this
  require (qualifier ≠ "") "unqualified_column"
  match findLast (fun s => decide (policy.casefold s.1 = qualifier)) sources with
  | some (_, .table t) => .ok t
  | _ => .error (.sqlPolicyViolation "column_source_not_concrete")

def checkColumn (policy : SQLPolicy) (catalog : CatalogSnapshot)
    (sources : List (String × Source)) (c : ColumnRef) : Except Raised String := do
  let t ← policy.sourceOf sources c
  require (policy.columnKey t c ∈ catalog.columns.map policy.entryKey) "column_not_allowed"
  let (schemaName, tableName, columnName) := policy.columnKey t c
  return schemaName ++ "." ++ tableName ++ "." ++ columnName

/-- `_column_is_sensitive`. -/
def columnIsSensitive (policy : SQLPolicy) (catalog : CatalogSnapshot)
    (sources : List (String × Source)) (c : ColumnRef) : Except Raised Bool := do
  let t ← policy.sourceOf sources c
  match findLast (fun e => decide (policy.entryKey e = policy.columnKey t c)) catalog.columns with
  | some e => return e.sensitive
  | none => return false

/-- A function's name is allowlisted, or it is a connective. -/
def functionAllowed (policy : SQLPolicy) : NodeType → Bool
  | .func sqlName =>
    policy.casefold sqlName = "" ∨ policy.casefold sqlName ∈ policy.allowedFunctions
  | _ => true

def checkFunctions (policy : SQLPolicy) (tree : Node) : Except Raised Unit :=
  require (∀ n ∈ tree.walk, policy.functionAllowed (Node.type n)) "function_not_allowed"

/-- `tree.set("limit", exp.Limit(expression=exp.Literal.number(row_limit)))`. -/
def setLimit (tree : Node) (rowLimit : ℤ) : Node :=
  Node.set tree "limit" .limit [.node ⟨"expression", .literal (toString rowLimit) false⟩ []]

/-- `_rewrite_limit` : the row limit, and the tree that has it. -/
def rewriteLimit (policy : SQLPolicy) (tree : Node) : Except Raised (ℤ × Node) :=
  match Node.args tree "limit" with
  | [] => .ok (policy.maxRows, setLimit tree policy.maxRows)
  | limit :: _ =>
    match (Node.args limit "expression").map Node.type with
    | .literal this false :: _ =>
      match policy.int this with
      | some requested =>
        if requested ≤ 0 then .error (.sqlPolicyViolation "non_positive_limit")
        else
          let rowLimit := min requested policy.maxRows
          .ok (rowLimit, setLimit tree rowLimit)
      | none => .error (.sqlPolicyViolation "dynamic_limit_forbidden")
    | _ => .error (.sqlPolicyViolation "dynamic_limit_forbidden")

/-- `tuple(sorted(…))` of a set. -/
def sortedSet (names : List String) : List String :=
  names.dedup.insertionSort (· ≤ ·)

/-- The first half : the qualified tree, and the tables referenced. -/
def qualified (policy : SQLPolicy) (catalog : CatalogSnapshot) (sql : String) :
    Except Raised (Node × List String) := do
  let parsed ← policy.parseSelect sql
  policy.checkStructure parsed
  let referencedTables ← (Node.tables parsed).mapM (policy.checkTable catalog)
  let tree ← policy.qualifyTree catalog parsed
  return (tree, referencedTables)

def validateAndRewrite (policy : SQLPolicy) (sql : String) (catalog : CatalogSnapshot)
    (_principal : SQLPrincipal) : Except Raised ValidatedSQL := do
  let (tree, referencedTables) ← policy.qualified catalog sql
  let root ← policy.rootScope tree
  let referencedColumns ← root.postorder.mapM fun scope =>
    scope.columns.mapM (policy.checkColumn catalog scope.sources)
  let projectionSensitive ← (Node.selects tree).mapM fun projection =>
    (Node.columns projection).anyM (policy.columnIsSensitive catalog root.label.sources)
  policy.checkFunctions tree
  let (rowLimit, tree) ← policy.rewriteLimit tree
  let normalized ← policy.sql tree
  return {
    sql := normalized
    fingerprint := policy.sha256
      (policy.policyVersion ++ "\x00" ++ toString catalog.version ++ "\x00" ++ normalized)
    referencedTables := sortedSet referencedTables
    referencedColumns := sortedSet referencedColumns.flatten
    projectionSensitive
    rowLimit
    policyVersion := policy.policyVersion }

/-! ## What an accepted statement passed -/

variable {policy : SQLPolicy} {catalog : CatalogSnapshot}

theorem sourceOf_eq_ok {sources : List (String × Source)} {c : ColumnRef} {t : TableRef} :
    policy.sourceOf sources c = .ok t ↔ policy.casefold c.table.this ≠ "" ∧
      ∃ name, IsLast (fun s : String × Source =>
        policy.casefold s.1 = policy.casefold c.table.this) (name, .table t) sources := by
  simp only [sourceOf, bind_eq_ok, require_eq_ok, exists_const]
  refine and_congr_right fun _ => ?_
  simp only [← findLast_eq_some_iff]
  constructor
  · intro h
    split at h
    · rename_i name t' hlast
      obtain rfl := Except.ok.inj h
      exact ⟨name, hlast⟩
    · simp at h
  · rintro ⟨name, hlast⟩
    rw [hlast]

theorem checkColumn_ok {sources : List (String × Source)} {c : ColumnRef} {name : String}
    (h : policy.checkColumn catalog sources c = .ok name) :
    ∃ t, policy.sourceOf sources c = .ok t ∧
      ∃ e ∈ catalog.columns, policy.entryKey e = policy.columnKey t c := by
  obtain ⟨t, ht, h⟩ := bind_eq_ok.1 h
  obtain ⟨u, hlisted, -⟩ := bind_eq_ok.1 h
  exact ⟨t, ht, List.mem_map.1 (require_eq_ok.1 hlisted)⟩

/-- A column is taken for sensitive when the last catalog entry with its names is. -/
theorem columnIsSensitive_eq_true {sources : List (String × Source)} {c : ColumnRef} :
    policy.columnIsSensitive catalog sources c = .ok true ↔
      ∃ t e, policy.sourceOf sources c = .ok t ∧
        IsLast (fun e => policy.entryKey e = policy.columnKey t c) e catalog.columns ∧
        e.sensitive := by
  simp only [columnIsSensitive, bind_eq_ok, ← findLast_eq_some_iff]
  constructor
  · rintro ⟨t, ht, h⟩
    split at h
    · rename_i e hlast
      exact ⟨t, e, ht, hlast, Except.ok.inj h⟩
    · simp [pure, Except.pure] at h
  · rintro ⟨t, e, ht, hlast, hsensitive⟩
    refine ⟨t, ht, ?_⟩
    rw [hlast]
    exact congrArg Except.ok hsensitive

theorem checkTable_ok {t : TableRef} {name : String}
    (h : policy.checkTable catalog t = .ok name) :
    (policy.tableKey t).1 ∈ policy.allowedSchemas ∧ ∃ e ∈ catalog.columns,
      (policy.casefold e.schemaName, policy.casefold e.tableName) = policy.tableKey t := by
  obtain ⟨u, -, h⟩ := bind_eq_ok.1 h
  obtain ⟨u, hschema, h⟩ := bind_eq_ok.1 h
  obtain ⟨u, hlisted, -⟩ := bind_eq_ok.1 h
  exact ⟨require_eq_ok.1 hschema, List.mem_map.1 (require_eq_ok.1 hlisted)⟩

theorem rewriteLimit_ok {tree final : Node} {rowLimit : ℤ}
    (h : policy.rewriteLimit tree = .ok (rowLimit, final)) :
    1 ≤ rowLimit ∧ rowLimit ≤ policy.maxRows ∧ final = setLimit tree rowLimit := by
  have hpos := policy.maxRows_pos
  unfold rewriteLimit at h
  split at h
  · obtain ⟨rfl, rfl⟩ := Prod.mk.inj (Except.ok.inj h)
    exact ⟨by omega, le_rfl, rfl⟩
  · split at h
    · split at h
      · split at h
        · simp at h
        · obtain ⟨rfl, rfl⟩ := Prod.mk.inj (Except.ok.inj h)
          exact ⟨by omega, by omega, rfl⟩
      · simp at h
    · simp at h

/-- The parsed statement passed the checks made before it is qualified. -/
structure Parsed (policy : SQLPolicy) (catalog : CatalogSnapshot) (sql : String)
    (parsed tree : Node) : Prop where
  parse : policy.parseSelect sql = .ok parsed
  structured : ∀ n ∈ parsed.walk, ¬(Node.type n).isForbidden
  tables : ∀ t ∈ Node.tables parsed, ∃ name, policy.checkTable catalog t = .ok name
  qualified : policy.qualify parsed (buildQualifySchema catalog.columns) = .ok tree
  select : Node.type tree = .select

/-- The statement passed all checks, and `final` is the tree that is returned as text. -/
structure Accepted (policy : SQLPolicy) (catalog : CatalogSnapshot) (tree : Node) (root : Scope)
    (final : Node) (v : ValidatedSQL) : Prop where
  rooted : policy.rootScope tree = .ok root
  columns : ∀ scope ∈ root.postorder, ∀ c ∈ scope.columns,
    ∃ name, policy.checkColumn catalog scope.sources c = .ok name
  sensitive : (Node.selects tree).mapM (fun projection => (Node.columns projection).anyM
    (policy.columnIsSensitive catalog root.label.sources)) = .ok v.projectionSensitive
  functions : ∀ n ∈ tree.walk, policy.functionAllowed (Node.type n)
  limit : policy.rewriteLimit tree = .ok (v.rowLimit, final)
  sql : policy.sql final = .ok v.sql

theorem not_has {n : Node} {p : NodeType → Bool} :
    ¬Node.has n p ↔ ∀ m ∈ n.walk, ¬p (Node.type m) := by
  simp [Node.has]

/-- A statement passes if it has no node of a forbidden class, no WITH and few joins. -/
theorem checkStructure_eq_ok {n : Node} : policy.checkStructure n = .ok () ↔
    (∀ m ∈ n.walk, ¬(Node.type m).isForbidden) ∧ Node.args n "with" = [] ∧
      n.walk.countP (fun m => Node.type m = .join) ≤ policy.maxJoins := by
  simp only [checkStructure, bind_eq_ok, require_eq_ok, exists_const, not_has, not_or, not_not,
    List.countP_eq_length_filter]
  constructor
  · rintro ⟨hstatement, hinto, hlock, hstar, ⟨hcte, hwith⟩, hsubquery, ⟨-, hsets⟩, hlateral, hjoins⟩
    refine ⟨fun m hm hforbidden => ?_, hwith, hjoins⟩
    rw [NodeType.isForbidden, decide_eq_true_iff, List.mem_append] at hforbidden
    rcases hforbidden with htype | htype
    · exact hstatement _ htype m hm (by simp)
    · simp only [List.mem_cons, List.not_mem_nil, or_false] at htype
      rcases htype with htype | htype | htype | htype | htype | htype | htype | htype
      · exact hinto m hm (by simp [htype])
      · exact hlock m hm (by simp [htype])
      · exact hstar m hm (by simp [htype])
      · exact hcte m hm (by simp [htype])
      · exact hsubquery m hm (by simp [htype])
      · exact hsets m hm (by simp [htype])
      · exact hsets m hm (by simp [htype])
      · exact hlateral m hm (by simp [htype])
  · rintro ⟨hstructured, hwith, hjoins⟩
    have hnone : ∀ type : NodeType, type.isForbidden → ∀ m ∈ n.walk,
        ¬decide (Node.type m = type) = true := by
      intro type htype m hm heq
      exact hstructured m hm (of_decide_eq_true heq ▸ htype)
    refine ⟨fun type htype => hnone type ?_, hnone _ rfl, hnone _ rfl, hnone _ rfl,
      ⟨hnone _ rfl, hwith⟩, hnone _ rfl, ⟨hnone _ rfl, fun m hm hset => ?_⟩, hnone _ rfl, hjoins⟩
    · exact decide_eq_true (List.mem_append_left _ htype)
    · rcases of_decide_eq_true hset with hunion | hset
      · exact hnone .union rfl m hm (decide_eq_true hunion)
      · exact hnone .setOperation rfl m hm (decide_eq_true hset)

theorem qualifyColumns_eq_ok {parsed tree : Node} :
    policy.qualifyColumns catalog parsed = .ok tree ↔
      policy.qualify parsed (buildQualifySchema catalog.columns) = .ok tree := by
  unfold qualifyColumns
  constructor
  · intro h
    split at h
    · rename_i tree' hok
      rw [hok, Except.ok.inj h]
    · simp at h
    · simp at h
  · intro h
    rw [h]

theorem qualifyTree_eq_ok {parsed tree : Node} : policy.qualifyTree catalog parsed = .ok tree ↔
    policy.qualify parsed (buildQualifySchema catalog.columns) = .ok tree ∧
      Node.type tree = .select := by
  simp only [qualifyTree, bind_eq_ok, qualifyColumns_eq_ok, require_eq_ok, exists_const]
  constructor
  · rintro ⟨tree', hqualified, hselect, h⟩
    obtain rfl := Except.ok.inj h
    exact ⟨hqualified, hselect⟩
  · rintro ⟨hqualified, hselect⟩
    exact ⟨tree, hqualified, hselect, rfl⟩

theorem qualified_ok {sql : String} {tree : Node} {tables : List String}
    (h : policy.qualified catalog sql = .ok (tree, tables)) :
    ∃ parsed, policy.Parsed catalog sql parsed tree := by
  obtain ⟨parsed, hparsed, h⟩ := bind_eq_ok.1 h
  obtain ⟨u, hstructure, h⟩ := bind_eq_ok.1 h
  obtain ⟨names, htables, h⟩ := bind_eq_ok.1 h
  obtain ⟨tree', hqualify, h⟩ := bind_eq_ok.1 h
  obtain ⟨rfl, -⟩ := Prod.mk.inj (Except.ok.inj h)
  obtain ⟨hqualified, hselect⟩ := qualifyTree_eq_ok.1 hqualify
  exact ⟨parsed, hparsed, (checkStructure_eq_ok.1 hstructure).1, fun _ => mapM_ok htables,
    hqualified, hselect⟩

theorem validateAndRewrite_ok {sql : String} {principal : SQLPrincipal} {v : ValidatedSQL}
    (h : policy.validateAndRewrite sql catalog principal = .ok v) :
    ∃ tree tables root final, policy.qualified catalog sql = .ok (tree, tables) ∧
      policy.Accepted catalog tree root final v := by
  obtain ⟨⟨tree, tables⟩, hqualified, h⟩ := bind_eq_ok.1 h
  obtain ⟨root, hroot, h⟩ := bind_eq_ok.1 h
  obtain ⟨names, hcolumns, h⟩ := bind_eq_ok.1 h
  obtain ⟨sensitive, hsensitive, h⟩ := bind_eq_ok.1 h
  obtain ⟨u, hfunctions, h⟩ := bind_eq_ok.1 h
  obtain ⟨⟨rowLimit, final⟩, hlimit, h⟩ := bind_eq_ok.1 h
  obtain ⟨normalized, hsql, h⟩ := bind_eq_ok.1 h
  obtain rfl := Except.ok.inj h
  refine ⟨tree, tables, root, final, hqualified, hroot, fun scope hscope c hc => ?_, hsensitive,
    require_eq_ok.1 hfunctions, hlimit, hsql⟩
  obtain ⟨columnNames, hscope⟩ := mapM_ok hcolumns hscope
  exact mapM_ok hscope hc

end SQLPolicy

/-! ## A policy for one statement -/

/-- Parses everything into `tree`, which is qualified and has one scope, and prints
`text`. -/
def glotFor (tree : Node) (text : String) : SqlGlot where
  casefold := asciiLower
  int := String.toInt?
  sha256 := id
  parse _ := .ok [some tree]
  qualify tree _ := .ok tree
  buildScope tree := .ok (some (.node
    { sources := (Node.fromTables tree.children).map fun t => (t.aliasOrName.this, .table t)
      columns := Node.columns tree } []))
  sql _ := .ok text

def bankConfig : SQLPolicyConfig where
  policyVersion := "sql-policy-v1"
  allowedSchemas := ["bank"]
  allowedFunctions := ["count"]
  maxJoins := 2
  maxRows := 200
  maxRows_pos := by decide

def bankCatalog : CatalogSnapshot where
  version := 1
  columns := [
    { schemaName := "bank", tableName := "people", columnName := "id", dataType := "bigint" },
    { schemaName := "bank", tableName := "people", columnName := "name", dataType := "text"
      sensitive := true },
    { schemaName := "bank", tableName := "accounts", columnName := "id", dataType := "bigint" },
    { schemaName := "bank", tableName := "accounts", columnName := "name", dataType := "text" }]

def tableNode (name : String) (aliasName : Identifier) : Node :=
  .node ⟨"this", .table ⟨⟨"bank", false⟩, ⟨name, false⟩, aliasName⟩⟩ []

def columnNode (argKey : String) (table : Identifier) (name : String) : Node :=
  .node ⟨argKey, .column ⟨table, ⟨name, false⟩⟩⟩ []

/-- A projection with the name of its column. -/
def projectionNode (table : Identifier) (name : String) : Node :=
  .node ⟨"expressions", .other⟩ [columnNode "this" table name]

/-- `SELECT p.name AS name FROM bank.people AS p` -/
def peopleQuery : Node :=
  .node ⟨"", .select⟩ [projectionNode ⟨"p", false⟩ "name",
    .node ⟨"from", .other⟩ [tableNode "people" ⟨"p", false⟩]]

def peoplePolicy : SQLPolicy where
  toSQLPolicyConfig := bankConfig
  toSqlGlot := glotFor peopleQuery "SELECT p.name AS name FROM bank.people AS p LIMIT 200"

end EnterpriseRag
