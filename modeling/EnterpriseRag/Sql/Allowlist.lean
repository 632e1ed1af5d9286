import EnterpriseRag.Sql.Policy

/-!
# What an accepted statement is

`Plain` is the subset the policy documents, by PostgreSQL's own names and scoping. The
policy does not enforce all of it : a SELECT directly under `ANY` is not looked for, names
and aliases are compared casefolded, and every connective passes for `AND`
(`unplain_accepted`). `Checked` is what an accepted statement does satisfy
(`validateAndRewrite_checked`).

The policy makes some checks before the statement is qualified and a column check over the
scopes of the qualified one. `Faithful` is what this needs of `sqlglot` : qualifying adds
nothing the earlier checks look for, and scopes list the columns.
-/

open LastMatch

namespace EnterpriseRag

namespace SQLPolicy

variable {policy : SQLPolicy} {catalog : CatalogSnapshot}

/-- The limit of a statement is an integer literal between 1 and `max_rows`. -/
def Limited (policy : SQLPolicy) (final : Node) : Prop :=
  ∃ rowLimit : ℤ, 1 ≤ rowLimit ∧ rowLimit ≤ policy.maxRows ∧ Node.args final "limit" =
    [.node ⟨"limit", .limit⟩ [.node ⟨"expression", .literal (toString rowLimit) false⟩ []]]

/-- The statement the documentation promises : one plain SELECT over allowlisted tables,
columns and functions, by PostgreSQL's names and scoping. -/
structure Plain (policy : SQLPolicy) (catalog : CatalogSnapshot) (final : Node) : Prop where
  select : Node.type final = .select
  flat : ∀ c ∈ final.children, ∀ n ∈ c.walk, Node.type n ≠ .select
  structured : ∀ n ∈ final.walk, ¬(Node.type n).isForbidden
  tables : ∀ t ∈ Node.tables final, t.db.pg ∈ policy.allowedSchemas ∧
    ∃ e ∈ catalog.columns, e.schemaName = t.db.pg ∧ e.tableName = t.name.pg
  columns : ∀ b ∈ Node.bindings [] final, ∃ t ∈ b.2, ∃ e ∈ catalog.columns,
    e.schemaName = t.db.pg ∧ e.tableName = t.name.pg ∧ e.columnName = b.1.name.pg
  functions : ∀ n ∈ final.walk, ∀ sqlName,
    Node.type n = .func sqlName ∨ Node.type n = .connector sqlName →
      sqlName = "AND" ∨ sqlName = "OR" ∨ policy.casefold sqlName ∈ policy.allowedFunctions
  limited : policy.Limited final

/-- What an accepted statement satisfies : no forbidden node, and tables, columns and
functions allowlisted by casefolded names, a column in the sources of its scope. -/
structure Checked (policy : SQLPolicy) (catalog : CatalogSnapshot) (final : Node)
    (root : Scope) : Prop where
  select : Node.type final = .select
  structured : ∀ n ∈ final.walk, ¬(Node.type n).isForbidden
  tables : ∀ t ∈ Node.tables final, (policy.tableKey t).1 ∈ policy.allowedSchemas ∧
    ∃ e ∈ catalog.columns,
      (policy.casefold e.schemaName, policy.casefold e.tableName) = policy.tableKey t
  columns : ∀ c ∈ Node.columns final, c.table.this ≠ "" → ∃ scope ∈ root.postorder,
    c ∈ scope.columns ∧ ∃ name t, IsLast (fun s : String × Source =>
        policy.casefold s.1 = policy.casefold c.table.this) (name, .table t) scope.sources ∧
      ∃ e ∈ catalog.columns, policy.entryKey e = policy.columnKey t c
  functions : ∀ n ∈ final.walk, ∀ sqlName, Node.type n = .func sqlName →
    policy.casefold sqlName = "" ∨ policy.casefold sqlName ∈ policy.allowedFunctions
  limited : policy.Limited final

/-- What the policy relies on `sqlglot` for. -/
structure Faithful (glot : SqlGlot) : Prop where
  /-- Qualifying adds no node of a forbidden class. -/
  structured : ∀ parsed schema tree, glot.qualify parsed schema = .ok tree →
    ∀ n ∈ tree.walk, (Node.type n).isForbidden → ∃ m ∈ parsed.walk, Node.type m = Node.type n
  /-- Qualifying keeps the names of tables up to casefolding. -/
  tables : ∀ parsed schema tree, glot.qualify parsed schema = .ok tree →
    ∀ t ∈ Node.tables tree, ∃ t' ∈ Node.tables parsed,
      glot.casefold t.db.this = glot.casefold t'.db.this ∧
      glot.casefold t.name.this = glot.casefold t'.name.this
  /-- A qualified column is listed in a scope. -/
  columns : ∀ tree root, glot.buildScope tree = .ok (some root) →
    ∀ c ∈ Node.columns tree, c.table.this ≠ "" → ∃ scope ∈ root.postorder, c ∈ scope.columns

theorem rootScope_ok {tree : Node} {root : Scope} (h : policy.rootScope tree = .ok root) :
    policy.buildScope tree = .ok (some root) := by
  obtain ⟨found, hfound, h⟩ := bind_eq_ok.1 h
  cases found with
  | none => simp at h
  | some root' => rw [hfound, Except.ok.inj h]

/-- Rewriting the limit adds a limit and its literal only. -/
theorem mem_walk_of_setLimit {tree n : Node} {rowLimit : ℤ} (hselect : Node.type tree = .select)
    (h : n ∈ (setLimit tree rowLimit).walk) (hn : Node.type n ≠ .select ∧
      Node.type n ≠ .limit ∧ ∀ this isString, Node.type n ≠ .literal this isString) :
    n ∈ tree.walk := by
  rcases Node.mem_walk_set h with rfl | h | h
  · exact absurd hselect hn.1
  · exact h
  · rw [RoseTree.mem_walk] at h
    rcases h with rfl | ⟨c, hc, h⟩
    · exact absurd rfl hn.2.1
    · obtain rfl := List.mem_singleton.1 hc
      rw [RoseTree.mem_walk] at h
      rcases h with rfl | ⟨c, hc, -⟩
      · exact absurd rfl (hn.2.2 _ _)
      · simp at hc

theorem ne_of_isForbidden {type : NodeType} (h : type.isForbidden) : type ≠ .select ∧
    type ≠ .limit ∧ ∀ this isString, type ≠ .literal this isString := by
  refine ⟨?_, ?_, fun this isString => ?_⟩ <;> rintro rfl <;>
    simp [NodeType.isForbidden, forbiddenNodes] at h

theorem checkColumn_isLast {sources : List (String × Source)} {c : ColumnRef} {name : String}
    (h : policy.checkColumn catalog sources c = .ok name) :
    ∃ name t, IsLast (fun s : String × Source =>
        policy.casefold s.1 = policy.casefold c.table.this) (name, .table t) sources ∧
      ∃ e ∈ catalog.columns, policy.entryKey e = policy.columnKey t c := by
  obtain ⟨t, ht, hlisted⟩ := checkColumn_ok h
  obtain ⟨-, name, hsource⟩ := sourceOf_eq_ok.1 ht
  exact ⟨name, t, hsource, hlisted⟩

theorem checked_of_accepted (hfaithful : Faithful policy.toSqlGlot) {sql : String}
    {parsed tree final : Node} {root : Scope} {v : ValidatedSQL}
    (hparsed : policy.Parsed catalog sql parsed tree)
    (haccepted : policy.Accepted catalog tree root final v) :
    policy.Checked catalog final root := by
  obtain ⟨hone, hmax, rfl⟩ := rewriteLimit_ok haccepted.limit
  refine
    { select := hparsed.select
      structured := fun n hn hforbidden => ?_
      tables := fun t ht => ?_
      columns := fun c hc hqualified => ?_
      functions := fun n hn sqlName htype => ?_
      limited := ⟨_, hone, hmax, Node.args_set _ _ _ _⟩ }
  · have hn := mem_walk_of_setLimit hparsed.select hn (ne_of_isForbidden hforbidden)
    obtain ⟨m, hm, htype⟩ := hfaithful.structured _ _ _ hparsed.qualified n hn hforbidden
    exact hparsed.structured m hm (htype ▸ hforbidden)
  · obtain ⟨n, hn, htype⟩ := Node.mem_tables.1 ht
    have hn := mem_walk_of_setLimit hparsed.select hn (by simp [htype])
    obtain ⟨t', ht', hdb, hname⟩ := hfaithful.tables _ _ _ hparsed.qualified t
      (Node.mem_tables.2 ⟨n, hn, htype⟩)
    have hkey : policy.tableKey t = policy.tableKey t' := by rw [tableKey, tableKey, hdb, hname]
    obtain ⟨name, hname⟩ := hparsed.tables t' ht'
    rw [hkey]
    exact checkTable_ok hname
  · obtain ⟨n, hn, htype⟩ := Node.mem_columns.1 hc
    have hn := mem_walk_of_setLimit hparsed.select hn (by simp [htype])
    obtain ⟨scope, hscope, hlisted⟩ := hfaithful.columns tree root (rootScope_ok haccepted.rooted)
      c (Node.mem_columns.2 ⟨n, hn, htype⟩) hqualified
    obtain ⟨name, hname⟩ := haccepted.columns scope hscope c hlisted
    exact ⟨scope, hscope, hlisted, checkColumn_isLast hname⟩
  · have hn := mem_walk_of_setLimit hparsed.select hn (by simp [htype])
    have hallowed := haccepted.functions n hn
    rw [htype] at hallowed
    simpa [functionAllowed] using hallowed

theorem faithful_glotFor (tree : Node) (text : String) : Faithful (glotFor tree text) where
  structured parsed _ tree h n hn _ := by
    obtain rfl := Except.ok.inj h
    exact ⟨n, hn, rfl⟩
  tables parsed _ tree h t ht := by
    obtain rfl := Except.ok.inj h
    exact ⟨t, ht, rfl, rfl⟩
  columns tree root h c hc _ := by
    obtain rfl := Option.some.inj (Except.ok.inj h)
    exact ⟨_, RoseTree.label_mem_postorder _, hc⟩

/-- The policy accepts a statement that is not plain. -/
def AcceptsUnplain (policy : SQLPolicy) (catalog : CatalogSnapshot) (sql : String) : Prop :=
  ∃ v tree tables final, policy.validateAndRewrite sql catalog ⟨"ann", true, none, []⟩ = .ok v ∧
    policy.qualified catalog sql = .ok (tree, tables) ∧
    policy.rewriteLimit tree = .ok (v.rowLimit, final) ∧ ¬policy.Plain catalog final

/-- `SELECT p.id AS id FROM bank.people AS p WHERE p.id = ANY(SELECT a.id AS id FROM
bank.accounts AS a)` -/
def anyQuery : Node :=
  .node ⟨"", .select⟩ [projectionNode ⟨"p", false⟩ "id",
    .node ⟨"from", .other⟩ [tableNode "people" ⟨"p", false⟩],
    .node ⟨"where", .other⟩ [.node ⟨"this", .other⟩ [columnNode "this" ⟨"p", false⟩ "id",
      .node ⟨"expression", .other⟩ [.node ⟨"this", .select⟩ [projectionNode ⟨"a", false⟩ "id",
        .node ⟨"from", .other⟩ [tableNode "accounts" ⟨"a", false⟩]]]]]]

def anyScope : Scope :=
  .node ⟨[("p", .table ⟨⟨"bank", false⟩, ⟨"people", false⟩, ⟨"p", false⟩⟩)],
      [⟨⟨"p", false⟩, ⟨"id", false⟩⟩, ⟨⟨"p", false⟩, ⟨"id", false⟩⟩]⟩
    [.node ⟨[("a", .table ⟨⟨"bank", false⟩, ⟨"accounts", false⟩, ⟨"a", false⟩⟩)],
      [⟨⟨"a", false⟩, ⟨"id", false⟩⟩]⟩ []]

def anyPolicy : SQLPolicy where
  toSQLPolicyConfig := bankConfig
  toSqlGlot :=
    { glotFor anyQuery ("SELECT p.id AS id FROM bank.people AS p WHERE p.id = ANY(" ++
        "SELECT a.id AS id FROM bank.accounts AS a) LIMIT 200") with
      buildScope := fun _ => .ok (some anyScope) }

/-- `SELECT "A".name AS name FROM bank."PEOPLE" AS "A", bank.accounts AS a` -/
def quotedQuery : Node :=
  .node ⟨"", .select⟩ [projectionNode ⟨"A", true⟩ "name",
    .node ⟨"from", .other⟩
      [.node ⟨"this", .table ⟨⟨"bank", false⟩, ⟨"PEOPLE", true⟩, ⟨"A", true⟩⟩⟩ []],
    .node ⟨"joins", .join⟩ [tableNode "accounts" ⟨"a", false⟩]]

def quotedPolicy : SQLPolicy where
  toSQLPolicyConfig := bankConfig
  toSqlGlot := glotFor quotedQuery
    "SELECT \"A\".name AS name FROM bank.\"PEOPLE\" AS \"A\", bank.accounts AS a LIMIT 200"

/-- `SELECT p.id AS id FROM bank.people AS p WHERE XOR(p.id, p.id)` -/
def xorQuery : Node :=
  .node ⟨"", .select⟩ [projectionNode ⟨"p", false⟩ "id",
    .node ⟨"from", .other⟩ [tableNode "people" ⟨"p", false⟩],
    .node ⟨"where", .other⟩ [.node ⟨"this", .connector "XOR"⟩
      [columnNode "this" ⟨"p", false⟩ "id", columnNode "expression" ⟨"p", false⟩ "id"]]]

def xorPolicy : SQLPolicy where
  toSQLPolicyConfig := bankConfig
  toSqlGlot := glotFor xorQuery
    "SELECT p.id AS id FROM bank.people AS p WHERE p.id XOR p.id LIMIT 200"

end SQLPolicy

end EnterpriseRag
