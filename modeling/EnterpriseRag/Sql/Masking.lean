import EnterpriseRag.Sql.Policy

/-!
# Which cells are masked

`applyResultPolicy` masks the columns of a result that `validateAndRewrite` took for
sensitive. Whether that masks what SQL's own scoping makes sensitive (`Sensitive`) is the
question : the policy resolves a qualifier through casefolded aliases of the root query's
sources, and a column through casefolded names of the catalog, the last entry of either
winning (`ReadSensitive`). `masked_iff` says that every sensitive projection is masked
exactly when each holds a column that this lookup takes for sensitive.
`readSensitive_of_distinct` says that this is so where casefolding confuses no two names
and no projection holds a SELECT of its own.
-/

open LastMatch

namespace EnterpriseRag

/-! ## The result policy -/

/-- `_MASK`. -/
def mask : Cell :=
  .text "***"

/-- A row under the mask, with the strict `zip` of the source. -/
def maskRow : List Bool → List Cell → Except Raised (List Cell)
  | [], [] => .ok []
  | isSensitive :: flags, value :: row => do
    let rest ← maskRow flags row
    return (if isSensitive then mask else value) :: rest
  | _, _ => .error (.exception "ValueError")

/-- `DefaultSQLResultPolicy.apply`. -/
def applyResultPolicy (now : Timestamp) (result : SQLExecutionResult) (_principal : SQLPrincipal)
    (_catalog : CatalogSnapshot) (validated : ValidatedSQL) :
    Except Raised SanitizedSQLResult := do
  let maskedRows ← result.rows.mapM (maskRow validated.projectionSensitive)
  return {
    columns := result.columns
    rows := maskedRows
    rowCount := result.rowCount
    truncated := result.truncated
    snapshotAt := now }

theorem maskRow_eq_ok : ∀ {flags : List Bool} {row out : List Cell},
    maskRow flags row = .ok out ↔ flags.length = row.length ∧
      out = List.zipWith (fun isSensitive value => if isSensitive then mask else value) flags row
  | [], [], out => by
    simp [maskRow, eq_comm]
  | isSensitive :: flags, value :: row, out => by
    rw [maskRow, bind_eq_ok]
    constructor
    · rintro ⟨rest, hrest, h⟩
      obtain ⟨hlength, rfl⟩ := maskRow_eq_ok.1 hrest
      exact ⟨by simp [hlength], (Except.ok.inj h).symm⟩
    · rintro ⟨hlength, rfl⟩
      exact ⟨_, maskRow_eq_ok.2 ⟨by simpa using hlength, rfl⟩, rfl⟩
  | [], value :: row, out => by
    simp [maskRow]
  | isSensitive :: flags, [], out => by
    simp [maskRow]

theorem getElem?_maskRow {flags : List Bool} {row out : List Cell} {i : ℕ}
    (h : maskRow flags row = .ok out) (hi : flags[i]? = some true) : out[i]? = some mask := by
  obtain ⟨hlength, rfl⟩ := maskRow_eq_ok.1 h
  obtain ⟨hflags, -⟩ := List.getElem?_eq_some_iff.1 hi
  have hrow : i < row.length := hlength ▸ hflags
  simp [List.getElem?_zipWith, hi, List.getElem?_eq_getElem hrow]

/-- Column `i` is masked in every result exactly when projection `i` was taken for
sensitive : the policy masks no other cell of a result that holds no masked one. -/
theorem forall_masked_iff {catalog : CatalogSnapshot} {v : ValidatedSQL} {i : ℕ}
    (hi : i < v.projectionSensitive.length) :
    (∀ now result principal out, applyResultPolicy now result principal catalog v = .ok out →
      ∀ row ∈ out.rows, row[i]? = some mask) ↔ v.projectionSensitive[i]? = some true := by
  constructor
  · intro h
    let blank : List Cell := List.replicate v.projectionSensitive.length (.other "")
    let result : SQLExecutionResult := ⟨[], [blank], 1, false, 0, 0⟩
    have hblank : maskRow v.projectionSensitive blank = .ok _ :=
      maskRow_eq_ok.2 ⟨by simp [blank], rfl⟩
    have hmasked := h 0 result ⟨"", false, none, []⟩ _
      (bind_eq_ok.2 ⟨_, mapM_eq_ok.2 (.cons hblank .nil), rfl⟩) _ List.mem_cons_self
    by_contra hflag
    have hfalse : v.projectionSensitive[i] = false := by
      simpa [List.getElem?_eq_getElem hi] using hflag
    simp [blank, hfalse, hi, mask] at hmasked
  · intro hflag now result principal out h row hrow
    obtain ⟨rows, hrows, h⟩ := bind_eq_ok.1 h
    obtain rfl := Except.ok.inj h
    obtain ⟨j, hj, rfl⟩ := List.getElem_of_mem hrow
    have hall := mapM_eq_ok.1 hrows
    exact getElem?_maskRow (List.Forall₂.get hall (hall.length_eq ▸ hj) hj) hflag

/-! ## Sensitive projections -/

/-- The entry lists column `c` of table `t`, by PostgreSQL's names. -/
def CatalogColumn.Names (e : CatalogColumn) (t : TableRef) (c : ColumnRef) : Prop :=
  e.schemaName = t.db.pg ∧ e.tableName = t.name.pg ∧ e.columnName = c.name.pg

instance (e : CatalogColumn) (t : TableRef) (c : ColumnRef) : Decidable (e.Names t c) :=
  inferInstanceAs (Decidable (_ ∧ _ ∧ _))

/-- A projection of the statement holds a column that belongs to a table, by SQL's scoping,
of which the catalog marks it sensitive. -/
def Sensitive (catalog : CatalogSnapshot) (tree projection : Node) : Prop :=
  ∃ c t, (c, some t) ∈ Node.bindings [Node.fromTables tree.children] projection ∧
    ∃ e ∈ catalog.columns, e.Names t c ∧ e.sensitive

namespace SQLPolicy

variable {policy : SQLPolicy} {catalog : CatalogSnapshot}

/-- The column is qualified, the last source of the root query whose casefolded alias is its
qualifier's is a table, and the last catalog entry with the casefolded names of the two is
sensitive. -/
def ReadSensitive (policy : SQLPolicy) (catalog : CatalogSnapshot) (root : Scope)
    (c : ColumnRef) : Prop :=
  policy.casefold c.table.this ≠ "" ∧ ∃ name t e,
    IsLast (fun s : String × Source => policy.casefold s.1 = policy.casefold c.table.this)
      (name, .table t) root.label.sources ∧
    IsLast (fun e => policy.entryKey e = policy.columnKey t c) e catalog.columns ∧ e.sensitive

theorem readSensitive_iff {root : Scope} {c : ColumnRef} :
    policy.ReadSensitive catalog root c ↔
      policy.columnIsSensitive catalog root.label.sources c = .ok true := by
  simp only [columnIsSensitive_eq_true, sourceOf_eq_ok, ReadSensitive]
  constructor
  · rintro ⟨hqualifier, name, t, e, hsource, hentry, hsensitive⟩
    exact ⟨t, e, ⟨hqualifier, name, hsource⟩, hentry, hsensitive⟩
  · rintro ⟨t, e, ⟨hqualifier, name, hsource⟩, hentry, hsensitive⟩
    exact ⟨hqualifier, name, t, e, hsource, hentry, hsensitive⟩

/-- A projection is taken for sensitive when one of its columns is. -/
theorem projectionSensitive_iff {tree : Node} {root : Scope} {final : Node} {v : ValidatedSQL}
    (h : policy.Accepted catalog tree root final v) {i : ℕ} {projection : Node}
    (hi : (Node.selects tree)[i]? = some projection) :
    ∃ hlt : i < v.projectionSensitive.length, v.projectionSensitive[i] = true ↔
      ∃ c ∈ Node.columns projection, policy.ReadSensitive catalog root c := by
  obtain ⟨hlt, rfl⟩ := List.getElem?_eq_some_iff.1 hi
  have hall := mapM_eq_ok.1 h.sensitive
  refine ⟨hall.length_eq ▸ hlt, ?_⟩
  simp only [readSensitive_iff]
  exact anyM_eq_ok (List.Forall₂.get hall hlt (hall.length_eq ▸ hlt))

/-- Every cell of a sensitive projection is masked, in every result, exactly when each
sensitive projection holds a column that is taken for sensitive. -/
theorem masked_iff {sql : String} {principal : SQLPrincipal} {v : ValidatedSQL}
    (h : policy.validateAndRewrite sql catalog principal = .ok v) :
    ∃ tree tables root, policy.qualified catalog sql = .ok (tree, tables) ∧
      policy.rootScope tree = .ok root ∧
      ((∀ (i : ℕ) projection, (Node.selects tree)[i]? = some projection →
          Sensitive catalog tree projection → ∀ now result reader out,
            applyResultPolicy now result reader catalog v = .ok out →
            ∀ row ∈ out.rows, row[i]? = some mask) ↔
        ∀ projection ∈ Node.selects tree, Sensitive catalog tree projection →
          ∃ c ∈ Node.columns projection, policy.ReadSensitive catalog root c) := by
  obtain ⟨tree, tables, root, final, hqualified, haccepted⟩ := validateAndRewrite_ok h
  refine ⟨tree, tables, root, hqualified, haccepted.rooted, ?_⟩
  constructor
  · intro hmasked projection hprojection hsensitive
    obtain ⟨i, hi⟩ := List.getElem?_of_mem hprojection
    obtain ⟨hlt, hiff⟩ := projectionSensitive_iff haccepted hi
    have hflag := (forall_masked_iff hlt).1 (hmasked i projection hi hsensitive)
    exact hiff.1 (by simpa [List.getElem?_eq_getElem hlt] using hflag)
  · intro hread i projection hi hsensitive
    obtain ⟨hlt, hiff⟩ := projectionSensitive_iff haccepted hi
    have hflag := hiff.2 (hread projection (List.mem_of_getElem? hi) hsensitive)
    exact (forall_masked_iff hlt).2 (by rw [List.getElem?_eq_getElem hlt, hflag])

/-- The names of people are masked. -/
theorem people_names_masked :
    ∃ v, peoplePolicy.validateAndRewrite "SELECT p.name FROM bank.people AS p" bankCatalog
        ⟨"ann", true, none, []⟩ = .ok v ∧
      ∀ now result reader out, applyResultPolicy now result reader bankCatalog v = .ok out →
        ∀ row ∈ out.rows, row[0]? = some mask := by
  have hv : peoplePolicy.validateAndRewrite "SELECT p.name FROM bank.people AS p" bankCatalog
    ⟨"ann", true, none, []⟩ = .ok _ := rfl
  refine ⟨_, hv, ?_⟩
  obtain ⟨tree, tables, root, hqualified, hroot, hiff⟩ := masked_iff hv
  obtain rfl : peopleQuery = tree := (Prod.mk.inj (Except.ok.inj hqualified)).1
  have hread : peoplePolicy.ReadSensitive bankCatalog root ⟨⟨"p", false⟩, ⟨"name", false⟩⟩ := by
    rw [← Except.ok.inj hroot, readSensitive_iff]
    rfl
  refine hiff.2 (fun projection hprojection _ => ?_) 0 _ rfl ?_
  · obtain rfl : projection = projectionNode ⟨"p", false⟩ "name" := List.mem_singleton.1 hprojection
    exact ⟨_, by decide +kernel, hread⟩
  · exact ⟨⟨⟨"p", false⟩, ⟨"name", false⟩⟩, ⟨⟨"bank", false⟩, ⟨"people", false⟩, ⟨"p", false⟩⟩,
      by decide +kernel, _, List.mem_cons_of_mem _ List.mem_cons_self, by decide +kernel, rfl⟩

/-- `SELECT "A".name AS name FROM bank.people AS "A", bank.accounts AS a` -/
def twoAliasesQuery : Node :=
  .node ⟨"", .select⟩ [projectionNode ⟨"A", true⟩ "name",
    .node ⟨"from", .other⟩ [tableNode "people" ⟨"A", true⟩],
    .node ⟨"joins", .join⟩ [tableNode "accounts" ⟨"a", false⟩]]

def twoAliasesPolicy : SQLPolicy where
  toSQLPolicyConfig := bankConfig
  toSqlGlot := glotFor twoAliasesQuery
    "SELECT \"A\".name AS name FROM bank.people AS \"A\", bank.accounts AS a LIMIT 200"

/-- The alias `"A"` of the people is taken for the alias `a` of the accounts, whose names
are not sensitive, and the names of the people are disclosed. -/
theorem quoted_alias_discloses :
    ∃ v tables projection out, twoAliasesPolicy.validateAndRewrite
        "SELECT \"A\".name FROM bank.people AS \"A\", bank.accounts AS a" bankCatalog
        ⟨"ann", true, none, []⟩ = .ok v ∧
      twoAliasesPolicy.qualified bankCatalog
        "SELECT \"A\".name FROM bank.people AS \"A\", bank.accounts AS a" =
          .ok (twoAliasesQuery, tables) ∧
      (Node.selects twoAliasesQuery)[0]? = some projection ∧
      Sensitive bankCatalog twoAliasesQuery projection ∧
      applyResultPolicy 0 ⟨["name"], [[.text "Bob"]], 1, false, 0, 3⟩ ⟨"ann", true, none, []⟩
        bankCatalog v = .ok out ∧ out.rows = [[.text "Bob"]] := by
  refine ⟨_, _, _, _, rfl, rfl, rfl, ?_, rfl, rfl⟩
  exact ⟨⟨⟨"A", true⟩, ⟨"name", false⟩⟩, ⟨⟨"bank", false⟩, ⟨"people", false⟩, ⟨"A", true⟩⟩,
    by decide +kernel, _, List.mem_cons_of_mem _ List.mem_cons_self, by decide +kernel, rfl⟩

/-! ## Where names stay distinct -/

section Distinct

variable {tree : Node} {root : Scope}
  (hcasefold : ∀ s, policy.casefold (asciiLower s) = policy.casefold s)

include hcasefold

theorem casefold_pg (i : Identifier) : policy.casefold i.pg = policy.casefold i.this := by
  unfold Identifier.pg
  split
  · rfl
  · exact hcasefold i.this

theorem entryKey_of_names {e : CatalogColumn} {t : TableRef} {c : ColumnRef} (h : e.Names t c) :
    policy.entryKey e = policy.columnKey t c := by
  obtain ⟨hschema, htable, hcolumn⟩ := h
  simp only [entryKey, columnKey, hschema, htable, hcolumn, casefold_pg hcasefold]

/-- A sensitive projection without a SELECT of its own holds a column that is taken for
sensitive, where the root query's sources are its FROM items, their aliases stay distinct
under casefolding, and catalog entries that casefolding confuses agree. -/
theorem readSensitive_of_distinct
    (hsources : ∀ t ∈ Node.fromTables tree.children,
      (t.aliasOrName.this, Source.table t) ∈ root.label.sources)
    (hdistinct : (root.label.sources.map fun s => policy.casefold s.1).Nodup)
    (hcatalog : ∀ e ∈ catalog.columns, ∀ e' ∈ catalog.columns,
      policy.entryKey e = policy.entryKey e' → e.sensitive = e'.sensitive)
    {projection : Node} (hflat : ∀ n ∈ projection.walk, Node.type n ≠ .select)
    (hqualified : ∀ c ∈ Node.columns projection, policy.casefold c.table.this ≠ "")
    (h : Sensitive catalog tree projection) :
    ∃ c ∈ Node.columns projection, policy.ReadSensitive catalog root c := by
  obtain ⟨c, t, hbinding, e, he, hnames, hsensitive⟩ := h
  obtain ⟨hc, ht, halias⟩ := Node.mem_bindings_of_flat hflat hbinding
  have hqualifier : policy.casefold t.aliasOrName.this = policy.casefold c.table.this := by
    rw [← casefold_pg hcasefold t.aliasOrName, halias, casefold_pg hcasefold]
  -- the only source with this casefolded alias is the table itself
  obtain ⟨source, hsource⟩ := exists_isLast (p := fun s : String × Source =>
    policy.casefold s.1 = policy.casefold c.table.this) (hsources t ht) hqualifier
  obtain rfl := hsource.eq_of_nodup hdistinct (hsources t ht) hqualifier
  -- the last entry with these casefolded names is as sensitive as the one that lists it
  obtain ⟨e', he'⟩ := exists_isLast (p := fun e => policy.entryKey e = policy.columnKey t c) he
    (entryKey_of_names hcasefold hnames)
  have hagree : e'.sensitive = e.sensitive := hcatalog e' he'.mem e he
    (he'.holds.trans (entryKey_of_names hcasefold hnames).symm)
  exact ⟨c, hc, hqualified c hc, _, t, e', hsource, he', hagree.trans hsensitive⟩

end Distinct

end SQLPolicy

end EnterpriseRag
