import EnterpriseRag.Sql.Allowlist
import EnterpriseRag.Sql.ProposalLifecycle
import EnterpriseRag.Sql.Truncation

/-!
# Validating again

A proposal is stored with the text and the fingerprint that `validateAndRewrite` gave, and the
text is validated again when it is approved. `Regular` is what this needs of `sqlglot`.
`revalidated` : the text is accepted again with everything as it was, and a proposal that nobody
changed goes on to its plan.
-/

namespace EnterpriseRag

namespace SQLPolicy

/-! ## What is relied on -/

/-- There is no limit, or it is a literal. -/
def LiteralLimit (tree : Node) : Prop :=
  ∀ limit ∈ (Node.args tree "limit").head?, ∃ this more,
    (Node.args limit "expression").map Node.type = .literal this false :: more

/-- A text that passes for one statement without comments. -/
def Unmarked (sql : String) : Prop :=
  ¬("--".toList <:+: sql.toList ∨ "/*".toList <:+: sql.toList ∨ "*/".toList <:+: sql.toList) ∧
    ';' ∉ rstrip (· = ';') (rstrip isSpace sql.toList)

/-- What is relied on of the parser, the qualifier, the scopes and the printer. -/
structure Regular (glot : SqlGlot) : Prop where
  /-- What is printed is parsed as it was. -/
  reparsed : ∀ parsed schema tree rowLimit text, glot.qualify parsed schema = .ok tree →
    0 < rowLimit → glot.sql (setLimit tree rowLimit) = .ok text →
      glot.parse text = .ok [some (setLimit tree rowLimit)]
  /-- Printing adds no comment and no semicolon. -/
  unmarked : ∀ sql statements parsed schema tree rowLimit text, Unmarked sql →
    glot.parse sql = .ok statements → some parsed ∈ statements →
      glot.qualify parsed schema = .ok tree → 0 < rowLimit →
        glot.sql (setLimit tree rowLimit) = .ok text → Unmarked text
  /-- A qualified statement is qualified. -/
  idempotent : ∀ parsed schema tree, glot.qualify parsed schema = .ok tree →
    glot.qualify tree schema = .ok tree
  /-- Qualifying drops no table. -/
  tables : ∀ parsed schema tree, glot.qualify parsed schema = .ok tree →
    ∀ t ∈ Node.tables parsed, ∃ t' ∈ Node.tables tree,
      glot.casefold t'.db.this = glot.casefold t.db.this ∧
      glot.casefold t'.name.this = glot.casefold t.name.this
  /-- Qualifying adds no join. -/
  joins : ∀ parsed schema tree, glot.qualify parsed schema = .ok tree →
    tree.walk.countP (fun n => Node.type n = .join) ≤
      parsed.walk.countP fun n => Node.type n = .join
  /-- Qualifying adds no WITH. -/
  ctes : ∀ parsed schema tree, glot.qualify parsed schema = .ok tree →
    Node.args parsed "with" = [] → Node.args tree "with" = []
  /-- A literal limit is qualified whatever its number. -/
  limit : ∀ schema tree rowLimit, glot.qualify tree schema = .ok tree → LiteralLimit tree →
    glot.qualify (setLimit tree rowLimit) schema = .ok (setLimit tree rowLimit)
  /-- A literal limit has no tables. -/
  literal : ∀ parsed schema tree, glot.qualify parsed schema = .ok tree → LiteralLimit tree →
    ∀ limit ∈ Node.args tree "limit", Node.tables limit = []
  /-- A literal limit has no part in the scopes. -/
  scopes : ∀ parsed schema tree rowLimit, glot.qualify parsed schema = .ok tree →
    LiteralLimit tree → glot.buildScope (setLimit tree rowLimit) = glot.buildScope tree
  /-- `int` reads what `str` writes. -/
  int : ∀ n : ℤ, glot.int (toString n) = some n

variable {policy : SQLPolicy} {catalog : CatalogSnapshot} {parsed tree final : Node} {rowLimit : ℤ}

/-! ## The parsed statement -/

theorem parseStatements_eq_ok {sql : String} {statements : List (Option Node)} :
    policy.parseStatements sql = .ok statements ↔ policy.parse sql = .ok statements := by
  unfold parseStatements
  constructor
  · intro h
    split at h
    · rename_i statements' hok
      rw [hok, Except.ok.inj h]
    · exact nomatch h
    · exact nomatch h
    · exact nomatch h
  · intro h
    rw [h]

theorem parseSelect_eq_ok {sql : String} : policy.parseSelect sql = .ok parsed ↔
    Unmarked sql ∧ ∃ statements, policy.parse sql = .ok statements ∧
      statements.filterMap id = [parsed] ∧ Node.type parsed = .select := by
  simp only [parseSelect, bind_eq_ok, require_eq_ok, exists_const, parseStatements_eq_ok, Unmarked,
    and_assoc]
  refine and_congr_right fun _ => and_congr_right fun _ => exists_congr fun statements =>
    and_congr_right fun _ => ?_
  constructor
  · intro h
    split at h
    · rename_i tree hone
      obtain ⟨u, hselect, h⟩ := bind_eq_ok.1 h
      obtain rfl := Except.ok.inj h
      exact ⟨hone, require_eq_ok.1 hselect⟩
    · cases h
  · rintro ⟨hone, hselect⟩
    rw [hone]
    exact bind_eq_ok.2 ⟨(), require_eq_ok.2 hselect, rfl⟩

/-! ## The limit -/

theorem literalLimit_of_rewriteLimit (h : policy.rewriteLimit tree = .ok (rowLimit, final)) :
    LiteralLimit tree := by
  unfold rewriteLimit at h
  intro limit hlimit
  split at h
  · rename_i hnone
    rw [hnone] at hlimit
    exact nomatch hlimit
  · rename_i limit' others hargs
    rw [hargs] at hlimit
    obtain rfl := Option.some.inj hlimit
    split at h
    · rename_i this more hliteral
      exact ⟨this, more, hliteral⟩
    · exact nomatch h

/-- A limit that was rewritten is left as it is. -/
theorem rewriteLimit_again (hint : ∀ n : ℤ, policy.int (toString n) = some n)
    (h : policy.rewriteLimit tree = .ok (rowLimit, final)) :
    policy.rewriteLimit final = .ok (rowLimit, final) := by
  obtain ⟨hone, hmax, rfl⟩ := rewriteLimit_ok h
  have hargs : Node.args (setLimit tree rowLimit) "limit" = [.node ⟨"limit", .limit⟩
      [.node ⟨"expression", .literal (toString rowLimit) false⟩ []]] := Node.args_set _ _ _ _
  have hliteral : (Node.args (.node ⟨"limit", .limit⟩
      [.node ⟨"expression", .literal (toString rowLimit) false⟩ []]) "expression").map Node.type =
        [.literal (toString rowLimit) false] := rfl
  rw [rewriteLimit, hargs]
  dsimp only
  rw [hliteral]
  dsimp only
  rw [hint]
  dsimp only
  rw [if_neg (by omega), min_eq_left hmax, setLimit, setLimit, Node.set_set]

/-- A new limit adds no join. -/
theorem countP_join_setLimit_le (tree : Node) (rowLimit : ℤ) :
    (setLimit tree rowLimit).walk.countP (fun n => Node.type n = .join) ≤
      tree.walk.countP fun n => Node.type n = .join :=
  Node.countP_walk_set_le tree "limit" .limit _ fun type => type = .join

/-! ## The tables -/

theorem checkTable_congr {t t' : TableRef} (h : policy.tableKey t = policy.tableKey t') :
    policy.checkTable catalog t = policy.checkTable catalog t' := by
  rw [checkTable, checkTable, h]

theorem sortedSet_congr {names names' : List String} (h : ∀ name, name ∈ names' ↔ name ∈ names) :
    sortedSet names' = sortedSet names := by
  have hperm : names'.dedup.Perm names.dedup :=
    (List.perm_ext_iff_of_nodup names'.nodup_dedup names.nodup_dedup).2 fun name => by
      rw [List.mem_dedup, List.mem_dedup, h]
  exact ((List.perm_insertionSort _ _).trans
    (hperm.trans (List.perm_insertionSort _ _).symm)).eq_of_pairwise'
      (List.pairwise_insertionSort _ _) (List.pairwise_insertionSort _ _)

/-- The tables of the statement that is returned are those that were proposed. -/
theorem exists_mem_tables_setLimit (hregular : Regular policy.toSqlGlot) {schema : QualifySchema}
    (hqualify : policy.qualify parsed schema = .ok tree) (hselect : Node.type tree = .select)
    (hliteral : LiteralLimit tree) {t : TableRef} (ht : t ∈ Node.tables parsed) :
    ∃ t' ∈ Node.tables (setLimit tree rowLimit), policy.tableKey t' = policy.tableKey t := by
  obtain ⟨t', ht', hdb, hname⟩ := hregular.tables _ _ _ hqualify t ht
  refine ⟨t', ?_, Prod.ext hdb hname⟩
  obtain ⟨n, hn, htype⟩ := Node.mem_tables.1 ht'
  rcases Node.mem_walk_of_mem hn with rfl | hn | ⟨limit, hlimit, hn⟩
  · exact nomatch hselect.symm.trans htype
  · exact Node.mem_tables.2 ⟨n, hn, htype⟩
  · have hmem := Node.mem_tables.2 ⟨n, hn, htype⟩
    rw [hregular.literal _ _ _ hqualify hliteral limit hlimit] at hmem
    exact nomatch hmem

/-! ## The second pass -/

/-- The text that is returned passes the first half, as the statement that it is. -/
theorem qualified_again (hfaithful : Faithful policy.toSqlGlot)
    (hregular : Regular policy.toSqlGlot) {sql text : String} {names : List String}
    (hqualified : policy.qualified catalog sql = .ok (tree, names))
    (hlimit : policy.rewriteLimit tree = .ok (rowLimit, final)) (htext : policy.sql final = .ok text) :
    ∃ names', policy.qualified catalog text = .ok (final, names') ∧
      sortedSet names' = sortedSet names := by
  obtain ⟨parsed, hparsed, h⟩ := bind_eq_ok.1 hqualified
  obtain ⟨u, hstructure, h⟩ := bind_eq_ok.1 h
  obtain ⟨names', htables, h⟩ := bind_eq_ok.1 h
  obtain ⟨tree', hqualify, h⟩ := bind_eq_ok.1 h
  obtain ⟨rfl, rfl⟩ := Prod.mk.inj (Except.ok.inj h)
  obtain ⟨hunmarked, statements, hstatements, hone, -⟩ := parseSelect_eq_ok.1 hparsed
  obtain ⟨hstructured, hwith, hjoins⟩ := checkStructure_eq_ok.1 hstructure
  obtain ⟨hqualify, hselect⟩ := qualifyTree_eq_ok.1 hqualify
  have hliteral := literalLimit_of_rewriteLimit hlimit
  obtain ⟨hpos, -, rfl⟩ := rewriteLimit_ok hlimit
  have hmem : some parsed ∈ statements := by
    have hmem : parsed ∈ statements.filterMap id := hone ▸ List.mem_singleton_self parsed
    obtain ⟨statement, hstatement, heq⟩ := List.mem_filterMap.1 hmem
    exact heq ▸ hstatement
  have hparsed' : policy.parseSelect text = .ok (setLimit tree' rowLimit) :=
    parseSelect_eq_ok.2
      ⟨hregular.unmarked _ _ _ _ _ _ _ hunmarked hstatements hmem hqualify hpos htext, _,
        hregular.reparsed _ _ _ _ _ hqualify hpos htext, rfl, hselect⟩
  have hstructure' : policy.checkStructure (setLimit tree' rowLimit) = .ok () := by
    refine checkStructure_eq_ok.2 ⟨fun m hm hforbidden => ?_, ?_, ?_⟩
    · have hm := mem_walk_of_setLimit hselect hm (ne_of_isForbidden hforbidden)
      obtain ⟨m', hm', htype⟩ := hfaithful.structured _ _ _ hqualify m hm hforbidden
      exact hstructured m' hm' (htype ▸ hforbidden)
    · rw [setLimit, Node.args_set_of_ne (by decide)]
      exact hregular.ctes _ _ _ hqualify hwith
    · exact ((countP_join_setLimit_le tree' rowLimit).trans (hregular.joins _ _ _ hqualify)).trans
        hjoins
  -- the tables are checked by names that qualifying keeps
  have hsub : ∀ t ∈ Node.tables (setLimit tree' rowLimit), ∃ t' ∈ Node.tables parsed,
      policy.tableKey t = policy.tableKey t' := by
    intro t ht
    obtain ⟨n, hn, htype⟩ := Node.mem_tables.1 ht
    have hn := mem_walk_of_setLimit hselect hn (by simp [htype])
    obtain ⟨t', ht', hdb, hname⟩ := hfaithful.tables _ _ _ hqualify t
      (Node.mem_tables.2 ⟨n, hn, htype⟩)
    exact ⟨t', ht', Prod.ext hdb hname⟩
  have hchecked : ∀ t ∈ Node.tables (setLimit tree' rowLimit), ∃ name,
      policy.checkTable catalog t = .ok name := by
    intro t ht
    obtain ⟨t', ht', hkey⟩ := hsub t ht
    obtain ⟨name, hname⟩ := mapM_ok htables ht'
    exact ⟨name, (checkTable_congr hkey).trans hname⟩
  obtain ⟨names'', htables'⟩ := exists_mapM_eq_ok hchecked
  refine ⟨names'', ?_, sortedSet_congr fun name => ?_⟩
  · refine bind_eq_ok.2 ⟨_, hparsed', bind_eq_ok.2 ⟨(), hstructure', bind_eq_ok.2 ⟨_, htables', ?_⟩⟩⟩
    refine bind_eq_ok.2 ⟨setLimit tree' rowLimit, qualifyTree_eq_ok.2 ⟨?_, hselect⟩, rfl⟩
    exact hregular.limit _ _ _ (hregular.idempotent _ _ _ hqualify) hliteral
  · rw [mem_of_mapM_eq_ok htables, mem_of_mapM_eq_ok htables']
    constructor
    · rintro ⟨t, ht, hname⟩
      obtain ⟨t', ht', hkey⟩ := hsub t ht
      exact ⟨t', ht', (checkTable_congr hkey).symm.trans hname⟩
    · rintro ⟨t, ht, hname⟩
      obtain ⟨t', ht', hkey⟩ := exists_mem_tables_setLimit hregular hqualify hselect hliteral ht
      exact ⟨t', ht', (checkTable_congr hkey).trans hname⟩

/-- What was accepted is accepted again, as it was. -/
theorem validateAndRewrite_again (hfaithful : Faithful policy.toSqlGlot)
    (hregular : Regular policy.toSqlGlot) {sql : String} {principal : SQLPrincipal}
    {v : ValidatedSQL} (h : policy.validateAndRewrite sql catalog principal = .ok v)
    (reader : SQLPrincipal) : policy.validateAndRewrite v.sql catalog reader = .ok v := by
  obtain ⟨⟨tree, names⟩, hqualified, h⟩ := bind_eq_ok.1 h
  obtain ⟨root, hroot, h⟩ := bind_eq_ok.1 h
  obtain ⟨columns, hcolumns, h⟩ := bind_eq_ok.1 h
  obtain ⟨sensitive, hsensitive, h⟩ := bind_eq_ok.1 h
  obtain ⟨u, hfunctions, h⟩ := bind_eq_ok.1 h
  obtain ⟨⟨rowLimit, final⟩, hlimit, h⟩ := bind_eq_ok.1 h
  obtain ⟨normalized, htext, h⟩ := bind_eq_ok.1 h
  obtain rfl := Except.ok.inj h
  obtain ⟨names', hqualified', hnames⟩ :=
    qualified_again hfaithful hregular hqualified hlimit htext
  have hagain := rewriteLimit_again hregular.int hlimit
  have hliteral := literalLimit_of_rewriteLimit hlimit
  obtain ⟨-, -, rfl⟩ := rewriteLimit_ok hlimit
  obtain ⟨parsed, hparsed⟩ := qualified_ok hqualified
  have hroot' : policy.rootScope (setLimit tree rowLimit) = .ok root := by
    rw [rootScope, hregular.scopes _ _ _ _ hparsed.qualified hliteral]
    exact hroot
  have hselects : Node.selects (setLimit tree rowLimit) = Node.selects tree :=
    Node.args_set_of_ne (by decide)
  have hfunctions' : policy.checkFunctions (setLimit tree rowLimit) = .ok () := by
    refine require_eq_ok.2 fun n hn => ?_
    by_cases hfunc : ∃ sqlName, Node.type n = .func sqlName
    · obtain ⟨sqlName, hfunc⟩ := hfunc
      exact require_eq_ok.1 hfunctions n
        (mem_walk_of_setLimit hparsed.select hn (by simp [hfunc]))
    · unfold functionAllowed
      split
      · rename_i sqlName hname
        exact absurd ⟨sqlName, hname⟩ hfunc
      · rfl
  refine bind_eq_ok.2 ⟨_, hqualified', bind_eq_ok.2 ⟨root, hroot', bind_eq_ok.2 ⟨columns, hcolumns,
    bind_eq_ok.2 ⟨sensitive, ?_, bind_eq_ok.2 ⟨(), hfunctions', bind_eq_ok.2 ⟨_, hagain,
      bind_eq_ok.2 ⟨normalized, htext, ?_⟩⟩⟩⟩⟩⟩⟩
  · rw [hselects]
    exact hsensitive
  · rw [hnames]
    rfl

end SQLPolicy

/-! ## Approving what was proposed -/

namespace SQLService

variable {ω : Type*} {svc : SQLService ω} {catalog : CatalogSnapshot} {principal : SQLPrincipal}

theorem exists_of_generateLoop {ws : ℕ → ω} {question : String} {v : ValidatedSQL} {left : ℕ} :
    ∀ {n : ℕ} {correction : Option String} {lastErrorCode : String},
      svc.generateLoop ws principal catalog question left n correction lastErrorCode = .ok v →
        ∃ m sql, svc.validateAndRewrite (ws m) sql catalog principal = .ok v := by
  induction left with
  | zero => exact fun h => nomatch h
  | succ left ih =>
    intro n correction lastErrorCode h
    obtain ⟨sql, -, h⟩ := bind_eq_ok.1 h
    split at h
    · rename_i validated hattempt
      obtain rfl := Except.ok.inj h
      obtain ⟨validated', hvalidated, hattempt⟩ := bind_eq_ok.1 hattempt
      obtain ⟨plan, -, hattempt⟩ := bind_eq_ok.1 hattempt
      obtain rfl := Except.ok.inj hattempt
      exact ⟨n, sql, hvalidated⟩
    · split at h
      · exact ih h
      · exact nomatch h

/-- A stored proposal is a statement that was accepted. -/
theorem exists_of_propose {ws : ℕ → ω} {now : Timestamp} {conversationId : ℤ} {question : String}
    {t t' : ProposalTable} {p : SQLProposal} (hcatalog : svc.catalog (ws 0) principal = .ok catalog)
    (h : svc.propose ws now principal conversationId question t = .ok (p, t')) :
    ∃ m sql v, svc.validateAndRewrite (ws m) sql catalog principal = .ok v ∧ p.sql = v.sql ∧
      p.sqlFingerprint = v.fingerprint := by
  unfold propose at h
  rw [hcatalog] at h
  obtain ⟨catalog', hcatalog', h⟩ := bind_eq_ok.1 h
  obtain rfl := Except.ok.inj hcatalog'
  obtain ⟨-, -, h⟩ := bind_eq_ok.1 h
  obtain ⟨v, hloop, h⟩ := bind_eq_ok.1 h
  obtain ⟨m, sql, hv⟩ := exists_of_generateLoop hloop
  obtain ⟨rfl, -⟩ := ProposalTable.create_ok h
  exact ⟨m, sql, v, hv, rfl, rfl⟩

end SQLService

section Revalidated

open SQLPolicy

variable {ω : Type*} {svc : SQLService ω} {policy : SQLPolicy} {catalog : CatalogSnapshot}

/-- An accepted statement is accepted again as it was returned, and a proposal with its text and
its fingerprint goes on to its plan when it is approved under the catalog it was proposed under. -/
theorem revalidated (hfaithful : Faithful policy.toSqlGlot) (hregular : Regular policy.toSqlGlot)
    (hpolicy : ∀ w, svc.validateAndRewrite w = policy.validateAndRewrite) :
    (∀ sql principal v, policy.validateAndRewrite sql catalog principal = .ok v →
      ∀ reader, policy.validateAndRewrite v.sql catalog reader = .ok v) ∧
    ∀ ws now principal conversationId question t t' proposed,
      svc.catalog (ws 0) principal = .ok catalog →
      svc.propose ws now principal conversationId question t = .ok (proposed, t') →
        ∀ w clock call t₁ p, call.point = .validate p catalog → p.sql = proposed.sql →
          p.sqlFingerprint = proposed.sqlFingerprint →
            ∃ v, svc.advance w clock call t₁ = some (.explain p catalog v, t₁) := by
  refine ⟨fun sql principal v h => validateAndRewrite_again hfaithful hregular h, ?_⟩
  intro ws now principal conversationId question t t' proposed hcatalog hproposed w clock call t₁ p
    hpoint hsql hfingerprint
  obtain ⟨m, sql, v, hv, hsql', hfingerprint'⟩ := SQLService.exists_of_propose hcatalog hproposed
  rw [hpolicy] at hv
  have hagain := validateAndRewrite_again hfaithful hregular hv call.principal
  refine ⟨v, ?_⟩
  unfold SQLService.advance
  rw [hpoint]
  dsimp only
  rw [hpolicy, hsql, hsql', hagain]
  dsimp only
  rw [if_neg (by rw [hfingerprint, hfingerprint', ne_eq, not_not])]

end Revalidated

/-! ## People, again -/

/-- The number of a limit. -/
def limitNumber (tree : Node) : ℤ :=
  match Node.args tree "limit" with
  | [] => 0
  | limit :: _ =>
    match (Node.args limit "expression").map Node.type with
    | .literal this false :: _ => this.toInt?.getD 0
    | _ => 0

/-- One statement, with or without a limit. -/
def againGlot : SqlGlot :=
  { glotFor peopleQuery "" with
    parse := fun text =>
      if text.toList = peopleText then .ok [some peopleQuery]
      else
        match (String.ofList (text.toList.drop (peopleText.length + 7))).toInt? with
        | some n => .ok [some (SQLPolicy.setLimit peopleQuery n)]
        | none => .error .parseError
    qualify := fun parsed _ =>
      if parsed = peopleQuery ∨ parsed = SQLPolicy.setLimit peopleQuery (limitNumber parsed) then
        .ok parsed
      else .error (.sqlglotError "OptimizeError")
    sql := fun tree => .ok (.ofList (peopleText ++ limitText tree)) }

theorem limitText_setLimit (n : ℤ) :
    limitText (SQLPolicy.setLimit peopleQuery n) = " LIMIT ".toList ++ (toString n).toList :=
  rfl

theorem limitNumber_setLimit (n : ℤ) : limitNumber (SQLPolicy.setLimit peopleQuery n) = n := by
  change (toString n).toInt?.getD 0 = n
  rw [show (toString n).toInt? = some n from Int.toInt?_repr n, Option.getD_some]

theorem qualify_againGlot {parsed tree : Node} {schema : QualifySchema}
    (h : againGlot.qualify parsed schema = .ok tree) :
    tree = parsed ∧ (tree = peopleQuery ∨ ∃ n, tree = SQLPolicy.setLimit peopleQuery n) := by
  dsimp only [againGlot] at h
  split at h
  · rename_i hknown
    obtain rfl := Except.ok.inj h
    exact ⟨rfl, hknown.imp_right fun hlimit => ⟨_, hlimit⟩⟩
  · exact nomatch h

theorem setLimit_of_qualify {parsed tree : Node} {schema : QualifySchema}
    (h : againGlot.qualify parsed schema = .ok tree) (n : ℤ) :
    SQLPolicy.setLimit tree n = SQLPolicy.setLimit peopleQuery n := by
  obtain ⟨-, rfl | ⟨m, rfl⟩⟩ := qualify_againGlot h
  · rfl
  · exact Node.set_set _ _ _ _ _ _

theorem unmarked_of_plain {text : List Char} (h : ∀ c ∈ text, c ≠ '-' ∧ c ≠ '*' ∧ c ≠ ';') :
    SQLPolicy.Unmarked (.ofList text) := by
  have hdash : '-' ∈ "--".toList := by decide
  have hopen : '*' ∈ "/*".toList := by decide
  have hclose : '*' ∈ "*/".toList := by decide
  rw [← String.toList_ofList (l := text)] at h
  refine ⟨?_, fun hsemicolon => ?_⟩
  · rintro (hmark | hmark | hmark)
    · exact (h '-' (hmark.subset hdash)).1 rfl
    · exact (h '*' (hmark.subset hopen)).2.1 rfl
    · exact (h '*' (hmark.subset hclose)).2.1 rfl
  · exact (h ';' ((List.rdropWhile_prefix _ _).subset
      ((List.rdropWhile_prefix _ _).subset hsemicolon))).2.2 rfl

theorem unmarked_limited {n : ℤ} (h : 0 < n) : SQLPolicy.Unmarked
    (.ofList (peopleText ++ limitText (SQLPolicy.setLimit peopleQuery n))) := by
  refine unmarked_of_plain fun c hc => ?_
  have hpeople : (peopleText ++ " LIMIT ".toList).all (fun c => c ≠ '-' ∧ c ≠ '*' ∧ c ≠ ';') :=
    rfl
  rw [limitText_setLimit, ← List.append_assoc] at hc
  rcases List.mem_append.1 hc with hc | hc
  · exact of_decide_eq_true (List.all_eq_true.1 hpeople c hc)
  · obtain ⟨k, rfl⟩ := Int.eq_ofNat_of_zero_le h.le
    have hdigits : (toString (k : ℤ)).toList = Nat.toDigits 10 k := String.toList_ofList
    rw [hdigits] at hc
    have hdigit := Nat.isDigit_of_mem_toDigits (by decide) (by decide) hc
    refine ⟨?_, ?_, ?_⟩ <;> rintro rfl <;> exact absurd hdigit (by decide)

theorem faithful_againGlot : SQLPolicy.Faithful againGlot where
  structured parsed schema tree h n hn _ := by
    obtain ⟨rfl, -⟩ := qualify_againGlot h
    exact ⟨n, hn, rfl⟩
  tables parsed schema tree h t ht := by
    obtain ⟨rfl, -⟩ := qualify_againGlot h
    exact ⟨t, ht, rfl, rfl⟩
  columns := (SQLPolicy.faithful_glotFor peopleQuery "").columns

theorem regular_againGlot : SQLPolicy.Regular againGlot where
  reparsed parsed schema tree n text h hpos htext := by
    obtain rfl := Except.ok.inj htext
    rw [setLimit_of_qualify h]
    have hlonger : peopleText ++ (" LIMIT ".toList ++ (toString n).toList) ≠ peopleText := by
      rw [ne_eq, List.append_right_eq_self]
      exact List.append_ne_nil_of_left_ne_nil (by decide) _
    have hdrop : (peopleText ++ (" LIMIT ".toList ++ (toString n).toList)).drop
        (peopleText.length + 7) = (toString n).toList := by
      rw [← List.append_assoc]
      exact List.drop_left' List.length_append
    dsimp only [againGlot]
    rw [String.toList_ofList, limitText_setLimit, if_neg hlonger, hdrop, String.ofList_toList,
      show (toString n).toInt? = some n from Int.toInt?_repr n]
  unmarked sql statements parsed schema tree n text _ _ _ h hpos htext := by
    obtain rfl := Except.ok.inj htext
    rw [setLimit_of_qualify h]
    exact unmarked_limited hpos
  idempotent parsed schema tree h := by
    obtain ⟨rfl, -⟩ := qualify_againGlot h
    exact h
  tables parsed schema tree h t ht := by
    obtain ⟨rfl, -⟩ := qualify_againGlot h
    exact ⟨t, ht, rfl, rfl⟩
  joins parsed schema tree h := by
    obtain ⟨rfl, -⟩ := qualify_againGlot h
    exact le_rfl
  ctes parsed schema tree h hwith := by
    obtain ⟨rfl, -⟩ := qualify_againGlot h
    exact hwith
  limit schema tree n h _ := by
    rw [setLimit_of_qualify h]
    exact if_pos (Or.inr (by rw [limitNumber_setLimit]))
  literal parsed schema tree h _ limit hlimit := by
    obtain ⟨-, rfl | ⟨m, rfl⟩⟩ := qualify_againGlot h
    · exact nomatch hlimit
    · obtain rfl := List.mem_singleton.1 (Node.args_set _ _ _ _ ▸ hlimit)
      rfl
  scopes parsed schema tree n h _ := by
    rw [setLimit_of_qualify h]
    obtain ⟨-, rfl | ⟨m, rfl⟩⟩ := qualify_againGlot h
    · rfl
    · rfl
  int := Int.toInt?_repr

def againPolicy : SQLPolicy where
  toSQLPolicyConfig := bankConfig
  toSqlGlot := againGlot

def againService : SQLService (Option Raised) :=
  { balanceService with
    catalog := fun w _ => answering bankCatalog w
    generate := fun w _ _ _ _ => answering (.ofList peopleText) w
    validateAndRewrite := fun _ => againPolicy.validateAndRewrite }

theorem revalidated_people : ∃ v proposed t',
    againPolicy.validateAndRewrite (.ofList peopleText) bankCatalog ⟨"ada", true, none, []⟩ =
      .ok v ∧
    againPolicy.validateAndRewrite v.sql bankCatalog ⟨"ada", true, none, []⟩ = .ok v ∧
    againService.propose (fun _ => none) 0 ⟨"ada", true, none, []⟩ 1 "Who is there?" .empty =
      .ok (proposed, t') ∧
    ∃ v', againService.advance none 1
      ⟨⟨"ada", true, none, []⟩, 1, sqlOn, .validate proposed bankCatalog⟩ t' =
        some (.explain proposed bankCatalog v', t') := by
  obtain ⟨v, hv⟩ : ∃ v, againPolicy.validateAndRewrite (.ofList peopleText) bankCatalog
    ⟨"ada", true, none, []⟩ = .ok v := ⟨_, rfl⟩
  obtain ⟨proposed, t', hproposed⟩ : ∃ proposed t', againService.propose (fun _ => none) 0
    ⟨"ada", true, none, []⟩ 1 "Who is there?" .empty = .ok (proposed, t') := ⟨_, _, rfl⟩
  have hagain := @revalidated _ againService againPolicy bankCatalog faithful_againGlot
    regular_againGlot fun _ => rfl
  exact ⟨v, proposed, t', hv, hagain.1 _ _ _ hv _, hproposed,
    hagain.2 _ _ _ _ _ _ _ _ rfl hproposed _ _ _ _ _ rfl rfl rfl⟩

end EnterpriseRag
