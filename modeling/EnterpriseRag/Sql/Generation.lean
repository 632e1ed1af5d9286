import EnterpriseRag.Sql.ProposalLifecycle
import EnterpriseRag.Sql.Revalidation

/-!
# How generating ends

`propose` tries again where the policy or the plan refuses a text, by the two exceptions that it
names. The policy turns a `ParseError` into a violation, and lets every other error of
`sqlglot.parse` through. `propose_ends_iff` : generating ends as it should exactly when no text
that was generated is `Unhandled`.
-/

namespace EnterpriseRag

/-! ## What a text can raise -/

/-- It returns, or raises a violation. -/
def Violates {α : Type} (x : Except Raised α) : Prop :=
  ∀ e, x = .error e → ∃ code, e = .sqlPolicyViolation code

section Violates

variable {α β : Type}

theorem violates_ok (a : α) : Violates (.ok a : Except Raised α) :=
  fun _ h => nomatch h

theorem violates_error (code : String) :
    Violates (.error (.sqlPolicyViolation code) : Except Raised α) :=
  fun _ h => ⟨code, (Except.error.inj h).symm⟩

theorem violates_of_ok {x : Except Raised α} {a : α} (h : x = .ok a) : Violates x :=
  h ▸ violates_ok a

theorem violates_require (p : Prop) [Decidable p] (code : String) : Violates (require p code) := by
  rw [require]
  split
  · exact violates_ok ()
  · exact violates_error code

theorem Violates.bind {x : Except Raised α} {f : α → Except Raised β} (hx : Violates x)
    (hf : ∀ a, x = .ok a → Violates (f a)) : Violates (x >>= f) := by
  intro e h
  rcases bind_eq_error.1 h with h | ⟨a, ha, h⟩
  · exact hx e h
  · exact hf a ha e h

/-- A check, and what follows it. -/
theorem violates_require_bind {p : Prop} [Decidable p] {code : String}
    {f : Unit → Except Raised β} (hf : Violates (f ())) : Violates (require p code >>= f) :=
  (violates_require p code).bind fun _ _ => hf

theorem violates_mapM {f : α → Except Raised β} {as : List α} (h : ∀ a, Violates (f a)) :
    Violates (as.mapM f) := by
  induction as with
  | nil => exact violates_ok []
  | cons a as ih =>
    rw [List.mapM_cons]
    exact (h a).bind fun b _ => ih.bind fun bs _ => violates_ok (b :: bs)

theorem violates_anyM {f : α → Except Raised Bool} {as : List α} (h : ∀ a, Violates (f a)) :
    Violates (as.anyM f) := by
  induction as with
  | nil => exact violates_ok false
  | cons a as ih =>
    rw [List.anyM_cons]
    refine (h a).bind fun b _ => ?_
    cases b with
    | true => exact violates_ok true
    | false => exact ih

end Violates

namespace SQLPolicy

/-- What `sqlglot` raises by its documentation. -/
structure Documented (glot : SqlGlot) : Prop where
  /-- The parser and the qualifier raise errors of `sqlglot`. -/
  parse : ∀ sql e, glot.parse sql ≠ .error (.other e)
  qualify : ∀ parsed schema e, glot.qualify parsed schema ≠ .error (.other e)
  /-- What was qualified has scopes and is printed. -/
  buildScope : ∀ parsed schema tree, glot.qualify parsed schema = .ok tree →
    ∃ scope, glot.buildScope tree = .ok scope
  sql : ∀ parsed schema tree rowLimit, glot.qualify parsed schema = .ok tree →
    ∃ text, glot.sql (setLimit tree rowLimit) = .ok text

variable {policy : SQLPolicy} {catalog : CatalogSnapshot} {sql : String} {principal : SQLPrincipal}

/-- The text is parsed, and `sqlglot` raises an error that is no `ParseError`. -/
def Unhandled (policy : SQLPolicy) (sql : String) : Prop :=
  Unmarked sql ∧ ∃ name, policy.parse sql = .error (.sqlglotError name)

/-! ### The blocks of the policy -/

theorem violates_parseSelect (hglot : Documented policy.toSqlGlot)
    (h : ¬policy.Unhandled sql) : Violates (policy.parseSelect sql) := by
  refine (violates_require _ _).bind fun _ hcomments => ?_
  refine (violates_require _ _).bind fun _ hsemicolon => ?_
  refine Violates.bind ?_ fun statements _ => ?_
  · rw [parseStatements]
    split
    · exact violates_ok _
    · exact violates_error _
    · rename_i name hname
      exact absurd ⟨⟨require_eq_ok.1 hcomments, require_eq_ok.1 hsemicolon⟩, name, hname⟩ h
    · rename_i e he
      exact absurd he (hglot.parse sql e)
  · split
    · exact violates_require_bind (violates_ok _)
    · exact violates_error _

theorem violates_checkStructure (tree : Node) : Violates (policy.checkStructure tree) := by
  rw [checkStructure]
  iterate 8 refine violates_require_bind ?_
  exact violates_require _ _

theorem violates_checkTable (t : TableRef) : Violates (policy.checkTable catalog t) :=
  violates_require_bind (violates_require_bind (violates_require_bind (violates_ok _)))

theorem violates_qualifyTree (hglot : Documented policy.toSqlGlot) (parsed : Node) :
    Violates (policy.qualifyTree catalog parsed) := by
  refine Violates.bind ?_ fun tree _ => violates_require_bind (violates_ok _)
  rw [qualifyColumns]
  split
  · exact violates_ok _
  · rename_i e he
    exact absurd he (hglot.qualify _ _ e)
  · exact violates_error _

theorem violates_sourceOf (sources : List (String × Source)) (c : ColumnRef) :
    Violates (policy.sourceOf sources c) := by
  refine violates_require_bind ?_
  split
  · exact violates_ok _
  · exact violates_error _

theorem violates_checkColumn (sources : List (String × Source)) (c : ColumnRef) :
    Violates (policy.checkColumn catalog sources c) :=
  (violates_sourceOf sources c).bind fun _ _ => violates_require_bind (violates_ok _)

theorem violates_columnIsSensitive (sources : List (String × Source)) (c : ColumnRef) :
    Violates (policy.columnIsSensitive catalog sources c) := by
  refine (violates_sourceOf sources c).bind fun t _ => ?_
  split
  · exact violates_ok _
  · exact violates_ok _

theorem violates_rewriteLimit (tree : Node) : Violates (policy.rewriteLimit tree) := by
  rw [rewriteLimit]
  split
  · exact violates_ok _
  · split
    · split
      · split
        · exact violates_error _
        · exact violates_ok _
      · exact violates_error _
    · exact violates_error _

theorem violates_validateAndRewrite (hglot : Documented policy.toSqlGlot)
    (h : ¬policy.Unhandled sql) :
    Violates (policy.validateAndRewrite sql catalog principal) := by
  refine Violates.bind ?_ fun ⟨tree, tables⟩ hqualified => ?_
  · refine (violates_parseSelect hglot h).bind fun parsed _ => ?_
    refine (violates_checkStructure parsed).bind fun _ _ => ?_
    refine (violates_mapM violates_checkTable).bind fun names _ => ?_
    exact (violates_qualifyTree hglot parsed).bind fun tree _ => violates_ok _
  obtain ⟨parsed, hparsed⟩ := qualified_ok hqualified
  refine Violates.bind ?_ fun root _ => ?_
  · obtain ⟨scope, hscope⟩ := hglot.buildScope _ _ _ hparsed.qualified
    refine (violates_of_ok hscope).bind fun found _ => ?_
    cases found with
    | none => exact violates_error _
    | some root => exact violates_ok root
  refine Violates.bind ?_ fun columns _ => ?_
  · exact violates_mapM fun scope => violates_mapM (violates_checkColumn scope.sources)
  refine Violates.bind ?_ fun sensitive _ => ?_
  · exact violates_mapM fun projection =>
      violates_anyM (violates_columnIsSensitive root.label.sources)
  refine violates_require_bind ?_
  refine (violates_rewriteLimit tree).bind fun ⟨rowLimit, final⟩ hlimit => ?_
  obtain ⟨-, -, rfl⟩ := rewriteLimit_ok hlimit
  obtain ⟨text, htext⟩ := hglot.sql _ _ _ rowLimit hparsed.qualified
  exact (violates_of_ok htext).bind fun normalized _ => violates_ok _

/-- An error that is no `ParseError` goes through. -/
theorem validateAndRewrite_of_unhandled (h : policy.Unhandled sql) :
    ∃ name, policy.validateAndRewrite sql catalog principal = .error (.exception name) := by
  obtain ⟨⟨hcomments, hsemicolon⟩, name, hname⟩ := h
  have hstatements : policy.parseStatements sql = .error (.exception name) := by
    rw [parseStatements, hname]
  have hparse : policy.parseSelect sql = .error (.exception name) := by
    refine bind_eq_error.2 (Or.inr ⟨(), require_eq_ok.2 hcomments, ?_⟩)
    refine bind_eq_error.2 (Or.inr ⟨(), require_eq_ok.2 hsemicolon, ?_⟩)
    exact bind_eq_error.2 (Or.inl hstatements)
  exact ⟨name, bind_eq_error.2 (Or.inl (bind_eq_error.2 (Or.inl hparse)))⟩

/-- The policy returns or raises a violation exactly if the text is handled. -/
theorem violates_validateAndRewrite_iff (hglot : Documented policy.toSqlGlot) :
    Violates (policy.validateAndRewrite sql catalog principal) ↔ ¬policy.Unhandled sql := by
  refine ⟨fun h hunhandled => ?_, violates_validateAndRewrite hglot⟩
  obtain ⟨name, hname⟩ := validateAndRewrite_of_unhandled hunhandled
  obtain ⟨code, hcode⟩ := h _ hname
  exact nomatch hcode

end SQLPolicy

/-! ## The attempts -/

namespace SQLService

variable {ω : Type*} (svc : SQLService ω) (ws : ℕ → ω) (principal : SQLPrincipal)
  (catalog : CatalogSnapshot) (question : String)

/-- The attempts of `generateLoop` : the text of each, and what the policy and the plan made of
it. -/
def attempts : (left n : ℕ) → (correction : Option String) →
    List (String × Except Raised ValidatedSQL)
  | 0, _, _ => []
  | left + 1, n, correction =>
    match svc.generate (ws n) question principal catalog correction with
    | .error _ => []
    | .ok sql =>
      (sql, svc.attempt (ws n) principal catalog sql) ::
        match svc.attempt (ws n) principal catalog sql with
        | .ok _ => []
        | .error e =>
          match correctionCode e with
          | some code => attempts left (n + 1) (some code)
          | none => []

/-- The code of the last attempt, or the one before any. -/
def lastCode : String → List (String × Except Raised ValidatedSQL) → String
  | lastErrorCode, [] => lastErrorCode
  | lastErrorCode, (_, .ok _) :: tried => lastCode lastErrorCode tried
  | lastErrorCode, (_, .error e) :: tried => lastCode ((correctionCode e).getD lastErrorCode) tried

variable {svc ws principal catalog question} {policy : SQLPolicy}

theorem length_attempts_le : ∀ {left n : ℕ} {correction : Option String},
    (svc.attempts ws principal catalog question left n correction).length ≤ left
  | 0, _, _ => le_rfl
  | left + 1, n, correction => by
    rw [attempts]
    split
    · exact Nat.zero_le _
    · rw [List.length_cons]
      refine Nat.succ_le_succ ?_
      split
      · exact Nat.zero_le _
      · split
        · exact length_attempts_le
        · exact Nat.zero_le _

theorem exists_of_mem_attempts {a : String × Except Raised ValidatedSQL} :
    ∀ {left n : ℕ} {correction : Option String},
      a ∈ svc.attempts ws principal catalog question left n correction →
        ∃ m, a.2 = svc.attempt (ws m) principal catalog a.1
  | 0, _, _, h => nomatch h
  | left + 1, n, correction, h => by
    rw [attempts] at h
    split at h
    · exact nomatch h
    · rcases List.mem_cons.1 h with rfl | h
      · exact ⟨n, rfl⟩
      · split at h
        · exact nomatch h
        · split at h
          · exact exists_of_mem_attempts h
          · exact nomatch h

/-- What the collaborators of `propose` answer : a text from the generator, the policy's own
answer, and a plan or its refusal. -/
structure Answers (svc : SQLService ω) (policy : SQLPolicy) : Prop where
  generate : ∀ w question principal catalog correction,
    ∃ sql, svc.generate w question principal catalog correction = .ok sql
  policy : ∀ w, svc.validateAndRewrite w = policy.validateAndRewrite
  explain : ∀ w v principal e, svc.explain w v principal = .error e →
    ∃ code, e = .sqlExecutionRejected code

/-- An attempt ends the loop with an error exactly if its text is not handled. -/
theorem correctionCode_attempt (hglot : SQLPolicy.Documented policy.toSqlGlot)
    (h : svc.Answers policy) {w : ω} {sql : String} {e : Raised}
    (hattempt : svc.attempt w principal catalog sql = .error e) :
    correctionCode e = none ↔ policy.Unhandled sql := by
  rcases bind_eq_error.1 hattempt with hvalidate | ⟨v, hvalidate, hrest⟩
  · rw [h.policy] at hvalidate
    constructor
    · intro hnone
      by_contra hhandled
      obtain ⟨code, rfl⟩ := SQLPolicy.violates_validateAndRewrite hglot hhandled e hvalidate
      exact nomatch hnone
    · intro hunhandled
      obtain ⟨name, hname⟩ := SQLPolicy.validateAndRewrite_of_unhandled hunhandled
      obtain rfl := Except.error.inj (hvalidate.symm.trans hname)
      rfl
  · rw [h.policy] at hvalidate
    have hplan : ∃ code, e = .sqlExecutionRejected code := by
      rcases bind_eq_error.1 hrest with hexplain | ⟨plan, -, hreturn⟩
      · exact h.explain w v principal e hexplain
      · exact nomatch hreturn
    obtain ⟨code, rfl⟩ := hplan
    refine ⟨fun hnone => absurd hnone (Option.some_ne_none code), fun hunhandled => ?_⟩
    obtain ⟨name, hname⟩ := SQLPolicy.validateAndRewrite_of_unhandled hunhandled
    exact nomatch hvalidate.symm.trans hname

/-- An attempt that passed the policy has a text that is handled. -/
theorem not_unhandled_of_attempt (h : svc.Answers policy) {w : ω} {sql : String}
    {v : ValidatedSQL} (hattempt : svc.attempt w principal catalog sql = .ok v) :
    ¬policy.Unhandled sql := by
  intro hunhandled
  obtain ⟨v', hvalidate, -⟩ := bind_eq_ok.1 hattempt
  rw [h.policy] at hvalidate
  obtain ⟨name, hname⟩ := SQLPolicy.validateAndRewrite_of_unhandled hunhandled
  exact nomatch hvalidate.symm.trans hname

/-! ### One attempt -/

section Attempt

variable {left n : ℕ} {correction : Option String} {lastErrorCode sql : String}

theorem generateLoop_succ
    (hsql : svc.generate (ws n) question principal catalog correction = .ok sql) :
    svc.generateLoop ws principal catalog question (left + 1) n correction lastErrorCode =
      match svc.attempt (ws n) principal catalog sql with
      | .ok validated => .ok validated
      | .error e =>
        match correctionCode e with
        | some code =>
          svc.generateLoop ws principal catalog question left (n + 1) (some code) code
        | none => .error e := by
  rw [generateLoop, hsql]
  rfl

theorem attempts_succ
    (hsql : svc.generate (ws n) question principal catalog correction = .ok sql) :
    svc.attempts ws principal catalog question (left + 1) n correction =
      (sql, svc.attempt (ws n) principal catalog sql) ::
        match svc.attempt (ws n) principal catalog sql with
        | .ok _ => []
        | .error e =>
          match correctionCode e with
          | some code => svc.attempts ws principal catalog question left (n + 1) (some code)
          | none => [] := by
  rw [attempts, hsql]

end Attempt

/-- Where every text is handled the loop returns a statement or ends with the last code. -/
theorem generateLoop_of_handled (hglot : SQLPolicy.Documented policy.toSqlGlot)
    (h : svc.Answers policy) : ∀ {left n : ℕ} {correction : Option String} {lastErrorCode : String},
      (∀ a ∈ svc.attempts ws principal catalog question left n correction,
        ¬policy.Unhandled a.1) →
      (∃ v, svc.generateLoop ws principal catalog question left n correction lastErrorCode =
        .ok v) ∨
      svc.generateLoop ws principal catalog question left n correction lastErrorCode =
        .error (.sqlGenerationFailed
          (lastCode lastErrorCode
            (svc.attempts ws principal catalog question left n correction)))
  | 0, _, _, _, _ => Or.inr rfl
  | left + 1, n, correction, lastErrorCode, hhandled => by
    obtain ⟨sql, hsql⟩ := h.generate (ws n) question principal catalog correction
    rw [generateLoop_succ hsql]
    rw [attempts_succ hsql] at hhandled ⊢
    cases hattempt : svc.attempt (ws n) principal catalog sql with
    | ok v => exact Or.inl ⟨v, rfl⟩
    | error e =>
      rw [hattempt] at hhandled
      cases hcode : correctionCode e with
      | none =>
        exact absurd ((correctionCode_attempt hglot h hattempt).1 hcode)
          (hhandled _ List.mem_cons_self)
      | some code =>
        dsimp only at hhandled ⊢
        rw [hcode] at hhandled
        rw [lastCode, hcode]
        exact generateLoop_of_handled hglot h fun a ha => hhandled a (List.mem_cons_of_mem _ ha)

/-- A text that is not handled ends the loop with what it raised. -/
theorem generateLoop_of_unhandled (hglot : SQLPolicy.Documented policy.toSqlGlot)
    (h : svc.Answers policy) {a : String × Except Raised ValidatedSQL}
    (ha : policy.Unhandled a.1) :
    ∀ {left n : ℕ} {correction : Option String} {lastErrorCode : String},
      a ∈ svc.attempts ws principal catalog question left n correction →
      ∃ name, svc.generateLoop ws principal catalog question left n correction lastErrorCode =
        .error (.exception name)
  | 0, _, _, _, hmem => nomatch hmem
  | left + 1, n, correction, lastErrorCode, hmem => by
    obtain ⟨sql, hsql⟩ := h.generate (ws n) question principal catalog correction
    rw [generateLoop_succ hsql]
    rw [attempts_succ hsql] at hmem
    cases hattempt : svc.attempt (ws n) principal catalog sql with
    | ok v =>
      rw [hattempt] at hmem
      obtain rfl := List.mem_singleton.1 hmem
      exact absurd ha (not_unhandled_of_attempt h hattempt)
    | error e =>
      rw [hattempt] at hmem
      dsimp only at hmem ⊢
      cases hcode : correctionCode e with
      | none =>
        rw [hcode] at hmem
        have hunhandled := (correctionCode_attempt hglot h hattempt).1 hcode
        obtain ⟨name, hname⟩ := @SQLPolicy.validateAndRewrite_of_unhandled policy catalog sql
          principal hunhandled
        refine ⟨name, congrArg Except.error ?_⟩
        have herror : svc.attempt (ws n) principal catalog sql = .error (.exception name) :=
          bind_eq_error.2 (Or.inl (by rw [h.policy, hname]))
        exact Except.error.inj (hattempt.symm.trans herror)
      | some code =>
        rw [hcode] at hmem
        rcases List.mem_cons.1 hmem with rfl | hmem
        · have hnone := (correctionCode_attempt hglot h hattempt).2 ha
          exact nomatch hcode.symm.trans hnone
        · exact generateLoop_of_unhandled hglot h ha hmem

end SQLService

/-! ## How proposing ends -/

section Proposing

open SQLService

variable {ω : Type*} {svc : SQLService ω} {policy : SQLPolicy} {ws : ℕ → ω} {now : Timestamp}
  {principal : SQLPrincipal} {catalog : CatalogSnapshot} {conversationId : ℤ} {question : String}
  {t : ProposalTable}

/-- Every text is returned or violates the policy, there are no more attempts than there may be,
and the end is a proposal or the failure with the last code. -/
structure EndsCleanly (policy : SQLPolicy) (principal : SQLPrincipal) (catalog : CatalogSnapshot)
    (maxAttempts : ℕ) (tried : List (String × Except Raised ValidatedSQL))
    (ended : Except Raised (SQLProposal × ProposalTable)) : Prop where
  validated : ∀ a ∈ tried, Violates (policy.validateAndRewrite a.1 catalog principal)
  bounded : tried.length ≤ maxAttempts
  ends : (∃ p t', ended = .ok (p, t')) ∨
    ended = .error (.sqlGenerationFailed (lastCode "no_generation_attempted" tried))

/-- A statement is stored under a fresh id. -/
theorem exists_propose (hcatalog : svc.catalog (ws 0) principal = .ok catalog)
    (hsync : svc.syncGenerator (ws 0) catalog = .ok ())
    (hfresh : svc.uuid4 (ws 0) ∉ t.rows.map fun r => r.id) {v : ValidatedSQL}
    (hloop : svc.generateLoop ws principal catalog question svc.maxGenerationAttempts 0 none
      "no_generation_attempted" = .ok v) :
    ∃ p t', svc.propose ws now principal conversationId question t = .ok (p, t') := by
  refine ⟨?p, ?t', bind_eq_ok.2 ⟨catalog, hcatalog, bind_eq_ok.2 ⟨(), hsync,
    bind_eq_ok.2 ⟨v, hloop, ?stored⟩⟩⟩⟩
  case stored =>
    rw [ProposalTable.create, Table.insert, dif_neg hfresh]

/-- With a fresh id, proposing ends cleanly exactly if every text that was generated is handled. -/
theorem propose_ends_iff (hglot : SQLPolicy.Documented policy.toSqlGlot) (h : svc.Answers policy)
    (hcatalog : svc.catalog (ws 0) principal = .ok catalog)
    (hsync : svc.syncGenerator (ws 0) catalog = .ok ())
    (hfresh : svc.uuid4 (ws 0) ∉ t.rows.map fun r => r.id) :
    EndsCleanly policy principal catalog svc.maxGenerationAttempts
      (svc.attempts ws principal catalog question svc.maxGenerationAttempts 0 none)
      (svc.propose ws now principal conversationId question t) ↔
    ∀ a ∈ svc.attempts ws principal catalog question svc.maxGenerationAttempts 0 none,
      ¬policy.Unhandled a.1 := by
  constructor
  · intro hends a ha
    exact (SQLPolicy.violates_validateAndRewrite_iff hglot).1 (hends.validated a ha)
  · intro hhandled
    refine ⟨fun a ha => (SQLPolicy.violates_validateAndRewrite_iff hglot).2 (hhandled a ha),
      length_attempts_le, ?_⟩
    rw [propose, hcatalog]
    rcases @generateLoop_of_handled _ svc ws principal catalog question policy hglot h _ _ _
        "no_generation_attempted" hhandled with ⟨v, hloop⟩ | hloop
    · obtain ⟨p, t', hstored⟩ := exists_propose hcatalog hsync hfresh hloop
      exact Or.inl ⟨p, t', by rw [← hstored, propose, hcatalog]⟩
    · refine Or.inr (bind_eq_error.2 (Or.inr ⟨catalog, rfl, ?_⟩))
      exact bind_eq_error.2 (Or.inr ⟨(), hsync, bind_eq_error.2 (Or.inl hloop)⟩)

end Proposing

/-! ## A string without an end -/

/-- One text has a string without an end, any other is one statement. -/
def openStringPolicy : SQLPolicy where
  toSQLPolicyConfig := bankConfig
  toSqlGlot :=
    { glotFor peopleQuery "SELECT p.name AS name FROM bank.people AS p LIMIT 200" with
      parse := fun sql =>
        if sql = "SELECT 'name" then .error (.sqlglotError "TokenError")
        else .ok [some peopleQuery] }

def openStringService : SQLService (Option Raised) :=
  { balanceService with
    catalog := fun w _ => answering bankCatalog w
    generate := fun _ _ _ _ _ => .ok "SELECT 'name"
    validateAndRewrite := fun _ => openStringPolicy.validateAndRewrite
    explain := fun _ _ _ => .ok ⟨1, 1, 1⟩ }

theorem documented_openString : SQLPolicy.Documented openStringPolicy.toSqlGlot where
  parse sql e h := by
    dsimp only [openStringPolicy] at h
    split at h
    · exact nomatch h
    · exact nomatch h
  qualify _ _ _ h := nomatch h
  buildScope _ _ _ _ := ⟨_, rfl⟩
  sql _ _ _ _ _ := ⟨_, rfl⟩

theorem answers_openString : openStringService.Answers openStringPolicy where
  generate _ _ _ _ _ := ⟨_, rfl⟩
  policy _ := rfl
  explain _ _ _ _ h := nomatch h

/-- The error goes through all of `propose`. -/
theorem open_string_escapes :
    openStringService.propose (fun _ => none) 0 ⟨"ada", true, none, []⟩ 1 "Who is there?" .empty =
      .error (.exception "TokenError") ∧
    ¬EndsCleanly openStringPolicy ⟨"ada", true, none, []⟩ bankCatalog 2
      (openStringService.attempts (fun _ => none) ⟨"ada", true, none, []⟩ bankCatalog
        "Who is there?" 2 0 none)
      (openStringService.propose (fun _ => none) 0 ⟨"ada", true, none, []⟩ 1 "Who is there?"
        .empty) := by
  have hpropose : openStringService.propose (fun _ => none) 0 ⟨"ada", true, none, []⟩ 1
    "Who is there?" .empty = .error (.exception "TokenError") := rfl
  refine ⟨hpropose, fun h => ?_⟩
  rcases h.ends with ⟨p, t', hstored⟩ | hfailed
  · exact nomatch hpropose.symm.trans hstored
  · exact nomatch hpropose.symm.trans hfailed

theorem propose_ends_iff_openString :
    EndsCleanly openStringPolicy ⟨"ada", true, none, []⟩ bankCatalog 2
      (openStringService.attempts (fun _ => none) ⟨"ada", true, none, []⟩ bankCatalog
        "Who is there?" 2 0 none)
      (openStringService.propose (fun _ => none) 0 ⟨"ada", true, none, []⟩ 1 "Who is there?"
        .empty) ↔
    ∀ a ∈ openStringService.attempts (fun _ => none) ⟨"ada", true, none, []⟩ bankCatalog
        "Who is there?" 2 0 none, ¬openStringPolicy.Unhandled a.1 :=
  @propose_ends_iff _ openStringService openStringPolicy (fun _ => none) 0
    ⟨"ada", true, none, []⟩ bankCatalog 1 "Who is there?" .empty documented_openString
    answers_openString rfl rfl (List.not_mem_nil)

end EnterpriseRag
