import EnterpriseRag.Sql.ProposalRepository

/-!
# The SQL service

`SQLService` holds the collaborators of the service. A call into one of them may return
or raise, and not the same way twice, so each takes a world `w : ω` the caller does not
control.

`propose` generates, validates and plans until an attempt passes, and stores the
proposal. `approve_and_execute` is a call in several steps : `ApprovePoint` is where it
stands, one constructor for each store or collaborator call it makes next, and
`SQLService.advance` makes that call and runs the code up to the next one. A call is
entered by `approve`, which reads the configuration, and is over at `returned` or
`raised`. From the lock on it holds the proposal it locked (`ApprovePoint.held`).
-/

namespace EnterpriseRag

structure SQLService (ω : Type*) where
  catalog : ω → SQLPrincipal → Except Raised CatalogSnapshot
  /-- `sync_catalog`, `list_active` and `sync_examples`. -/
  syncGenerator : ω → CatalogSnapshot → Except Raised Unit
  generate : ω → String → SQLPrincipal → CatalogSnapshot → Option String → Except Raised String
  validateAndRewrite : ω → String → CatalogSnapshot → SQLPrincipal → Except Raised ValidatedSQL
  explain : ω → ValidatedSQL → SQLPrincipal → Except Raised ExplainAssessment
  execute : ω → ValidatedSQL → SQLPrincipal → Except Raised SQLExecutionResult
  applyResultPolicy : ω → SQLExecutionResult → SQLPrincipal → CatalogSnapshot → ValidatedSQL →
    Except Raised SanitizedSQLResult
  answer : ω → String → ValidatedSQL → SanitizedSQLResult → Except Raised String
  uuid4 : ω → UUID
  proposalTtl : ℤ
  maxGenerationAttempts : ℕ

/-- `_map_execution_error`. -/
def mapExecutionError : Raised → String
  | .queryCanceled => "statement_timeout"
  | .lockNotAvailable => "lock_timeout"
  | .operationalError => "connection_error"
  | _ => "execution_error"

namespace SQLService

variable {ω : Type*}

/-! ## Proposing -/

/-- The code of an error that a further attempt may correct. -/
def correctionCode : Raised → Option String
  | .sqlPolicyViolation code => some code
  | .sqlExecutionRejected code => some code
  | _ => none

/-- One attempt : the policy, then the plan. -/
def attempt (svc : SQLService ω) (w : ω) (principal : SQLPrincipal) (catalog : CatalogSnapshot)
    (sql : String) : Except Raised ValidatedSQL := do
  let validated ← svc.validateAndRewrite w sql catalog principal
  let _ ← svc.explain w validated principal
  return validated

/-- The bounded loop of `propose`, `n` attempts made and `left` to go, each in a world of
its own. -/
def generateLoop (svc : SQLService ω) (ws : ℕ → ω) (principal : SQLPrincipal)
    (catalog : CatalogSnapshot) (question : String) :
    (left n : ℕ) → (correction : Option String) → (lastErrorCode : String) →
      Except Raised ValidatedSQL
  | 0, _, _, lastErrorCode => .error (.sqlGenerationFailed lastErrorCode)
  | left + 1, n, correction, _ => do
    let sql ← svc.generate (ws n) question principal catalog correction
    match svc.attempt (ws n) principal catalog sql with
    | .ok validated => return validated
    | .error e =>
      match correctionCode e with
      | some code => svc.generateLoop ws principal catalog question left (n + 1) (some code) code
      | none => .error e

/-- `propose` : the stored proposal and the table it is in. -/
def propose (svc : SQLService ω) (ws : ℕ → ω) (now : Timestamp) (principal : SQLPrincipal)
    (conversationId : ℤ) (question : String) (t : ProposalTable) :
    Except Raised (SQLProposal × ProposalTable) := do
  let catalog ← svc.catalog (ws 0) principal
  svc.syncGenerator (ws 0) catalog
  let validated ← svc.generateLoop ws principal catalog question svc.maxGenerationAttempts 0 none
    "no_generation_attempted"
  t.create
    { id := svc.uuid4 (ws 0)
      username := principal.username
      conversationId
      question
      sql := validated.sql
      sqlFingerprint := validated.fingerprint
      referencedTables := validated.referencedTables
      assumptions := []
      catalogVersion := catalog.version
      policyVersion := validated.policyVersion
      status := .proposed
      expiresAt := now + svc.proposalTtl
      createdAt := now } now

/-- A proposal that was stored is pending and owned by its principal. -/
theorem propose_ok {svc : SQLService ω} {ws : ℕ → ω} {now : Timestamp} {principal : SQLPrincipal}
    {conversationId : ℤ} {question : String} {t t' : ProposalTable} {p : SQLProposal}
    (h : svc.propose ws now principal conversationId question t = .ok (p, t')) :
    p.status = .proposed ∧ p.username = principal.username ∧ p.createdAt = now ∧
      t.insert { toSQLProposal := p } = some t' := by
  unfold propose at h
  obtain ⟨catalog, -, h⟩ := bind_eq_ok.1 h
  obtain ⟨-, -, h⟩ := bind_eq_ok.1 h
  obtain ⟨validated, -, h⟩ := bind_eq_ok.1 h
  obtain ⟨rfl, ht⟩ := ProposalTable.create_ok h
  exact ⟨rfl, rfl, rfl, ht⟩

end SQLService

/-! ## Approving -/

/-- Where an `approve_and_execute` call stands : the call it makes next, with the local
variables it has by then. -/
inductive ApprovePoint
  | readClock
  | lock (now : Timestamp)
  | catalog (proposal : SQLProposal)
  | validate (proposal : SQLProposal) (catalog : CatalogSnapshot)
  | explain (proposal : SQLProposal) (catalog : CatalogSnapshot) (validated : ValidatedSQL)
  | execute (proposal : SQLProposal) (catalog : CatalogSnapshot) (validated : ValidatedSQL)
  | applyResult (proposal : SQLProposal) (catalog : CatalogSnapshot) (validated : ValidatedSQL)
      (raw : SQLExecutionResult)
  | answer (proposal : SQLProposal) (validated : ValidatedSQL) (raw : SQLExecutionResult)
      (safe : SanitizedSQLResult)
  | markExecuted (proposal : SQLProposal) (validated : ValidatedSQL) (raw : SQLExecutionResult)
      (safe : SanitizedSQLResult) (answerText : String)
  | markFailed (proposal : SQLProposal) (errorCode : String) (error : Raised)
  | returned (completed : SQLCompletedAnswer)
  | raised (error : Raised)
  deriving DecidableEq

/-- A call with the snapshot it read. -/
structure ApproveCall where
  principal : SQLPrincipal
  proposalId : UUID
  config : RagRuntimeConfig
  point : ApprovePoint
  deriving DecidableEq

/-- The proposal a call has locked and not yet recorded the end of. -/
def ApprovePoint.held : ApprovePoint → Option SQLProposal
  | .readClock | .lock _ | .returned _ | .raised _ => none
  | .catalog p | .validate p _ | .explain p _ _ | .execute p _ _ | .applyResult p _ _ _
  | .answer p _ _ _ | .markExecuted p _ _ _ _ | .markFailed p _ _ => some p

/-- The call is over. -/
def ApprovePoint.IsOver : ApprovePoint → Prop
  | .returned _ | .raised _ => True
  | _ => False

/-- The call has not passed the executor. -/
def ApprovePoint.BeforeExecute : ApprovePoint → Prop
  | .catalog _ | .validate _ _ | .explain _ _ _ | .execute _ _ _ => True
  | _ => False

/-- Mark the proposal failed and raise `SQLProposalStateError` with the same code. -/
def ApprovePoint.fail (p : SQLProposal) (code : String) : ApprovePoint :=
  .markFailed p code (.sqlProposalState code)

/-- The handlers around `explain` and `execute`. -/
def ApprovePoint.onExecutionError (p : SQLProposal) : Raised → ApprovePoint
  | .sqlExecutionRejected code => .fail p code
  | e => if e.isException then .fail p (mapExecutionError e) else .raised e

/-- The handler around the result policy and the answerer. -/
def ApprovePoint.onPostExecutionError (p : SQLProposal) (e : Raised) : ApprovePoint :=
  if e.isException then .fail p "post_execution_failure" else .raised e

namespace SQLService

variable {ω : Type*}

/-- `approve_and_execute` up to its first call : the kill switches. -/
def approve (principal : SQLPrincipal) (proposalId : UUID) (config : RagRuntimeConfig) :
    ApproveCall where
  principal
  proposalId
  config
  point :=
    if !config.1.sqlEnabled || config.1.emergencyDisabled then
      .raised (.sqlProposalState "sql_disabled")
    else .readClock

/-- The rest of `approve_and_execute`, one call at a time : where it stands after the call
it makes at `call.point`, and the table that call leaves. `none` once it is over. -/
def advance (svc : SQLService ω) (w : ω) (clock : Timestamp) (call : ApproveCall)
    (t : ProposalTable) : Option (ApprovePoint × ProposalTable) :=
  match call.point with
  | .readClock => some (.lock clock, t)
  | .lock now =>
    match t.lockForExecution call.proposalId call.principal.username now clock with
    | (.ok p, t') => some (.catalog p, t')
    | (.error e, t') => some (.raised e, t')
  | .catalog p =>
    match svc.catalog w call.principal with
    | .error e => some (.raised e, t)
    | .ok catalog =>
      if catalog.version ≠ p.catalogVersion then
        some (.markFailed p "catalog_changed"
          (.sqlProposalState "catalog_changed_regenerate_proposal"), t)
      else some (.validate p catalog, t)
  | .validate p catalog =>
    match svc.validateAndRewrite w p.sql catalog call.principal with
    | .error (.sqlPolicyViolation code) => some (.fail p code, t)
    | .error e => some (.raised e, t)
    | .ok validated =>
      if validated.fingerprint ≠ p.sqlFingerprint then some (.fail p "fingerprint_mismatch", t)
      else some (.explain p catalog validated, t)
  | .explain p catalog validated =>
    match svc.explain w validated call.principal with
    | .error e => some (.onExecutionError p e, t)
    | .ok _ => some (.execute p catalog validated, t)
  | .execute p catalog validated =>
    match svc.execute w validated call.principal with
    | .error e => some (.onExecutionError p e, t)
    | .ok raw => some (.applyResult p catalog validated raw, t)
  | .applyResult p catalog validated raw =>
    match svc.applyResultPolicy w raw call.principal catalog validated with
    | .error e => some (.onPostExecutionError p e, t)
    | .ok safe => some (.answer p validated raw safe, t)
  | .answer p validated raw safe =>
    match svc.answer w p.question validated safe with
    | .error e => some (.onPostExecutionError p e, t)
    | .ok answerText => some (.markExecuted p validated raw safe answerText, t)
  | .markExecuted p validated raw safe answerText =>
    some (.returned ⟨answerText, safe, { p with status := .executed }, validated⟩,
      t.markExecuted p.id safe.rowCount raw.durationMs clock)
  | .markFailed p errorCode error => some (.raised error, t.markFailed p.id errorCode)
  | .returned _ | .raised _ => none

/-! ## What a step of an approving call does -/

variable {svc : SQLService ω} {w : ω} {clock : Timestamp} {call : ApproveCall}
  {t t' : ProposalTable} {next : ApprovePoint}

theorem held_onExecutionError (p : SQLProposal) (e : Raised) :
    (ApprovePoint.onExecutionError p e).held = some p ∨
      ∃ e', ApprovePoint.onExecutionError p e = .raised e' := by
  unfold ApprovePoint.onExecutionError
  split
  · exact Or.inl rfl
  · split_ifs
    · exact Or.inl rfl
    · exact Or.inr ⟨_, rfl⟩

theorem held_onPostExecutionError (p : SQLProposal) (e : Raised) :
    (ApprovePoint.onPostExecutionError p e).held = some p ∨
      ∃ e', ApprovePoint.onPostExecutionError p e = .raised e' := by
  unfold ApprovePoint.onPostExecutionError
  split_ifs
  · exact Or.inl rfl
  · exact Or.inr ⟨_, rfl⟩

/-- Everything a step can do to the table and to what the call holds : read the clock,
lock, record the end, or none of these and leave the table alone. -/
theorem advance_cases (h : svc.advance w clock call t = some (next, t')) :
    (call.point = .readClock ∧ next = .lock clock ∧ t' = t) ∨
    (∃ now p, call.point = .lock now ∧ next = .catalog p ∧
      t.lockForExecution call.proposalId call.principal.username now clock = (.ok p, t')) ∨
    (∃ now e, call.point = .lock now ∧ next = .raised e ∧
      t.lockForExecution call.proposalId call.principal.username now clock = (.error e, t')) ∨
    (∃ p validated raw safe answerText,
      call.point = .markExecuted p validated raw safe answerText ∧
      next = .returned ⟨answerText, safe, { p with status := .executed }, validated⟩ ∧
      t' = t.markExecuted p.id safe.rowCount raw.durationMs clock) ∨
    (∃ p errorCode e, call.point = .markFailed p errorCode e ∧ next = .raised e ∧
      t' = t.markFailed p.id errorCode) ∨
    (∃ p, call.point.held = some p ∧ (next.held = some p ∨ ∃ e, next = .raised e) ∧ t' = t) := by
  unfold advance at h
  split at h
  case h_1 hpoint =>
    obtain ⟨rfl, rfl⟩ := Prod.mk.inj (Option.some.inj h)
    exact Or.inl ⟨hpoint, rfl, rfl⟩
  case h_2 now hpoint =>
    split at h
    · rename_i p t₁ hlock
      obtain ⟨rfl, rfl⟩ := Prod.mk.inj (Option.some.inj h)
      exact Or.inr (Or.inl ⟨now, p, hpoint, rfl, hlock⟩)
    · rename_i e t₁ hlock
      obtain ⟨rfl, rfl⟩ := Prod.mk.inj (Option.some.inj h)
      exact Or.inr (Or.inr (Or.inl ⟨now, e, hpoint, rfl, hlock⟩))
  case h_9 p validated raw safe answerText hpoint =>
    obtain ⟨rfl, rfl⟩ := Prod.mk.inj (Option.some.inj h)
    exact Or.inr (Or.inr (Or.inr (Or.inl ⟨p, validated, raw, safe, answerText, hpoint, rfl, rfl⟩)))
  case h_10 p errorCode e hpoint =>
    obtain ⟨rfl, rfl⟩ := Prod.mk.inj (Option.some.inj h)
    exact Or.inr (Or.inr (Or.inr (Or.inr (Or.inl ⟨p, errorCode, e, hpoint, rfl, rfl⟩))))
  case h_11 => simp at h
  case h_12 => simp at h
  -- the calls into the collaborators
  all_goals
    rename_i hpoint
    refine Or.inr (Or.inr (Or.inr (Or.inr (Or.inr ⟨_, by rw [hpoint]; rfl, ?_⟩))))
    repeat' split at h
    all_goals
      obtain ⟨rfl, rfl⟩ := Prod.mk.inj (Option.some.inj h)
      first
      | exact ⟨Or.inl rfl, rfl⟩
      | exact ⟨Or.inr ⟨_, rfl⟩, rfl⟩
      | exact ⟨held_onExecutionError _ _, rfl⟩
      | exact ⟨held_onPostExecutionError _ _, rfl⟩

/-- The policy accepted the proposal's statement as `validated`, under a catalog of the
proposal's version and with the proposal's fingerprint. -/
def Accepted (svc : SQLService ω) (principal : SQLPrincipal) (p : SQLProposal)
    (validated : ValidatedSQL) : Prop :=
  validated.fingerprint = p.sqlFingerprint ∧
    ∃ w catalog, catalog.version = p.catalogVersion ∧
      svc.validateAndRewrite w p.sql catalog principal = .ok validated

/-- What has been checked of the locals by the time a call stands at a point. -/
def Checked (svc : SQLService ω) (principal : SQLPrincipal) : ApprovePoint → Prop
  | .validate p catalog => catalog.version = p.catalogVersion
  | .explain p _ validated | .execute p _ validated => svc.Accepted principal p validated
  | _ => True

theorem checked_onExecutionError {principal : SQLPrincipal} (p : SQLProposal) (e : Raised) :
    svc.Checked principal (.onExecutionError p e) := by
  unfold ApprovePoint.onExecutionError
  split
  · trivial
  · split_ifs <;> trivial

theorem checked_onPostExecutionError {principal : SQLPrincipal} (p : SQLProposal) (e : Raised) :
    svc.Checked principal (.onPostExecutionError p e) := by
  unfold ApprovePoint.onPostExecutionError
  split_ifs <;> trivial

theorem checked_advance (hc : svc.Checked call.principal call.point)
    (h : svc.advance w clock call t = some (next, t')) : svc.Checked call.principal next := by
  unfold advance at h
  split at h
  case h_3 p hpoint =>
    repeat' split at h
    all_goals obtain ⟨rfl, -⟩ := Prod.mk.inj (Option.some.inj h)
    · trivial
    · trivial
    · rename_i hversion
      exact not_not.1 hversion
  case h_4 p catalog hpoint =>
    rw [hpoint] at hc
    repeat' split at h
    all_goals obtain ⟨rfl, -⟩ := Prod.mk.inj (Option.some.inj h)
    · trivial
    · trivial
    · trivial
    · rename_i hok hfingerprint
      exact ⟨not_not.1 hfingerprint, w, catalog, hc, hok⟩
  case h_5 p catalog validated hpoint =>
    rw [hpoint] at hc
    split at h <;> obtain ⟨rfl, -⟩ := Prod.mk.inj (Option.some.inj h)
    · exact checked_onExecutionError _ _
    · exact hc
  case h_6 p catalog validated hpoint =>
    split at h <;> obtain ⟨rfl, -⟩ := Prod.mk.inj (Option.some.inj h)
    · exact checked_onExecutionError _ _
    · trivial
  case h_7 p catalog validated raw hpoint =>
    split at h <;> obtain ⟨rfl, -⟩ := Prod.mk.inj (Option.some.inj h)
    · exact checked_onPostExecutionError _ _
    · trivial
  case h_8 p validated raw safe hpoint =>
    split at h <;> obtain ⟨rfl, -⟩ := Prod.mk.inj (Option.some.inj h)
    · exact checked_onPostExecutionError _ _
    · trivial
  case h_2 now hpoint =>
    split at h <;> obtain ⟨rfl, -⟩ := Prod.mk.inj (Option.some.inj h) <;> trivial
  case h_11 => simp at h
  case h_12 => simp at h
  all_goals
    obtain ⟨rfl, -⟩ := Prod.mk.inj (Option.some.inj h)
    trivial

theorem not_beforeExecute_onExecutionError (p : SQLProposal) (e : Raised) :
    ¬(ApprovePoint.onExecutionError p e).BeforeExecute := by
  unfold ApprovePoint.onExecutionError
  split
  · exact id
  · split_ifs <;> exact id

theorem not_beforeExecute_onPostExecutionError (p : SQLProposal) (e : Raised) :
    ¬(ApprovePoint.onPostExecutionError p e).BeforeExecute := by
  unfold ApprovePoint.onPostExecutionError
  split_ifs <;> exact id

/-- A call that has not passed the executor has either just locked its proposal or was
before the executor already, and not at it. -/
theorem beforeExecute_advance (hb : next.BeforeExecute)
    (h : svc.advance w clock call t = some (next, t')) :
    (∃ now, call.point = .lock now) ∨ call.point.BeforeExecute ∧
      ∀ p catalog validated, call.point ≠ .execute p catalog validated := by
  unfold advance at h
  split at h
  case h_2 now hpoint => exact Or.inl ⟨now, hpoint⟩
  case h_3 p hpoint => exact Or.inr ⟨by rw [hpoint]; trivial, by simp [hpoint]⟩
  case h_4 p catalog hpoint => exact Or.inr ⟨by rw [hpoint]; trivial, by simp [hpoint]⟩
  case h_5 p catalog validated hpoint => exact Or.inr ⟨by rw [hpoint]; trivial, by simp [hpoint]⟩
  case h_6 p catalog validated hpoint =>
    split at h <;> obtain ⟨rfl, -⟩ := Prod.mk.inj (Option.some.inj h)
    · exact absurd hb (not_beforeExecute_onExecutionError _ _)
    · exact hb.elim
  case h_7 p catalog validated raw hpoint =>
    split at h <;> obtain ⟨rfl, -⟩ := Prod.mk.inj (Option.some.inj h)
    · exact absurd hb (not_beforeExecute_onPostExecutionError _ _)
    · exact hb.elim
  case h_8 p validated raw safe hpoint =>
    split at h <;> obtain ⟨rfl, -⟩ := Prod.mk.inj (Option.some.inj h)
    · exact absurd hb (not_beforeExecute_onPostExecutionError _ _)
    · exact hb.elim
  case h_11 => simp at h
  case h_12 => simp at h
  all_goals
    obtain ⟨rfl, -⟩ := Prod.mk.inj (Option.some.inj h)
    exact hb.elim

end SQLService

end EnterpriseRag
