import EnterpriseRag.Sql.Service
import Mathlib.Data.List.Dedup
import Mathlib.Data.String.Basic

/-!
# The query orchestrator

`QueryOrchestrator.answer` routes one chat turn, under the snapshot it read at its start,
to document search, to a SQL proposal, to both, or to a rejection. The input guard, the
RAG service, the router, the security events table and the hash of the rollout are its
collaborators. Of a response the model keeps what the orchestrator writes : the RAG
diagnostics pass through it untouched and are left out.

The only write of a turn is the proposal it may store. `answer_created` is what that
takes : a snapshot with SQL on and both kill switches clear.
-/

namespace EnterpriseRag

inductive ChatStatus
  | completed
  | approvalRequired
  | rejected
  deriving DecidableEq, Repr

inductive RetrievalMode
  | dense
  | hybrid
  deriving DecidableEq, Repr

structure SQLMetadata where
  enabled : Bool
  proposalId : Option UUID := none
  proposalStatus : Option SQLProposalStatus := none
  normalizedSql : Option String := none
  referencedTables : List String := []
  expiresAt : Option Timestamp := none
  catalogVersion : Option ℤ := none
  policyVersion : Option String := none
  reasonCode : Option String := none
  deriving DecidableEq, Repr

structure GuardrailMetadata where
  mode : GuardrailModeName := .enforce
  inputAction : GuardrailAction := .allow
  contextChunksDropped : ℕ := 0
  outputAction : GuardrailAction := .allow
  categoriesFlagged : List String := []
  policyVersion : String := ""
  deriving DecidableEq, Repr

structure ChatResponse where
  status : ChatStatus := .completed
  answer : String
  sources : List String
  confidence : ℚ
  route : String
  sql : SQLMetadata := { enabled := false }
  guardrail : GuardrailMetadata := {}
  deriving DecidableEq, Repr

/-- One chat turn. -/
structure ChatTurn where
  principal : AuthenticatedUser
  conversationId : ℤ
  question : String
  topK : ℕ
  retrievalMode : Option RetrievalMode

def QueryRoute.value : QueryRoute → String
  | .rag => "rag"
  | .sql => "sql"
  | .hybridRagSql => "hybrid_rag_sql"
  | .reject => "reject"

structure QueryOrchestrator (ω : Type*) where
  sqlService : SQLService ω
  guardInput : ω → String → GuardrailModeName → String →
    Except Raised (String × GuardrailDecision)
  ragAnswer : ω → String → ℕ → Option RetrievalMode → Except Raised ChatResponse
  route : ω → String → Except Raised RouteDecision
  recordSecurityEvent : ω → (actor action : String) → GuardrailModeName → Except Raised Unit
  /-- The rollout bucket of a salt and a subject, below ten thousand. -/
  bucket : String → String → ℕ

/-- `sampled_in`. -/
def sampledIn (bucket : String → String → ℕ) (subject : String) (percentage : ℤ)
    (salt : String) : Except Raised Bool :=
  if ¬IsPercentage percentage then .error (.exception "ValueError")
  else if percentage = 0 then .ok false
  else if percentage = 100 then .ok true
  else .ok (bucket salt subject < percentage * 100)

/-- `_apply_input_guardrail_metadata`. -/
def applyInputGuardrailMetadata (guardrail : GuardrailMetadata) (decision : GuardrailDecision) :
    GuardrailMetadata :=
  if decision.action = .allow then guardrail
  else
    { guardrail with
      inputAction := decision.action
      categoriesFlagged :=
        (decision.findings.map (·.category.value) ++ guardrail.categoriesFlagged).dedup.mergeSort
          (· ≤ ·) }

/-- `_overlay_input_guardrail`. -/
def overlayInputGuardrail (response : ChatResponse) (decision : GuardrailDecision) :
    ChatResponse :=
  { response with guardrail := applyInputGuardrailMetadata response.guardrail decision }

/-- `_blocked_response`. -/
def blockedResponse : ChatResponse where
  status := .rejected
  answer := "I can't process that request safely. Please restate the question " ++
    "without instructions to reveal or override system behavior."
  sources := []
  confidence := 0
  route := "reject"
  sql := { enabled := false, reasonCode := some "input_guardrail_blocked" }
  guardrail := { inputAction := .block }

/-- `_sql_response`. -/
def sqlResponse (decision : RouteDecision) (status : ChatStatus) (answer : String)
    (sql : SQLMetadata) (inputDecision : GuardrailDecision) : ChatResponse where
  status
  answer
  sources := []
  confidence := decision.confidence
  route := decision.route.value
  sql
  guardrail := applyInputGuardrailMetadata {} inputDecision

def proposalMetadata (p : SQLProposal) : SQLMetadata where
  enabled := true
  proposalId := some p.id
  proposalStatus := some p.status
  normalizedSql := some p.sql
  referencedTables := p.referencedTables
  expiresAt := some p.expiresAt
  catalogVersion := some p.catalogVersion
  policyVersion := some p.policyVersion

/-- `_proposal_response`. -/
def proposalResponse (decision : RouteDecision) (p : SQLProposal)
    (inputDecision : GuardrailDecision) : ChatResponse :=
  sqlResponse decision .approvalRequired
    ("A SQL query has been generated for this question and is waiting for your " ++
      "approval before it runs. Review the query and approve or reject it.")
    (proposalMetadata p) inputDecision

namespace QueryOrchestrator

variable {ω : Type*}

/-- `ToolGuardrail.authorize_sql`. -/
def authorizeSql (o : QueryOrchestrator ω) (w : ω) (principal : AuthenticatedUser)
    (config : RagRuntimeConfig) : Except Raised Unit := do
  if config.1.safetyLockdownEnabled then
    o.recordSecurityEvent w principal.username "tool_lockdown_denied" config.1.guardrailMode
    .error (.guardrailBlocked .tool none)
  else if !principal.isAdmin then
    o.recordSecurityEvent w principal.username "tool_permission_denied" config.1.guardrailMode
    .error (.guardrailBlocked .tool none)
  else .ok ()

/-- A RAG answer with the input decision laid over it. -/
def ragOnly (o : QueryOrchestrator ω) (w : ω) (turn : ChatTurn) (question : String)
    (inputDecision : GuardrailDecision) : Except Raised ChatResponse := do
  let response ← o.ragAnswer w question turn.topK turn.retrievalMode
  return overlayInputGuardrail response inputDecision

/-- A response, and the proposal stored on the way with the table it is in. -/
abbrev Reply := ChatResponse × Option (SQLProposal × ProposalTable)

/-- The rejection of a turn that `authorize_sql` blocked. -/
def unauthorizedResponse (decision : RouteDecision) (config : RagRuntimeConfig)
    (inputDecision : GuardrailDecision) : ChatResponse :=
  sqlResponse decision .rejected
    (if config.1.safetyLockdownEnabled then
      "This data operation is not authorized or is temporarily unavailable."
    else
      "This question needs structured-data access, which is currently " ++
        "limited to administrators while Text-to-SQL is in early rollout.")
    { enabled := true
      reasonCode := some (if config.1.safetyLockdownEnabled then "sql_safety_lockdown"
        else "sql_admin_only_initial_rollout") } inputDecision

/-- `_generate_hybrid_answer`. -/
def generateHybridAnswer (o : QueryOrchestrator ω) (ws : ℕ → ω) (now : Timestamp)
    (t : ProposalTable) (decision : RouteDecision) (turn : ChatTurn) (question : String)
    (inputDecision : GuardrailDecision) : Except Raised Reply := do
  let rag ← o.ragOnly (ws 0) turn question inputDecision
  match o.sqlService.propose ws now (toSqlPrincipal turn.principal) turn.conversationId question
      t with
  | .error (.sqlGenerationFailed _) =>
    return ({ rag with
      route := decision.route.value
      sql := { enabled := true, reasonCode := some "sql_generation_failed" } }, none)
  | .error e => .error e
  | .ok (p, t') =>
    return ({ rag with
      status := .approvalRequired
      answer := rag.answer ++ "\n\nA related data lookup has also been generated for the " ++
        "structured-data part of this question and is waiting for " ++
        "admin approval before it runs - review and approve it to get the exact figure."
      route := decision.route.value
      sql := proposalMetadata p }, some (p, t'))

/-- The `SQL` branch after the authorization. -/
def proposeAnswer (o : QueryOrchestrator ω) (ws : ℕ → ω) (now : Timestamp) (t : ProposalTable)
    (decision : RouteDecision) (turn : ChatTurn) (question : String)
    (inputDecision : GuardrailDecision) : Except Raised Reply :=
  match o.sqlService.propose ws now (toSqlPrincipal turn.principal) turn.conversationId question
      t with
  | .error (.sqlGenerationFailed _) =>
    .ok (sqlResponse decision .rejected
      ("A safe SQL query could not be generated for this question. " ++
        "Try rephrasing it or ask about a narrower set of data.")
      { enabled := true, reasonCode := some "sql_generation_failed" } inputDecision, none)
  | .error e => .error e
  | .ok (p, t') => .ok (proposalResponse decision p inputDecision, some (p, t'))

/-- The two routes that touch SQL, behind `authorize_sql`. -/
def sqlRoute (o : QueryOrchestrator ω) (ws : ℕ → ω) (now : Timestamp) (t : ProposalTable)
    (config : RagRuntimeConfig) (decision : RouteDecision) (turn : ChatTurn) (question : String)
    (inputDecision : GuardrailDecision) : Except Raised Reply :=
  match o.authorizeSql (ws 0) turn.principal config with
  | .error (.guardrailBlocked _ _) =>
    .ok (unauthorizedResponse decision config inputDecision, none)
  | .error e => .error e
  | .ok () =>
    if decision.route = .hybridRagSql then
      o.generateHybridAnswer ws now t decision turn question inputDecision
    else o.proposeAnswer ws now t decision turn question inputDecision

/-- `QueryOrchestrator.answer` under the snapshot it read. -/
def answer (o : QueryOrchestrator ω) (ws : ℕ → ω) (now : Timestamp) (config : RagRuntimeConfig)
    (turn : ChatTurn) (t : ProposalTable) : Except Raised Reply :=
  match o.guardInput (ws 0) turn.question config.1.guardrailMode turn.principal.username with
  | .error (.guardrailBlocked _ _) => .ok (blockedResponse, none)
  | .error e => .error e
  | .ok (question, inputDecision) => do
    if !config.1.sqlEnabled || config.1.emergencyDisabled then
      return (← o.ragOnly (ws 0) turn question inputDecision, none)
    if !(← sampledIn o.bucket question config.1.sqlRolloutPercentage "sql") then
      return (← o.ragOnly (ws 0) turn question inputDecision, none)
    let decision ← o.route (ws 0) question
    match decision.route with
    | .rag => return (← o.ragOnly (ws 0) turn question inputDecision, none)
    | .sql | .hybridRagSql =>
      o.sqlRoute ws now t config decision turn question inputDecision
    | .reject =>
      return (sqlResponse decision .rejected
        "This question could not be safely routed to either document search or data lookup."
        { enabled := true, reasonCode := some decision.reasonCode } inputDecision, none)

end QueryOrchestrator

/-! ## What storing a proposal takes -/

/-- SQL is on and neither kill switch is set. -/
structure RagRuntimeConfig.SqlOpen (config : RagRuntimeConfig) : Prop where
  sqlEnabled : config.1.sqlEnabled = true
  emergencyDisabled : config.1.emergencyDisabled = false
  safetyLockdownEnabled : config.1.safetyLockdownEnabled = false

namespace QueryOrchestrator

variable {ω : Type*}

variable {o : QueryOrchestrator ω} {ws : ℕ → ω} {now : Timestamp} {t t' : ProposalTable}
  {config : RagRuntimeConfig} {decision : RouteDecision} {turn : ChatTurn} {question : String}
  {inputDecision : GuardrailDecision} {response : ChatResponse} {p : SQLProposal}

theorem authorizeSql_ok {w : ω} {principal : AuthenticatedUser}
    (h : o.authorizeSql w principal config = .ok ()) :
    config.1.safetyLockdownEnabled = false ∧ principal.isAdmin = true := by
  unfold authorizeSql at h
  split at h
  · obtain ⟨-, -, h⟩ := bind_eq_ok.1 h
    simp at h
  · rename_i hlock
    split at h
    · obtain ⟨-, -, h⟩ := bind_eq_ok.1 h
      simp at h
    · rename_i hadmin
      exact ⟨by simpa using hlock, by simpa using hadmin⟩

/-- `propose` stored `p` for the principal of `turn`. -/
def Proposed (o : QueryOrchestrator ω) (ws : ℕ → ω) (now : Timestamp) (turn : ChatTurn)
    (question : String) (t : ProposalTable) (p : SQLProposal) (t' : ProposalTable) : Prop :=
  o.sqlService.propose ws now (toSqlPrincipal turn.principal) turn.conversationId question t =
    .ok (p, t')

theorem generateHybridAnswer_created
    (h : o.generateHybridAnswer ws now t decision turn question inputDecision =
      .ok (response, some (p, t'))) : o.Proposed ws now turn question t p t' := by
  unfold generateHybridAnswer at h
  obtain ⟨rag, -, h⟩ := bind_eq_ok.1 h
  split at h
  · simp [pure, Except.pure] at h
  · simp at h
  · rename_i q t₁ hq
    obtain ⟨rfl, rfl⟩ : q = p ∧ t₁ = t' := by
      simpa [pure, Except.pure] using (Prod.mk.inj (Except.ok.inj h)).2
    exact hq

theorem proposeAnswer_created
    (h : o.proposeAnswer ws now t decision turn question inputDecision =
      .ok (response, some (p, t'))) : o.Proposed ws now turn question t p t' := by
  unfold proposeAnswer at h
  split at h
  · simp at h
  · simp at h
  · rename_i q t₁ hq
    obtain ⟨rfl, rfl⟩ : q = p ∧ t₁ = t' := by
      simpa using (Prod.mk.inj (Except.ok.inj h)).2
    exact hq

theorem sqlRoute_created
    (h : o.sqlRoute ws now t config decision turn question inputDecision =
      .ok (response, some (p, t'))) :
    config.1.safetyLockdownEnabled = false ∧ turn.principal.isAdmin = true ∧
      o.Proposed ws now turn question t p t' := by
  unfold sqlRoute at h
  split at h
  · simp at h
  · simp at h
  · rename_i hauth
    obtain ⟨hlock, hadmin⟩ := authorizeSql_ok hauth
    refine ⟨hlock, hadmin, ?_⟩
    split at h
    · exact generateHybridAnswer_created h
    · exact proposeAnswer_created h

/-- A response that comes without a proposal. -/
theorem not_created {x : Except Raised ChatResponse}
    (h : (do return (← x, none) : Except Raised Reply) = .ok (response, some (p, t'))) : False := by
  obtain ⟨r, -, h⟩ := bind_eq_ok.1 h
  simp [pure, Except.pure] at h

/-- A turn stores a proposal only for an administrator, under a snapshot with SQL on and
both kill switches clear. -/
theorem answer_created (h : o.answer ws now config turn t = .ok (response, some (p, t'))) :
    config.SqlOpen ∧ turn.principal.isAdmin = true ∧
      ∃ question, o.Proposed ws now turn question t p t' := by
  unfold answer at h
  split at h
  · simp at h
  · simp at h
  · rename_i question inputDecision hguard
    split at h
    · exact (not_created h).elim
    · rename_i hswitch
      obtain ⟨hsql, hemergency⟩ : config.1.sqlEnabled = true ∧
          config.1.emergencyDisabled = false := by simpa using hswitch
      obtain ⟨sampled, -, h⟩ := bind_eq_ok.1 h
      split at h
      · exact (not_created h).elim
      · obtain ⟨decision, -, h⟩ := bind_eq_ok.1 h
        split at h
        · exact (not_created h).elim
        · obtain ⟨hlock, hadmin, hproposed⟩ := sqlRoute_created h
          exact ⟨⟨hsql, hemergency, hlock⟩, hadmin, question, hproposed⟩
        · obtain ⟨hlock, hadmin, hproposed⟩ := sqlRoute_created h
          exact ⟨⟨hsql, hemergency, hlock⟩, hadmin, question, hproposed⟩
        · simp [pure, Except.pure] at h

end QueryOrchestrator

end EnterpriseRag
