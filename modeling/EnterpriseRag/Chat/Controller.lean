import EnterpriseRag.Guardrails.InputPipeline
import EnterpriseRag.Library.Program
import EnterpriseRag.Sql.Orchestrator

/-!
# A chat request

`ChatController.chat` resolves the conversation, has the question answered and saves both.
`ChatOp` lists the calls the controller and the orchestrator make on the way, to the
repositories, the router and the two services, each of which may raise. The router, the
RAG service and the SQL service make their cache keys and prompts of the question they are
handed here.

`answer` is `QueryOrchestrator.answer` once more, now with every call it makes in sight :
answered by the collaborators of an orchestrator it returns what that one returns
(`run_answer`).
-/

namespace EnterpriseRag

open Program

/-- The body of `POST /chat`. -/
structure ChatRequest where
  question : String
  topK : ℕ := 5
  retrievalMode : Option RetrievalMode := none
  conversationId : Option ℤ := none
  question_length : 1 ≤ question.length ∧ question.length ≤ 2000
  topK_range : 0 < topK ∧ topK ≤ 50

/-- Why the tool guardrail denies. -/
inductive ToolDenial
  | lockdown
  | permission
  deriving DecidableEq, Repr

def ToolDenial.action : ToolDenial → String
  | .lockdown => "tool_lockdown_denied"
  | .permission => "tool_permission_denied"

/-- A call to a collaborator. -/
inductive ChatOp
  | getOwned (conversationId : ℤ) (username : String)
  | createConversation (username title : String)
  | currentConfig
  | recordSecurityEvent (event : SecurityEvent)
  | recordDenial (actor : String) (denial : ToolDenial) (mode : GuardrailModeName)
  | ragAnswer (question : String) (topK : ℕ) (retrievalMode : Option RetrievalMode)
  | route (question : String)
  | propose (principal : SQLPrincipal) (conversationId : ℤ) (question : String)
  | createHistory (username : String) (conversationId : ℤ) (question answer : String)
      (sources : List String) (confidence : ℚ)
  | touch (conversationId : ℤ)

/-- What a call returns or raises. -/
abbrev ChatOp.Res : ChatOp → Type
  | .getOwned _ _ => Except Raised (Option ℤ)
  | .createConversation _ _ => Except Raised ℤ
  | .currentConfig => RagRuntimeConfig
  | .recordSecurityEvent _ => Except Raised Unit
  | .recordDenial _ _ _ => Except Raised Unit
  | .ragAnswer _ _ _ => Except Raised ChatResponse
  | .route _ => Except Raised RouteDecision
  | .propose _ _ _ => Except Raised SQLProposal
  | .createHistory _ _ _ _ _ _ => Except Raised Unit
  | .touch _ => Except Raised Unit

abbrev ChatProgram := Program ChatOp ChatOp.Res Raised

abbrev ChatOracle := Program.Oracle ChatOp ChatOp.Res

/-- `_make_title`. -/
def makeTitle (question : String) : String :=
  let stripped := normalizeSpace question
  if stripped.length ≤ 60 then stripped
  else
    let truncated := stripped.toList.take 60
    let lastSpace := ((truncated.zipIdx.filter (·.1 = ' ')).getLast?.map (·.2)).getD 0
    .ofList ((if 0 < lastSpace then truncated.take lastSpace else truncated) ++ ['…'])

/-- The response when no safe query could be generated. -/
def generationFailedResponse (decision : RouteDecision) (inputDecision : GuardrailDecision) :
    ChatResponse :=
  sqlResponse decision .rejected
    ("A safe SQL query could not be generated for this question. " ++
      "Try rephrasing it or ask about a narrower set of data.")
    { enabled := true, reasonCode := some "sql_generation_failed" } inputDecision

/-- A RAG answer whose structured-data half failed. -/
def degradedResponse (decision : RouteDecision) (rag : ChatResponse) : ChatResponse :=
  { rag with
    route := decision.route.value
    sql := { enabled := true, reasonCode := some "sql_generation_failed" } }

/-- A RAG answer with the proposal of its structured-data half. -/
def hybridResponse (decision : RouteDecision) (rag : ChatResponse) (p : SQLProposal) :
    ChatResponse :=
  { rag with
    status := .approvalRequired
    answer := rag.answer ++ "\n\nA related data lookup has also been generated for the " ++
      "structured-data part of this question and is waiting for " ++
      "admin approval before it runs - review and approve it to get the exact figure."
    route := decision.route.value
    sql := proposalMetadata p }

/-- The response to a question the router rejects. -/
def unroutedResponse (decision : RouteDecision) (inputDecision : GuardrailDecision) :
    ChatResponse :=
  sqlResponse decision .rejected
    "This question could not be safely routed to either document search or data lookup."
    { enabled := true, reasonCode := some decision.reasonCode } inputDecision

/-- The controller, its orchestrator and the guardrails of that one. -/
structure ChatController where
  inputGuard : InputGuardPipeline
  toolSecurityEvents : Bool
  bucket : String → String → ℕ

namespace ChatController

variable (c : ChatController)

/-! ## `QueryOrchestrator.answer` -/

def recordEvent : Option SecurityEvent → ChatProgram Unit
  | some event => ask (.recordSecurityEvent event) id
  | none => return ()

/-- `_guard_input`, and `none` where it blocks. -/
def guardInput (tokens : TokenSource) (turn : ChatTurn) (config : RagRuntimeConfig) :
    ChatProgram (Option (String × GuardrailDecision)) :=
  Program.tryCatch
    (do
      let (event, result) ← orRaise (c.inputGuard.checkWithDecision tokens turn.question
        config.1.guardrailMode (some turn.principal.username))
      recordEvent event
      return some (← orRaise result))
    fun
      | .guardrailBlocked _ _ => return none
      | e => .raise e

/-- What the tool guardrail denies a principal for. -/
def denial (principal : AuthenticatedUser) (config : RagRuntimeConfig) : Option ToolDenial :=
  if config.1.safetyLockdownEnabled then some .lockdown
  else if !principal.isAdmin then some .permission
  else none

/-- `ToolGuardrail.authorize_sql`, and `false` where it denies. -/
def authorizeSql (principal : AuthenticatedUser) (config : RagRuntimeConfig) : ChatProgram Bool :=
  match denial principal config with
  | none => return true
  | some denial => do
    if c.toolSecurityEvents then
      match ← attempt (.recordDenial principal.username denial config.1.guardrailMode) id with
      | .error (.guardrailBlocked _ _) => return false
      | .error e => .raise e
      | .ok () => return false
    else return false

/-- A RAG answer with the input decision laid over it. -/
def ragOnly (turn : ChatTurn) (question : String) (inputDecision : GuardrailDecision) :
    ChatProgram ChatResponse := do
  let response ← ask (.ragAnswer question turn.topK turn.retrievalMode) id
  return overlayInputGuardrail response inputDecision

/-- `_generate_hybrid_answer`. -/
def generateHybridAnswer (decision : RouteDecision) (turn : ChatTurn) (question : String)
    (inputDecision : GuardrailDecision) : ChatProgram ChatResponse := do
  let rag ← ragOnly turn question inputDecision
  match ← attempt (.propose (toSqlPrincipal turn.principal) turn.conversationId question) id with
  | .error (.sqlGenerationFailed _) => return degradedResponse decision rag
  | .error e => .raise e
  | .ok p => return hybridResponse decision rag p

/-- The `SQL` branch after the authorization. -/
def proposeAnswer (decision : RouteDecision) (turn : ChatTurn) (question : String)
    (inputDecision : GuardrailDecision) : ChatProgram ChatResponse := do
  match ← attempt (.propose (toSqlPrincipal turn.principal) turn.conversationId question) id with
  | .error (.sqlGenerationFailed _) => return generationFailedResponse decision inputDecision
  | .error e => .raise e
  | .ok p => return proposalResponse decision p inputDecision

/-- The two routes that touch SQL, behind `authorize_sql`. -/
def sqlRoute (config : RagRuntimeConfig) (decision : RouteDecision) (turn : ChatTurn)
    (question : String) (inputDecision : GuardrailDecision) : ChatProgram ChatResponse := do
  if !(← c.authorizeSql turn.principal config) then
    return QueryOrchestrator.unauthorizedResponse decision config inputDecision
  if decision.route = .hybridRagSql then
    generateHybridAnswer decision turn question inputDecision
  else proposeAnswer decision turn question inputDecision

/-- `answer` after the input guard. -/
def answerGuarded (config : RagRuntimeConfig) (turn : ChatTurn) (question : String)
    (inputDecision : GuardrailDecision) : ChatProgram ChatResponse := do
  if !config.1.sqlEnabled || config.1.emergencyDisabled then
    ragOnly turn question inputDecision
  else if !(← orRaise (sampledIn c.bucket question config.1.sqlRolloutPercentage "sql")) then
    ragOnly turn question inputDecision
  else do
    let decision ← ask (.route question) id
    match decision.route with
    | .rag => ragOnly turn question inputDecision
    | .sql | .hybridRagSql => c.sqlRoute config decision turn question inputDecision
    | .reject => return unroutedResponse decision inputDecision

/-- `answer` under the snapshot it read. -/
def answerUnder (tokens : TokenSource) (turn : ChatTurn) (config : RagRuntimeConfig) :
    ChatProgram ChatResponse := do
  match ← c.guardInput tokens turn config with
  | none => return blockedResponse
  | some (question, inputDecision) => c.answerGuarded config turn question inputDecision

def answer (tokens : TokenSource) (turn : ChatTurn) : ChatProgram ChatResponse := do
  c.answerUnder tokens turn (← perform .currentConfig)

/-! ## The orchestrator's collaborators as surroundings -/

section Collaborators

variable {ω : Type*} (q : QueryOrchestrator ω) (ws : ℕ → ω) (now : Timestamp) (t : ProposalTable)

/-- What the collaborators of `q` answer a call of the orchestrator. -/
def collaborators (config : RagRuntimeConfig) (rest : ChatOracle) : ChatOracle
  | _, .currentConfig => config
  | _, .recordDenial actor denial mode => q.recordSecurityEvent (ws 0) actor denial.action mode
  | _, .ragAnswer question topK retrievalMode => q.ragAnswer (ws 0) question topK retrievalMode
  | _, .route question => q.route (ws 0) question
  | _, .propose principal conversationId question =>
    (q.sqlService.propose ws now principal conversationId question t).map (·.1)
  | h, op => rest h op

variable {q ws now t} {c : ChatController} {config : RagRuntimeConfig} {rest : ChatOracle}
  {h : List (Program.Event ChatOp ChatOp.Res)} {turn : ChatTurn} {question : String}
  {inputDecision : GuardrailDecision} {decision : RouteDecision}

theorem run_ragOnly : (run (collaborators q ws now t config rest) h
    (ragOnly turn question inputDecision)).1 = q.ragOnly (ws 0) turn question inputDecision := by
  have hreply : collaborators q ws now t config rest h
      (.ragAnswer question turn.topK turn.retrievalMode) =
      q.ragAnswer (ws 0) question turn.topK turn.retrievalMode := rfl
  rw [ragOnly, QueryOrchestrator.ragOnly, run_ask_bind, hreply]
  cases q.ragAnswer (ws 0) question turn.topK turn.retrievalMode <;> rfl

theorem reply_propose : collaborators q ws now t config rest h
    (.propose (toSqlPrincipal turn.principal) turn.conversationId question) =
    (q.sqlService.propose ws now (toSqlPrincipal turn.principal) turn.conversationId question
      t).map (·.1) :=
  rfl

theorem run_proposeAnswer : (run (collaborators q ws now t config rest) h
    (proposeAnswer decision turn question inputDecision)).1 =
      (q.proposeAnswer ws now t decision turn question inputDecision).map (·.1) := by
  rw [proposeAnswer, QueryOrchestrator.proposeAnswer, run_attempt_bind, reply_propose]
  cases q.sqlService.propose ws now (toSqlPrincipal turn.principal) turn.conversationId question
      t with
  | ok p => rfl
  | error e => cases e <;> rfl

theorem run_generateHybridAnswer : (run (collaborators q ws now t config rest) h
    (generateHybridAnswer decision turn question inputDecision)).1 =
      (q.generateHybridAnswer ws now t decision turn question inputDecision).map (·.1) := by
  have hrag : (run (collaborators q ws now t config rest) h
      (ragOnly turn question inputDecision)).1 = _ := run_ragOnly
  rw [generateHybridAnswer, QueryOrchestrator.generateHybridAnswer, bind_eq, run_bind]
  generalize run (collaborators q ws now t config rest) h
    (ragOnly turn question inputDecision) = r at hrag ⊢
  obtain ⟨x, h'⟩ := r
  obtain rfl : x = _ := hrag
  cases q.ragOnly (ws 0) turn question inputDecision with
  | error e => rfl
  | ok rag =>
    dsimp only
    rw [run_attempt_bind, reply_propose]
    dsimp only [Bind.bind, Except.bind]
    cases q.sqlService.propose ws now (toSqlPrincipal turn.principal) turn.conversationId question
        t with
    | ok p => rfl
    | error e => cases e <;> rfl

/-- The tool guardrail denies where `authorize_sql` raises what it blocks. -/
theorem run_authorizeSql (htool : c.toolSecurityEvents = true) :
    (run (collaborators q ws now t config rest) h (c.authorizeSql turn.principal config)).1 =
      match q.authorizeSql (ws 0) turn.principal config with
      | .ok () => .ok true
      | .error (.guardrailBlocked _ _) => .ok false
      | .error e => .error e := by
  have hreply : ∀ denial, collaborators q ws now t config rest h
      (.recordDenial turn.principal.username denial config.1.guardrailMode) =
      q.recordSecurityEvent (ws 0) turn.principal.username denial.action config.1.guardrailMode :=
    fun _ => rfl
  have hdenied : ∀ denial : ToolDenial,
      (run (collaborators q ws now t config rest) h (do
        match ← attempt (.recordDenial turn.principal.username denial config.1.guardrailMode) id with
        | .error (.guardrailBlocked _ _) => return false
        | .error e => .raise e
        | .ok () => return false : ChatProgram Bool)).1 =
      match (do
        q.recordSecurityEvent (ws 0) turn.principal.username denial.action config.1.guardrailMode
        .error (.guardrailBlocked .tool none) : Except Raised Unit) with
      | .ok () => .ok true
      | .error (.guardrailBlocked _ _) => .ok false
      | .error e => .error e := by
    intro denial
    rw [run_attempt_bind, hreply]
    cases q.recordSecurityEvent (ws 0) turn.principal.username denial.action
      config.1.guardrailMode with
    | ok _ => rfl
    | error e => cases e <;> rfl
  unfold authorizeSql QueryOrchestrator.authorizeSql denial
  rw [htool]
  by_cases hlock : config.1.safetyLockdownEnabled = true
  · rw [if_pos hlock, if_pos hlock]
    exact hdenied .lockdown
  · rw [if_neg hlock, if_neg hlock]
    by_cases hadmin : (!turn.principal.isAdmin) = true
    · rw [if_pos hadmin, if_pos hadmin]
      exact hdenied .permission
    · rw [if_neg hadmin, if_neg hadmin]
      rfl

theorem run_sqlRoute (htool : c.toolSecurityEvents = true) :
    (run (collaborators q ws now t config rest) h
      (c.sqlRoute config decision turn question inputDecision)).1 =
      (q.sqlRoute ws now t config decision turn question inputDecision).map (·.1) := by
  have hauthorized : (run (collaborators q ws now t config rest) h
      (c.authorizeSql turn.principal config)).1 = _ := run_authorizeSql htool
  rw [sqlRoute, QueryOrchestrator.sqlRoute, bind_eq, run_bind]
  generalize run (collaborators q ws now t config rest) h
    (c.authorizeSql turn.principal config) = r at hauthorized ⊢
  obtain ⟨x, h'⟩ := r
  obtain rfl : x = _ := hauthorized
  cases q.authorizeSql (ws 0) turn.principal config with
  | error e => cases e <;> rfl
  | ok _ =>
    by_cases hroute : decision.route = .hybridRagSql
    · show (run _ _ (if decision.route = .hybridRagSql then _ else _)).1 =
        Except.map _ (if decision.route = .hybridRagSql then _ else _)
      rw [if_pos hroute, if_pos hroute]
      exact run_generateHybridAnswer
    · show (run _ _ (if decision.route = .hybridRagSql then _ else _)).1 =
        Except.map _ (if decision.route = .hybridRagSql then _ else _)
      rw [if_neg hroute, if_neg hroute]
      exact run_proposeAnswer

/-- With an orchestrator's collaborators around it, the program returns what that
orchestrator does. -/
theorem run_answer {tokens : TokenSource} (htool : c.toolSecurityEvents = true)
    (hbucket : q.bucket = c.bucket)
    (hguard : ∀ h, (run (collaborators q ws now t config rest) h
      (c.guardInput tokens turn config)).1 =
      match q.guardInput (ws 0) turn.question config.1.guardrailMode turn.principal.username with
      | .ok guarded => .ok (some guarded)
      | .error (.guardrailBlocked _ _) => .ok none
      | .error e => .error e) :
    (run (collaborators q ws now t config rest) h (c.answer tokens turn)).1 =
      (q.answer ws now config turn t).map (·.1) := by
  show (run _ _ (c.answerUnder tokens turn config)).1 = _
  rw [answerUnder, QueryOrchestrator.answer, bind_eq, run_bind]
  have hguarded := hguard
    (h ++ [⟨.currentConfig, collaborators q ws now t config rest h .currentConfig⟩])
  generalize run (collaborators q ws now t config rest)
    (h ++ [⟨.currentConfig, collaborators q ws now t config rest h .currentConfig⟩])
    (c.guardInput tokens turn config) = r at hguarded ⊢
  obtain ⟨x, h'⟩ := r
  obtain rfl : x = _ := hguarded
  cases q.guardInput (ws 0) turn.question config.1.guardrailMode turn.principal.username with
  | error e => cases e <;> rfl
  | ok guarded =>
    obtain ⟨question, inputDecision⟩ := guarded
    have hrag : ∀ h, (run (collaborators q ws now t config rest) h
        (ragOnly turn question inputDecision)).1 =
        Except.map (·.1) (do
          return (← q.ragOnly (ws 0) turn question inputDecision, none) :
            Except Raised QueryOrchestrator.Reply) := by
      intro h
      rw [run_ragOnly]
      cases q.ragOnly (ws 0) turn question inputDecision <;> rfl
    show (run _ h' (c.answerGuarded config turn question inputDecision)).1 = Except.map _ _
    unfold answerGuarded
    by_cases hoff : (!config.1.sqlEnabled || config.1.emergencyDisabled) = true
    · simp only [hoff, if_true]
      exact hrag h'
    · simp only [hoff]
      rw [hbucket]
      cases sampledIn c.bucket question config.1.sqlRolloutPercentage "sql" with
      | error e => rfl
      | ok sampled =>
        cases sampled with
        | false => exact hrag h'
        | true =>
          have hreply : ∀ h, collaborators q ws now t config rest h (.route question) =
            q.route (ws 0) question := fun _ => rfl
          show (run _ h' (ask (.route question) id >>= fun decision : RouteDecision =>
            match decision.route with
            | .rag => ragOnly turn question inputDecision
            | .sql | .hybridRagSql => c.sqlRoute config decision turn question inputDecision
            | .reject => return unroutedResponse decision inputDecision)).1 = _
          rw [run_ask_bind, hreply]
          show _ = Except.map _ (q.route (ws 0) question >>= fun decision : RouteDecision => _)
          cases q.route (ws 0) question with
          | error e => rfl
          | ok decision =>
            obtain ⟨route, confidence, reasonCode⟩ := decision
            cases route with
            | rag => exact hrag _
            | sql => exact run_sqlRoute htool
            | hybridRagSql => exact run_sqlRoute htool
            | reject => rfl

end Collaborators
/-! ## `ChatController.chat` -/

/-- The call of `_resolve_conversation`. -/
def opening (user : AuthenticatedUser) (payload : ChatRequest) : ChatOp :=
  match payload.conversationId with
  | some conversationId => .getOwned conversationId user.username
  | none => .createConversation user.username (makeTitle payload.question)

/-- `_resolve_conversation`. -/
def resolveConversation (user : AuthenticatedUser) (payload : ChatRequest) : ChatProgram ℤ :=
  match payload.conversationId with
  | some conversationId =>
    ask (.getOwned conversationId user.username) fun r => r.bind fun conversation =>
      conversation.elim (.error (.exception "ConversationNotFoundError")) .ok
  | none => ask (.createConversation user.username (makeTitle payload.question)) id

/-- `_save_history`. -/
def saveHistory (username : String) (conversationId : ℤ) (question : String)
    (response : ChatResponse) : ChatProgram Unit :=
  Program.tryCatch
    (do
      ask (.createHistory username conversationId question response.answer response.sources
        response.confidence) id
      ask (.touch conversationId) id)
    fun e => if e.isException then return () else .raise e

/-- The turn of a request in its conversation. -/
def turn (user : AuthenticatedUser) (payload : ChatRequest) (conversationId : ℤ) : ChatTurn :=
  ⟨user, conversationId, payload.question, payload.topK, payload.retrievalMode⟩

/-- `chat` : the response, and the conversation it is in. -/
def chat (tokens : TokenSource) (user : AuthenticatedUser) (payload : ChatRequest) :
    ChatProgram (ChatResponse × ℤ) := do
  let conversationId ← resolveConversation user payload
  let response ← c.answer tokens (turn user payload conversationId)
  saveHistory user.username conversationId payload.question response
  return (response, conversationId)

end ChatController

end EnterpriseRag
