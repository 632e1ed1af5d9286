import EnterpriseRag.Chat.Controller

/-!
# Where the values of a redacted question go

`check_with_decision` keeps the raw values of a question it redacts in a vault. The
orchestrator hands on the text without them, but the controller names a new conversation
after the raw question and saves the raw question with the answer. `confined_iff` says
when no value is in a text that `chat` hands on. A question that is in canonical form
already, and whose turn returns, is never confined if the vault holds a value
(`not_confined_of_canonical`).
-/

namespace EnterpriseRag

open Program

/-- The texts a call hands on, the fixed words of the code left out. -/
def ChatOp.texts : ChatOp → List String
  | .getOwned _ username => [username]
  | .createConversation username title => [username, title]
  | .currentConfig => []
  | .recordSecurityEvent event => event.actor.toList ++ event.findings.map (·.2.2)
  | .recordDenial actor _ _ => [actor]
  | .ragAnswer question _ _ => [question]
  | .route question => [question]
  | .propose principal _ question =>
    principal.username :: question :: (principal.tenantId.toList ++ principal.permissions)
  | .createHistory username _ question answer sources _ => username :: question :: answer :: sources
  | .touch _ => []

/-- None of the values occurs in the text. -/
def Clean (values : List (List Char)) (text : String) : Prop :=
  ∀ v ∈ values, ¬v <:+: text.toList

instance (values : List (List Char)) (text : String) : Decidable (Clean values text) :=
  inferInstanceAs (Decidable (∀ v ∈ values, ¬v <:+: text.toList))

namespace ChatController

variable {c : ChatController} {tokens : TokenSource} {user : AuthenticatedUser}
  {payload : ChatRequest} {o : ChatOracle} {decision : GuardrailDecision}

/-- No raw value of the question occurs in a text that the run hands on. -/
def Confined (c : ChatController) (tokens : TokenSource) (user : AuthenticatedUser)
    (payload : ChatRequest) (o : ChatOracle) : Prop :=
  ∀ event ∈ (run o [] (c.chat tokens user payload)).2, ∀ text ∈ event.1.texts,
    Clean (c.inputGuard.vault tokens payload.question) text

/-- `chat` up to the input guard. -/
def screen (c : ChatController) (tokens : TokenSource) (user : AuthenticatedUser)
    (payload : ChatRequest) : ChatProgram (Option (String × GuardrailDecision)) := do
  let conversationId ← resolveConversation user payload
  c.guardInput tokens (turn user payload conversationId) (← perform .currentConfig)

/-- `chat` up to the response. -/
def respond (c : ChatController) (tokens : TokenSource) (user : AuthenticatedUser)
    (payload : ChatRequest) : ChatProgram ChatResponse := do
  let conversationId ← resolveConversation user payload
  c.answer tokens (turn user payload conversationId)

/-- None of the values occurs in the username, in the title if the request opens a
conversation, in what is recorded of the decision, in the sanitized question if the guard
is passed, and in the raw question and the response if there is one to save. -/
structure Spared (c : ChatController) (tokens : TokenSource) (user : AuthenticatedUser)
    (payload : ChatRequest) (o : ChatOracle) (decision : GuardrailDecision) : Prop where
  username : Clean (c.inputGuard.vault tokens payload.question) user.username
  title : payload.conversationId = none →
    Clean (c.inputGuard.vault tokens payload.question) (makeTitle payload.question)
  recorded : c.inputGuard.securityEvents = true →
    (∃ conversationId, (run o [] (resolveConversation user payload)).1 = .ok conversationId) →
    ∀ f ∈ decision.findings, Clean (c.inputGuard.vault tokens payload.question) f.detector
  sanitized : (∃ guarded, (run o [] (c.screen tokens user payload)).1 = .ok (some guarded)) →
    Clean (c.inputGuard.vault tokens payload.question)
      (c.inputGuard.sanitize tokens (canonicalize c.inputGuard.unicode payload.question 2) decision)
  saved : ∀ response, (run o [] (c.respond tokens user payload)).1 = .ok response →
    Clean (c.inputGuard.vault tokens payload.question) payload.question ∧
    Clean (c.inputGuard.vault tokens payload.question) response.answer ∧
    ∀ source ∈ response.sources, Clean (c.inputGuard.vault tokens payload.question) source

/-! ## The calls of each part -/

theorem uses_resolveConversation :
    (resolveConversation user payload).Uses (· = opening user payload) := by
  unfold resolveConversation opening
  split
  · exact uses_ask rfl
  · exact uses_ask rfl

theorem starts_resolveConversation (user : AuthenticatedUser) (payload : ChatRequest) :
    (resolveConversation user payload).Starts (· = opening user payload) := by
  unfold resolveConversation opening
  split <;> rfl

/-- What the input guard does with a question it redacts. -/
theorem guardInput_redact {config : RagRuntimeConfig} {turn : ChatTurn}
    (hmode : config.1.guardrailMode = .enforce)
    (hdecision : c.inputGuard.decide (canonicalize c.inputGuard.unicode turn.question 2) .enforce =
      .ok decision) (hredact : decision.action = .redact) :
    c.guardInput tokens turn config = Program.tryCatch
      (do
        recordEvent (if c.inputGuard.securityEvents then
          stageEvent "input_" (some turn.principal.username) decision else none)
        return some (c.inputGuard.sanitize tokens
          (canonicalize c.inputGuard.unicode turn.question 2) decision, decision))
      fun
        | .guardrailBlocked _ _ => return none
        | e => .raise e := by
  have hcheck : c.inputGuard.checkWithDecision tokens turn.question .enforce
      (some turn.principal.username) =
      .ok (if c.inputGuard.securityEvents then
          stageEvent "input_" (some turn.principal.username) decision else none,
        .ok (c.inputGuard.sanitize tokens (canonicalize c.inputGuard.unicode turn.question 2)
          decision, decision)) := by
    have hblocked : decision.blocked = false := by
      simp [GuardrailDecision.blocked, hredact]
    rw [InputGuardPipeline.checkWithDecision, hdecision]
    simp [hblocked, Bind.bind, Except.bind, Pure.pure, Except.pure]
  rw [guardInput, hmode, hcheck]
  rfl

/-- The texts of the event a redaction leaves. -/
theorem texts_stageEvent (username : String) (hredact : decision.action = .redact) :
    ∃ event, stageEvent "input_" (some username) decision = some event ∧
      (ChatOp.recordSecurityEvent event).texts = username :: decision.findings.map (·.detector) := by
  refine ⟨_, if_pos (by simp [hredact]), ?_⟩
  simp [ChatOp.texts, summarizeFindings]

/-- The texts the input guard hands on, when it redacts. -/
structure Records (turn : ChatTurn) (decision : GuardrailDecision) (op : ChatOp) : Prop where
  subset : ∀ text ∈ op.texts, text = turn.principal.username ∨
    ∃ f ∈ decision.findings, text = f.detector
  detectors : ∀ f ∈ decision.findings, f.detector ∈ op.texts

section Redacted

variable (tokens : TokenSource) (turn : ChatTurn) {config : RagRuntimeConfig}
  (hmode : config.1.guardrailMode = .enforce)
  (hdecision : c.inputGuard.decide (canonicalize c.inputGuard.unicode turn.question 2) .enforce =
    .ok decision) (hredact : decision.action = .redact)

include hmode hdecision hredact

theorem uses_guardInput : (c.guardInput tokens turn config).Uses fun op =>
    c.inputGuard.securityEvents = true ∧ Records turn decision op := by
  rw [guardInput_redact hmode hdecision hredact]
  refine Uses.tryCatch (fun e => ?_) (Uses.bind (fun _ => uses_pure _) ?_)
  · cases e <;> trivial
  · split
    · rename_i hevents
      obtain ⟨event, hevent, htexts⟩ :=
        texts_stageEvent turn.principal.username hredact
      rw [hevent]
      refine uses_ask ⟨hevents, fun text htext => ?_, fun f hf => ?_⟩
      · rw [htexts, List.mem_cons, List.mem_map] at htext
        exact htext.imp_right fun ⟨f, hf, hdetector⟩ => ⟨f, hf, hdetector.symm⟩
      · rw [htexts]
        exact List.mem_cons_of_mem _ (List.mem_map_of_mem hf)
    · trivial

theorem starts_guardInput (hevents : c.inputGuard.securityEvents = true) :
    (c.guardInput tokens turn config).Starts (Records turn decision) := by
  have huses := uses_guardInput tokens turn hmode hdecision hredact
  rw [guardInput_redact hmode hdecision hredact, if_pos hevents] at huses ⊢
  obtain ⟨event, hevent, -⟩ := texts_stageEvent turn.principal.username hredact
  rw [hevent] at huses ⊢
  exact huses.1.2

theorem returns_guardInput : (c.guardInput tokens turn config).Returns fun guarded =>
    ∀ question inputDecision, guarded = some (question, inputDecision) →
      question = c.inputGuard.sanitize tokens
        (canonicalize c.inputGuard.unicode turn.question 2) decision := by
  rw [guardInput_redact hmode hdecision hredact]
  refine Returns.tryCatch (fun e => ?_) (Returns.bind (P := fun _ => True) (fun _ _ => ?_)
    (returns_true _))
  · cases e <;> first | trivial | exact fun _ _ h => nomatch h
  · rintro question inputDecision h
    exact (Prod.mk.inj (Option.some.inj h)).1.symm

end Redacted

/-- What a call of the orchestrator after the guard hands on : the username and the question. -/
def HandsOn (turn : ChatTurn) (question : String) (op : ChatOp) : Prop :=
  ∀ text ∈ op.texts, text = turn.principal.username ∨ text = question

section Guarded

variable {turn : ChatTurn} {config : RagRuntimeConfig} {question : String}
  {inputDecision : GuardrailDecision} {routeDecision : RouteDecision}

theorem uses_ragOnly : (ragOnly turn question inputDecision).Uses (HandsOn turn question) :=
  Uses.bind (fun _ => uses_pure _) (uses_ask fun _ htext => Or.inr (List.mem_singleton.1 htext))

theorem handsOn_propose : HandsOn turn question
    (.propose (toSqlPrincipal turn.principal) turn.conversationId question) := by
  intro text htext
  simpa [ChatOp.texts, toSqlPrincipal] using htext

theorem uses_generateHybridAnswer :
    (generateHybridAnswer routeDecision turn question inputDecision).Uses
      (HandsOn turn question) := by
  refine Uses.bind (fun rag => Uses.bind (fun r => ?_) (uses_attempt handsOn_propose)) uses_ragOnly
  split <;> trivial

theorem uses_proposeAnswer :
    (proposeAnswer routeDecision turn question inputDecision).Uses (HandsOn turn question) := by
  refine Uses.bind (fun r => ?_) (uses_attempt handsOn_propose)
  split <;> trivial

theorem uses_authorizeSql :
    (c.authorizeSql turn.principal config).Uses (HandsOn turn question) := by
  unfold authorizeSql
  split
  · trivial
  · split
    · refine Uses.bind (fun r => ?_)
        (uses_attempt fun _ htext => Or.inl (List.mem_singleton.1 htext))
      split <;> trivial
    · trivial

theorem uses_sqlRoute :
    (c.sqlRoute config routeDecision turn question inputDecision).Uses
      (HandsOn turn question) := by
  refine Uses.bind (fun authorized => ?_) uses_authorizeSql
  split
  · trivial
  · show Uses _ (if _ then _ else _)
    split
    · exact uses_generateHybridAnswer
    · exact uses_proposeAnswer

theorem uses_answerGuarded :
    (c.answerGuarded config turn question inputDecision).Uses (HandsOn turn question) := by
  unfold answerGuarded
  split
  · exact uses_ragOnly
  · refine Uses.bind (fun sampled => ?_) (uses_orRaise _)
    split
    · exact uses_ragOnly
    · refine Uses.bind (fun routeDecision => ?_)
        (uses_ask fun _ htext => Or.inr (List.mem_singleton.1 htext))
      split
      · exact uses_ragOnly
      · exact uses_sqlRoute
      · exact uses_sqlRoute
      · trivial

theorem starts_ragOnly :
    (ragOnly turn question inputDecision).Starts fun op => question ∈ op.texts :=
  List.mem_singleton_self question

/-- The first call after the guard is to the RAG service or the router. -/
theorem starts_answerGuarded :
    (c.answerGuarded config turn question inputDecision).Starts fun op => question ∈ op.texts := by
  unfold answerGuarded
  split
  · exact starts_ragOnly
  · have hsampled : ∃ sampled, sampledIn c.bucket question config.1.sqlRolloutPercentage "sql" =
        .ok sampled := by
      rw [sampledIn, if_neg (not_not.2 config.valid.sql)]
      split
      · exact ⟨_, rfl⟩
      · split <;> exact ⟨_, rfl⟩
    obtain ⟨sampled, hsampled⟩ := hsampled
    rw [hsampled]
    cases sampled with
    | false => exact starts_ragOnly
    | true => exact List.mem_singleton_self question

end Guarded

/-- A call of `_save_history` that hands on no more than the username, the question and the
response. -/
def Saves (username question : String) (response : ChatResponse) (op : ChatOp) : Prop :=
  ∀ text ∈ op.texts, text ∈ username :: question :: response.answer :: response.sources

theorem uses_saveHistory {username question : String} {conversationId : ℤ}
    {response : ChatResponse} :
    (saveHistory username conversationId question response).Uses
      (Saves username question response) := by
  refine Uses.tryCatch (fun e => ?_) (Uses.bind (fun _ => uses_ask fun _ htext => nomatch htext)
    (uses_ask fun _ htext => htext))
  split <;> trivial

theorem starts_saveHistory (username question : String) (conversationId : ℤ)
    (response : ChatResponse) :
    (saveHistory username conversationId question response).Starts fun op =>
      ∀ text ∈ username :: question :: response.answer :: response.sources, text ∈ op.texts :=
  Starts.tryCatch (Starts.bind (starts_ask fun _ htext => htext))

theorem uses_chat_end {username question : String} {conversationId : ℤ} {response : ChatResponse} :
    (do
      saveHistory username conversationId question response
      return (response, conversationId) : ChatProgram (ChatResponse × ℤ)).Uses
      (Saves username question response) :=
  Uses.bind (fun _ => uses_pure _) uses_saveHistory

/-! ## Runs -/

section Runs

variable (hmode : ∀ h, (o h .currentConfig).1.guardrailMode = .enforce)
  (hdecision : c.inputGuard.decide (canonicalize c.inputGuard.unicode payload.question 2) .enforce =
    .ok decision) (hredact : decision.action = .redact)

include hmode hdecision hredact

omit hmode hdecision hredact in
theorem clean_resolveConversation (hs : c.Spared tokens user payload o decision) :
    ∀ event ∈ (run o [] (resolveConversation user payload)).2, ∀ text ∈ event.1.texts,
      Clean (c.inputGuard.vault tokens payload.question) text := by
  intro event hevent text htext
  rcases uses_resolveConversation.mem_run hevent with hevent | hop
  · exact nomatch hevent
  · rw [hop, opening] at htext
    split at htext
    · rw [List.mem_singleton.1 htext]
      exact hs.username
    · rename_i hnone
      rcases List.mem_cons.1 htext with rfl | htext
      · exact hs.username
      · rw [List.mem_singleton.1 htext]
        exact hs.title hnone

theorem clean_answer {conversationId : ℤ} (hs : c.Spared tokens user payload o decision)
    (hresolve : (run o [] (resolveConversation user payload)).1 = .ok conversationId) :
    ∀ event ∈ (run o (run o [] (resolveConversation user payload)).2
      (c.answer tokens (turn user payload conversationId))).2, ∀ text ∈ event.1.texts,
      Clean (c.inputGuard.vault tokens payload.question) text := by
  generalize hresolved : (run o [] (resolveConversation user payload)).2 = h
  have hread : ∀ event ∈ h ++ [⟨.currentConfig, o h .currentConfig⟩], ∀ text ∈ event.1.texts,
      Clean (c.inputGuard.vault tokens payload.question) text := by
    intro event hevent text htext
    rcases List.mem_append.1 hevent with hevent | hevent
    · exact clean_resolveConversation hs event (hresolved ▸ hevent) text htext
    · obtain rfl := List.mem_singleton.1 hevent
      exact nomatch htext
  have hguard : ∀ event ∈ (run o (h ++ [⟨.currentConfig, o h .currentConfig⟩])
      (c.guardInput tokens (turn user payload conversationId) (o h .currentConfig))).2,
      ∀ text ∈ event.1.texts, Clean (c.inputGuard.vault tokens payload.question) text := by
    intro event hevent text htext
    have huses := uses_guardInput tokens (turn user payload conversationId) (hmode h) hdecision
      hredact
    rcases huses.mem_run hevent with hevent | ⟨hevents, hrecords⟩
    · exact hread event hevent text htext
    · rcases hrecords.subset text htext with rfl | ⟨f, hf, rfl⟩
      · exact hs.username
      · exact hs.recorded hevents ⟨conversationId, hresolve⟩ f hf
  intro event hevent text htext
  rw [answer, mem_run_bind] at hevent
  rcases hevent with hevent | ⟨config, hconfig, hevent⟩
  · exact hread event hevent text htext
  obtain rfl := Except.ok.inj hconfig
  rw [answerUnder, mem_run_bind] at hevent
  rcases hevent with hevent | ⟨guarded, hguarded, hevent⟩
  · exact hguard event hevent text htext
  cases guarded with
  | none => exact hguard event hevent text htext
  | some guarded =>
    rcases uses_answerGuarded.mem_run hevent with hevent | hhands
    · exact hguard event hevent text htext
    · rcases hhands text htext with rfl | rfl
      · exact hs.username
      · have hreturns := (returns_guardInput tokens (turn user payload conversationId)
          (hmode h) hdecision hredact).run hguarded
        rw [hreturns guarded.1 guarded.2 rfl]
        refine hs.sanitized ⟨guarded, run_bind_eq_ok.2 ⟨conversationId, hresolve, ?_⟩⟩
        rw [hresolved]
        exact run_bind_eq_ok.2 ⟨_, rfl, hguarded⟩

/-- What is spared is not handed on. -/
theorem confined_of_spared (hs : c.Spared tokens user payload o decision) :
    c.Confined tokens user payload o := by
  intro event hevent text htext
  rw [chat, mem_run_bind] at hevent
  rcases hevent with hevent | ⟨conversationId, hresolve, hevent⟩
  · exact clean_resolveConversation hs event hevent text htext
  rw [mem_run_bind] at hevent
  rcases hevent with hevent | ⟨response, hresponse, hevent⟩
  · exact clean_answer hmode hdecision hredact hs hresolve event hevent text htext
  rcases uses_chat_end.mem_run hevent with hevent | hsaves
  · exact clean_answer hmode hdecision hredact hs hresolve event hevent text htext
  · obtain ⟨hquestion, hanswer, hsources⟩ :=
      hs.saved response (run_bind_eq_ok.2 ⟨conversationId, hresolve, hresponse⟩)
    have hmem := hsaves text htext
    simp only [List.mem_cons] at hmem
    rcases hmem with rfl | rfl | rfl | hsource
    · exact hs.username
    · exact hquestion
    · exact hanswer
    · exact hsources text hsource

/-- What is not handed on is spared. -/
theorem spared_of_confined (h : c.Confined tokens user payload o) :
    c.Spared tokens user payload o decision := by
  have hopening : ∀ text ∈ (opening user payload).texts,
      Clean (c.inputGuard.vault tokens payload.question) text := by
    have hstarts : (c.chat tokens user payload).Starts (· = opening user payload) :=
      (starts_resolveConversation user payload).bind
    obtain ⟨event, hevent, hop⟩ := hstarts.exists_mem_run
    exact fun text htext => h event hevent text (hop ▸ htext)
  refine ⟨hopening _ ?_, fun hnone => hopening _ ?_, fun hevents hresolved f hf => ?_,
    fun hscreened => ?_, fun response hresponse => ?_⟩
  · unfold opening
    split <;> exact List.mem_cons_self
  · unfold opening
    rw [hnone]
    exact List.mem_cons_of_mem _ (List.mem_singleton_self _)
  · obtain ⟨conversationId, hresolve⟩ := hresolved
    obtain ⟨event, hevent, hrecords⟩ := (starts_guardInput tokens
      (turn user payload conversationId) (hmode _) hdecision hredact hevents).exists_mem_run
    refine h event (mem_run_bind.2 (Or.inr ⟨conversationId, hresolve, ?_⟩)) f.detector
      (hrecords.detectors f hf)
    refine mem_run_bind.2 (Or.inl (mem_run_bind.2 (Or.inr ⟨_, rfl, ?_⟩)))
    exact mem_run_bind.2 (Or.inl hevent)
  · obtain ⟨⟨question, inputDecision⟩, hguarded⟩ := hscreened
    obtain ⟨conversationId, hresolve, hguarded⟩ := run_bind_eq_ok.1 hguarded
    obtain ⟨config, hconfig, hguarded⟩ := run_bind_eq_ok.1 hguarded
    obtain rfl := Except.ok.inj hconfig
    have hreturns := (returns_guardInput tokens (turn user payload conversationId) (hmode _)
      hdecision hredact).run hguarded
    obtain rfl := hreturns question inputDecision rfl
    obtain ⟨event, hevent, hquestion⟩ := starts_answerGuarded.exists_mem_run
    refine h event (mem_run_bind.2 (Or.inr ⟨conversationId, hresolve, ?_⟩)) _ hquestion
    refine mem_run_bind.2 (Or.inl (mem_run_bind.2 (Or.inr ⟨_, rfl, ?_⟩)))
    exact mem_run_bind.2 (Or.inr ⟨_, hguarded, hevent⟩)
  · obtain ⟨conversationId, hresolve, hanswer⟩ := run_bind_eq_ok.1 hresponse
    obtain ⟨event, hevent, htexts⟩ := (starts_saveHistory user.username payload.question
      conversationId response).exists_mem_run
    have hclean := h event (mem_run_bind.2 (Or.inr ⟨conversationId, hresolve,
      mem_run_bind.2 (Or.inr ⟨response, hanswer, mem_run_bind.2 (Or.inl hevent)⟩)⟩))
    refine ⟨hclean _ (htexts _ ?_), hclean _ (htexts _ ?_), fun source hsource =>
      hclean _ (htexts _ ?_)⟩
    · simp
    · simp
    · simp [hsource]

/-- A question in canonical form is not confined when there is a response to save, unless the
vault is empty. -/
theorem not_confined_of_canonical
    (hcanonical : canonicalize c.inputGuard.unicode payload.question 2 = payload.question)
    (hvault : c.inputGuard.vault tokens payload.question ≠ []) {response : ChatResponse}
    (hresponse : (run o [] (c.respond tokens user payload)).1 = .ok response) :
    ¬c.Confined tokens user payload o := by
  intro hconfined
  have hclean := ((spared_of_confined hmode hdecision hredact hconfined).saved response hresponse).1
  rw [InputGuardPipeline.vault, hcanonical, tokenize_snd] at hvault hclean
  obtain ⟨entry, hentry, hinfixed⟩ :=
    exists_infix_of_tokenizeKinds fun hnil => hvault (by rw [hnil]; rfl)
  exact hclean entry.2 (List.mem_map_of_mem hentry) hinfixed

end Runs

/-! ## A phone number in the chat -/

/-- The character data of ASCII texts. -/
def deskUnicode : UnicodeData where
  nfkc text := text
  isPrintable _ := true
  isWord c := isAlnumAscii c || c = '_'

/-- Tokens that are all zeros. -/
def zeroTokens : TokenSource :=
  ⟨fun _ => List.replicate 8 '0', isHexDigit_of_mem_zeros⟩

/-- The regular expressions alone scan. -/
def deskController : ChatController where
  inputGuard :=
    { unicode := deskUnicode
      deterministicScanners := [fun text => .ok (scanSensitive deskUnicode.isWord text)]
      mlScanner := none
      policy := {}
      securityEvents := true }
  toolSecurityEvents := true
  bucket _ _ := 0

def ann : AuthenticatedUser :=
  ⟨"ann", false⟩

/-- SQL is off, and the RAG service returns or raises what is given. -/
def chatDay (rag : Except Raised ChatResponse) : ChatOracle
  | _, .getOwned conversationId _ => .ok (some conversationId)
  | _, .createConversation _ _ => .ok 1
  | _, .currentConfig => derived (.initial 0)
  | _, .recordSecurityEvent _ => .ok ()
  | _, .recordDenial _ _ _ => .ok ()
  | _, .ragAnswer _ _ _ => rag
  | _, .route _ => .ok ⟨.rag, 1, "policy"⟩
  | _, .propose _ _ _ => .error (.sqlGenerationFailed "none")
  | _, .createHistory _ _ _ _ _ _ => .ok ()
  | _, .touch _ => .ok ()

def feeResponse : ChatResponse where
  answer := "The fee is 5."
  sources := ["fees.pdf"]
  confidence := 1
  route := "rag"

/-- A question with a phone number, in a new conversation or one that is going on. -/
def phoneRequest (conversationId : Option ℤ) : ChatRequest where
  question := "My number is 9876543210."
  conversationId
  question_length := by decide
  topK_range := by decide

/-- The decision about it. -/
def phoneDecision : GuardrailDecision where
  stage := .input
  action := .redact
  mode := .enforce
  findings := [⟨.pii, 8 / 10, "deterministic.regex_sensitive_data", some "contact_identifier"⟩]

theorem decide_phoneRequest (conversationId : Option ℤ) :
    deskController.inputGuard.decide
      (canonicalize deskUnicode (phoneRequest conversationId).question 2) .enforce =
      .ok phoneDecision := by
  show deskController.inputGuard.decide (canonicalize deskUnicode "My number is 9876543210." 2)
    .enforce = .ok phoneDecision
  decide +kernel

theorem vault_phoneRequest (conversationId : Option ℤ) :
    deskController.inputGuard.vault zeroTokens (phoneRequest conversationId).question =
      ["9876543210".toList] := by
  show deskController.inputGuard.vault zeroTokens "My number is 9876543210." = _
  decide +kernel

end ChatController

end EnterpriseRag
