import EnterpriseRag.Rag.Service

/-!
# What a redaction of the answer shows

The output guard decides from what all scanners found, `tokenize` replaces what the regular
expressions recognize, and `answer` reports a redaction where the text has changed. The
three agree unless only the model's scanner found the value : then the decision is to
redact, the text stays and the report says it was allowed (`redact_effective_iff`).
-/

namespace EnterpriseRag

open Program

namespace GuardrailPolicy

/-- A redaction takes enforce mode, a category to redact and nothing block-worthy. -/
theorem redact_decide (p : GuardrailPolicy) (findings : List ScanFinding) (stage : GuardrailStage)
    (mode : GuardrailModeName) : (p.decide findings stage mode).action = .redact ↔
      mode = .enforce ∧ (∀ f ∈ findings, p.isBlockWorthy f = false) ∧
        ∃ f ∈ findings, f.category ∈ p.redactOnly := by
  have hworthy : findings.any p.isBlockWorthy = false ↔ ∀ f ∈ findings, p.isBlockWorthy f = false := by
    simp [List.any_eq_false]
  have hredact : (findings.any fun f => f.category ∈ p.redactOnly) = true ↔
      ∃ f ∈ findings, f.category ∈ p.redactOnly := by
    simp [List.any_eq_true]
  rw [← hworthy, ← hredact]
  unfold decide
  cases mode <;> cases findings.any p.isBlockWorthy <;> simp

end GuardrailPolicy

/-- `OutputGuardPipeline.apply` with what the scanners found : the event to record first, and
what it returns or raises then. -/
def OutputGuardPipeline.conclude (p : OutputGuardPipeline) (findings : List ScanFinding)
    (answer : String) (mode : GuardrailModeName) : Option SecurityEvent × Except Raised String :=
  let decision := p.policy.decide findings .output mode
  (if p.securityEvents then stageEvent "output_" none decision else none,
    if decision.blocked then
      .error (.guardrailBlocked .output ((decision.findings.head?).map (·.category)))
    else if decision.action = .redact then .ok (tokenize p.isWord p.tokens answer).1
    else .ok answer)

namespace RAGService

variable (svc : RAGService)

/-- What `answer` serves and reports once the guard returned or raised. -/
def reported (answer : String) : Except Raised String → Except Raised (String × GuardrailAction)
  | .ok guarded => .ok (guarded, if guarded = answer then .allow else .redact)
  | .error (.guardrailBlocked _ _) => .ok (outputBlockedAbstention, .block)
  | .error e => .error e

/-- The response once the guard returned or raised for the answer. -/
def responseTo (q : RagRequest) (s : Stages) (answer : String) (result : Except Raised String) :
    Except Raised RagChatResponse :=
  (reported answer result).map fun served =>
    svc.respond q { s with answer := served.1, outputAction := served.2 }

/-! ## The guard of the service -/

/-- The findings in a run of the output stage : the regular expressions' and the model's. -/
def outputFindings (ml : List ScanFinding) (answer : String) : List ScanFinding :=
  scanSensitive svc.outputGuard.isWord answer ++ if svc.outputGuard.mlScanner then ml else []

theorem applyOutputGuard_eq (prompt answer : String) (mode : GuardrailModeName) :
    svc.applyOutputGuard prompt answer mode = (do
      let findings ← if svc.outputGuard.mlScanner then ask (.scanOutput prompt answer) id else .pure []
      let concluded := svc.outputGuard.conclude
        (scanSensitive svc.outputGuard.isWord answer ++ findings) answer mode
      recordEvent concluded.1
      orRaise concluded.2) := by
  have hconclude : ∀ findings : List ScanFinding,
      svc.carryOut answer (svc.outputGuard.policy.decide findings .output mode) = (do
        recordEvent (svc.outputGuard.conclude findings answer mode).1
        orRaise (svc.outputGuard.conclude findings answer mode).2) := by
    intro findings
    refine congrArg (recordEvent _ >>= ·) (funext fun _ => ?_)
    dsimp only [OutputGuardPipeline.conclude]
    split
    · rfl
    · split <;> rfl
  rw [applyOutputGuard_eq_bind]
  simp only [hconclude]
  split <;> rfl

/-- What the output stage of a run returns, where the model's scanner finds `ml` and events are
recorded. -/
theorem run_outputStage {o : RagOracle} {h : List RagEvent} {q : RagRequest} {answer : String}
    {ml : List ScanFinding} (hscan : ∀ h, o h (.scanOutput q.call.question answer) = .ok ml)
    (hrecord : ∀ h event, o h (.recordSecurityEvent event) = .ok ()) :
    (run o h (svc.outputStage q answer)).1 = reported answer
      (svc.outputGuard.conclude (svc.outputFindings ml answer) answer
        q.config.1.guardrailMode).2 := by
  have hconcluded : ∀ (event : Option SecurityEvent) (result : Except Raised String)
      (h : List RagEvent), (run o h (recordEvent event >>= fun _ => orRaise result)).1 = result := by
    intro event result h
    cases event with
    | none => cases result <;> rfl
    | some event =>
      rw [recordEvent, run_ask_bind, hrecord]
      cases result <;> rfl
  have hguard : (run o h (svc.applyOutputGuard q.call.question answer
      q.config.1.guardrailMode)).1 = (svc.outputGuard.conclude (svc.outputFindings ml answer) answer
        q.config.1.guardrailMode).2 := by
    rw [applyOutputGuard_eq, outputFindings]
    split
    · rw [run_ask_bind, hscan]
      exact hconcluded _ _ _
    · exact hconcluded _ _ _
  rw [outputStage, run_tryCatch, bind_eq, run_bind]
  cases hrun : run o h (svc.applyOutputGuard q.call.question answer q.config.1.guardrailMode) with
  | mk result h' =>
    rw [hrun] at hguard
    rw [← hguard]
    cases result with
    | ok guarded => rfl
    | error e => cases e <;> rfl

/-! ## Decision, text and report -/

section Effect

variable {svc} {q : RagRequest} {s : Stages} {findings : List ScanFinding} {answer : String}
  {mode : GuardrailModeName}

theorem conclude_of_redact
    (h : (svc.outputGuard.policy.decide findings .output mode).action = .redact) :
    (svc.outputGuard.conclude findings answer mode).2 =
      .ok (tokenize svc.outputGuard.isWord svc.outputGuard.tokens answer).1 := by
  simp [OutputGuardPipeline.conclude, GuardrailDecision.blocked, h]

/-- Without a decision to redact no redaction is reported. -/
theorem action_of_not_redact
    (h : (svc.outputGuard.policy.decide findings .output mode).action ≠ .redact)
    {response : RagChatResponse} (hresponse : svc.responseTo q s answer
      (svc.outputGuard.conclude findings answer mode).2 = .ok response) :
    response.guardrail.outputAction ≠ .redact := by
  have hresult : (svc.outputGuard.conclude findings answer mode).2 = .ok answer ∨
      ∃ category, (svc.outputGuard.conclude findings answer mode).2 =
        .error (.guardrailBlocked .output category) := by
    unfold OutputGuardPipeline.conclude
    dsimp only
    rw [if_neg h]
    split
    · exact Or.inr ⟨_, rfl⟩
    · exact Or.inl rfl
  rcases hresult with hresult | ⟨category, hresult⟩
  · rw [hresult, responseTo, reported, if_pos rfl] at hresponse
    obtain rfl := Except.ok.inj hresponse
    exact fun haction => nomatch haction
  · rw [hresult, responseTo, reported] at hresponse
    obtain rfl := Except.ok.inj hresponse
    exact fun haction => nomatch haction

end Effect

/-- A decision to redact changes the text and is reported, and only then a redaction is
reported : just when the regular expressions recognize something in the answer, if there is a
finding to redact and none to block. -/
theorem redact_effective_iff (q : RagRequest) (s : Stages) (deterministic ml : List ScanFinding)
    (answer : String) (mode : GuardrailModeName) :
    (((svc.outputGuard.policy.decide (deterministic ++ ml) .output mode).action = .redact →
        (∀ text, (svc.outputGuard.conclude (deterministic ++ ml) answer mode).2 = .ok text →
          text ≠ answer) ∧
        ∃ response, svc.responseTo q s answer
            (svc.outputGuard.conclude (deterministic ++ ml) answer mode).2 = .ok response ∧
          response.guardrail.outputAction = .redact) ∧
      ∀ response, svc.responseTo q s answer
          (svc.outputGuard.conclude (deterministic ++ ml) answer mode).2 = .ok response →
        response.guardrail.outputAction = .redact →
          (svc.outputGuard.policy.decide (deterministic ++ ml) .output mode).action = .redact) ↔
    (mode = .enforce →
      (∀ f ∈ deterministic ++ ml, svc.outputGuard.policy.isBlockWorthy f = false) →
      (∃ f ∈ deterministic ++ ml, f.category ∈ svc.outputGuard.policy.redactOnly) →
        scanSensitive svc.outputGuard.isWord answer ≠ []) := by
  have hcondition := svc.outputGuard.policy.redact_decide (deterministic ++ ml) .output mode
  by_cases hredact :
    (svc.outputGuard.policy.decide (deterministic ++ ml) .output mode).action = .redact
  · obtain ⟨hmode, hworthy, hfound⟩ := hcondition.1 hredact
    have hsame : (tokenize svc.outputGuard.isWord svc.outputGuard.tokens answer).1 = answer ↔
        scanSensitive svc.outputGuard.isWord answer = [] := tokenize_eq_self
    rw [conclude_of_redact hredact]
    generalize (tokenize svc.outputGuard.isWord svc.outputGuard.tokens answer).1 = served at hsame
    constructor
    · rintro ⟨heffect, -⟩ - - - hnone
      exact (heffect hredact).1 _ rfl (hsame.2 hnone)
    · intro hsome
      have hchanged : served ≠ answer := fun h => hsome hmode hworthy hfound (hsame.1 h)
      rw [responseTo, reported, if_neg hchanged]
      refine ⟨fun _ => ⟨?_, _, rfl, rfl⟩, fun _ _ _ => hredact⟩
      rintro text htext
      obtain rfl := Except.ok.inj htext
      exact hchanged
  · refine iff_of_true ⟨fun h => absurd h hredact, fun response hresponse haction => ?_⟩
      fun hmode hworthy hfound => absurd (hcondition.2 ⟨hmode, hworthy, hfound⟩) hredact
    exact absurd haction (action_of_not_redact hredact hresponse)

/-- The guard of ASCII texts with a model that looks for names. -/
def nameGuard : OutputGuardPipeline where
  mlScanner := true
  policy := {}
  securityEvents := true
  isWord c := isAlnumAscii c || c = '_'
  tokens := ⟨fun _ => List.replicate 8 '0', isHexDigit_of_mem_zeros⟩

/-- What is found in an answer with a name. -/
def nameFindings : List ScanFinding :=
  scanSensitive nameGuard.isWord "Ask Ann." ++ [⟨.pii, 9 / 10, "llm_guard.Sensitive", none⟩]

/-- The name is to be redacted, stays in the answer and is reported as allowed. -/
theorem name_stays :
    (nameGuard.policy.decide nameFindings .output .enforce).action = .redact ∧
      (nameGuard.conclude nameFindings "Ask Ann." .enforce).2 = .ok "Ask Ann." ∧
      reported "Ask Ann." (nameGuard.conclude nameFindings "Ask Ann." .enforce).2 =
        .ok ("Ask Ann.", .allow) := by
  decide +kernel

end RAGService

end EnterpriseRag
