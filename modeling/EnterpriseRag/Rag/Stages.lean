import EnterpriseRag.Guardrails.Policy
import EnterpriseRag.Rag.Evidence
import EnterpriseRag.RagOps.Repository
import EnterpriseRag.Sql.Orchestrator

/-!
# The stages of a RAG answer

Reranking, HyDE, CRAG and self-reflection each decide from one snapshot and the question
which cohort a request is in, and name a segment of the cache namespace for it. The four
plans are `stagePlan` at the stage's own switch, percentage, salt and texts. Durations,
which no decision reads, are left out here and in the outcomes.
-/

namespace EnterpriseRag

inductive Cohort
  | disabled
  | control
  | shadow
  | treatment
  deriving DecidableEq, Repr

/-- What the plans of the stages share. -/
structure StagePlan where
  cohort : Cohort
  bypassReason : Option String
  cacheNamespace : String
  deriving DecidableEq, Repr

/-- A plan of the stage called `stage` : off, stopped, observed only, outside the rollout,
or in it with the namespace `treatment`. -/
def stagePlan (bucket : String → String → ℕ) (question : String) (config : RagRuntimeConfig)
    (enabled shadow : Bool) (percentage : ℤ) (salt stage treatment : String) :
    Except Raised StagePlan :=
  let bypassed := fun cohort reason =>
    StagePlan.mk cohort (some reason) (stage ++ ":none:reason=" ++ reason)
  if !enabled then .ok (bypassed .disabled "disabled")
  else if config.1.emergencyDisabled then .ok (bypassed .disabled "emergency_disabled")
  else if shadow then .ok ⟨.shadow, none, stage ++ ":shadow:v1"⟩
  else do
    if ← sampledIn bucket question percentage salt then
      return ⟨.treatment, none, treatment⟩
    else return bypassed .control "rollout"

section StagePlan

variable {bucket : String → String → ℕ} {question : String} {config config' : RagRuntimeConfig}
  {enabled shadow : Bool} {percentage : ℤ} {salt stage treatment : String}

/-- A stage that is off or stopped is planned as disabled. -/
theorem stagePlan_of_off (h : enabled = false ∨ config.1.emergencyDisabled = true) :
    ∃ plan, stagePlan bucket question config enabled shadow percentage salt stage treatment =
      .ok plan ∧ plan.cohort = .disabled := by
  unfold stagePlan
  cases enabled with
  | false => exact ⟨_, rfl, rfl⟩
  | true =>
    have hemergency : config.1.emergencyDisabled = true := by simpa using h
    exact ⟨_, if_pos hemergency, rfl⟩

/-- A stage in shadow is not served. -/
theorem stagePlan_of_shadow :
    ∃ plan, stagePlan bucket question config enabled true percentage salt stage treatment =
      .ok plan ∧ plan.cohort ≠ .treatment := by
  by_cases hoff : enabled = false ∨ config.1.emergencyDisabled = true
  · obtain ⟨plan, hplan, hcohort⟩ := stagePlan_of_off hoff
    exact ⟨plan, hplan, by simp [hcohort]⟩
  · obtain ⟨henabled, hemergency⟩ := not_or.1 hoff
    unfold stagePlan
    rw [if_neg (by simpa using henabled), if_neg hemergency]
    exact ⟨_, rfl, nofun⟩

/-- Of the configuration itself a plan reads the emergency switch only. -/
theorem stagePlan_congr (h : config'.1.emergencyDisabled = config.1.emergencyDisabled) :
    stagePlan bucket question config' enabled shadow percentage salt stage treatment =
      stagePlan bucket question config enabled shadow percentage salt stage treatment := by
  rw [stagePlan, stagePlan, h]

end StagePlan

/-- The name and the namespace of what a stage delegates to. -/
structure Delegate where
  name : String
  cacheNamespace : String
  deriving DecidableEq, Repr

/-! ## Reranking -/

structure ReRankedChunk where
  chunk : RetrievedChunk
  originalRank : ℕ
  rerankScore : Option ℚ
  deriving DecidableEq, Repr

structure ReRankOutcome where
  items : List ReRankedChunk
  backend : String
  applied : Bool
  fallback : Bool := false
  usageTokens : Option ℤ := none
  deriving DecidableEq, Repr

structure RerankPlan extends StagePlan where
  backendKey : Option RerankerBackendName
  reportedBackend : String
  deriving DecidableEq, Repr

structure DynamicReranker where
  localReranker : Delegate
  voyage : Option Delegate
  deriving DecidableEq, Repr

/-- `_delegate`. -/
def DynamicReranker.delegate (r : DynamicReranker) : RerankerBackendName → Option Delegate
  | .voyage => r.voyage
  | .local => some r.localReranker

def DynamicReranker.plan (r : DynamicReranker) (bucket : String → String → ℕ)
    (question : String) (config : RagRuntimeConfig) (enabled : Bool) :
    Except Raised RerankPlan := do
  let backend := config.1.rerankerBackend
  let delegate := (r.delegate backend).getD ⟨backend.value, "unconfigured:" ++ backend.value⟩
  let plan ← stagePlan bucket question config enabled false config.1.rerankerRolloutPercentage
    "reranker:v1" "rerank"
    ("dynamic:v1:cohort=treatment:backend=" ++ backend.value ++ ":" ++ delegate.cacheNamespace)
  return if plan.cohort = .treatment then ⟨plan, some backend, delegate.name⟩
    else ⟨plan, none, "none"⟩

theorem DynamicReranker.plan_of_off {r : DynamicReranker} {bucket : String → String → ℕ}
    {question : String} {config : RagRuntimeConfig} {enabled : Bool}
    (h : enabled = false ∨ config.1.emergencyDisabled = true) :
    ∃ plan, r.plan bucket question config enabled = .ok plan ∧ plan.cohort = .disabled := by
  obtain ⟨plan, hplan, hcohort⟩ := stagePlan_of_off h
  refine ⟨⟨plan, none, "none"⟩, ?_, hcohort⟩
  rw [DynamicReranker.plan]
  refine bind_eq_ok.2 ⟨plan, hplan, ?_⟩
  rw [if_neg (by simp [hcohort])]
  rfl

/-- `NoOpReranker.rerank` : the first `topK` in the order of retrieval. -/
def noOpRerank (candidates : List RetrievedChunk) (topK : ℕ) : Except Raised ReRankOutcome :=
  if topK = 0 then .error (.exception "ValueError")
  else
    .ok
      { items := (candidates.take topK).mapIdx fun i chunk => ⟨chunk, i + 1, none⟩
        backend := "none"
        applied := false }

/-! ## HyDE -/

structure QueryTransformOutcome where
  retrievalTexts : List String
  backend : String
  applied : Bool
  fallback : Bool := false
  bypassReason : Option String := none
  usageTokens : ℤ := 0
  deriving DecidableEq, Repr

/-- `DynamicQueryTransformer.plan`. -/
def Delegate.hydePlan (transformer : Delegate) (bucket : String → String → ℕ) (question : String)
    (config : RagRuntimeConfig) (enabled : Bool) : Except Raised StagePlan :=
  stagePlan bucket question config enabled false config.1.hydeRolloutPercentage "hyde:v1"
    "query-transform" ("dynamic-query-transform:v1:cohort=treatment:" ++ transformer.cacheNamespace)

/-- `NoOpQueryTransformer.transform`. -/
def noOpTransform (question reason : String) : QueryTransformOutcome where
  retrievalTexts := [question]
  backend := "none"
  applied := false
  bypassReason := some reason

/-! ## CRAG -/

inductive CRAGDecision
  | correct
  | ambiguous
  | incorrect
  deriving DecidableEq, Repr

structure CRAGOutcome where
  evidence : List EvidenceChunk
  decision : Option CRAGDecision
  applied : Bool
  fallback : Bool := false
  abstain : Bool := false
  webUsed : Bool := false
  bypassReason : Option String := none
  usageTokens : ℤ := 0
  deriving DecidableEq, Repr

structure CRAGPlan extends StagePlan where
  allowWeb : Bool
  deriving DecidableEq, Repr

/-- `DynamicCorrectiveRetriever.plan`. -/
def Delegate.cragPlan (corrective : Delegate) (bucket : String → String → ℕ) (question : String)
    (config : RagRuntimeConfig) (enabled : Bool) : Except Raised CRAGPlan := do
  let plan ← stagePlan bucket question config enabled config.1.cragShadowEnabled
    config.1.cragRolloutPercentage "crag:v1" "crag"
    ("crag:dynamic:v1:cohort=treatment:" ++ corrective.cacheNamespace)
  return ⟨plan, plan.cohort = .treatment && config.1.cragWebEnabled⟩

section CRAGPlan

variable {corrective : Delegate} {bucket : String → String → ℕ} {question : String}
  {config config' : RagRuntimeConfig} {enabled : Bool}

theorem Delegate.cragPlan_of_off (h : enabled = false ∨ config.1.emergencyDisabled = true) :
    ∃ plan, corrective.cragPlan bucket question config enabled = .ok plan ∧
      plan.cohort = .disabled := by
  obtain ⟨plan, hplan, hcohort⟩ := stagePlan_of_off h
  exact ⟨_, bind_eq_ok.2 ⟨plan, hplan, rfl⟩, hcohort⟩

theorem Delegate.cragPlan_of_shadow (h : config.1.cragShadowEnabled = true) :
    ∃ plan, corrective.cragPlan bucket question config enabled = .ok plan ∧
      plan.cohort ≠ .treatment ∧ plan.allowWeb = false := by
  obtain ⟨plan, hplan, hcohort⟩ := stagePlan_of_shadow
  refine ⟨⟨plan, plan.cohort = .treatment && config.1.cragWebEnabled⟩, ?_, hcohort, ?_⟩
  · rw [Delegate.cragPlan, h]
    exact bind_eq_ok.2 ⟨plan, hplan, rfl⟩
  · simp [hcohort]

/-- What a plan of CRAG reads of the configuration. -/
theorem Delegate.cragPlan_congr
    (hemergency : config'.1.emergencyDisabled = config.1.emergencyDisabled)
    (hpercentage : config'.1.cragRolloutPercentage = config.1.cragRolloutPercentage)
    (hweb : config'.1.cragWebEnabled = config.1.cragWebEnabled)
    (hshadow : config'.1.cragShadowEnabled = config.1.cragShadowEnabled) :
    corrective.cragPlan bucket question config' enabled =
      corrective.cragPlan bucket question config enabled := by
  rw [Delegate.cragPlan, Delegate.cragPlan, stagePlan_congr hemergency, hpercentage, hweb, hshadow]

end CRAGPlan

/-- `PlannedNoOpCorrectiveRetriever.execute`. -/
def noOpCorrect (chunks : List RetrievedChunk) (reason : String) : CRAGOutcome where
  evidence := localEvidence chunks
  decision := none
  applied := false
  bypassReason := some reason

/-- What `FailSafeCorrectiveRetriever` makes of a failure : the local evidence, or
abstention when there is none. -/
def failSafeCorrect (chunks : List RetrievedChunk) (e : Raised) : CRAGOutcome where
  evidence := localEvidence chunks
  decision := none
  applied := false
  fallback := true
  abstain := chunks = []
  bypassReason :=
    some (if e = .exception "GraderParseError" then "grader_parse_error" else "crag_error")

/-! ## Self-reflection -/

inductive SupportLevel
  | full
  | partially
  | none
  deriving DecidableEq, Repr

inductive ReflectionAction
  | accept
  | revise
  | retrieveMore
  | abstain
  deriving DecidableEq, Repr

structure ReflectionCritique where
  retrievalNeeded : Bool
  retrievalQuery : Option String
  evidenceRelevance : ℚ
  supportLevel : SupportLevel
  answerRelevance : ℚ
  citationCompleteness : ℚ
  utility : ℤ
  missingAspects : List String
  unsupportedClaims : List String
  usageTokens : ℤ := 0
  deriving DecidableEq, Repr

structure ReflectionState where
  answer : String
  evidence : List EvidenceChunk
  iteration : ℕ := 0
  additionalRetrievals : ℕ := 0
  totalTokens : ℤ := 0
  deriving DecidableEq, Repr

structure ReflectionBudget where
  maxIterations : ℕ
  maxAdditionalRetrievals : ℕ
  maxTotalTokens : ℤ
  deadlineMonotonic : ℚ
  deriving DecidableEq, Repr

structure SelfReflectionOutcome where
  answer : String
  evidence : List EvidenceChunk
  applied : Bool
  accepted : Bool
  finalAction : ReflectionAction
  iterations : ℕ
  additionalRetrievals : ℕ
  fallback : Bool := false
  abstain : Bool := false
  bypassReason : Option String := none
  supportLevel : Option SupportLevel := none
  answerRelevance : Option ℚ := none
  citationCompleteness : Option ℚ := none
  utility : Option ℤ := none
  usageTokens : ℤ := 0
  deriving DecidableEq, Repr

structure SelfReflectionPlan extends StagePlan where
  allowRetrieval : Bool
  deriving DecidableEq, Repr

/-- `DynamicSelfReflectionEngine.plan`, with the namespace of its delegate. -/
def selfReflectionPlan (cacheNamespace : String) (bucket : String → String → ℕ)
    (question : String) (config : RagRuntimeConfig) (enabled : Bool) :
    Except Raised SelfReflectionPlan := do
  let retrieval := config.1.selfReflectiveRetrievalEnabled
  let plan ← stagePlan bucket question config enabled config.1.selfReflectiveShadowEnabled
    config.1.selfReflectiveRolloutPercentage "self_reflective:v1" "self-reflection"
    ("self-reflection:dynamic:v1:cohort=treatment:retrieval=" ++
      (if retrieval then "True" else "False") ++ ":" ++ cacheNamespace)
  return ⟨plan, plan.cohort = .treatment && retrieval⟩

/-- An answer that reflection did not touch. -/
def untouched (answer : String) (evidence : List EvidenceChunk) (reason : Option String) :
    SelfReflectionOutcome where
  answer
  evidence
  applied := false
  accepted := true
  finalAction := .accept
  iterations := 0
  additionalRetrievals := 0
  bypassReason := reason

section SelfReflectionPlan

variable {cacheNamespace : String} {bucket : String → String → ℕ} {question : String}
  {config config' : RagRuntimeConfig} {enabled : Bool}

theorem selfReflectionPlan_of_off (h : enabled = false ∨ config.1.emergencyDisabled = true) :
    ∃ plan, selfReflectionPlan cacheNamespace bucket question config enabled = .ok plan ∧
      plan.cohort = .disabled := by
  obtain ⟨plan, hplan, hcohort⟩ := stagePlan_of_off h
  exact ⟨_, bind_eq_ok.2 ⟨plan, hplan, rfl⟩, hcohort⟩

theorem selfReflectionPlan_of_shadow (h : config.1.selfReflectiveShadowEnabled = true) :
    ∃ plan, selfReflectionPlan cacheNamespace bucket question config enabled = .ok plan ∧
      plan.cohort ≠ .treatment ∧ plan.allowRetrieval = false := by
  obtain ⟨plan, hplan, hcohort⟩ := stagePlan_of_shadow
  refine ⟨⟨plan, plan.cohort = .treatment && config.1.selfReflectiveRetrievalEnabled⟩, ?_, hcohort,
    ?_⟩
  · rw [selfReflectionPlan, h]
    exact bind_eq_ok.2 ⟨plan, hplan, rfl⟩
  · simp [hcohort]

/-- What a plan of self-reflection reads of the configuration. -/
theorem selfReflectionPlan_congr
    (hemergency : config'.1.emergencyDisabled = config.1.emergencyDisabled)
    (hpercentage : config'.1.selfReflectiveRolloutPercentage =
      config.1.selfReflectiveRolloutPercentage)
    (hretrieval : config'.1.selfReflectiveRetrievalEnabled =
      config.1.selfReflectiveRetrievalEnabled)
    (hshadow : config'.1.selfReflectiveShadowEnabled = config.1.selfReflectiveShadowEnabled) :
    selfReflectionPlan cacheNamespace bucket question config' enabled =
      selfReflectionPlan cacheNamespace bucket question config enabled := by
  rw [selfReflectionPlan, selfReflectionPlan, stagePlan_congr hemergency, hpercentage, hretrieval,
    hshadow]

/-- Additional retrieval is for the treatment cohort only. -/
theorem allowRetrieval_of_plan {plan : SelfReflectionPlan}
    (h : selfReflectionPlan cacheNamespace bucket question config enabled = .ok plan)
    (hcohort : plan.cohort ≠ .treatment) : plan.allowRetrieval = false := by
  obtain ⟨stage, -, h⟩ := bind_eq_ok.1 h
  obtain rfl := Except.ok.inj h
  simp [show stage.cohort ≠ .treatment from hcohort]

end SelfReflectionPlan

end EnterpriseRag
