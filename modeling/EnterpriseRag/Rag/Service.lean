import EnterpriseRag.Guardrails.Context
import EnterpriseRag.Guardrails.SensitiveData
import EnterpriseRag.Rag.Reflection

/-!
# The RAG service

`RAGService.answer`, one part after another : `prepare` makes the plans of a request and the
key it is cached under from one snapshot, `lookup` tries the two caches, and
`generateAnswer` retrieves, corrects, guards, drafts, reflects, guards again and caches.
Metrics, telemetry and logs are left out. The scores and the checker of claims, the hash of
the key and of the rollout and the coding of a response as text are parameters.
-/

namespace EnterpriseRag

/-- `OutputGuardPipeline`, with the regular expressions' word characters and the tokens of
its vault. -/
structure OutputGuardPipeline where
  mlScanner : Bool
  policy : GuardrailPolicy
  securityEvents : Bool
  isWord : Char → Bool
  tokens : TokenSource

structure RAGService where
  defaultRetrievalMode : String
  allowedRetrievalModes : List String
  reranker : DynamicReranker
  rerankerInitialTopK : ℕ
  semanticCache : Bool
  queryTransformer : Delegate
  correctiveRetriever : Delegate
  selfReflection : ReflectionEngine
  reflectionRetrievalTopK : ℕ
  contextGuard : ContextGuardPipeline
  outputGuard : OutputGuardPipeline
  meanPoolAndNormalize : List Embedding → Except Raised Embedding
  /-- The total of `compute_confidence_breakdown`. -/
  confidence : List RetrievedChunk → String → String → List RetrievedChunk → ℚ
  bucket : String → String → ℕ
  sha256 : String → String
  modelDumpJson : RagChatResponse → String
  modelValidateJson : String → Except Raised RagChatResponse

/-- The arguments of `answer`. -/
structure AnswerCall where
  question : String
  topK : ℕ := 5
  retrievalMode : Option String := none
  rerankingEnabled : Option Bool := none
  hydeEnabled : Option Bool := none
  cragEnabled : Option Bool := none
  selfReflectiveEnabled : Option Bool := none
  deriving DecidableEq, Repr

/-- What a request settles before any lookup. -/
structure RagRequest where
  call : AnswerCall
  config : RagRuntimeConfig
  strategy : RetrievalStrategy
  candidateTopK : ℕ
  rerankingEnabled : Bool
  hydeCanRun : Bool
  cragEnabled : Bool
  selfReflectiveEnabled : Bool
  rerankPlan : RerankPlan
  hydePlan : StagePlan
  cragPlan : CRAGPlan
  selfReflectionPlan : SelfReflectionPlan
  cacheNamespace : String
  cacheKey : String

open Program

namespace RAGService

variable (svc : RAGService)

/-! ## The plans of a request -/

/-- The strategy of the mode asked for, or of the default one for a mode that is none. -/
def resolveStrategy (retrievalMode : Option String) : Except Raised RetrievalStrategy :=
  let mode := orElseText retrievalMode svc.defaultRetrievalMode
  match RetrievalStrategy.all.find? (·.name = mode) with
  | some strategy =>
    if mode ∈ svc.allowedRetrievalModes then .ok strategy
    else .error (.exception "HybridRetrievalDisabledError")
  | none =>
    match RetrievalStrategy.all.find? (·.name = svc.defaultRetrievalMode) with
    | some strategy => .ok strategy
    | none => .error (.exception "KeyError")

/-- `_cache_key`. -/
def cacheKey (question : String) (topK : ℕ) (cacheNamespace : String) : String :=
  svc.sha256 ("rag:v8:" ++ cacheNamespace ++ ":" ++ toString topK ++ ":" ++ normalizeSpace question)

/-- The namespace of a request : the strategy and the corpus version, and a segment for each
stage that is on. -/
def namespaceOf (config : RagRuntimeConfig) (strategy : RetrievalStrategy) (candidateTopK : ℕ)
    (rerank hyde crag selfReflection : Option StagePlan) : String :=
  let segment := fun plan : Option StagePlan => (plan.map (":" ++ ·.cacheNamespace)).getD ""
  let candidates := if rerank.any (·.cohort = .treatment) then
    ":candidates=" ++ toString candidateTopK else ""
  let reflectionTopK := if selfReflection.isSome then
    ":reflection_top_k=" ++ toString svc.reflectionRetrievalTopK else ""
  strategy.cacheNamespace ++ ":corpus=" ++ toString config.1.corpusVersion ++ segment rerank ++
    candidates ++ segment hyde ++ segment crag ++ segment selfReflection ++ reflectionTopK

/-- `answer` up to the cache key. -/
def prepare (config : RagRuntimeConfig) (call : AnswerCall) : Except Raised RagRequest := do
  let question := call.question
  let rerankingEnabled := call.rerankingEnabled.getD config.1.rerankingEnabled
  let cragEnabled := call.cragEnabled.getD config.1.cragEnabled
  let selfReflectiveEnabled := call.selfReflectiveEnabled.getD config.1.selfReflectiveEnabled
  let strategy ← svc.resolveStrategy call.retrievalMode
  let hydeCanRun := call.hydeEnabled.getD config.1.hydeEnabled && strategy.requiresDenseEmbedding
  let rerankPlan ← svc.reranker.plan svc.bucket question config rerankingEnabled
  let candidateTopK :=
    if rerankingEnabled && rerankPlan.cohort = .treatment then max call.topK svc.rerankerInitialTopK
    else call.topK
  let hydePlan ← svc.queryTransformer.hydePlan svc.bucket question config hydeCanRun
  let cragPlan ← svc.correctiveRetriever.cragPlan svc.bucket question config cragEnabled
  let reflectionPlan ← EnterpriseRag.selfReflectionPlan svc.selfReflection.cacheNamespace svc.bucket
    question config selfReflectiveEnabled
  let cacheNamespace := svc.namespaceOf config strategy candidateTopK
    (if rerankingEnabled then some rerankPlan.toStagePlan else none)
    (if hydeCanRun then some hydePlan else none)
    (if cragEnabled then some cragPlan.toStagePlan else none)
    (if selfReflectiveEnabled then some reflectionPlan.toStagePlan else none)
  return {
    call, config, strategy, candidateTopK, rerankingEnabled, hydeCanRun, cragEnabled
    selfReflectiveEnabled, rerankPlan, hydePlan, cragPlan
    selfReflectionPlan := reflectionPlan
    cacheNamespace
    cacheKey := svc.cacheKey question call.topK cacheNamespace }

/-- What `prepare` makes a request of. -/
structure Prepared (config : RagRuntimeConfig) (call : AnswerCall) (q : RagRequest) : Prop where
  strategy : svc.resolveStrategy call.retrievalMode = .ok q.strategy
  candidateTopK : q.candidateTopK =
    if q.rerankingEnabled && q.rerankPlan.cohort = .treatment then
      max call.topK svc.rerankerInitialTopK
    else call.topK
  rerankingEnabled : q.rerankingEnabled = call.rerankingEnabled.getD config.1.rerankingEnabled
  hydeCanRun : q.hydeCanRun =
    (call.hydeEnabled.getD config.1.hydeEnabled && q.strategy.requiresDenseEmbedding)
  cragEnabled : q.cragEnabled = call.cragEnabled.getD config.1.cragEnabled
  selfReflectiveEnabled : q.selfReflectiveEnabled =
    call.selfReflectiveEnabled.getD config.1.selfReflectiveEnabled
  rerankPlan :
    svc.reranker.plan svc.bucket call.question config q.rerankingEnabled = .ok q.rerankPlan
  hydePlan :
    svc.queryTransformer.hydePlan svc.bucket call.question config q.hydeCanRun = .ok q.hydePlan
  cragPlan :
    svc.correctiveRetriever.cragPlan svc.bucket call.question config q.cragEnabled = .ok q.cragPlan
  selfReflectionPlan : EnterpriseRag.selfReflectionPlan svc.selfReflection.cacheNamespace svc.bucket
    call.question config q.selfReflectiveEnabled = .ok q.selfReflectionPlan
  cacheNamespace : q.cacheNamespace = svc.namespaceOf config q.strategy q.candidateTopK
    (if q.rerankingEnabled then some q.rerankPlan.toStagePlan else none)
    (if q.hydeCanRun then some q.hydePlan else none)
    (if q.cragEnabled then some q.cragPlan.toStagePlan else none)
    (if q.selfReflectiveEnabled then some q.selfReflectionPlan.toStagePlan else none)
  cacheKey : q.cacheKey = svc.cacheKey call.question call.topK q.cacheNamespace
  config : q.config = config
  call : q.call = call

theorem prepared_of_prepare {svc : RAGService} {config : RagRuntimeConfig} {call : AnswerCall}
    {q : RagRequest} (h : svc.prepare config call = .ok q) : svc.Prepared config call q := by
  obtain ⟨strategy, hstrategy, h⟩ := bind_eq_ok.1 h
  obtain ⟨rerankPlan, hrerank, h⟩ := bind_eq_ok.1 h
  obtain ⟨hydePlan, hhyde, h⟩ := bind_eq_ok.1 h
  obtain ⟨cragPlan, hcrag, h⟩ := bind_eq_ok.1 h
  obtain ⟨reflectionPlan, hreflection, h⟩ := bind_eq_ok.1 h
  obtain rfl := Except.ok.inj h
  exact ⟨hstrategy, rfl, rfl, rfl, rfl, rfl, hrerank, hhyde, hcrag, hreflection, rfl, rfl, rfl, rfl⟩

/-! ## The caches -/

/-- `_get_cached`. -/
def getCached (key : String) : RagProgram (Option RagChatResponse) := do
  match ← attempt (.cacheGet key) id with
  | .error e => if e.isException then return none else .raise e
  | .ok none => return none
  | .ok (some raw) => return some (← orRaise (svc.modelValidateJson raw))

/-- The first of the candidates that is still live. -/
def firstLive : List String → RagProgram (Option RagChatResponse)
  | [] => return none
  | key :: keys => do
    match ← svc.getCached key with
    | some response => return some response
    | none => firstLive keys

/-- `embed_texts([text])[0]`. -/
def embedOne (text : String) : RagProgram Embedding :=
  ask (.embedTexts [text]) fun r => r.bind fun embeddings =>
    (embeddings.head?).elim (.error (.exception "IndexError")) .ok

/-- `_check_semantic_cache`. -/
def checkSemanticCache (q : RagRequest) (embedding : Embedding) :
    RagProgram (Option RagChatResponse) := do
  match ← attempt (.findCandidates embedding q.cacheNamespace q.call.topK
      q.config.1.semanticCacheThreshold) id with
  | .error e => if e.isException then return none else .raise e
  | .ok keys => svc.firstLive keys

/-- The semantic cache takes part in a request. -/
def semanticOn (q : RagRequest) : Bool :=
  q.config.1.semanticCacheEnabled && svc.semanticCache

/-- The cached answer, if there is one, and the embedding of the question if it was made. -/
def lookup (q : RagRequest) : RagProgram (Option RagChatResponse × Option Embedding) := do
  match ← svc.getCached q.cacheKey with
  | some response => return (some response, none)
  | none =>
    if q.strategy.requiresDenseEmbedding && svc.semanticOn q then do
      let embedding ← embedOne q.call.question
      return (← svc.checkSemanticCache q embedding, some embedding)
    else return (none, none)

/-- Whether the exact cache took the response. -/
def setCached (key : String) (response : RagChatResponse) : RagProgram Bool := do
  match ← attempt (.cacheSet key (svc.modelDumpJson response)) id with
  | .error e => if e.isException then return false else .raise e
  | .ok () => return true

/-- `_record_semantic_cache`. -/
def recordSemanticCache (q : RagRequest) (embedding : Embedding) : RagProgram Unit := do
  match ← attempt (.recordSemantic embedding q.cacheNamespace q.call.topK q.cacheKey) id with
  | .error e => if e.isException then return () else .raise e
  | .ok () => return ()

/-! ## Retrieval -/

/-- The embedding HyDE makes of its hypotheses, and the outcome if that fails. -/
def embedHypotheses (question : String) (outcome : QueryTransformOutcome) :
    RagProgram (QueryTransformOutcome × Option Embedding) :=
  RagProgram.exceptException
    (do
      let embeddings ← ask (.embedTexts outcome.retrievalTexts) id
      return (outcome, some (← orRaise (svc.meanPoolAndNormalize embeddings))))
    fun _ => return ({ outcome with
      retrievalTexts := [question]
      applied := false
      fallback := true
      bypassReason := some "embedding_or_fusion_error" }, none)

/-- `FailOpenQueryTransformer.transform`. -/
def transformQuestion (question : String) : RagProgram QueryTransformOutcome :=
  RagProgram.exceptException (ask (.transform question) id) fun _ => return {
    retrievalTexts := [question]
    backend := svc.queryTransformer.name
    applied := false
    fallback := true
    bypassReason := some "transform_error" }

/-- HyDE : the outcome, and the embedding to retrieve with if it made one. -/
def hydeStage (q : RagRequest) : RagProgram (QueryTransformOutcome × Option Embedding) := do
  if q.strategy.requiresDenseEmbedding && q.hydePlan.cohort = .treatment then do
    let outcome ← svc.transformQuestion q.call.question
    if outcome.applied then svc.embedHypotheses q.call.question outcome
    else return (outcome, none)
  else
    return (noOpTransform q.call.question (orElseText q.hydePlan.bypassReason "disabled"), none)

/-- The embedding of the question, made once. -/
def questionEmbedding (q : RagRequest) (original : Option Embedding) :
    RagProgram (Option Embedding) :=
  match original with
  | some embedding => return some embedding
  | none => do
    if q.strategy.requiresDenseEmbedding then return some (← embedOne q.call.question)
    else return none

/-- HyDE and retrieval : the outcome, the embedding of the question if it is known, and the
chunks. -/
def retrieveStage (q : RagRequest) (original : Option Embedding) :
    RagProgram (QueryTransformOutcome × Option Embedding × List RetrievedChunk) := do
  let (hyde, hypothetical) ← svc.hydeStage q
  let original ← if hypothetical.isSome then .pure original else questionEmbedding q original
  let chunks ← ask (.retrieve .request q.strategy q.call.question (hypothetical.or original)
    q.candidateTopK) id
  return (hyde, original, chunks)

/-- `DynamicReranker.execute` in the treatment cohort. -/
def executeRerank (q : RagRequest) (backend : RerankerBackendName) (chunks : List RetrievedChunk) :
    RagProgram ReRankOutcome := do
  match svc.reranker.delegate backend with
  | none =>
    let outcome ← orRaise (noOpRerank chunks q.call.topK)
    return { outcome with backend := backend.value, fallback := true }
  | some delegate =>
    RagProgram.exceptException (ask (.rerank backend q.call.question chunks q.call.topK) id)
      fun _ => do
        let outcome ← orRaise (noOpRerank chunks q.call.topK)
        return { outcome with backend := delegate.name, fallback := true }

/-- Reranking, for a treatment request that retrieved something. -/
def rerankStage (q : RagRequest) (chunks : List RetrievedChunk) :
    RagProgram (Option ReRankOutcome) := do
  match q.rerankPlan.cohort, q.rerankPlan.backendKey with
  | .treatment, some backend =>
    if chunks = [] then return none else return some (← svc.executeRerank q backend chunks)
  | _, _ => return none

/-! ## Evidence -/

/-- `DynamicCorrectiveRetriever.execute`. -/
def executeCrag (q : RagRequest) (chunks : List RetrievedChunk) : RagProgram CRAGOutcome :=
  if q.cragPlan.cohort = .treatment ∨ q.cragPlan.cohort = .shadow then
    RagProgram.exceptException (ask (.correct q.call.question chunks q.cragPlan.allowWeb) id)
      fun e => return failSafeCorrect chunks e
  else return noOpCorrect chunks (orElseText q.cragPlan.bypassReason "disabled")

/-- CRAG, whose outcome in the shadow cohort is not served. -/
def cragStage (q : RagRequest) (chunks : List RetrievedChunk) : RagProgram CRAGOutcome := do
  let outcome ← executeCrag q chunks
  if q.cragPlan.cohort = .shadow then return noOpCorrect chunks "shadow_not_served"
  else return outcome

/-- A security event to record, if any. -/
def recordEvent : Option SecurityEvent → RagProgram Unit
  | some event => ask (.recordSecurityEvent event) id
  | none => return ()

/-- The context guard on the evidence of CRAG. -/
def guardStage (q : RagRequest) (outcome : CRAGOutcome) : RagProgram CRAGOutcome := do
  let (kept, event) ← orRaise (svc.contextGuard.filterEvidence outcome.evidence
    q.config.1.guardrailMode)
  recordEvent event
  return { outcome with evidence := kept }

/-! ## The answer -/

/-- The fixed answers of CRAG's abstention. -/
def cragAbstention (webUsed : Bool) : String :=
  if webUsed then
    "The available approved internal and regulatory evidence " ++
      "is insufficient to determine this point."
  else
    "The supplied approved internal evidence is insufficient " ++
      "to determine this point. No external evidence was used."

/-- `_INITIAL_ANSWER_FABRICATED_CITATION_ABSTENTION`. -/
def fabricatedCitationAbstention : String :=
  "The supplied approved evidence is insufficient to produce a fully " ++
    "cited answer to this question."

/-- `_SELF_REFLECTION_FALLBACK_ABSTENTION`. -/
def reflectionFallbackAbstention : String :=
  "An internal error prevented full verification of this answer against " ++
    "approved evidence, and part of the draft could not be confirmed. " ++
    "Please retry your question."

/-- `_OUTPUT_GUARD_BLOCKED_ABSTENTION`. -/
def outputBlockedAbstention : String :=
  "I could not produce a response that passed the required safety and " ++
    "grounding checks for this question."

/-- The first answer, and whether it was replaced for what it cites. -/
def draft (q : RagRequest) (crag : CRAGOutcome) : RagProgram (String × Bool) := do
  if crag.abstain then return (cragAbstention crag.webUsed, false)
  else do
    let answer ← ask (.generate crag.evidence q.call.question) id
    let fabricated ← orRaise (findFabricatedCitations answer crag.evidence)
    if fabricated = [] then return (answer, false)
    else return (fabricatedCitationAbstention, true)

/-- `_retrieve_reflection_evidence`. -/
def retrieveReflectionEvidence (q : RagRequest) (query : String) :
    RagProgram (List EvidenceChunk) := do
  let embedding ← if q.strategy.requiresDenseEmbedding then some <$> embedOne query
    else .pure none
  let chunks ← ask (.retrieve .reflection q.strategy query embedding svc.reflectionRetrievalTopK) id
  return localEvidence chunks

/-- Self-reflection on a draft. In the shadow cohort the engine runs and its outcome is not
served. -/
def reflectStage (q : RagRequest) (crag : CRAGOutcome) (answer : String) (fabricated : Bool) :
    RagProgram SelfReflectionOutcome := do
  let plan := q.selfReflectionPlan
  let runs := q.selfReflectiveEnabled && !crag.abstain && !fabricated
  let execute := svc.selfReflection.execute q.call.question crag.evidence answer
    (svc.retrieveReflectionEvidence q) plan
  if runs && plan.cohort = .shadow then do
    let _ ← execute
    return untouched answer crag.evidence (some "shadow_not_served")
  else if runs && plan.cohort = .treatment then execute
  else
    return untouched answer crag.evidence
      (if crag.abstain && q.selfReflectiveEnabled then some "crag_abstained"
      else if fabricated && q.selfReflectiveEnabled then some "initial_answer_fabricated_citation"
      else plan.bypassReason)

/-- A failed reflection is not served as an answer. -/
def withoutFallback (outcome : SelfReflectionOutcome) : SelfReflectionOutcome :=
  if outcome.fallback then
    { outcome with answer := reflectionFallbackAbstention, abstain := true }
  else outcome

/-- `OutputGuardPipeline.apply`. -/
def applyOutputGuard (prompt answer : String) (mode : GuardrailModeName) : RagProgram String := do
  let p := svc.outputGuard
  let findings ← if p.mlScanner then ask (.scanOutput prompt answer) id else .pure []
  let decision := p.policy.decide (scanSensitive p.isWord answer ++ findings) .output mode
  recordEvent (if p.securityEvents then stageEvent "output_" none decision else none)
  if decision.blocked then
    .raise (.guardrailBlocked .output ((decision.findings.head?).map (·.category)))
  else if decision.action = .redact then return (tokenize p.isWord p.tokens answer).1
  else return answer

/-- The output guard : the answer to serve and what was done to it. -/
def outputStage (q : RagRequest) (answer : String) : RagProgram (String × GuardrailAction) :=
  (do
    let guarded ← svc.applyOutputGuard q.call.question answer q.config.1.guardrailMode
    return (guarded, if guarded = answer then GuardrailAction.allow else .redact)).tryCatch
  fun e => match e with
    | .guardrailBlocked _ _ => return (outputBlockedAbstention, .block)
    | e => .raise e

/-- `_build_chunk_previews`. -/
def chunkPreviews (chunks : List RetrievedChunk) (reranked : Option ReRankOutcome) :
    List RetrievedChunkPreview :=
  match reranked with
  | some outcome => outcome.items.map fun item =>
      ⟨item.chunk, item.rerankScore, some item.originalRank⟩
  | none => chunks.map ({ chunk := · })

/-- What the stages made of a request. -/
structure Stages where
  hyde : QueryTransformOutcome
  retrieved : List RetrievedChunk
  reranked : Option ReRankOutcome
  crag : CRAGOutcome
  chunksDropped : ℕ
  fabricated : Bool
  reflection : SelfReflectionOutcome
  answer : String
  outputAction : GuardrailAction

/-- The chunks after reranking. -/
def Stages.chunks (s : Stages) : List RetrievedChunk :=
  (s.reranked.map (·.items.map (·.chunk))).getD s.retrieved

/-- The response to a request. -/
def respond (q : RagRequest) (s : Stages) : RagChatResponse :=
  let finalEvidence := s.reflection.evidence
  let finalChunks := evidenceAsRetrievedChunks finalEvidence
  { answer := s.answer
    sources := (finalEvidence.map publicSourceIdentifier).dedup.mergeSort (· ≤ ·)
    confidence := svc.confidence finalChunks s.reflection.answer q.strategy.name
      (s.retrieved.take q.call.topK)
    route := "rag"
    retrievalMode := q.strategy.name
    hyde :=
      { enabled := q.hydeCanRun
        applied := s.hyde.applied
        fallback := s.hyde.fallback
        backend := s.hyde.backend
        hypothesisCount := if s.hyde.applied then s.hyde.retrievalTexts.length else 0
        usageTokens := s.hyde.usageTokens
        bypassReason := s.hyde.bypassReason }
    reranking :=
      { enabled := q.rerankingEnabled
        applied := s.reranked.any (·.applied)
        fallback := s.reranked.any (·.fallback)
        backend := (s.reranked.map (·.backend)).getD q.rerankPlan.reportedBackend
        candidateCount := if s.reranked.isSome then s.retrieved.length else 0
        usageTokens := s.reranked.bind (·.usageTokens) }
    crag :=
      { enabled := q.cragEnabled
        applied := s.crag.applied
        decision := s.crag.decision
        fallback := s.crag.fallback
        abstain := s.crag.abstain
        webUsed := s.crag.webUsed
        evidenceCount := s.crag.evidence.length
        usageTokens := s.crag.usageTokens
        bypassReason := s.crag.bypassReason }
    selfReflection :=
      { enabled := q.selfReflectiveEnabled
        applied := s.reflection.applied
        accepted := s.reflection.accepted
        finalAction := s.reflection.finalAction
        iterations := s.reflection.iterations
        additionalRetrievals := s.reflection.additionalRetrievals
        fallback := s.reflection.fallback
        abstain := s.reflection.abstain
        supportLevel := s.reflection.supportLevel
        answerRelevance := s.reflection.answerRelevance
        citationCompleteness := s.reflection.citationCompleteness
        utility := s.reflection.utility
        usageTokens := s.reflection.usageTokens
        bypassReason := s.reflection.bypassReason }
    retrievedChunks := chunkPreviews s.chunks s.reranked
    finalEvidence
    flaggedClaims := svc.selfReflection.findUnsupportedClaims s.reflection.answer finalChunks
    guardrail :=
      { mode := q.config.1.guardrailMode
        contextChunksDropped := s.chunksDropped
        outputAction := s.outputAction
        policyVersion := q.config.1.guardrailPolicyVersion } }

/-- `pipeline_fallback` : the response is not to be cached. -/
def Stages.pipelineFallback (s : Stages) : Bool :=
  s.reranked.any (·.fallback) || s.hyde.fallback || s.crag.fallback || s.crag.webUsed ||
    s.crag.abstain || s.fabricated || s.reflection.fallback || s.reflection.abstain ||
    !s.reflection.accepted || s.outputAction = .block

/-- The stages up to the evidence : HyDE, retrieval, reranking, CRAG and the guard. -/
def gather (q : RagRequest) (original : Option Embedding) :
    RagProgram (Stages × Option Embedding) := do
  let (hyde, original, retrieved) ← svc.retrieveStage q original
  let reranked ← svc.rerankStage q retrieved
  let chunks := (reranked.map (·.items.map (·.chunk))).getD retrieved
  let corrected ← cragStage q chunks
  let crag ← svc.guardStage q corrected
  return ({
    hyde, retrieved, reranked, crag
    chunksDropped := corrected.evidence.length - crag.evidence.length
    fabricated := false
    reflection := untouched "" crag.evidence none
    answer := ""
    outputAction := .allow }, original)

/-- The stages from the draft to the answer served. -/
def compose (q : RagRequest) (s : Stages) : RagProgram Stages := do
  let (answer, fabricated) ← draft q s.crag
  let outcome ← svc.reflectStage q s.crag answer fabricated
  let reflection := withoutFallback outcome
  let (served, outputAction) ← svc.outputStage q reflection.answer
  return { s with fabricated, reflection, answer := served, outputAction }

/-- The cache writes. -/
def cacheResponse (q : RagRequest) (s : Stages) (original : Option Embedding) :
    RagProgram Unit := do
  if s.pipelineFallback then return ()
  else do
    let written ← svc.setCached q.cacheKey (svc.respond q s)
    match original with
    | some embedding =>
      if written && svc.semanticOn q then recordSemanticCache q embedding else return ()
    | none => return ()

/-- `answer` after both caches missed. -/
def generateAnswer (q : RagRequest) (original : Option Embedding) : RagProgram RagChatResponse := do
  let (gathered, original) ← svc.gather q original
  let stages ← svc.compose q gathered
  svc.cacheResponse q stages original
  return svc.respond q stages

/-- `answer` for a request : from a cache, or generated. -/
def serve (q : RagRequest) : RagProgram RagChatResponse := do
  let (cached, original) ← svc.lookup q
  match cached with
  | some response => return { response with cacheHit := true }
  | none => svc.generateAnswer q original

/-- `answer` under the snapshot it read. -/
def answerUnder (call : AnswerCall) (config : RagRuntimeConfig) : RagProgram RagChatResponse := do
  svc.serve (← orRaise (svc.prepare config call))

/-- `answer`. -/
def answer (call : AnswerCall) : RagProgram RagChatResponse := do
  svc.answerUnder call (← perform .currentConfig)

/-! ## The operations of a stage -/

section Uses

variable {svc : RAGService} {q : RagRequest}

theorem uses_exceptException {α : Type} {S : RagOp → Prop} {p : RagProgram α}
    {handler : Raised → RagProgram α} (hp : p.Uses S) (h : ∀ e, (handler e).Uses S) :
    (p.exceptException handler).Uses S := by
  refine hp.tryCatch fun e => ?_
  split
  · exact h e
  · trivial

theorem plain_of_prepares {op : RagOp} (h : op.Prepares) : op.Plain := by
  cases op <;> trivial

section Parametric

variable {S : RagOp → Prop}

theorem uses_embedOne (hembed : ∀ texts, S (.embedTexts texts)) (text : String) :
    (embedOne text).Uses S :=
  uses_ask (hembed _)

theorem uses_hydeStage (hembed : ∀ texts, S (.embedTexts texts))
    (htransform : q.hydePlan.cohort = .treatment → S (.transform q.call.question)) :
    (svc.hydeStage q).Uses S := by
  rw [hydeStage]
  split
  · rename_i hruns
    have hcohort : q.hydePlan.cohort = .treatment := by simpa using (Bool.and_eq_true_iff.1 hruns).2
    refine Uses.bind (fun outcome => ?_)
      (uses_exceptException (uses_ask (htransform hcohort)) fun e => trivial)
    split
    · refine uses_exceptException ?_ fun e => trivial
      exact Uses.bind (fun _ => Uses.bind (fun _ => uses_pure _) (uses_orRaise _))
        (uses_ask (hembed _))
    · exact uses_pure _
  · exact uses_pure _

theorem uses_questionEmbedding (hembed : ∀ texts, S (.embedTexts texts)) :
    ∀ original, (questionEmbedding q original).Uses S
  | some _ => uses_pure _
  | none => by
    dsimp only [questionEmbedding]
    split
    · exact Uses.bind (fun _ => uses_pure _) (uses_embedOne hembed _)
    · exact uses_pure _

theorem uses_retrieveStage (hembed : ∀ texts, S (.embedTexts texts))
    (htransform : q.hydePlan.cohort = .treatment → S (.transform q.call.question))
    (hretrieve : ∀ embedding,
      S (.retrieve .request q.strategy q.call.question embedding q.candidateTopK))
    (original : Option Embedding) : (svc.retrieveStage q original).Uses S := by
  have hretrieve : ∀ hyde original embedding,
      (do
        let chunks ← ask (.retrieve .request q.strategy q.call.question embedding q.candidateTopK) id
        return (hyde, original, chunks) :
          RagProgram (QueryTransformOutcome × Option Embedding × List RetrievedChunk)).Uses S :=
    fun _ _ _ => Uses.bind (fun _ => uses_pure _) (uses_ask (hretrieve _))
  rw [retrieveStage]
  refine Uses.bind (fun outcome => ?_) (uses_hydeStage hembed htransform)
  obtain ⟨hyde, hypothetical⟩ := outcome
  dsimp only
  split
  · exact hretrieve hyde _ _
  · exact Uses.bind (fun original => hretrieve hyde original _)
      (uses_questionEmbedding hembed original)

theorem uses_rerankStage (hrerank : q.rerankPlan.cohort = .treatment →
      ∀ backend chunks, S (.rerank backend q.call.question chunks q.call.topK))
    (chunks : List RetrievedChunk) : (svc.rerankStage q chunks).Uses S := by
  rw [rerankStage]
  split
  · rename_i hcohort _
    split
    · exact uses_pure _
    · refine Uses.bind (fun _ => uses_pure _) ?_
      rw [executeRerank]
      split
      · exact Uses.bind (fun _ => uses_pure _) (uses_orRaise _)
      · exact uses_exceptException (uses_ask (hrerank hcohort _ _)) fun e =>
          Uses.bind (fun _ => uses_pure _) (uses_orRaise _)
  · exact uses_pure _

theorem uses_executeCrag {chunks : List RetrievedChunk}
    (hcorrect : q.cragPlan.cohort = .treatment ∨ q.cragPlan.cohort = .shadow →
      S (.correct q.call.question chunks q.cragPlan.allowWeb)) : (executeCrag q chunks).Uses S := by
  rw [executeCrag]
  split
  · rename_i hruns
    exact uses_exceptException (uses_ask (hcorrect hruns)) fun e => uses_pure _
  · exact uses_pure _

theorem uses_cragStage {chunks : List RetrievedChunk}
    (hcorrect : q.cragPlan.cohort = .treatment ∨ q.cragPlan.cohort = .shadow →
      S (.correct q.call.question chunks q.cragPlan.allowWeb)) : (cragStage q chunks).Uses S :=
  Uses.bind (fun _ => by split <;> exact uses_pure _) (uses_executeCrag hcorrect)

theorem uses_cacheResponse (hset : ∀ key value, S (.cacheSet key value))
    (hrecord : svc.semanticOn q = true → ∀ embedding cacheNamespace topK key,
      S (.recordSemantic embedding cacheNamespace topK key))
    (s : Stages) (original : Option Embedding) : (svc.cacheResponse q s original).Uses S := by
  rw [cacheResponse]
  split
  · exact uses_pure _
  refine Uses.bind (fun written => ?_) (Uses.bind (fun x => ?_) (uses_attempt (hset _ _)))
  · split
    · split
      · rename_i hwritten
        refine Uses.bind (fun x => ?_)
          (uses_attempt (hrecord (Bool.and_eq_true_iff.1 hwritten).2 _ _ _ _))
        cases x with
        | error e => dsimp only; split <;> trivial
        | ok _ => trivial
      · trivial
    · trivial
  · cases x with
    | error e => dsimp only; split <;> trivial
    | ok _ => trivial

end Parametric

theorem plain_of_guards {op : RagOp} (h : op.Guards) : op.Plain := by
  cases op <;> trivial

theorem uses_recordEvent : ∀ event, (recordEvent event).Uses RagOp.Guards
  | some _ => uses_ask trivial
  | none => uses_pure _

/-- What `apply` does with its decision. -/
def carryOut (svc : RAGService) (answer : String) (decision : GuardrailDecision) :
    RagProgram String := do
  recordEvent (if svc.outputGuard.securityEvents then stageEvent "output_" none decision else none)
  if decision.blocked then
    .raise (.guardrailBlocked .output ((decision.findings.head?).map (·.category)))
  else if decision.action = .redact then
    return (tokenize svc.outputGuard.isWord svc.outputGuard.tokens answer).1
  else return answer

theorem applyOutputGuard_eq_bind (prompt answer : String) (mode : GuardrailModeName) :
    svc.applyOutputGuard prompt answer mode =
      (if svc.outputGuard.mlScanner then ask (.scanOutput prompt answer) id else .pure []) >>=
        fun findings => svc.carryOut answer (svc.outputGuard.policy.decide
          (scanSensitive svc.outputGuard.isWord answer ++ findings) .output mode) := by
  rw [applyOutputGuard]
  split <;> rfl

theorem uses_outputStage (answer : String) : (svc.outputStage q answer).Uses RagOp.Guards := by
  refine Uses.tryCatch (fun e => by cases e <;> trivial) (Uses.bind (fun _ => uses_pure _) ?_)
  rw [applyOutputGuard_eq_bind]
  refine Uses.bind (fun findings => Uses.bind (fun _ => ?_) (uses_recordEvent _)) ?_
  · split
    · trivial
    · split <;> exact uses_pure _
  · split
    · exact uses_ask trivial
    · trivial

/-- What the output guard may make of an answer. -/
def OutputOf (svc : RAGService) (answer served : String) : Prop :=
  served = answer ∨ served = (tokenize svc.outputGuard.isWord svc.outputGuard.tokens answer).1 ∨
    served = outputBlockedAbstention

theorem returns_outputStage (answer : String) :
    (svc.outputStage q answer).Returns fun served => svc.OutputOf answer served.1 := by
  have happly : (svc.applyOutputGuard q.call.question answer q.config.1.guardrailMode).Returns
      (svc.OutputOf answer) := by
    rw [applyOutputGuard_eq_bind]
    refine Returns.bind (fun _ _ => Returns.bind (fun _ _ => ?_) (returns_true _)) (returns_true _)
    split
    · trivial
    · split
      · exact returns_pure (Or.inr (Or.inl rfl))
      · exact returns_pure (Or.inl rfl)
  rw [outputStage]
  refine Returns.tryCatch (fun e => ?_) (happly.bind fun served hserved => hserved)
  split
  · exact returns_pure (Or.inr (Or.inr rfl))
  · trivial

theorem uses_guardStage (outcome : CRAGOutcome) :
    (svc.guardStage q outcome).Uses RagOp.Guards := by
  refine Uses.bind (fun filtered => ?_) (uses_orRaise _)
  exact Uses.bind (fun _ => uses_pure _) (uses_recordEvent _)

theorem uses_gather (original : Option Embedding) : (svc.gather q original).Uses RagOp.Gathers := by
  refine Uses.bind (fun retrieved => ?_) (uses_retrieveStage (fun _ => Or.inl trivial)
    (fun _ => Or.inl trivial) (fun _ => Or.inr ⟨_, _, _, _, rfl⟩) original)
  refine Uses.bind (fun reranked => ?_) (uses_rerankStage (fun _ _ _ => Or.inl trivial) _)
  refine Uses.bind (fun corrected => ?_) (uses_cragStage fun _ => Or.inl trivial)
  refine Uses.bind (fun crag => ?_)
    ((uses_guardStage _).mono fun _ hop => Or.inl (plain_of_guards hop))
  exact uses_pure _

/-- In enforce mode the evidence gathered is what the context guard keeps. -/
theorem returns_gather (hmode : q.config.1.guardrailMode = .enforce) (original : Option Embedding) :
    (svc.gather q original).Returns fun s =>
      ∀ chunk ∈ s.1.crag.evidence, svc.contextGuard.Keeps chunk := by
  refine Returns.bind (fun retrieved _ => ?_) (returns_true _)
  refine Returns.bind (fun reranked _ => ?_) (returns_true _)
  refine Returns.bind (fun corrected _ => ?_) (returns_true _)
  refine Returns.bind (P := fun crag => ∀ chunk ∈ crag.evidence, svc.contextGuard.Keeps chunk)
    (fun crag hcrag => returns_pure hcrag) ?_
  rw [guardStage, hmode]
  refine Returns.bind (fun filtered hkept => ?_)
    (returns_orRaise fun _ h => ContextGuardPipeline.filterEvidence_enforce h)
  exact Returns.bind (fun _ _ => returns_pure hkept) (returns_true _)

end Uses

end RAGService

end EnterpriseRag
