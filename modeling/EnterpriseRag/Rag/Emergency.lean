import EnterpriseRag.Rag.EvidenceGuard
import EnterpriseRag.Rag.TwinRuns

/-!
# The emergency switch

The switch is folded into some flags of the snapshot and left for the planners to check in
others, and a call may set its own flags. Under the snapshot of a row with the switch set all
four plans are disabled, whatever the call says (`stopped_of_emergency`), so a run calls no
stage and answers as one with the stages and the semantic cache off
(`plain_under_emergency`).
-/

namespace EnterpriseRag

open Program

namespace RAGService

variable {svc : RAGService} {config config' : RagRuntimeConfig} {call call' : AnswerCall}
  {q : RagRequest}

/-- No stage is planned to run, and the semantic cache takes no part. -/
structure Stopped (svc : RAGService) (q : RagRequest) : Prop where
  rerank : q.rerankPlan.cohort = .disabled
  hyde : q.hydePlan.cohort = .disabled
  crag : q.cragPlan.cohort = .disabled
  reflection : q.selfReflectionPlan.cohort = .disabled
  semantic : svc.semanticOn q = false

/-- The stages that a call is planned with are off for it, and the semantic cache is off. -/
structure SwitchedOff (config : RagRuntimeConfig) (call : AnswerCall) : Prop where
  rerank : call.rerankingEnabled.getD config.1.rerankingEnabled = false
  hyde : call.hydeEnabled.getD config.1.hydeEnabled = false
  crag : call.cragEnabled.getD config.1.cragEnabled = false
  reflection : call.selfReflectiveEnabled.getD config.1.selfReflectiveEnabled = false
  semantic : config.1.semanticCacheEnabled = false

/-- The emergency switch is set in the snapshot, and the semantic cache is off. -/
def Emergency (config : RagRuntimeConfig) : Prop :=
  config.1.emergencyDisabled = true ∧ config.1.semanticCacheEnabled = false

theorem emergency_derived {row : RagOpsRow} (h : row.1.emergencyDisabled = true) :
    Emergency (derived row) := by
  refine ⟨h, ?_⟩
  show (row.1.semanticCacheEnabled && !row.1.emergencyDisabled) = false
  simp [h]

/-- Either way a request is stopped. -/
theorem stopped_of_prepare (hoff : SwitchedOff config call ∨ Emergency config)
    (h : svc.prepare config call = .ok q) : svc.Stopped q where
  rerank := by
    have hq := prepared_of_prepare h
    obtain ⟨plan, hplan, hcohort⟩ := DynamicReranker.plan_of_off
      (hoff.imp (fun hoff => hq.rerankingEnabled.trans hoff.rerank) And.left)
    rwa [Except.ok.inj (hq.rerankPlan.symm.trans hplan)]
  hyde := by
    have hq := prepared_of_prepare h
    have hcanRun : SwitchedOff config call → q.hydeCanRun = false := by
      intro hoff
      rw [hq.hydeCanRun, hoff.hyde, Bool.false_and]
    obtain ⟨plan, hplan, hcohort⟩ := stagePlan_of_off (hoff.imp hcanRun And.left)
    rwa [Except.ok.inj (hq.hydePlan.symm.trans hplan)]
  crag := by
    have hq := prepared_of_prepare h
    obtain ⟨plan, hplan, hcohort⟩ := Delegate.cragPlan_of_off
      (hoff.imp (fun hoff => hq.cragEnabled.trans hoff.crag) And.left)
    rwa [Except.ok.inj (hq.cragPlan.symm.trans hplan)]
  reflection := by
    have hq := prepared_of_prepare h
    obtain ⟨plan, hplan, hcohort⟩ := selfReflectionPlan_of_off
      (hoff.imp (fun hoff => hq.selfReflectiveEnabled.trans hoff.reflection) And.left)
    rwa [Except.ok.inj (hq.selfReflectionPlan.symm.trans hplan)]
  semantic := by
    have hcache : config.1.semanticCacheEnabled = false := hoff.elim SwitchedOff.semantic And.right
    rw [semanticOn, (prepared_of_prepare h).config, hcache, Bool.false_and]

/-- With the stages stopped, only an unknown strategy keeps a call from being planned. -/
theorem exists_prepare (hoff : SwitchedOff config call ∨ Emergency config)
    {strategy : RetrievalStrategy} (h : svc.resolveStrategy call.retrievalMode = .ok strategy) :
    ∃ q, svc.prepare config call = .ok q := by
  obtain ⟨rerankPlan, hrerank, -⟩ := DynamicReranker.plan_of_off
    (hoff.imp SwitchedOff.rerank And.left)
  have hcanRun : (call.hydeEnabled.getD config.1.hydeEnabled &&
      strategy.requiresDenseEmbedding) = false ∨ config.1.emergencyDisabled = true :=
    hoff.imp (fun hoff => by rw [hoff.hyde, Bool.false_and]) And.left
  obtain ⟨hydePlan, hhyde, -⟩ := stagePlan_of_off hcanRun
  obtain ⟨cragPlan, hcrag, -⟩ := Delegate.cragPlan_of_off (hoff.imp SwitchedOff.crag And.left)
  obtain ⟨reflectionPlan, hreflection, -⟩ := selfReflectionPlan_of_off
    (hoff.imp SwitchedOff.reflection And.left)
  exact ⟨_, bind_eq_ok.2 ⟨strategy, h, bind_eq_ok.2 ⟨rerankPlan, hrerank, bind_eq_ok.2
    ⟨hydePlan, hhyde, bind_eq_ok.2 ⟨cragPlan, hcrag, bind_eq_ok.2
      ⟨reflectionPlan, hreflection, rfl⟩⟩⟩⟩⟩⟩

theorem candidateTopK_of_stopped (h : svc.prepare config call = .ok q) (hq : svc.Stopped q) :
    q.candidateTopK = call.topK := by
  rw [(prepared_of_prepare h).candidateTopK, if_neg (by simp [hq.rerank])]

/-- Requests that are both stopped are twins. -/
theorem twins_of_stopped {V : Type} {view : RagEvent → Option V} {o o' : RagOracle}
    {q' : RagRequest} (h : svc.prepare config call = .ok q) (h' : svc.prepare config' call' = .ok q')
    (hq : svc.Stopped q) (hq' : svc.Stopped q')
    (hmode : config'.1.guardrailMode = config.1.guardrailMode)
    (hquestion : call'.question = call.question) (htopK : call'.topK = call.topK)
    (hretrievalMode : call'.retrievalMode = call.retrievalMode) : Twins svc view o o' q q' where
  question := by rw [(prepared_of_prepare h).call, (prepared_of_prepare h').call, hquestion]
  topK := by rw [(prepared_of_prepare h).call, (prepared_of_prepare h').call, htopK]
  strategy := by
    have hstrategy := (prepared_of_prepare h').strategy
    rw [hretrievalMode, (prepared_of_prepare h).strategy] at hstrategy
    exact (Except.ok.inj hstrategy).symm
  candidateTopK := by
    rw [candidateTopK_of_stopped h hq, candidateTopK_of_stopped h' hq', htopK]
  guardrailMode := by rw [(prepared_of_prepare h).config, (prepared_of_prepare h').config, hmode]
  semantic := hq'.semantic.trans hq.semantic.symm
  hyde := Or.inr ⟨by simp [hq.hyde], by simp [hq'.hyde]⟩
  rerank := Or.inr ⟨by simp [hq.rerank], by simp [hq'.rerank]⟩
  crag := Or.inr ⟨by simp [hq.crag], by simp [hq'.crag], by simp [hq'.crag],
    fun hshadow => by simp [hq.crag] at hshadow⟩
  reflection := Or.inr ⟨by simp [hq.reflection], by simp [hq'.reflection],
    by simp [hq'.reflection], fun hshadow => by simp [hq.reflection] at hshadow⟩

/-- A call to a stage's delegate, to what reflection is made of, or to the semantic cache. -/
def CallsStage : RagOp → Prop
  | .transform _ | .rerank _ _ _ _ | .correct _ _ _ | .critique _ _ _ | .revise _ _ _ _
  | .decide _ _ _ _ | .perfCounter | .retrieve .reflection _ _ _ _ | .findCandidates _ _ _ _
  | .recordSemantic _ _ _ _ => True
  | _ => False

theorem not_callsStage {op : RagOp} (h : svc.prepare config call = .ok q) (hq : svc.Stopped q)
    (hop : svc.Admits q op) : ¬CallsStage op := by
  intro hcalls
  have hretrieval : q.selfReflectionPlan.allowRetrieval = false :=
    allowRetrieval_of_plan (prepared_of_prepare h).selfReflectionPlan (by simp [hq.reflection])
  cases op with
  | retrieve site _ _ _ _ =>
    cases site with
    | request => exact hcalls
    | reflection => exact Bool.noConfusion (hretrieval.symm.trans hop)
  | _ => first
    | exact hcalls
    | exact Bool.noConfusion (hq.semantic.symm.trans hop)
    | simp [Admits, hq.rerank, hq.hyde, hq.crag, hq.reflection] at hop

/-- Under the snapshot of a row with the emergency switch set, whatever its other flags and
those of the call : a run calls no stage and leaves the semantic cache alone. If the exact
cache misses it ends as the run of the same call with the stages and the semantic cache
switched off, with the same answer or the same error, and caches a response if that one does. -/
theorem plain_under_emergency {row : RagOpsRow} (hrow : row.1.emergencyDisabled = true)
    {o : RagOracle} (hconfig : o [] .currentConfig = derived row) :
    (∀ event ∈ (run o [] (svc.answer call)).2, ¬CallsStage event.1) ∧
      ∀ (o' : RagOracle) (call' : AnswerCall), SwitchedOff (o' [] .currentConfig) call' →
        (o' [] .currentConfig).1.guardrailMode = row.1.guardrailMode →
        call'.question = call.question → call'.topK = call.topK →
        call'.retrievalMode = call.retrievalMode →
        HiddenStages.Surroundings ⟨false, false⟩ o o' →
          Agree SameAnswer (run o [] (svc.answer call)).1 (run o' [] (svc.answer call')).1 ∧
            (HiddenStages.CachesResponse (run o [] (svc.answer call)).2 ↔
              HiddenStages.CachesResponse (run o' [] (svc.answer call')).2) := by
  have hemergency := emergency_derived hrow
  rw [← hconfig] at hemergency
  constructor
  · intro event hevent
    by_cases hread : event.1 = .currentConfig
    · rw [hread]
      exact id
    · obtain ⟨q, hprepared, hadmits⟩ := admits_of_answer hevent hread
      exact not_callsStage hprepared (stopped_of_prepare (Or.inr hemergency) hprepared) hadmits
  · intro o' call' hoff hmode hquestion htopK hretrievalMode hsurroundings
    refine hsurroundings.agree_answer ?_
    cases hstrategy : svc.resolveStrategy call.retrievalMode with
    | error e =>
      have hraised : ∀ {config : RagRuntimeConfig} {call : AnswerCall},
          svc.resolveStrategy call.retrievalMode = .error e → svc.prepare config call = .error e :=
        fun h => bind_eq_error.2 (Or.inl h)
      rw [hraised hstrategy, hraised (hretrievalMode ▸ hstrategy)]
      exact .error e
    | ok strategy =>
      obtain ⟨q, hq⟩ := exists_prepare (Or.inr hemergency) hstrategy
      obtain ⟨q', hq'⟩ := exists_prepare (Or.inl hoff) (hretrievalMode ▸ hstrategy)
      rw [hq, hq']
      refine .ok (twins_of_stopped hq hq' (stopped_of_prepare (Or.inr hemergency) hq)
        (stopped_of_prepare (Or.inl hoff) hq') ?_ hquestion htopK hretrievalMode)
      rw [hmode, hconfig]
      rfl

end RAGService

/-! ## An emergency at the desk -/

/-- Every stage in full rollout, and the emergency switch set. -/
def emergencyRow : RagOpsRow :=
  ⟨{ updatedAt := 0
     rerankingEnabled := true
     semanticCacheEnabled := true
     hydeEnabled := true
     hydeRolloutPercentage := 100
     cragEnabled := true
     cragRolloutPercentage := 100
     selfReflectiveEnabled := true
     selfReflectiveRolloutPercentage := 100
     emergencyDisabled := true }, by decide +kernel⟩

/-- A call that asks for every stage. -/
def eagerCall : AnswerCall where
  question := "Fees?"
  rerankingEnabled := some true
  hydeEnabled := some true
  cragEnabled := some true
  selfReflectiveEnabled := some true

/-- The desk with its stages switched off. -/
def switchedOffConfig : RagRuntimeConfig :=
  derived (RagOpsRow.initial 0)

/-- A day at the desk without its critic. -/
def emergencyDay (config : RagRuntimeConfig) : RagOracle
  | _, .critique _ _ _ => .error (.exception "TimeoutError")
  | h, op => deskDay config [feesChunk] [] "Two percent." h op

theorem cacheMisses_emergencyDay (config : RagRuntimeConfig) :
    CacheMisses (emergencyDay config) where
  get _ _ := Or.inl rfl
  find _ _ _ _ _ _ h := nomatch h
  set _ _ _ _ h := nomatch h
  record _ _ _ _ _ _ h := nomatch h

theorem surroundings_emergencyDay (config config' : RagRuntimeConfig) :
    HiddenStages.Surroundings ⟨false, false⟩ (emergencyDay config) (emergencyDay config') where
  alike op hstores _ h h' _ := by
    cases op with
    | retrieve site _ _ _ _ => cases site <;> rfl
    | _ => first | rfl | exact absurd trivial hstores
  misses := cacheMisses_emergencyDay config
  misses' := cacheMisses_emergencyDay config'
  crag h := nomatch h
  reflection h := nomatch h

/-- A call that asks for every stage is answered as one that asks for none. -/
theorem plain_under_emergency_desk :
    (∀ event ∈ (run (emergencyDay (derived emergencyRow)) [] (desk.answer eagerCall)).2,
        ¬RAGService.CallsStage event.1) ∧
      Agree RAGService.SameAnswer
        (run (emergencyDay (derived emergencyRow)) [] (desk.answer eagerCall)).1
        (run (emergencyDay switchedOffConfig) [] (desk.answer { question := "Fees?" })).1 := by
  have hrow : emergencyRow.1.emergencyDisabled = true := rfl
  have hconfig : emergencyDay (derived emergencyRow) [] .currentConfig = derived emergencyRow := rfl
  have hoff : RAGService.SwitchedOff (emergencyDay switchedOffConfig [] .currentConfig)
      { question := "Fees?" } := ⟨rfl, rfl, rfl, rfl, rfl⟩
  obtain ⟨hcalls, hserved⟩ := RAGService.plain_under_emergency hrow hconfig
  exact ⟨hcalls, (hserved _ _ hoff rfl rfl rfl rfl (surroundings_emergencyDay _ _)).1⟩

end EnterpriseRag
