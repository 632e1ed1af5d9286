import EnterpriseRag.Rag.CorrectiveRetriever
import EnterpriseRag.Rag.EvidenceGuard
import EnterpriseRag.Rag.TwinRuns

/-!
# Shadow mode

CRAG and self-reflection can run in shadow : they are called and their outcome is not served.
A run with a stage in shadow is compared with one in which the stage is disabled, in
surroundings that answer all other calls alike. Both are answered the same, and cached both
or neither (`shadow_not_served`).
-/

namespace EnterpriseRag

open Program

namespace HiddenStages

variable (stages : HiddenStages)

/-- The switch of CRAG for a call, its percentage, its web switch and its shadow switch. -/
def cragSettings (config : RagRuntimeConfig) (call : AnswerCall) : Bool × ℤ × Bool × Bool :=
  (call.cragEnabled.getD config.1.cragEnabled, config.1.cragRolloutPercentage,
    config.1.cragWebEnabled, config.1.cragShadowEnabled)

/-- The same of self-reflection, with its retrieval switch. -/
def reflectionSettings (config : RagRuntimeConfig) (call : AnswerCall) :
    Bool × ℤ × Bool × Bool :=
  (call.selfReflectiveEnabled.getD config.1.selfReflectiveEnabled,
    config.1.selfReflectiveRolloutPercentage, config.1.selfReflectiveRetrievalEnabled,
    config.1.selfReflectiveShadowEnabled)

/-- The stages have their shadow switch set in the first run and are off in the second, which
is otherwise configured and called as the first is. -/
structure Disables (config config' : RagRuntimeConfig) (call call' : AnswerCall) : Prop where
  crag : if stages.crag then config.1.cragShadowEnabled = true ∧ (cragSettings config' call').1 = false
    else cragSettings config' call' = cragSettings config call
  reflection : if stages.reflection then
      config.1.selfReflectiveShadowEnabled = true ∧ (reflectionSettings config' call').1 = false
    else reflectionSettings config' call' = reflectionSettings config call
  sameConfig : config'.1 = { config.1 with
    cragEnabled := config'.1.cragEnabled
    cragRolloutPercentage := config'.1.cragRolloutPercentage
    cragWebEnabled := config'.1.cragWebEnabled
    cragShadowEnabled := config'.1.cragShadowEnabled
    selfReflectiveEnabled := config'.1.selfReflectiveEnabled
    selfReflectiveRolloutPercentage := config'.1.selfReflectiveRolloutPercentage
    selfReflectiveShadowEnabled := config'.1.selfReflectiveShadowEnabled
    selfReflectiveRetrievalEnabled := config'.1.selfReflectiveRetrievalEnabled }
  sameCall : call' = { call with
    cragEnabled := call'.cragEnabled
    selfReflectiveEnabled := call'.selfReflectiveEnabled }

variable {stages} {o o' : RagOracle}

section Plans

variable {svc : RAGService} {config config' : RagRuntimeConfig} {call call' : AnswerCall}

/-- The plans of CRAG : one that is not served and one that is off, or the same. -/
theorem agree_cragPlan (h : stages.Disables config config' call call') :
    Agree (fun plan plan' => stages.crag = true ∧ plan.cohort ≠ .treatment ∧
        plan'.cohort = .disabled ∨ stages.crag = false ∧ plan' = plan)
      (svc.correctiveRetriever.cragPlan svc.bucket call.question config (cragSettings config call).1)
      (svc.correctiveRetriever.cragPlan svc.bucket call.question config'
        (cragSettings config' call').1) := by
  have hcrag := h.crag
  split at hcrag
  · rename_i hstage
    obtain ⟨plan, hplan, hcohort, -⟩ := Delegate.cragPlan_of_shadow hcrag.1
    obtain ⟨plan', hplan', hcohort'⟩ := Delegate.cragPlan_of_off (Or.inl hcrag.2)
    rw [hplan, hplan']
    exact .ok (Or.inl ⟨hstage, hcohort, hcohort'⟩)
  · rename_i hstage
    have hemergency : config'.1.emergencyDisabled = config.1.emergencyDisabled :=
      congrArg (·.emergencyDisabled) h.sameConfig
    rw [cragSettings, cragSettings, Prod.mk.injEq, Prod.mk.injEq, Prod.mk.injEq] at hcrag
    obtain ⟨henabled, hpercentage, hweb, hshadow⟩ := hcrag
    rw [cragSettings, cragSettings,
      Delegate.cragPlan_congr hemergency hpercentage hweb hshadow, henabled]
    exact (agree_self _).mono fun _ _ h => Or.inr ⟨Bool.eq_false_iff.2 hstage, h.symm⟩

/-- The plans of self-reflection. -/
theorem agree_selfReflectionPlan (h : stages.Disables config config' call call') :
    Agree (fun plan plan' => stages.reflection = true ∧ plan.cohort ≠ .treatment ∧
        plan.allowRetrieval = false ∧ plan'.cohort = .disabled ∨
          stages.reflection = false ∧ plan' = plan)
      (selfReflectionPlan svc.selfReflection.cacheNamespace svc.bucket call.question config
        (reflectionSettings config call).1)
      (selfReflectionPlan svc.selfReflection.cacheNamespace svc.bucket call.question config'
        (reflectionSettings config' call').1) := by
  have hreflection := h.reflection
  split at hreflection
  · rename_i hstage
    obtain ⟨plan, hplan, hcohort, hretrieval⟩ := selfReflectionPlan_of_shadow hreflection.1
    obtain ⟨plan', hplan', hcohort'⟩ := selfReflectionPlan_of_off (Or.inl hreflection.2)
    rw [hplan, hplan']
    exact .ok (Or.inl ⟨hstage, hcohort, hretrieval, hcohort'⟩)
  · rename_i hstage
    have hemergency : config'.1.emergencyDisabled = config.1.emergencyDisabled :=
      congrArg (·.emergencyDisabled) h.sameConfig
    rw [reflectionSettings, reflectionSettings, Prod.mk.injEq, Prod.mk.injEq, Prod.mk.injEq]
      at hreflection
    obtain ⟨henabled, hpercentage, hretrieval, hshadow⟩ := hreflection
    rw [reflectionSettings, reflectionSettings,
      selfReflectionPlan_congr hemergency hpercentage hretrieval hshadow, henabled]
    exact (agree_self _).mono fun _ _ h => Or.inr ⟨Bool.eq_false_iff.2 hstage, h.symm⟩

/-- The requests of the two calls are twins, or neither is one. -/
theorem agree_prepare (h : stages.Disables config config' call call')
    (hsurroundings : stages.Surroundings o o') :
    Agree (RAGService.Twins svc stages.view o o') (svc.prepare config call)
      (svc.prepare config' call') := by
  have hmode : call'.retrievalMode = call.retrievalMode := congrArg (·.retrievalMode) h.sameCall
  have hquestion : call'.question = call.question := congrArg (·.question) h.sameCall
  have htopK : call'.topK = call.topK := congrArg (·.topK) h.sameCall
  have hrerank : call'.rerankingEnabled.getD config'.1.rerankingEnabled =
      call.rerankingEnabled.getD config.1.rerankingEnabled :=
    congrArg₂ Option.getD (congrArg (·.rerankingEnabled) h.sameCall)
      (congrArg (·.rerankingEnabled) h.sameConfig)
  have hhyde : call'.hydeEnabled.getD config'.1.hydeEnabled =
      call.hydeEnabled.getD config.1.hydeEnabled :=
    congrArg₂ Option.getD (congrArg (·.hydeEnabled) h.sameCall)
      (congrArg (·.hydeEnabled) h.sameConfig)
  have hemergency : config'.1.emergencyDisabled = config.1.emergencyDisabled :=
    congrArg (·.emergencyDisabled) h.sameConfig
  have hbackend : config'.1.rerankerBackend = config.1.rerankerBackend :=
    congrArg (·.rerankerBackend) h.sameConfig
  have hrerankPercentage : config'.1.rerankerRolloutPercentage =
      config.1.rerankerRolloutPercentage := congrArg (·.rerankerRolloutPercentage) h.sameConfig
  have hhydePercentage : config'.1.hydeRolloutPercentage = config.1.hydeRolloutPercentage :=
    congrArg (·.hydeRolloutPercentage) h.sameConfig
  have hrerankPlan : ∀ enabled, svc.reranker.plan svc.bucket call.question config' enabled =
      svc.reranker.plan svc.bucket call.question config enabled := by
    intro enabled
    rw [DynamicReranker.plan, DynamicReranker.plan, stagePlan_congr hemergency, hbackend,
      hrerankPercentage]
  have hhydePlan : ∀ enabled, svc.queryTransformer.hydePlan svc.bucket call.question config' enabled =
      svc.queryTransformer.hydePlan svc.bucket call.question config enabled := by
    intro enabled
    rw [Delegate.hydePlan, Delegate.hydePlan, stagePlan_congr hemergency, hhydePercentage]
  unfold RAGService.prepare
  rw [hmode, hquestion, htopK, hrerank, hhyde]
  refine (agree_self _).bind ?_
  rintro strategy _ rfl
  rw [hrerankPlan]
  refine (agree_self _).bind ?_
  rintro rerankPlan _ rfl
  rw [hhydePlan]
  refine (agree_self _).bind ?_
  rintro hydePlan _ rfl
  refine (agree_cragPlan h).bind fun cragPlan cragPlan' hcrag => ?_
  refine (agree_selfReflectionPlan h).bind fun reflectionPlan reflectionPlan' hreflection => ?_
  refine .ok
    { question := hquestion
      topK := htopK
      strategy := rfl
      candidateTopK := rfl
      guardrailMode := congrArg (·.guardrailMode) h.sameConfig
      semantic := congrArg (· && svc.semanticCache)
        (congrArg (·.semanticCacheEnabled) h.sameConfig)
      hyde := Or.inl rfl
      rerank := Or.inl rfl
      crag := ?_
      reflection := ?_ }
  · rcases hcrag with ⟨hstage, hcohort, hcohort'⟩ | ⟨hstage, hsame⟩
    · refine Or.inr ⟨hcohort, by simp [hcohort'], by simp [hcohort'], fun _ hist chunks allowWeb => ?_⟩
      exact ⟨fun r => view_of_hides (show stages.Hides (.correct _ _ _) from hstage) r,
        hsurroundings.crag hstage hist _ _ _⟩
    · refine Or.inl ⟨hsame, fun chunks allowWeb => hsurroundings.shown id ?_⟩
      exact Bool.eq_false_iff.1 hstage
  · rcases hreflection with ⟨hstage, hcohort, hretrieval, hcohort'⟩ | ⟨hstage, hsame⟩
    · refine Or.inr ⟨hcohort, by simp [hcohort'], by simp [hcohort'], fun _ => ⟨hretrieval,
        hsurroundings.reflection hstage, fun op r hop => view_of_hides ?_ r⟩⟩
      cases op <;> first | exact hop.elim | exact hstage
    · have hsettings := h.reflection
      rw [if_neg (Bool.eq_false_iff.1 hstage)] at hsettings
      refine Or.inl ⟨hsame, congrArg Prod.fst hsettings, fun op hop => hsurroundings.shown ?_ ?_⟩
      · rcases hop with hop | hop <;> cases op <;> first | exact hop.elim | exact id
      · rcases hop with hop | hop <;>
          cases op <;> first | exact hop.elim | exact Bool.eq_false_iff.1 hstage | exact id

end Plans

end HiddenStages

namespace RAGService

variable {svc : RAGService} {stages : HiddenStages} {o o' : RagOracle} {call call' : AnswerCall}

/-- A stage in shadow is not served : the run ends as the one in which it is disabled, with the
same answer or the same error, and caches a response if that one does. In shadow CRAG is not
given leave to use the web, so its retriever does not, and reflection retrieves nothing. -/
theorem shadow_not_served (hsurroundings : stages.Surroundings o o')
    (hdisables : stages.Disables (o [] .currentConfig) (o' [] .currentConfig) call call') :
    Agree SameAnswer (run o [] (svc.answer call)).1 (run o' [] (svc.answer call')).1 ∧
      (HiddenStages.CachesResponse (run o [] (svc.answer call)).2 ↔
        HiddenStages.CachesResponse (run o' [] (svc.answer call')).2) ∧
      (stages.crag = true → ∀ question chunks allowWeb r,
        (⟨.correct question chunks allowWeb, r⟩ : RagEvent) ∈ (run o [] (svc.answer call)).2 →
          ∀ retriever : ProductionCorrectiveRetriever,
            (retriever.correct question chunks allowWeb).Uses fun op => ¬op.UsesWeb) ∧
      (stages.reflection = true → ∀ strategy query embedding topK r,
        (⟨.retrieve .reflection strategy query embedding topK, r⟩ : RagEvent) ∉
          (run o [] (svc.answer call)).2) := by
  obtain ⟨hagree, hcaches⟩ := hsurroundings.agree_answer
    (HiddenStages.agree_prepare hdisables hsurroundings)
  refine ⟨hagree, hcaches, ?_, ?_⟩
  · intro hstage question chunks allowWeb r hevent retriever
    obtain ⟨q, hprepared, -, hallowed⟩ := admits_of_answer hevent nofun
    have hcrag := hdisables.crag
    rw [if_pos hstage] at hcrag
    obtain ⟨plan, hplan, -, hweb⟩ := Delegate.cragPlan_of_shadow hcrag.1
    have hsame := (prepared_of_prepare hprepared).cragPlan.symm.trans hplan
    obtain rfl : allowWeb = false := hallowed.trans (Except.ok.inj hsame ▸ hweb)
    exact ProductionCorrectiveRetriever.uses_correct
  · intro hstage strategy query embedding topK r hevent
    obtain ⟨q, hprepared, hallowed⟩ := admits_of_answer hevent nofun
    have hreflection := hdisables.reflection
    rw [if_pos hstage] at hreflection
    obtain ⟨plan, hplan, -, hretrieval⟩ := selfReflectionPlan_of_shadow hreflection.1
    have hsame := (prepared_of_prepare hprepared).selfReflectionPlan.symm.trans hplan
    have hallowed : q.selfReflectionPlan.allowRetrieval = true := hallowed
    rw [Except.ok.inj hsame, hretrieval] at hallowed
    exact Bool.noConfusion hallowed

end RAGService

/-! ## Two days at the desk -/

/-- The desk with both stages in shadow, or without them. -/
def shadowConfig (shadow : Bool) : RagRuntimeConfig :=
  ⟨{ deskConfig.1 with
      cragEnabled := shadow
      cragShadowEnabled := shadow
      selfReflectiveEnabled := shadow
      selfReflectiveShadowEnabled := shadow
      selfReflectiveRetrievalEnabled := false }, by cases shadow <;> decide +kernel⟩

def shadowDay (shadow : Bool) : RagOracle :=
  deskDay (shadowConfig shadow) [feesChunk] [] "Two percent."

theorem cacheMisses_shadowDay (shadow : Bool) : CacheMisses (shadowDay shadow) where
  get _ _ := Or.inl rfl
  find _ _ _ _ _ _ h := nomatch h
  set _ _ _ _ h := nomatch h
  record _ _ _ _ _ _ h := nomatch h

theorem surroundings_shadowDay :
    HiddenStages.Surroundings ⟨true, true⟩ (shadowDay true) (shadowDay false) where
  alike op hstores hhides h h' _ := by
    cases op with
    | retrieve site _ _ _ _ => cases site <;> rfl
    | _ => first | rfl | exact absurd trivial hstores | exact absurd rfl hhides
  misses := cacheMisses_shadowDay true
  misses' := cacheMisses_shadowDay false
  crag _ _ _ _ _ _ h := by
    obtain rfl := Except.error.inj h
    rfl
  reflection _ :=
    { critique := fun _ _ _ _ _ h => nomatch h
      decide := fun _ _ _ _ _ _ h => nomatch h
      revise := fun _ _ _ _ _ _ h => nomatch h }

/-- The desk answers the same with both stages in shadow and without them. -/
theorem shadow_not_served_desk :
    Agree RAGService.SameAnswer (run (shadowDay true) [] (desk.answer { question := "Fees?" })).1
        (run (shadowDay false) [] (desk.answer { question := "Fees?" })).1 ∧
      (HiddenStages.CachesResponse (run (shadowDay true) [] (desk.answer { question := "Fees?" })).2 ↔
        HiddenStages.CachesResponse
          (run (shadowDay false) [] (desk.answer { question := "Fees?" })).2) := by
  have hdisables : HiddenStages.Disables ⟨true, true⟩ (shadowConfig true) (shadowConfig false)
      { question := "Fees?" } { question := "Fees?" } := ⟨⟨rfl, rfl⟩, ⟨rfl, rfl⟩, rfl, rfl⟩
  exact ⟨(RAGService.shadow_not_served surroundings_shadowDay hdisables).1,
    (RAGService.shadow_not_served surroundings_shadowDay hdisables).2.1⟩

end EnterpriseRag
