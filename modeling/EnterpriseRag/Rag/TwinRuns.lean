import EnterpriseRag.Library.TwoRuns
import EnterpriseRag.Rag.Runs

/-!
# Two runs of an answer

Two requests are `Twins` if they differ in how they would be cached, and in the plans of
stages that neither run serves. Under surroundings that answer `Alike`, both runs missing the
caches, they are answered the same (`matches_serve`) : a stage that one of them only observes
is hidden from the comparison, and its outcome is not in the answer.
-/

namespace EnterpriseRag

open Program

/-- The calls that two runs make alike. -/
def RagOp.Common : RagOp → Prop
  | .embedTexts _ | .transform _ | .retrieve .request _ _ _ _ | .rerank _ _ _ _ | .generate _ _
  | .scanOutput _ _ | .recordSecurityEvent _ => True
  | _ => False

/-- Both caches miss, and no call to them raises what is no `Exception`. -/
structure CacheMisses (o : RagOracle) : Prop where
  get : ∀ h key, o h (.cacheGet key) = .ok none ∨
    ∃ e, o h (.cacheGet key) = .error e ∧ e.isException = true
  find : ∀ h embedding cacheNamespace topK threshold e,
    o h (.findCandidates embedding cacheNamespace topK threshold) = .error e → e.isException = true
  set : ∀ h key value e, o h (.cacheSet key value) = .error e → e.isException = true
  record : ∀ h embedding cacheNamespace topK key e,
    o h (.recordSemantic embedding cacheNamespace topK key) = .error e → e.isException = true

/-- Surroundings that answer the common calls alike wherever the view shows the same. It shows
that a response is cached, and hides the rest of the use of the caches. -/
structure Alike {V : Type} (view : RagEvent → Option V) (o o' : RagOracle) : Prop where
  common : ∀ op : RagOp, op.Common → ∀ h h', LooksLike view h h' → o h op = o' h' op
  get : ∀ key r, view ⟨.cacheGet key, r⟩ = none
  find : ∀ embedding cacheNamespace topK threshold r,
    view ⟨.findCandidates embedding cacheNamespace topK threshold, r⟩ = none
  record : ∀ embedding cacheNamespace topK key r,
    view ⟨.recordSemantic embedding cacheNamespace topK key, r⟩ = none
  set : ∀ key value r key' value' r',
    view ⟨.cacheSet key value, r⟩ = view ⟨.cacheSet key' value', r'⟩
  misses : CacheMisses o
  misses' : CacheMisses o'

namespace RAGService

variable (svc : RAGService) {V : Type} (view : RagEvent → Option V) (o o' : RagOracle)

/-- The surroundings answer a call alike. -/
def Shown (op : RagOp) : Prop :=
  ∀ h h', LooksLike view h h' → o h op = o' h' op

/-- CRAG runs in both with one plan, or in the second not at all and in the first unseen. -/
def CragTwins (q q' : RagRequest) : Prop :=
  (q'.cragPlan = q.cragPlan ∧ ∀ chunks allowWeb,
      Shown view o o' (.correct q.call.question chunks allowWeb)) ∨
    (q.cragPlan.cohort ≠ .treatment ∧ q'.cragPlan.cohort ≠ .treatment ∧
      q'.cragPlan.cohort ≠ .shadow ∧ (q.cragPlan.cohort = .shadow → ∀ h chunks allowWeb,
        (∀ r, view ⟨.correct q.call.question chunks allowWeb, r⟩ = none) ∧
          ∀ e, o h (.correct q.call.question chunks allowWeb) = .error e → e.isException = true))

/-- The engine's collaborators raise nothing but `Exception`s. -/
structure EngineRaises (o : RagOracle) : Prop where
  critique : ∀ h question evidence answer e,
    o h (.critique question evidence answer) = .error e → e.isException = true
  decide : ∀ h critique state budget claims e,
    o h (.decide critique state budget claims) = .error e → e.isException = true
  revise : ∀ h question evidence answer critique e,
    o h (.revise question evidence answer critique) = .error e → e.isException = true

/-- The same for self-reflection. -/
def ReflectionTwins (q q' : RagRequest) : Prop :=
  (q'.selfReflectionPlan = q.selfReflectionPlan ∧
      q'.selfReflectiveEnabled = q.selfReflectiveEnabled ∧
      ∀ op : RagOp, (op.Reflects ∨ op.Augments) → Shown view o o' op) ∨
    (q.selfReflectionPlan.cohort ≠ .treatment ∧ q'.selfReflectionPlan.cohort ≠ .treatment ∧
      q'.selfReflectionPlan.cohort ≠ .shadow ∧
      (q.selfReflectionPlan.cohort = .shadow → q.selfReflectionPlan.allowRetrieval = false ∧
        EngineRaises o ∧ ∀ (op : RagOp) r, op.Reflects → view ⟨op, r⟩ = none))

/-- Two requests for the same, up to the caches and to stages that are not served. -/
structure Twins (q q' : RagRequest) : Prop where
  question : q'.call.question = q.call.question
  topK : q'.call.topK = q.call.topK
  strategy : q'.strategy = q.strategy
  candidateTopK : q'.candidateTopK = q.candidateTopK
  guardrailMode : q'.config.1.guardrailMode = q.config.1.guardrailMode
  semantic : svc.semanticOn q' = svc.semanticOn q
  hyde : q'.hydePlan = q.hydePlan ∨
    q.hydePlan.cohort ≠ .treatment ∧ q'.hydePlan.cohort ≠ .treatment
  rerank : q'.rerankPlan = q.rerankPlan ∨
    q.rerankPlan.cohort ≠ .treatment ∧ q'.rerankPlan.cohort ≠ .treatment
  crag : CragTwins view o o' q q'
  reflection : ReflectionTwins view o o' q q'

variable {svc} {view} {o o'} {q q' : RagRequest}

/-! ## The caches -/

theorem quiet_getCached (hview : ∀ key r, view ⟨.cacheGet key, r⟩ = none) (ho : CacheMisses o)
    (key : String) : Quiet view o (· = none) (svc.getCached key) := by
  refine quiet_call (fun h => hview _ _) fun h => ?_
  rcases ho.get h key with hnone | ⟨e, he, hexception⟩
  · rw [hnone]
    exact quiet_pure rfl
  · rw [he]
    show Quiet view o _ (if e.isException then _ else _)
    rw [if_pos hexception]
    exact quiet_pure rfl

theorem quiet_firstLive (hview : ∀ key r, view ⟨.cacheGet key, r⟩ = none) (ho : CacheMisses o) :
    ∀ keys : List String, Quiet view o (· = none) (svc.firstLive keys)
  | [] => quiet_pure rfl
  | key :: keys => by
    refine (quiet_getCached hview ho key).bind fun found hnone => ?_
    subst hnone
    exact quiet_firstLive hview ho keys

theorem quiet_checkSemanticCache (hget : ∀ key r, view ⟨.cacheGet key, r⟩ = none)
    (hfind : ∀ embedding cacheNamespace topK threshold r,
      view ⟨.findCandidates embedding cacheNamespace topK threshold, r⟩ = none)
    (ho : CacheMisses o) (embedding : Embedding) :
    Quiet view o (· = none) (svc.checkSemanticCache q embedding) := by
  refine quiet_call (fun h => hfind _ _ _ _ _) fun h => ?_
  match hkeys : o h (.findCandidates embedding q.cacheNamespace q.call.topK
      q.config.1.semanticCacheThreshold) with
  | .ok keys => exact quiet_firstLive hget ho keys
  | .error e =>
    show Quiet view o _ (if e.isException then _ else _)
    rw [if_pos (ho.find _ _ _ _ _ _ hkeys)]
    exact quiet_pure rfl

theorem common_of_prepares {op : RagOp} (h : op.Prepares) : op.Common := by
  cases op <;> first | exact h | exact h.elim

theorem common_of_guards {op : RagOp} (h : op.Guards) : op.Common := by
  cases op <;> first | exact h | exact h.elim

theorem matches_of_prepares {α : Type} (halike : Alike view o o') {p : RagProgram α}
    (hp : p.Uses RagOp.Prepares) : Matches view o o' Eq p p := by
  exact Uses.matches_self (fun op hop => halike.common op (common_of_prepares hop)) hp

theorem matches_embedOne (halike : Alike view o o') (text : String) :
    Matches view o o' Eq (embedOne text) (embedOne text) :=
  matches_of_prepares halike (uses_embedOne (fun _ => trivial) text)

/-- Both look-ups miss, and embed the question alike. -/
theorem matches_lookup (halike : Alike view o o') (htwins : Twins svc view o o' q q') :
    Matches view o o' (fun a a' => a.1 = none ∧ a'.1 = none ∧ a.2 = a'.2) (svc.lookup q)
      (svc.lookup q') := by
  refine (quiet_getCached halike.get halike.misses _).matches_left fun found hnone => ?_
  subst hnone
  refine (quiet_getCached halike.get halike.misses' _).matches_right fun found hnone => ?_
  subst hnone
  dsimp only
  rw [htwins.strategy, htwins.semantic, htwins.question]
  split
  · refine matches_bind (matches_embedOne halike _) fun embedding _ hembedding => ?_
    subst hembedding
    refine (quiet_checkSemanticCache halike.get halike.find halike.misses
      embedding).matches_left fun found hnone => ?_
    subst hnone
    refine (quiet_checkSemanticCache halike.get halike.find halike.misses'
      embedding).matches_right fun found hnone => ?_
    subst hnone
    exact matches_pure ⟨rfl, rfl, rfl⟩
  · exact matches_pure ⟨rfl, rfl, rfl⟩

/-! ## The stages up to the evidence -/

/-- The same query transformation, for whatever reason it was bypassed. -/
def HydeTwins (outcome outcome' : QueryTransformOutcome) : Prop :=
  ∃ reason, outcome' = { outcome with bypassReason := reason }

theorem matches_hydeStage (halike : Alike view o o') (htwins : Twins svc view o o' q q') :
    Matches view o o' (fun a a' => HydeTwins a.1 a'.1 ∧ a.2 = a'.2) (svc.hydeStage q)
      (svc.hydeStage q') := by
  rcases htwins.hyde with hplan | ⟨hplan, hplan'⟩
  · have hsame : svc.hydeStage q' = svc.hydeStage q := by
      rw [hydeStage, hydeStage, htwins.strategy, hplan, htwins.question]
    rw [hsame]
    refine (matches_of_prepares halike
      (uses_hydeStage (fun _ => trivial) fun _ => trivial)).mono ?_
    rintro a _ rfl
    exact ⟨⟨_, rfl⟩, rfl⟩
  · rw [hydeStage, hydeStage, if_neg (by simp [hplan]), if_neg (by simp [hplan']),
      htwins.question]
    exact matches_pure ⟨⟨_, rfl⟩, rfl⟩

theorem matches_retrieveStage (halike : Alike view o o') (htwins : Twins svc view o o' q q')
    (original : Option Embedding) :
    Matches view o o' (fun a a' => HydeTwins a.1 a'.1 ∧ a.2 = a'.2)
      (svc.retrieveStage q original) (svc.retrieveStage q' original) := by
  have hretrieve : ∀ {hyde hyde' : QueryTransformOutcome} original embedding, HydeTwins hyde hyde' →
      Matches view o o' (fun a a' => HydeTwins a.1 a'.1 ∧ a.2 = a'.2)
        (do
          let chunks ← ask (.retrieve .request q.strategy q.call.question embedding
            q.candidateTopK) id
          return (hyde, original, chunks) :
            RagProgram (QueryTransformOutcome × Option Embedding × List RetrievedChunk))
        (do
          let chunks ← ask (.retrieve .request q'.strategy q'.call.question embedding
            q'.candidateTopK) id
          return (hyde', original, chunks)) := by
    intro hyde hyde' original embedding hhyde
    rw [htwins.strategy, htwins.question, htwins.candidateTopK]
    refine matches_bind (Uses.matches_self (S := RagOp.Common) halike.common (uses_ask trivial)) ?_
    rintro chunks _ rfl
    exact matches_pure ⟨hhyde, rfl⟩
  refine matches_bind (matches_hydeStage halike htwins) ?_
  rintro ⟨hyde, hypothetical⟩ ⟨hyde', _⟩ ⟨hhyde, rfl⟩
  dsimp only
  split
  · exact hretrieve original _ hhyde
  · have hquestion : questionEmbedding q' original = questionEmbedding q original := by
      cases original with
      | some embedding => rfl
      | none => rw [questionEmbedding, questionEmbedding, htwins.strategy, htwins.question]
    rw [hquestion]
    refine matches_bind (matches_of_prepares halike
      (uses_questionEmbedding (fun _ => trivial) original)) ?_
    rintro original _ rfl
    exact hretrieve original _ hhyde

theorem matches_rerankStage (halike : Alike view o o') (htwins : Twins svc view o o' q q')
    (chunks : List RetrievedChunk) :
    Matches view o o' Eq (svc.rerankStage q chunks) (svc.rerankStage q' chunks) := by
  rcases htwins.rerank with hplan | ⟨hplan, hplan'⟩
  · have hexecute : svc.executeRerank q' = svc.executeRerank q := by
      funext backend chunks
      rw [executeRerank, executeRerank, htwins.question, htwins.topK]
    have hsame : svc.rerankStage q' chunks = svc.rerankStage q chunks := by
      rw [rerankStage, rerankStage, hplan, hexecute]
    rw [hsame]
    exact matches_of_prepares halike (uses_rerankStage (fun _ _ _ => trivial) chunks)
  · have hnone : ∀ {q : RagRequest}, q.rerankPlan.cohort ≠ .treatment →
        svc.rerankStage q chunks = return none := by
      intro q hplan
      rw [rerankStage]
      split
      · rename_i hcohort _
        exact absurd hcohort hplan
      · rfl
    rw [hnone hplan, hnone hplan']
    exact matches_pure rfl

/-- The same evidence, for whatever reason CRAG was bypassed. -/
def CragAlike (crag crag' : CRAGOutcome) : Prop :=
  ∃ reason, crag' = { crag with bypassReason := reason }

theorem quiet_executeCrag {chunks : List RetrievedChunk}
    (hview : ∀ r, view ⟨.correct q.call.question chunks q.cragPlan.allowWeb, r⟩ = none)
    (hraises : ∀ h e, o h (.correct q.call.question chunks q.cragPlan.allowWeb) = .error e →
      e.isException = true) :
    Quiet view o (fun _ => True) (executeCrag q chunks) := by
  rw [executeCrag]
  split
  · refine quiet_call (fun h => hview _) fun h => ?_
    cases hx : o h (.correct q.call.question chunks q.cragPlan.allowWeb) with
    | ok outcome => exact quiet_pure trivial
    | error e =>
      show Quiet view o _ (if e.isException then _ else _)
      rw [if_pos (hraises h e hx)]
      exact quiet_pure trivial
  · exact quiet_pure trivial

theorem matches_cragStage (htwins : Twins svc view o o' q q') (chunks : List RetrievedChunk) :
    Matches view o o' CragAlike (cragStage q chunks) (cragStage q' chunks) := by
  rcases htwins.crag with ⟨hplan, hshown⟩ | ⟨hplan, hplan', hshadow', hshadow⟩
  · have hsame : cragStage q' chunks = cragStage q chunks := by
      rw [cragStage, cragStage, executeCrag, executeCrag, hplan, htwins.question]
    rw [hsame]
    have huses : (cragStage q chunks).Uses
        (· = .correct q.call.question chunks q.cragPlan.allowWeb) :=
      uses_cragStage fun _ => rfl
    refine (Uses.matches_self ?_ huses).mono ?_
    · rintro _ rfl
      exact hshown chunks q.cragPlan.allowWeb
    · rintro outcome _ rfl
      exact ⟨_, rfl⟩
  · have hright : cragStage q' chunks =
        return noOpCorrect chunks (orElseText q'.cragPlan.bypassReason "disabled") := by
      rw [cragStage, executeCrag, if_neg (by simp [hplan', hshadow'])]
      simp only [if_neg hshadow']
      rfl
    rw [hright]
    by_cases hcohort : q.cragPlan.cohort = .shadow
    · have hquiet : Quiet view o (fun _ => True) (executeCrag q chunks) :=
        quiet_executeCrag (hshadow hcohort [] chunks _).1 fun h e =>
          (hshadow hcohort h chunks _).2 e
      have hleft : cragStage q chunks = executeCrag q chunks >>= fun _ =>
          return noOpCorrect chunks "shadow_not_served" := by
        simp only [cragStage, if_pos hcohort]
      rw [hleft]
      exact hquiet.matches_left fun _ _ => matches_pure ⟨_, rfl⟩
    · have hleft : cragStage q chunks =
          return noOpCorrect chunks (orElseText q.cragPlan.bypassReason "disabled") := by
        rw [cragStage, executeCrag, if_neg (by simp [hplan, hcohort])]
        simp only [if_neg hcohort]
        rfl
      rw [hleft]
      exact matches_pure ⟨_, rfl⟩

theorem matches_of_guards {α : Type} (halike : Alike view o o') {p : RagProgram α}
    (hp : p.Uses RagOp.Guards) : Matches view o o' Eq p p := by
  exact Uses.matches_self (fun op hop => halike.common op (common_of_guards hop)) hp

theorem matches_guardStage (halike : Alike view o o') (htwins : Twins svc view o o' q q')
    {crag crag' : CRAGOutcome} (hcrag : CragAlike crag crag') :
    Matches view o o' CragAlike (svc.guardStage q crag) (svc.guardStage q' crag') := by
  obtain ⟨reason, rfl⟩ := hcrag
  rw [guardStage, guardStage, htwins.guardrailMode]
  refine matches_bind (R := Eq) ?_ ?_
  · exact (uses_orRaise (S := RagOp.Guards) _).matches_self fun op hop =>
      halike.common op (common_of_guards hop)
  · rintro ⟨kept, event⟩ _ rfl
    refine matches_bind (matches_of_guards halike (uses_recordEvent event)) fun _ _ _ => ?_
    exact matches_pure ⟨reason, rfl⟩

/-- The same outcomes of the stages, for whatever reasons some of them were bypassed. -/
structure StagesAlike (s s' : Stages) : Prop where
  hyde : HydeTwins s.hyde s'.hyde
  retrieved : s'.retrieved = s.retrieved
  reranked : s'.reranked = s.reranked
  crag : CragAlike s.crag s'.crag
  chunksDropped : s'.chunksDropped = s.chunksDropped
  fabricated : s'.fabricated = s.fabricated
  reflection : ∃ reason, s'.reflection = { s.reflection with bypassReason := reason }
  answer : s'.answer = s.answer
  outputAction : s'.outputAction = s.outputAction

theorem matches_gather (halike : Alike view o o') (htwins : Twins svc view o o' q q')
    (original : Option Embedding) :
    Matches view o o' (fun a a' => StagesAlike a.1 a'.1 ∧ a.2 = a'.2) (svc.gather q original)
      (svc.gather q' original) := by
  refine matches_bind (matches_retrieveStage halike htwins original) ?_
  rintro ⟨hyde, original, retrieved⟩ ⟨hyde', _⟩ ⟨hhyde, rfl⟩
  refine matches_bind (matches_rerankStage halike htwins retrieved) ?_
  rintro reranked _ rfl
  refine matches_bind (matches_cragStage htwins _) ?_
  rintro corrected _ ⟨reason, rfl⟩
  refine matches_bind (matches_guardStage halike htwins ⟨reason, rfl⟩) ?_
  rintro crag _ ⟨reason', rfl⟩
  exact matches_pure ⟨⟨hhyde, rfl, rfl, ⟨reason', rfl⟩, rfl, rfl, ⟨none, rfl⟩, rfl, rfl⟩, rfl⟩

/-! ## The answer -/

theorem matches_draft (halike : Alike view o o') (htwins : Twins svc view o o' q q')
    {crag crag' : CRAGOutcome} (hcrag : CragAlike crag crag') :
    Matches view o o' Eq (draft q crag) (draft q' crag') := by
  obtain ⟨reason, rfl⟩ := hcrag
  have hsame : draft q' { crag with bypassReason := reason } = draft q crag := by
    rw [draft, draft, htwins.question]
  rw [hsame]
  exact Uses.matches_self halike.common (uses_draft trivial)

section Engine

variable {e : ReflectionEngine} {question : String} {deadline : ℚ} {state : ReflectionState}
  {critique : ReflectionCritique} {action : ReflectionAction}
  {augment : String → RagProgram (List EvidenceChunk)}

theorem raisesOnly_clock_bind {α : Type} {P : Raised → Prop} {f : Bool → RagProgram α}
    (hf : ∀ b, RaisesOnly o P (f b)) : RaisesOnly o P (deadlineExceeded deadline >>= f) ∧
      RaisesOnly o P (noSecondsRemaining deadline >>= f) :=
  ⟨RaisesOnly.bind (raisesOnly_perform.bind fun _ => raisesOnly_pure) hf,
    RaisesOnly.bind (raisesOnly_perform.bind fun _ => raisesOnly_pure) hf⟩

theorem raisesOnly_critiqueRound (ho : EngineRaises o) :
    RaisesOnly o (·.isException = true) (e.critiqueRound question deadline 0 state) := by
  refine (raisesOnly_clock_bind fun exceeded => ?_).1
  split
  · exact raisesOnly_pure
  split
  · exact raisesOnly_pure
  refine (raisesOnly_clock_bind fun none => ?_).2
  split
  · exact raisesOnly_pure
  refine (raisesOnly_ask fun h e he => ho.critique h _ _ _ e he).bind fun critique => ?_
  refine (raisesOnly_clock_bind fun exceeded => ?_).1
  split
  · exact raisesOnly_pure
  split
  · exact raisesOnly_pure
  · exact (raisesOnly_ask fun h e he => ho.decide h _ _ _ _ e he).bind fun _ => raisesOnly_pure

theorem raisesOnly_reviseRound (ho : EngineRaises o) :
    RaisesOnly o (·.isException = true) (e.reviseRound question deadline state critique) := by
  refine (raisesOnly_clock_bind fun none => ?_).2
  split
  · exact raisesOnly_pure
  split
  · exact raisesOnly_pure
  have hrevise : RaisesOnly o (·.isException = true) (reviseAnswer question state critique) := by
    refine (raisesOnly_ask fun h e he => ho.revise h _ _ _ _ e he).bind fun revised => ?_
    refine (raisesOnly_orRaise fun e => isException_of_findFabricatedCitations).bind
      fun fabricated => ?_
    split
    · exact raisesOnly_pure
    · exact raisesOnly_raise rfl
  refine hrevise.bind fun revised => (raisesOnly_clock_bind fun exceeded => ?_).1
  split <;> exact raisesOnly_pure

/-- Without additional retrievals the loop raises what its collaborators do. -/
theorem raisesOnly_reflectLoop (ho : EngineRaises o) : ∀ (rounds : ℕ) (state : ReflectionState),
    RaisesOnly o (·.isException = true)
      (e.reflectLoop question deadline 0 augment rounds state) := by
  intro rounds
  induction rounds with
  | zero =>
    intro state
    rw [ReflectionEngine.reflectLoop]
    refine (raisesOnly_critiqueRound ho).bind fun ended => ?_
    split
    · exact raisesOnly_pure
    · refine (raisesOnly_clock_bind fun exceeded => ?_).1
      split <;> exact raisesOnly_pure
    · exact raisesOnly_pure
    · exact raisesOnly_pure
  | succ rounds ih =>
    intro state
    rw [ReflectionEngine.reflectLoop]
    refine (raisesOnly_critiqueRound ho).bind fun ended => ?_
    split
    · exact raisesOnly_pure
    · refine (raisesOnly_clock_bind fun exceeded => ?_).1
      split <;> exact raisesOnly_pure
    · exact raisesOnly_pure
    · have hnone : ∀ state : ReflectionState, ¬(state.additionalRetrievals < 0) := by omega
      rw [ReflectionEngine.retrieveMore, if_neg fun h => hnone _ h.2]
      refine RaisesOnly.bind raisesOnly_pure fun ended => ?_
      split
      · exact raisesOnly_pure
      refine (raisesOnly_reviseRound ho).bind fun ended => ?_
      split
      · exact raisesOnly_pure
      · exact ih _

/-- An engine that is hidden and may not retrieve ends with an outcome. -/
theorem quiet_execute {evidence : List EvidenceChunk} {answer : String} {plan : SelfReflectionPlan}
    (hview : ∀ (op : RagOp) r, op.Reflects → view ⟨op, r⟩ = none) (ho : EngineRaises o)
    (hretrieval : plan.allowRetrieval = false) :
    Quiet view o (fun _ => True) (e.execute question evidence answer augment plan) := by
  have huses : (e.execute question evidence answer augment plan).Uses RagOp.Reflects :=
    ReflectionEngine.uses_execute trivial (fun _ _ _ _ => trivial) (fun _ _ => trivial)
      (fun _ _ _ => trivial) fun hallowed => by simp [hretrieval] at hallowed
  refine huses.quiet (fun op hop r => hview op r hop) ?_
  have hreflect : RaisesOnly o (·.isException = true)
      (e.reflect question evidence answer augment plan.allowRetrieval) := by
    rw [hretrieval]
    exact raisesOnly_perform.bind fun started => raisesOnly_reflectLoop ho _ _
  refine hreflect.tryCatch fun raised hraised => ?_
  rw [if_pos hraised]
  exact raisesOnly_pure

end Engine

theorem matches_reflectStage (htwins : Twins svc view o o' q q')
    {crag crag' : CRAGOutcome} (hcrag : CragAlike crag crag') (answer : String)
    (fabricated : Bool) :
    Matches view o o'
      (fun reflection reflection' => ∃ reason, reflection' =
        { reflection with bypassReason := reason })
      (svc.reflectStage q crag answer fabricated) (svc.reflectStage q' crag' answer fabricated) := by
  obtain ⟨reason, rfl⟩ := hcrag
  rcases htwins.reflection with ⟨hplan, henabled, hshown⟩ | ⟨hplan, hplan', hshadow', hshadow⟩
  · have haugment : svc.retrieveReflectionEvidence q' = svc.retrieveReflectionEvidence q := by
      funext query
      rw [retrieveReflectionEvidence, retrieveReflectionEvidence, htwins.strategy]
    have hsame : svc.reflectStage q' { crag with bypassReason := reason } answer fabricated =
        svc.reflectStage q crag answer fabricated := by
      simp only [reflectStage, hplan, henabled, haugment, htwins.question]
    rw [hsame]
    refine (uses_reflectStage.matches_self fun op hop => hshown op ?_).mono ?_
    · exact hop.2.imp_right And.right
    · rintro outcome _ rfl
      exact ⟨_, rfl⟩
  · have hright : ∃ reason', svc.reflectStage q' { crag with bypassReason := reason } answer
        fabricated = return untouched answer crag.evidence reason' := by
      rw [reflectStage, if_neg (by simp [hshadow']), if_neg (by simp [hplan'])]
      exact ⟨_, rfl⟩
    obtain ⟨reason', hright⟩ := hright
    rw [hright]
    by_cases hcohort : q.selfReflectionPlan.cohort = .shadow
    · obtain ⟨hretrieval, hraises, hview⟩ := hshadow hcohort
      rw [reflectStage]
      split
      · exact (quiet_execute hview hraises hretrieval).matches_left fun _ _ =>
          matches_pure ⟨_, rfl⟩
      · rw [if_neg (by simp [hplan])]
        exact matches_pure ⟨_, rfl⟩
    · rw [reflectStage, if_neg (by simp [hcohort]), if_neg (by simp [hplan])]
      exact matches_pure ⟨_, rfl⟩

theorem matches_outputStage (halike : Alike view o o') (htwins : Twins svc view o o' q q')
    (answer : String) :
    Matches view o o' Eq (svc.outputStage q answer) (svc.outputStage q' answer) := by
  have hsame : svc.outputStage q' answer = svc.outputStage q answer := by
    rw [outputStage, outputStage, htwins.question, htwins.guardrailMode]
  rw [hsame]
  exact matches_of_guards halike (uses_outputStage answer)

theorem matches_compose (halike : Alike view o o') (htwins : Twins svc view o o' q q')
    {s s' : Stages} (hs : StagesAlike s s') :
    Matches view o o' StagesAlike (svc.compose q s) (svc.compose q' s') := by
  refine matches_bind (matches_draft halike htwins hs.crag) ?_
  rintro ⟨answer, fabricated⟩ _ rfl
  refine matches_bind (matches_reflectStage htwins hs.crag answer fabricated) ?_
  rintro outcome _ ⟨reason, rfl⟩
  have hreflection : withoutFallback { outcome with bypassReason := reason } =
      { withoutFallback outcome with bypassReason := reason } := by
    unfold withoutFallback
    split <;> rfl
  rw [hreflection]
  refine matches_bind (matches_outputStage halike htwins (withoutFallback outcome).answer) ?_
  rintro ⟨served, outputAction⟩ _ rfl
  exact matches_pure ⟨hs.hyde, hs.retrieved, hs.reranked, hs.crag, hs.chunksDropped, rfl,
    ⟨reason, rfl⟩, rfl, rfl⟩

theorem pipelineFallback_of_alike {s s' : Stages} (hs : StagesAlike s s') :
    s'.pipelineFallback = s.pipelineFallback := by
  obtain ⟨⟨reason, hhyde⟩, -, hreranked, ⟨reason', hcrag⟩, -, hfabricated, ⟨reason'', hreflection⟩,
    -, houtput⟩ := hs
  rw [Stages.pipelineFallback, Stages.pipelineFallback, hhyde, hreranked, hcrag, hfabricated,
    hreflection, houtput]

/-- What follows a write to a cache. -/
theorem quiet_written {α : Type} {x : Except Raised Unit} {failed done : α} :
    (∀ e, x = .error e → e.isException = true) →
      Quiet view o (fun _ => True) (match x with
        | .error e => if e.isException then return failed else .raise e
        | .ok () => return done : RagProgram α) := by
  intro hx
  cases x with
  | ok _ => exact quiet_pure trivial
  | error e =>
    dsimp only
    rw [if_pos (hx e rfl)]
    exact quiet_pure trivial

/-- A response is cached in both runs or in neither. -/
theorem matches_cacheResponse (halike : Alike view o o') {s s' : Stages} (hs : StagesAlike s s')
    (original : Option Embedding) :
    Matches view o o' (fun _ _ => True) (svc.cacheResponse q s original)
      (svc.cacheResponse q' s' original) := by
  rw [cacheResponse, cacheResponse, pipelineFallback_of_alike hs]
  split
  · exact matches_pure trivial
  have hset : Matches view o o' (fun _ _ => True) (svc.setCached q.cacheKey (svc.respond q s))
      (svc.setCached q'.cacheKey (svc.respond q' s')) := by
    refine matches_call (fun h h' _ => halike.set _ _ _ _ _ _) fun h h' _ => ?_
    exact ((quiet_written (halike.misses.set h _ _)).matches
      (quiet_written (halike.misses'.set h' _ _))).mono fun _ _ _ => trivial
  refine matches_bind hset fun written written' _ => ?_
  cases original with
  | none => exact matches_pure trivial
  | some embedding =>
    have hrecord : ∀ {o : RagOracle} {q : RagRequest} {written : Bool}, CacheMisses o →
        Quiet view o (fun _ => True)
          (if written && svc.semanticOn q then recordSemanticCache q embedding else return ()) := by
      intro o q written ho
      split
      · refine quiet_call (fun h => halike.record _ _ _ _ _) fun h => ?_
        exact quiet_written (ho.record h _ _ _ _)
      · exact quiet_pure trivial
    exact ((hrecord halike.misses).matches (hrecord halike.misses')).mono fun _ _ _ => trivial

/-- Responses that say the same, with the same sources. -/
structure SameAnswer (response response' : RagChatResponse) : Prop where
  answer : response'.answer = response.answer
  sources : response'.sources = response.sources
  confidence : response'.confidence = response.confidence
  finalEvidence : response'.finalEvidence = response.finalEvidence
  flaggedClaims : response'.flaggedClaims = response.flaggedClaims

theorem sameAnswer_of_alike (htwins : Twins svc view o o' q q') {s s' : Stages}
    (hs : StagesAlike s s') : SameAnswer (svc.respond q s) (svc.respond q' s') := by
  obtain ⟨-, hretrieved, -, -, -, -, ⟨reason, hreflection⟩, hanswer, -⟩ := hs
  constructor <;> simp only [respond, hreflection, hanswer, hretrieved, htwins.strategy, htwins.topK]

theorem matches_generateAnswer (halike : Alike view o o') (htwins : Twins svc view o o' q q')
    (original : Option Embedding) :
    Matches view o o' SameAnswer (svc.generateAnswer q original)
      (svc.generateAnswer q' original) := by
  refine matches_bind (matches_gather halike htwins original) ?_
  rintro ⟨gathered, original⟩ ⟨gathered', _⟩ ⟨hgathered, rfl⟩
  refine matches_bind (matches_compose halike htwins hgathered) ?_
  intro s s' hs
  refine matches_bind (matches_cacheResponse halike hs original) fun _ _ _ => ?_
  exact matches_pure (sameAnswer_of_alike htwins hs)

/-- Twin requests are answered the same, and cached both or neither. -/
theorem matches_serve (halike : Alike view o o') (htwins : Twins svc view o o' q q') :
    Matches view o o' SameAnswer (svc.serve q) (svc.serve q') := by
  refine matches_bind (matches_lookup halike htwins) ?_
  rintro ⟨_, original⟩ ⟨_, _⟩ ⟨rfl, rfl, rfl⟩
  exact matches_generateAnswer halike htwins original

end RAGService

/-! ## What is compared -/

/-- Stages whose calls are not compared. -/
structure HiddenStages where
  crag : Bool
  reflection : Bool
  deriving DecidableEq, Repr

namespace HiddenStages

variable (stages : HiddenStages)

/-- A call that only such a stage makes. -/
def Hides : RagOp → Prop
  | .correct _ _ _ => stages.crag = true
  | .critique _ _ _ | .revise _ _ _ _ | .decide _ _ _ _ | .perfCounter => stages.reflection = true
  | _ => False

instance (op : RagOp) : Decidable (stages.Hides op) := by
  cases op <;> unfold Hides <;> infer_instance

/-- The calls to a cache and the reading of the snapshot. -/
def Stores : RagOp → Prop
  | .currentConfig | .cacheGet _ | .cacheSet _ _ | .findCandidates _ _ _ _
  | .recordSemantic _ _ _ _ => True
  | _ => False

/-- What of a run is compared : that a response is cached, and every call but those to a cache
and those of the stages. -/
def view : RagEvent → Option (Option RagEvent)
  | ⟨.currentConfig, _⟩ | ⟨.cacheGet _, _⟩ | ⟨.findCandidates _ _ _ _, _⟩
  | ⟨.recordSemantic _ _ _ _, _⟩ => none
  | ⟨.cacheSet _ _, _⟩ => some none
  | event => if stages.Hides event.1 then none else some (some event)

/-- Surroundings of the two runs : what is compared is answered alike wherever the compared
histories are, both caches miss, and what a stage raises where it is not compared is an
`Exception`. -/
structure Surroundings (o o' : RagOracle) : Prop where
  alike : ∀ op, ¬Stores op → ¬stages.Hides op →
    ∀ h h', LooksLike stages.view h h' → o h op = o' h' op
  misses : CacheMisses o
  misses' : CacheMisses o'
  crag : stages.crag = true → ∀ h question chunks allowWeb e,
    o h (.correct question chunks allowWeb) = .error e → e.isException = true
  reflection : stages.reflection = true → RAGService.EngineRaises o

variable {stages} {o o' : RagOracle}

theorem view_of_hides {op : RagOp} (hop : stages.Hides op) (r : op.Res) :
    stages.view ⟨op, r⟩ = none := by
  cases op <;> first | exact hop.elim | exact if_pos hop

theorem exists_of_view {op : RagOp} {r : op.Res} (h : stages.view ⟨op, r⟩ = some none) :
    ∃ key value, op = .cacheSet key value := by
  unfold view at h
  split at h
  · exact nomatch h
  · exact nomatch h
  · exact nomatch h
  · exact nomatch h
  · rename_i hevent
    exact ⟨_, _, (Sigma.mk.inj hevent).1⟩
  · split at h <;> exact nomatch h

theorem Surroundings.shown (h : stages.Surroundings o o') {op : RagOp} (hstores : ¬Stores op)
    (hhides : ¬stages.Hides op) : RAGService.Shown stages.view o o' op :=
  h.alike op hstores hhides

theorem Surroundings.alikeRuns (h : stages.Surroundings o o') : Alike stages.view o o' where
  common op hop := by
    refine h.alike op ?_ ?_
    · cases op <;> first | exact id | exact hop.elim
    · cases op <;> first | exact id | exact hop.elim
  get _ _ := rfl
  find _ _ _ _ _ := rfl
  record _ _ _ _ _ := rfl
  set _ _ _ _ _ _ := rfl
  misses := h.misses
  misses' := h.misses'

/-- A response is cached. -/
def CachesResponse (h : List RagEvent) : Prop :=
  ∃ key value r, (⟨.cacheSet key value, r⟩ : RagEvent) ∈ h

theorem cachesResponse_iff {h h' : List RagEvent} (hlooks : LooksLike stages.view h h') :
    CachesResponse h ↔ CachesResponse h' := by
  have hshown : ∀ h : List RagEvent, CachesResponse h ↔ none ∈ h.filterMap stages.view := by
    intro h
    rw [List.mem_filterMap]
    constructor
    · rintro ⟨key, value, r, hmem⟩
      exact ⟨_, hmem, rfl⟩
    · rintro ⟨⟨op, r⟩, hmem, hview⟩
      obtain ⟨key, value, rfl⟩ := exists_of_view hview
      exact ⟨key, value, r, hmem⟩
  rw [hshown, hshown, hlooks]

/-- Calls whose requests are twins are answered the same, and cached both or neither. -/
theorem Surroundings.agree_answer {svc : RAGService} {call call' : AnswerCall}
    (h : stages.Surroundings o o')
    (hprepare : Agree (RAGService.Twins svc stages.view o o')
      (svc.prepare (o [] .currentConfig) call) (svc.prepare (o' [] .currentConfig) call')) :
    Agree RAGService.SameAnswer (run o [] (svc.answer call)).1 (run o' [] (svc.answer call')).1 ∧
      (CachesResponse (run o [] (svc.answer call)).2 ↔
        CachesResponse (run o' [] (svc.answer call')).2) := by
  have hmatches : Matches stages.view o o' RAGService.SameAnswer
      (orRaise (svc.prepare (o [] .currentConfig) call) >>= svc.serve)
      (orRaise (svc.prepare (o' [] .currentConfig) call') >>= svc.serve) :=
    matches_bind (matches_orRaise hprepare) fun q q' htwins =>
      RAGService.matches_serve h.alikeRuns htwins
  obtain ⟨hlooks, hagree⟩ := hmatches [⟨.currentConfig, o [] .currentConfig⟩]
    [⟨.currentConfig, o' [] .currentConfig⟩] rfl
  exact ⟨hagree, cachesResponse_iff hlooks⟩

end HiddenStages

end EnterpriseRag
