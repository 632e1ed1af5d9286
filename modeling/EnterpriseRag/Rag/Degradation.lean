import EnterpriseRag.Rag.EvidenceGuard
import EnterpriseRag.Rag.Runs

/-!
# Degraded answers are not cached

A response is `Generated` when a run got past both caches and its stages came to an end. It
is `Undegraded` if no stage fell back, abstained, used the web or was blocked, and no call of
the run told of it (`Sound`). A run that writes a cache has generated an undegraded response,
and the writes are the last one or two events of it (`undegraded_of_write`).
-/

namespace EnterpriseRag

open Program

namespace RAGService

variable (svc : RAGService)

/-- A call that tells of no degradation. What CRAG and reflection do outside the treatment
cohort is not served. -/
def Sound (q : RagRequest) : RagEvent → Prop
  | ⟨.embedTexts _, r⟩ => ∃ embeddings, r = .ok embeddings
  | ⟨.transform _, r⟩ => ∃ outcome, r = .ok outcome ∧ outcome.fallback = false
  | ⟨.rerank _ _ _ _, r⟩ => ∃ outcome, r = .ok outcome ∧ outcome.fallback = false
  | ⟨.correct _ _ _, r⟩ => q.cragPlan.cohort = .treatment → ∃ outcome, r = .ok outcome ∧
      outcome.fallback = false ∧ outcome.abstain = false ∧ outcome.webUsed = false
  | ⟨.generate evidence _, r⟩ => ∃ answer, r = .ok answer ∧
      findFabricatedCitations answer evidence = .ok []
  | ⟨.critique _ _ _, r⟩ => q.selfReflectionPlan.cohort = .treatment → ∃ critique, r = .ok critique
  | ⟨.retrieve _ _ _ _ _, r⟩ => ∃ chunks, r = .ok chunks
  | ⟨.revise _ evidence _ _, r⟩ => q.selfReflectionPlan.cohort = .treatment →
      ∃ revised, r = .ok revised ∧ findFabricatedCitations revised.1 evidence = .ok []
  | _ => True

/-- The stages of a request came to `s` in a run that both caches missed in, with `h` as the
history after them. -/
structure Generated (o : RagOracle) (call : AnswerCall) (q : RagRequest) (s : Stages)
    (original : Option Embedding) (h : List RagEvent) : Prop where
  prepared : svc.prepare (o [] .currentConfig) call = .ok q
  ran : ∃ looked h₀ gathered h₁,
    run o [⟨.currentConfig, o [] .currentConfig⟩] (svc.lookup q) = (.ok (none, looked), h₀) ∧
      run o h₀ (svc.gather q looked) = (.ok (gathered, original), h₁) ∧
      run o h₁ (svc.compose q gathered) = (.ok s, h)

/-- No stage degraded the answer, and no call told of it. -/
structure Undegraded (q : RagRequest) (s : Stages) (h : List RagEvent) : Prop where
  rerank : s.reranked.any (·.fallback) = false
  hyde : s.hyde.fallback = false
  crag : s.crag.fallback = false ∧ s.crag.webUsed = false ∧ s.crag.abstain = false
  draft : s.fabricated = false
  reflection : s.reflection.fallback = false ∧ s.reflection.abstain = false ∧
    s.reflection.accepted = true
  output : s.outputAction ≠ .block
  calls : ∀ event ∈ h, Sound q event

variable {svc} {q : RagRequest} {g : Prop}

/-! ## What the calls of a stage tell -/

/-- From `g` on, the calls of a run that returns one of `P` are sound if those since `g₀` are. -/
abbrev Tells {α : Type} (q : RagRequest) (P : α → Prop) (g₀ g : Prop) (p : RagProgram α) : Prop :=
  Keeps (fun _ _ => True) (stillAll (Sound q)) (Since P g₀) g p

theorem tells_of_uses {α : Type} {S : RagOp → Prop} {P : α → Prop} {p : RagProgram α}
    (hS : ∀ op, S op → ∀ r, Sound q ⟨op, r⟩) (h : p.Uses S) : Tells q P g g p := by
  refine (h.keeps (I := fun g' => g → g') (fun g' op hop hg => ⟨trivial, fun r hstart => ?_⟩)
    (fun hg => hg)).mono fun g' x hg a _ _ => hg
  exact ⟨hg hstart, hS op hop r⟩

theorem tells_pure {α : Type} {P : α → Prop} {g₀ : Prop} {a : α} (h : P a → g₀ → g) :
    Tells q P g₀ g (Pure.pure a) := by
  rintro _ ha hP
  obtain rfl := Except.ok.inj ha
  exact h hP

/-- A call whose failure is raised. -/
theorem tells_ask {α : Type} {P : α → Prop} {op : RagOp} {f : op.Res → Except Raised α}
    (h : ∀ r a, f r = .ok a → P a → Sound q ⟨op, r⟩) : Tells q P g g (ask op f) :=
  keeps_ask.2 ⟨trivial, fun r a ha hP hg => ⟨hg, h r a ha hP⟩⟩

/-- A part behind a guard, whose handler returns none of `P`. -/
theorem tells_exceptException {α : Type} {P : α → Prop} {g₀ : Prop} {p : RagProgram α}
    {handler : Raised → RagProgram α} (hp : Tells q P g₀ g p)
    (huses : ∀ e, (handler e).Uses fun _ => False)
    (hreturns : ∀ e, (handler e).Returns fun a => ¬P a) :
    Tells q P g₀ g (p.exceptException handler) := by
  rw [Tells, RagProgram.exceptException, keeps_tryCatch]
  refine hp.mono fun g' x hx => ?_
  cases x with
  | ok a => exact hx
  | error e =>
    dsimp only
    split
    · refine ((huses e).keeps_returns (I := fun _ => True) (fun _ _ hop => hop.elim)
        (hreturns e) trivial).mono fun g'' x hnot a ha hP => ?_
      exact absurd hP (hnot.2 a ha)
    · exact fun _ h => by cases h

theorem tells_of_guards {α : Type} {P : α → Prop} {p : RagProgram α} (h : p.Uses RagOp.Guards) :
    Tells q P g g p := by
  refine tells_of_uses (fun op hop r => ?_) h
  cases op <;> first | exact hop.elim | trivial

theorem tells_embedOne (text : String) : Tells q (fun _ => True) g g (embedOne text) := by
  refine tells_ask fun r a ha _ => ?_
  cases r with
  | error e => exact nomatch ha
  | ok embeddings => exact ⟨embeddings, rfl⟩

theorem tells_hydeStage :
    Tells q (fun hyde => hyde.1.fallback = false) g g (svc.hydeStage q) := by
  rw [hydeStage]
  split
  · have htransform : Tells q (fun outcome => outcome.fallback = false) g g
        (svc.transformQuestion q.call.question) := by
      refine tells_exceptException (tells_ask ?_) (fun e => uses_pure _) fun e => returns_pure ?_
      · rintro _ outcome rfl hfallback
        exact ⟨outcome, rfl, hfallback⟩
      · exact fun h => by cases h
    refine keeps_since_bind htransform fun g' outcome hg => ?_
    split
    · refine tells_exceptException ?_ (fun e => uses_pure _) fun e => returns_pure ?_
      · refine keeps_ask_bind trivial (fun _ _ _ _ h => by cases h) ?_
        rintro _ embeddings rfl
        refine keeps_orRaise_bind (fun _ _ _ h => by cases h) fun embedding _ => ?_
        exact tells_pure fun hfallback hstart => ⟨hg hfallback hstart, embeddings, rfl⟩
      · exact fun h => by cases h
    · exact tells_pure hg
  · exact tells_pure fun _ hg => hg

theorem tells_questionEmbedding (original : Option Embedding) :
    Tells q (fun _ => True) g g (questionEmbedding q original) := by
  cases original with
  | some embedding => exact tells_pure fun _ hg => hg
  | none =>
    dsimp only [questionEmbedding]
    split
    · refine keeps_since_bind (tells_embedOne _) fun g' embedding hg => ?_
      exact tells_pure fun _ => hg trivial
    · exact tells_pure fun _ hg => hg

theorem tells_retrieveStage (original : Option Embedding) :
    Tells q (fun retrieved => retrieved.1.fallback = false) g g
      (svc.retrieveStage q original) := by
  have hretrieve : ∀ {g' : Prop} {hyde : QueryTransformOutcome × Option Embedding} original
      embedding, (hyde.1.fallback = false → g → g') →
      Tells q (fun retrieved => retrieved.1.fallback = false) g g' (do
        let chunks ← ask (.retrieve .request q.strategy q.call.question embedding q.candidateTopK) id
        return (hyde.1, original, chunks) :
          RagProgram (QueryTransformOutcome × Option Embedding × List RetrievedChunk)) := by
    intro g' hyde original embedding hg
    refine keeps_ask_bind trivial (fun _ _ _ _ h => nomatch h) ?_
    rintro _ chunks rfl
    exact tells_pure fun hfallback hstart => ⟨hg hfallback hstart, chunks, rfl⟩
  rw [retrieveStage]
  refine keeps_since_bind tells_hydeStage fun g₁ hyde h₁ => ?_
  dsimp only
  split
  · exact hretrieve original _ h₁
  · refine keeps_since_bind (tells_questionEmbedding original) fun g₂ original h₂ => ?_
    exact hretrieve original _ fun hfallback hstart => h₂ trivial (h₁ hfallback hstart)

theorem tells_rerankStage (chunks : List RetrievedChunk) :
    Tells q (fun reranked => reranked.any (·.fallback) = false) g g
      (svc.rerankStage q chunks) := by
  have hexecute : ∀ backend, Tells q (fun outcome => outcome.fallback = false) g g
      (svc.executeRerank q backend chunks) := by
    intro backend
    rw [executeRerank]
    split
    · refine keeps_orRaise_bind (fun _ _ _ h => by cases h) fun outcome _ => ?_
      exact tells_pure fun _ hg => hg
    · refine tells_exceptException (tells_ask ?_) (fun e => ?_) fun e => ?_
      · rintro _ outcome rfl hfallback
        exact ⟨outcome, rfl, hfallback⟩
      · exact Uses.bind (fun _ => uses_pure _) (uses_orRaise _)
      · refine Returns.bind (fun outcome _ => returns_pure ?_) (returns_true _)
        exact fun h => by cases h
  rw [rerankStage]
  split
  · split
    · exact tells_pure fun _ hg => hg
    · refine keeps_since_bind (hexecute _) fun g' outcome hg => ?_
      exact tells_pure hg
  · exact tells_pure fun _ hg => hg

/-- CRAG as it is served. -/
def CragServed (crag : CRAGOutcome) : Prop :=
  crag.fallback = false ∧ crag.webUsed = false ∧ crag.abstain = false

theorem tells_cragStage (chunks : List RetrievedChunk) :
    Tells q CragServed g g (cragStage q chunks) := by
  rw [cragStage]
  by_cases htreatment : q.cragPlan.cohort = .treatment
  · have hexecute : Tells q CragServed g g (executeCrag q chunks) := by
      rw [executeCrag, if_pos (Or.inl htreatment)]
      refine tells_exceptException (tells_ask ?_) (fun e => uses_pure _) fun e => returns_pure ?_
      · rintro _ outcome rfl ⟨hfallback, hweb, habstain⟩ -
        exact ⟨outcome, rfl, hfallback, habstain, hweb⟩
      · exact fun hserved => by cases hserved.1
    refine keeps_since_bind hexecute fun g' outcome hg => ?_
    rw [if_neg (by simp [htreatment])]
    exact tells_pure hg
  · have hexecute : Tells q (fun _ => True) g g (executeCrag q chunks) := by
      refine tells_of_uses (S := (· = .correct q.call.question chunks q.cragPlan.allowWeb)) ?_
        (uses_executeCrag fun _ => rfl)
      rintro _ rfl r hcohort
      exact absurd hcohort htreatment
    refine keeps_since_bind hexecute fun g' outcome hg => ?_
    split <;> exact tells_pure fun _ => hg trivial

/-- Nothing up to the evidence degraded the answer. -/
def GatheredServed (s : Stages) : Prop :=
  s.reranked.any (·.fallback) = false ∧ s.hyde.fallback = false ∧ CragServed s.crag

/-- The guard leaves what CRAG said of itself. -/
theorem tells_guardStage {g₀ : Prop} {outcome : CRAGOutcome} (h : CragServed outcome → g₀ → g) :
    Tells q CragServed g₀ g (svc.guardStage q outcome) := by
  rw [guardStage]
  refine keeps_orRaise_bind (fun _ _ _ h => by cases h) fun filtered _ => ?_
  have hrecord : Tells q (fun _ => True) g g (recordEvent filtered.2) :=
    tells_of_guards (uses_recordEvent _)
  refine keeps_since_bind hrecord fun g' _ hg => ?_
  exact tells_pure fun hserved hstart => hg trivial (h hserved hstart)

theorem tells_gather (original : Option Embedding) :
    Tells q (fun gathered => GatheredServed gathered.1) g g (svc.gather q original) := by
  refine keeps_since_bind (tells_retrieveStage original) fun g₁ retrieved h₁ => ?_
  refine keeps_since_bind (tells_rerankStage _) fun g₂ reranked h₂ => ?_
  refine keeps_since_bind (tells_cragStage _) fun g₃ corrected h₃ => ?_
  refine keeps_since_bind (tells_guardStage h₃) fun g₄ crag h₄ => ?_
  refine tells_pure fun hserved hstart => ?_
  obtain ⟨hreranked, hhyde, hcrag⟩ := hserved
  exact h₄ hcrag (h₂ hreranked (h₁ hhyde hstart))

theorem tells_draft (crag : CRAGOutcome) :
    Tells q (fun drafted => drafted.2 = false) g g (draft q crag) := by
  rw [draft]
  split
  · exact tells_pure fun _ hg => hg
  · refine keeps_ask_bind trivial (fun _ _ _ _ h => by cases h) ?_
    rintro _ answer rfl
    refine keeps_orRaise_bind (fun _ _ _ h => by cases h) fun fabricated hfabricated => ?_
    split
    · rename_i hnone
      exact tells_pure fun _ hg => ⟨hg, answer, rfl, hnone ▸ hfabricated⟩
    · exact tells_pure fun h => by cases h

theorem tells_retrieveReflectionEvidence (query : String) :
    Tells q (fun _ => True) g g (svc.retrieveReflectionEvidence q query) := by
  have hretrieve : ∀ {g' : Prop} embedding, (g → g') →
      Tells q (fun _ => True) g g' (do
        let chunks ← ask (.retrieve .reflection q.strategy query embedding
          svc.reflectionRetrievalTopK) id
        return localEvidence chunks) := by
    intro g' embedding hg
    refine keeps_ask_bind trivial (fun _ _ _ _ h => nomatch h) ?_
    rintro _ chunks rfl
    exact tells_pure fun _ hstart => ⟨hg hstart, chunks, rfl⟩
  rw [retrieveReflectionEvidence]
  split
  · have hembed : Tells q (fun _ => True) g g (some <$> embedOne query) := by
      refine keeps_since_bind (tells_embedOne query) fun g' embedding hg => ?_
      exact tells_pure fun _ => hg trivial
    exact keeps_since_bind hembed fun g' embedding hg => hretrieve embedding (hg trivial)
  · exact hretrieve none fun hg => hg

/-- A failure of the engine tells only in the treatment cohort. -/
theorem roundRule_tells {question : String} {maxRetrievals : ℕ} {b : Prop}
    (hplan : 0 < maxRetrievals → q.selfReflectionPlan.cohort = .treatment) :
    RoundRule svc.selfReflection question maxRetrievals (svc.retrieveReflectionEvidence q)
      (fun _ _ => True) (stillAll (Sound q)) (fun g _ _ => b → g) (fun g _ _ => b → g)
      (fun g _ _ => b → g) (fun g _ _ => b → g)
      (fun g => q.selfReflectionPlan.cohort ≠ .treatment → b → g) where
  clock g := ⟨trivial, fun r => and_true g⟩
  decide g _ _ _ _ := ⟨trivial, fun r => and_true g⟩
  start h := h
  critique h := ⟨trivial, fun _ hcohort hstart => ⟨h hstart, fun h => absurd h hcohort⟩,
    fun c hstart => ⟨h hstart, fun _ => ⟨c, rfl⟩⟩⟩
  accept h := h
  decline h := h
  invalid h _ := h
  keep h := h
  augment := by
    rintro hmax g answer evidence query h
    refine (tells_retrieveReflectionEvidence query).mono fun g' x hx => ?_
    cases x with
    | error e => exact fun hcohort => absurd (hplan hmax) hcohort
    | ok additional => exact fun hstart => hx additional rfl trivial (h hstart)
  exhaust h := h
  revise h := ⟨trivial, fun _ => ⟨fun hcohort hstart => ⟨h hstart, fun h => absurd h hcohort⟩,
    fun revised hrevised hnone hstart => ⟨h hstart, fun _ => ⟨revised, hrevised, hnone⟩⟩⟩⟩

theorem tells_reflectStage {crag : CRAGOutcome} {answer : String} {fabricated : Bool}
    (hplan : q.selfReflectionPlan.cohort ≠ .treatment →
      q.selfReflectionPlan.allowRetrieval = false) :
    Tells q (fun outcome => outcome.fallback = false) g g
      (svc.reflectStage q crag answer fabricated) := by
  have hrule : RoundRule svc.selfReflection q.call.question
      (if q.selfReflectionPlan.allowRetrieval then svc.selfReflection.maxAdditionalRetrievals
        else 0) (svc.retrieveReflectionEvidence q) _ _ _ _ _ _ _ :=
    roundRule_tells (b := g) fun hmax => by
      by_contra hcohort
      rw [hplan hcohort] at hmax
      exact Nat.lt_irrefl 0 hmax
  have hexecute : Keeps (fun _ _ => True) (stillAll (Sound q)) _ g
      (svc.selfReflection.execute q.call.question crag.evidence answer
        (svc.retrieveReflectionEvidence q) q.selfReflectionPlan) :=
    hrule.keeps_execute fun hg => hg
  rw [reflectStage]
  split
  · rename_i hshadow
    have hcohort : q.selfReflectionPlan.cohort ≠ .treatment := by
      simp only [Bool.and_eq_true, decide_eq_true_eq] at hshadow
      simp [hshadow.2]
    refine hexecute.bind (fun _ _ _ _ h => by cases h) fun g' outcome hg => ?_
    refine tells_pure fun _ => ?_
    rcases hg with hg | ⟨hg, -⟩
    · exact hg.1
    · exact hg hcohort
  · split
    · refine hexecute.mono fun g' x hx outcome hok hfallback => ?_
      subst hok
      rcases hx with hx | ⟨-, rfl⟩
      · exact hx.1
      · cases hfallback
    · exact tells_pure fun _ hg => hg

/-- Nothing from the draft on degraded the answer. -/
def ComposedServed (s : Stages) : Prop :=
  s.fabricated = false ∧ s.reflection.fallback = false

theorem tells_compose {s : Stages} (hplan : q.selfReflectionPlan.cohort ≠ .treatment →
      q.selfReflectionPlan.allowRetrieval = false) :
    Tells q ComposedServed g g (svc.compose q s) := by
  refine keeps_since_bind (tells_draft s.crag) fun g₁ drafted h₁ => ?_
  refine keeps_since_bind (tells_reflectStage hplan) fun g₂ outcome h₂ => ?_
  have houtput : Tells q (fun _ => True) g₂ g₂
      (svc.outputStage q (withoutFallback outcome).answer) := tells_of_guards (uses_outputStage _)
  refine keeps_since_bind houtput fun g₃ served h₃ => ?_
  refine tells_pure fun hserved hstart => h₃ trivial (h₂ ?_ (h₁ hserved.1 hstart))
  have hfallback : (withoutFallback outcome).fallback = outcome.fallback := by
    rw [withoutFallback]
    split <;> rfl
  exact hfallback ▸ hserved.2

/-! ## The writes -/

theorem not_writesCache_of_composes {op : RagOp} (h : op.Composes) : op.writesCache = false := by
  cases op <;> first | rfl | exact h.elim

theorem not_writesCache_of_gathers {op : RagOp} (h : op.Gathers) : op.writesCache = false := by
  rcases h with h | ⟨strategy, text, embedding, topK, rfl⟩
  · exact not_writesCache_of_composes (composes_of_plain h)
  · rfl

theorem not_writesCache_of_lookup {op : RagOp} (h : op.ReadsCache ∨ op.Plain) :
    op.writesCache = false := by
  cases op <;> first | rfl | exact (or_self_iff.1 h).elim

/-- What a run writes into the caches : the response under the key of the request, and then,
if that was taken, a pointer to the key from the question. -/
def Writes (svc : RAGService) (q : RagRequest) (s : Stages) (original : Option Embedding)
    (h h' : List RagEvent) : Prop :=
  let write := RagOp.cacheSet q.cacheKey (svc.modelDumpJson (svc.respond q s))
  (∃ r : write.Res, h' = h ++ [⟨write, r⟩]) ∨
    ∃ embedding r, original = some embedding ∧ svc.semanticOn q = true ∧
      h' = h ++ [⟨write, .ok ()⟩,
        ⟨.recordSemantic embedding q.cacheNamespace q.call.topK q.cacheKey, r⟩]

theorem run_recordSemanticCache {o : RagOracle} (embedding : Embedding) (h : List RagEvent) :
    (run o h (recordSemanticCache q embedding)).2 =
      h ++ [⟨.recordSemantic embedding q.cacheNamespace q.call.topK q.cacheKey, o h _⟩] := by
  rw [recordSemanticCache, run_attempt_bind]
  dsimp only [id]
  split
  · split <;> rfl
  · rfl

/-- The cache writes of a response that no stage degraded. -/
theorem writes_cacheResponse {o : RagOracle} {s : Stages} {original : Option Embedding}
    {h : List RagEvent} (hfallback : s.pipelineFallback = false) :
    svc.Writes q s original h (run o h (svc.cacheResponse q s original)).2 := by
  rw [cacheResponse, if_neg (by simp [hfallback]), bind_eq, run_bind, setCached, run_attempt_bind]
  cases hwrite : o h (.cacheSet q.cacheKey (svc.modelDumpJson (svc.respond q s))) with
  | error e =>
    by_cases hexception : e.isException = true
    · refine Or.inl ⟨.error e, ?_⟩
      cases original <;> simp [run, hexception]
    · refine Or.inl ⟨.error e, ?_⟩
      simp [run, hexception]
  | ok written =>
    cases original with
    | none => exact Or.inl ⟨.ok written, rfl⟩
    | some embedding =>
      cases hon : svc.semanticOn q with
      | false => exact Or.inl ⟨.ok written, rfl⟩
      | true =>
        have hrecord := run_recordSemanticCache (q := q) (o := o) embedding
          (h ++ [⟨.cacheSet q.cacheKey (svc.modelDumpJson (svc.respond q s)), .ok written⟩])
        rw [List.append_assoc] at hrecord
        exact Or.inr ⟨embedding, _, rfl, hon, hrecord⟩

theorem not_fallback {s : Stages} {h : List RagEvent} (hfallback : s.pipelineFallback = false)
    (hcalls : ∀ event ∈ h, Sound q event) : Undegraded q s h := by
  simp only [Stages.pipelineFallback, Bool.or_eq_false_iff, Bool.not_eq_false',
    decide_eq_false_iff_not] at hfallback
  obtain ⟨⟨⟨⟨⟨⟨⟨⟨⟨hrerank, hhyde⟩, hcrag⟩, hweb⟩, habstain⟩, hdraft⟩, hreflection⟩, hdeclined⟩,
    haccepted⟩, houtput⟩ := hfallback
  exact ⟨hrerank, hhyde, ⟨hcrag, hweb, habstain⟩, hdraft, ⟨hreflection, hdeclined, haccepted⟩,
    houtput, hcalls⟩

/-- A look-up that returned raised nothing. -/
theorem tells_lookup : Tells q (fun _ => True) g g (svc.lookup q) := by
  have hcached : ∀ {p : RagProgram (Option RagChatResponse)} {g : Prop},
      p.Uses RagOp.ReadsCache → Tells q (fun _ => True) g g p := by
    intro p g hp
    refine tells_of_uses (fun op hop r => ?_) hp
    cases op <;> first | exact hop.elim | trivial
  refine keeps_since_bind (hcached (uses_getCached trivial)) fun g₁ found h₁ => ?_
  cases found with
  | some response => exact tells_pure h₁
  | none =>
    dsimp only
    split
    · refine keeps_since_bind (tells_embedOne _) fun g₂ embedding h₂ => ?_
      refine keeps_since_bind (hcached (uses_checkSemanticCache (fun _ => trivial)
        (fun _ _ _ _ => trivial) embedding)) fun g₃ found h₃ => ?_
      exact tells_pure fun _ hg => h₃ trivial (h₂ trivial (h₁ trivial hg))
    · exact tells_pure h₁

theorem served_of_not_fallback {q : RagRequest} {s : Stages}
    (hfallback : s.pipelineFallback = false) : GatheredServed s ∧ ComposedServed s := by
  have h := not_fallback hfallback (h := []) (q := q) (List.forall_mem_nil _)
  exact ⟨⟨h.rerank, h.hyde, h.crag⟩, h.draft, h.reflection.1⟩

/-- A run that writes a cache once both caches missed has come to the end of its stages. -/
theorem writes_generateAnswer {o : RagOracle} {looked : Option Embedding} {h₀ : List RagEvent}
    {event : RagEvent} (hh₀ : event ∉ h₀) (hwrites : event.1.writesCache = true)
    (hevent : event ∈ (run o h₀ (svc.generateAnswer q looked)).2) :
    ∃ gathered original s h₁ h₂, run o h₀ (svc.gather q looked) = (.ok (gathered, original), h₁) ∧
      run o h₁ (svc.compose q gathered) = (.ok s, h₂) ∧ s.pipelineFallback = false ∧
      svc.Writes q s original h₂ (run o h₀ (svc.generateAnswer q looked)).2 ∧
      ∀ response, (run o h₀ (svc.generateAnswer q looked)).1 = .ok response →
        response = svc.respond q s := by
  have hplain : ¬event.1.writesCache = false := by simp [hwrites]
  obtain ⟨⟨gathered, original⟩, h₁, hgather, hh₁, hrun₁⟩ :=
    ((uses_gather looked).mono fun _ => not_writesCache_of_gathers).exists_run_bind hplain hh₀
      hevent
  rw [generateAnswer, hrun₁] at hevent
  obtain ⟨s, h₂, hcompose, hh₂, hrun₂⟩ :=
    ((uses_compose gathered).mono fun _ => not_writesCache_of_composes).exists_run_bind hplain
      hh₁ hevent
  have htail : run o h₀ (svc.generateAnswer q looked) =
      run o h₂ (svc.cacheResponse q s original >>= fun _ => return svc.respond q s) :=
    hrun₁.trans hrun₂
  have hcached : (run o h₀ (svc.generateAnswer q looked)).2 =
      (run o h₂ (svc.cacheResponse q s original)).2 := by
    rw [htail, bind_eq, run_bind]
    split
    · rename_i hcache
      rw [hcache]
      rfl
    · rename_i hcache
      rw [hcache]
  refine ⟨gathered, original, s, h₁, h₂, hgather, hcompose, ?_⟩
  cases hfallback : s.pipelineFallback with
  | true =>
    have hevent : event ∈ (run o h₀ (svc.generateAnswer q looked)).2 := by
      rwa [generateAnswer, hrun₁]
    rw [hcached, cacheResponse, if_pos hfallback] at hevent
    exact absurd hevent hh₂
  | false =>
    refine ⟨rfl, hcached ▸ writes_cacheResponse hfallback, fun response hresponse => ?_⟩
    rw [htail] at hresponse
    obtain ⟨-, -, hresponse⟩ := run_bind_eq_ok.1 hresponse
    exact (Except.ok.inj hresponse).symm

/-- A run that writes a cache got past both caches without a degradation. The writes are the
last events of the run : the response under the key of the request, and after that, only if it
was taken, a pointer to the key with the namespace and the number of chunks the key is made of.
The response returned is the one written. -/
theorem undegraded_of_write {o : RagOracle} {call : AnswerCall} {event : RagEvent}
    (hevent : event ∈ (run o [] (svc.answer call)).2) (hwrites : event.1.writesCache = true) :
    ∃ q s original h, svc.Generated o call q s original h ∧ Undegraded q s h ∧
      q.cacheKey = svc.cacheKey call.question q.call.topK q.cacheNamespace ∧
      svc.Writes q s original h (run o [] (svc.answer call)).2 ∧
      ∀ response, (run o [] (svc.answer call)).1 = .ok response →
        response = svc.respond q s := by
  have hconfig : event.1 ≠ .currentConfig := fun heq => by
    rw [heq] at hwrites
    exact nomatch hwrites
  have hlookup : ¬(event.1.ReadsCache ∨ event.1.Plain) := fun hop => by
    rw [not_writesCache_of_lookup hop] at hwrites
    exact nomatch hwrites
  obtain ⟨q, looked, h₀, hprepared, hlookup, hh₀, hrun⟩ :=
    exists_generateAnswer hconfig hlookup hevent
  rw [hrun] at hevent ⊢
  obtain ⟨gathered, original, s, h₁, h₂, hgather, hcompose, hfallback, hwritten, hresponse⟩ :=
    writes_generateAnswer hh₀ hwrites hevent
  obtain ⟨-, hplan⟩ := plan_of_prepare hprepared
  refine ⟨q, s, original, h₂, ⟨hprepared, looked, h₀, gathered, h₁, hlookup, hgather,
    hcompose⟩, not_fallback hfallback ?_, ?_, hwritten, hresponse⟩
  · obtain ⟨hgathered, hcomposed⟩ := served_of_not_fallback (q := q) hfallback
    obtain ⟨hreranked, hhyde, hcrag⟩ := (returns_compose gathered).run (by rw [hcompose])
    have hstart : ∀ event ∈ [(⟨.currentConfig, o [] .currentConfig⟩ : RagEvent)],
        Sound q event := by
      intro event hmem
      obtain rfl := List.mem_singleton.1 hmem
      trivial
    have hlooked := Keeps.forall_mem_run (fun g => tells_lookup) hlookup trivial hstart
    have hgather := Keeps.forall_mem_run (fun g => tells_gather looked) hgather
      ⟨hreranked ▸ hgathered.1, hhyde ▸ hgathered.2.1, hcrag ▸ hgathered.2.2⟩ hlooked
    exact Keeps.forall_mem_run (fun g => tells_compose hplan) hcompose hcomposed hgather
  · rw [(prepared_of_prepare hprepared).call]
    exact (prepared_of_prepare hprepared).cacheKey

end RAGService

/-- The desk caches an answer that its reflection accepted after a revision. -/
theorem undegraded_of_write_desk : ∃ q s original h,
    desk.Generated (deskDay deskConfig [feesChunk] [scheduleChunk] "Two percent.")
        { question := "Fees?" } q s original h ∧ RAGService.Undegraded q s h ∧
      desk.Writes q s original h (feesRun [scheduleChunk]).2 := by
  have hany : ((feesRun [scheduleChunk]).2.any fun event => event.1.writesCache) = true := by
    decide +kernel
  obtain ⟨event, hevent, hwrites⟩ := List.any_eq_true.1 hany
  obtain ⟨q, s, original, h, hgenerated, hundegraded, -, hwritten, -⟩ :=
    RAGService.undegraded_of_write hevent hwrites
  exact ⟨q, s, original, h, hgenerated, hundegraded, hwritten⟩

end EnterpriseRag
