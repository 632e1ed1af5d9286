import EnterpriseRag.Rag.KnowledgeRefiner

/-!
# The fail-safe corrective retriever

`FailSafeCorrectiveRetriever.correct` and what its outcomes are for the rest of the pipeline.
An outcome that may be cached was reached before the web comes up, so it is the same with
leave to search the web and without (`cacheable_without_web`). A grade that is incorrect leaves
nothing to extract, and what is not abstained from has evidence (`served_with_evidence`).
-/

namespace EnterpriseRag

open Program
open ExtractiveKnowledgeRefiner (answering approvedGrade dueChunk strayIndices)

/-- The outcome keeps nothing from the cache. -/
def CRAGOutcome.Cacheable (outcome : CRAGOutcome) : Prop :=
  outcome.fallback = false ∧ outcome.webUsed = false ∧ outcome.abstain = false

/-- Collaborators that are functions of what they are given. -/
def stateless (f : (op : CragOp) → op.Res) : CragOracle :=
  fun _ op => f op

@[simp] theorem stateless_apply {f : (op : CragOp) → op.Res} {past : List CragEvent} {op : CragOp} :
    stateless f past op = f op :=
  rfl

namespace ProductionCorrectiveRetriever

/-- `FailSafeCorrectiveRetriever.correct`. -/
def failSafe (r : ProductionCorrectiveRetriever) (question : String)
    (chunks : List RetrievedChunk) (allowWeb : Bool) : CragProgram CRAGOutcome :=
  (r.correct question chunks allowWeb).tryCatch fun e =>
    if e.isException then return failSafeCorrect chunks e else .raise e

variable {r : ProductionCorrectiveRetriever} {question : String} {chunks : List RetrievedChunk}
  {allowWeb allowWeb' : Bool} {outcome : CRAGOutcome} {past past' : List CragEvent}

/-! ## The switch of the web -/

theorem returns_correctFromWeb_uncacheable {grade : RetrievalGrade}
    {localChunks : List EvidenceChunk} {tokens : ℤ} :
    (r.correctFromWeb question grade localChunks tokens).Returns fun outcome =>
      ¬outcome.Cacheable := by
  refine Returns.bind (fun query _ => ?_) (returns_true _)
  refine Returns.bind (fun results _ => ?_) (returns_true _)
  refine Returns.bind (fun web _ => ?_) (returns_true _)
  obtain ⟨webEvidence, webTokens⟩ := web
  dsimp only
  split
  · exact returns_pure fun h => nomatch h.2.2
  · refine Returns.bind (fun verification _ => ?_) (returns_true _)
    exact returns_pure fun h => nomatch h.2.1

/-- An outcome that may be cached is the one at the gate. -/
theorem run_correct_of_cacheable {f : (op : CragOp) → op.Res}
    (hrun : (run (stateless f) past (r.correct question chunks allowWeb)).1 = .ok outcome)
    (hcacheable : outcome.Cacheable) :
    (run (stateless f) past' (r.correct question chunks allowWeb')).1 = .ok outcome := by
  rw [correct, run_ask_bind, stateless_apply] at hrun ⊢
  cases hgrade : f (.grade question chunks) with
  | error e =>
    rw [hgrade] at hrun
    exact nomatch hrun
  | ok grade =>
    rw [hgrade] at hrun
    dsimp only [id] at hrun ⊢
    rw [run_ask_bind, stateless_apply] at hrun ⊢
    cases hrefined : f (.refineLocal question chunks grade) with
    | error e =>
      rw [hrefined] at hrun
      exact nomatch hrun
    | ok refined =>
      rw [hrefined] at hrun
      dsimp only [id] at hrun ⊢
      split at hrun
      · rename_i henough
        rw [if_pos henough]
        exact hrun
      · refine absurd hcacheable (Returns.run (P := fun outcome => ¬outcome.Cacheable) ?_ hrun)
        refine Returns.bind (fun webAllowed _ => ?_) (returns_true _)
        split
        · exact returns_correctFromWeb_uncacheable
        · exact returns_pure fun h => nomatch h.2.2

/-- If the outcome may be cached, it is the same with leave to search the web and without. -/
theorem cacheable_without_web {f : (op : CragOp) → op.Res}
    (hrun : (run (stateless f) past (r.failSafe question chunks allowWeb)).1 = .ok outcome)
    (hcacheable : outcome.Cacheable) :
    (run (stateless f) past' (r.failSafe question chunks allowWeb')).1 = .ok outcome := by
  rw [failSafe, run_tryCatch] at hrun ⊢
  have hcorrect : (run (stateless f) past (r.correct question chunks allowWeb)).1 =
      .ok outcome := by
    split at hrun
    · rename_i hfound
      rw [hfound]
      exact hrun
    · split at hrun
      · obtain rfl := Except.ok.inj hrun
        exact nomatch hcacheable.1
      · exact nomatch hrun
  have hsame : (run (stateless f) past' (r.correct question chunks allowWeb')).1 = .ok outcome :=
    run_correct_of_cacheable hcorrect hcacheable
  split
  · rename_i hfound
    rw [hfound] at hsame
    exact hsame
  · rename_i hraised
    rw [hraised] at hsame
    exact nomatch hsame

/-! ## Evidence -/

/-- A grade that is incorrect approves no chunk, as long as the refiner asks for as much as the
grader. -/
theorem refineLocal_of_incorrect {grader : StructuredLLMRetrievalGrader}
    {refiner : ExtractiveKnowledgeRefiner} {grade : RetrievalGrade}
    (hthreshold : grader.ambiguous ≤ refiner.minRelevance)
    (hgrade : grader.grade question chunks = .ok grade) (hincorrect : grade.decision = .incorrect) :
    refiner.refineLocal question chunks grade = .ok ([], 0) := by
  have hnone : grade.chunks.filter refiner.approves = [] := by
    rw [List.filter_eq_nil_iff]
    intro item hitem happroves
    rw [ExtractiveKnowledgeRefiner.approves, Bool.and_eq_true, decide_eq_true_eq] at happroves
    have hsupports : grader.supports item = true := by
      rw [StructuredLLMRetrievalGrader.supports, Bool.and_eq_true, decide_eq_true_eq]
      exact ⟨happroves.1, hthreshold.trans happroves.2⟩
    rw [StructuredLLMRetrievalGrader.not_supports_of_incorrect hgrade hincorrect hitem] at hsupports
    cases hsupports
  have hrelevant : refiner.relevant chunks grade = .ok [] := by
    rw [ExtractiveKnowledgeRefiner.relevant, hnone]
    exact congrArg Except.ok List.take_nil
  rw [ExtractiveKnowledgeRefiner.refineLocal, hrelevant]
  rfl

/-- Evidence, or abstention. -/
def HasEvidence (outcome : CRAGOutcome) : Prop :=
  outcome.abstain = false → outcome.evidence ≠ []

theorem returns_failSafe (hmin : 1 ≤ r.minEvidence) :
    (r.failSafe question chunks allowWeb).Returns HasEvidence := by
  refine Returns.tryCatch (fun e => ?_) (returns_correct.mono fun outcome hsufficient habstain => ?_)
  · split
    · refine returns_pure fun habstain hnone => ?_
      have hchunks : chunks ≠ [] := of_decide_eq_false habstain
      exact hchunks (List.map_eq_nil_iff.1 hnone)
    · trivial
  · exact List.ne_nil_of_length_pos (hmin.trans (hsufficient.2 habstain))

/-- An incorrect grade leaves no local evidence, and what is not abstained from has some. -/
theorem served_with_evidence {grader : StructuredLLMRetrievalGrader}
    {refiner : ExtractiveKnowledgeRefiner} (hthreshold : grader.ambiguous ≤ refiner.minRelevance)
    (hmin : 1 ≤ r.minEvidence) :
    (∀ grade, grader.grade question chunks = .ok grade → grade.decision = .incorrect →
      refiner.refineLocal question chunks grade = .ok ([], 0)) ∧
    ∀ (o : CragOracle) past allowWeb outcome,
      (run o past (r.failSafe question chunks allowWeb)).1 = .ok outcome →
        outcome.abstain = false → outcome.evidence ≠ [] :=
  ⟨fun _ hgrade hincorrect => refineLocal_of_incorrect hthreshold hgrade hincorrect,
    fun _ _ _ _ hrun => (returns_failSafe hmin).run hrun⟩

/-! ## The desk's corrections -/

/-- A retriever with the web. -/
def deskWebRetriever : ProductionCorrectiveRetriever :=
  ⟨true, true, 1⟩

/-- The desk's collaborators : the chunk is approved and the web does not answer. -/
def deskCollaborators : (op : CragOp) → op.Res
  | .grade _ _ => .ok approvedGrade
  | .refineLocal question chunks grade =>
    (answering strayIndices).refineLocal question chunks grade
  | .permitsPublicRegulatoryWeb _ => .ok true
  | .formulate question => .ok (question, 5)
  | .search _ => .error (.exception "TimeoutError")
  | .refineWeb _ _ => .ok ([], 0)

/-- A grader that finds nothing in what it is shown. -/
def deskGrader : StructuredLLMRetrievalGrader where
  correct := 7 / 10
  ambiguous := 1 / 2
  maxChunks := 8
  thresholds := by decide +kernel
  generateStructured _ _ _ := .ok (⟨0, [⟨0, 0, false, "irrelevant"⟩], by decide +kernel,
    by decide +kernel, by decide +kernel, by decide⟩, 10)

theorem served_with_evidence_due : ∃ grade, deskGrader.grade "Fees?" [dueChunk] = .ok grade ∧
    (answering strayIndices).refineLocal "Fees?" [dueChunk] grade = .ok ([], 0) ∧
      ∀ (o : CragOracle) past allowWeb outcome,
        (run o past (deskWebRetriever.failSafe "Fees?" [dueChunk] allowWeb)).1 = .ok outcome →
          outcome.abstain = false → outcome.evidence ≠ [] := by
  obtain ⟨hincorrect, hserved⟩ := @served_with_evidence deskWebRetriever "Fees?" [dueChunk]
    deskGrader (answering strayIndices) le_rfl le_rfl
  have hdecision : (deskGrader.grade "Fees?" [dueChunk]).toOption.map (·.decision) =
      some .incorrect := by decide +kernel
  rcases hgrade : deskGrader.grade "Fees?" [dueChunk] with e | grade
  · rw [hgrade] at hdecision
    exact nomatch hdecision
  · rw [hgrade] at hdecision
    exact ⟨grade, rfl, hincorrect grade hgrade (Option.some.inj hdecision), hserved⟩

/-- The desk's correction is the same with leave to search the web. -/
theorem cacheable_without_web_due : ∃ outcome,
    (run (stateless deskCollaborators) []
      (deskWebRetriever.failSafe "Fees?" [dueChunk] false)).1 = .ok outcome ∧
    (run (stateless deskCollaborators) []
      (deskWebRetriever.failSafe "Fees?" [dueChunk] true)).1 = .ok outcome := by
  have hcacheable : ((run (stateless deskCollaborators) []
      (deskWebRetriever.failSafe "Fees?" [dueChunk] false)).1.toOption.map fun outcome =>
        outcome.fallback || outcome.webUsed || outcome.abstain) = some false := by decide +kernel
  rcases hrun : (run (stateless deskCollaborators) []
    (deskWebRetriever.failSafe "Fees?" [dueChunk] false)).1 with e | outcome
  · rw [hrun] at hcacheable
    exact nomatch hcacheable
  · rw [hrun] at hcacheable
    have hflags := Option.some.inj hcacheable
    rw [Bool.or_eq_false_iff, Bool.or_eq_false_iff, and_assoc] at hflags
    exact ⟨outcome, rfl, cacheable_without_web hrun hflags⟩

end ProductionCorrectiveRetriever

end EnterpriseRag
