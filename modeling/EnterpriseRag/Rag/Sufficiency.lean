import EnterpriseRag.Rag.CorrectiveRetriever
import EnterpriseRag.Rag.Degradation

/-!
# What evidence the answer LLM is consulted on

In the treatment cohort the LLM is consulted if CRAG does not abstain, and then CRAG approved
enough evidence unless it fell back (`Approved`). The context guard filters the evidence
afterwards : the prompt has what the guard keeps, which may be less than enough or nothing
(`prompted_without_evidence`).
-/

namespace EnterpriseRag

open Program

def RagOp.isGenerate : RagOp → Bool
  | .generate _ _ => true
  | _ => false

namespace RAGService

/-- The corrective retriever of the surroundings is `r`, whatever its own collaborators do. -/
def Corrects (r : ProductionCorrectiveRetriever) (o : RagOracle) : Prop :=
  ∀ h question chunks allowWeb, ∃ (c : CragOracle) (past : List CragEvent),
    o h (.correct question chunks allowWeb) = (run c past (r.correct question chunks allowWeb)).1

/-- What CRAG comes to, behind its guard. -/
def cragOutcome (chunks : List RetrievedChunk) : Except Raised CRAGOutcome → CRAGOutcome
  | .ok outcome => outcome
  | .error e => failSafeCorrect chunks e

/-- In the history `h` CRAG came to an outcome that does not abstain, with enough evidence
unless it fell back, and the context guard keeps `evidence` of it. -/
def Approved (svc : RAGService) (minEvidence : ℕ) (q : RagRequest) (h : List RagEvent)
    (evidence : List EvidenceChunk) (fallback : Bool) : Prop :=
  ∃ (past : List RagEvent) (chunks : List RetrievedChunk) (x : Except Raised CRAGOutcome),
    past ++ [⟨.correct q.call.question chunks q.cragPlan.allowWeb, x⟩] <+: h ∧
      (cragOutcome chunks x).fallback = fallback ∧ (cragOutcome chunks x).abstain = false ∧
      (fallback = false → minEvidence ≤ (cragOutcome chunks x).evidence.length) ∧
      ∃ event, svc.contextGuard.filterEvidence (cragOutcome chunks x).evidence
        q.config.1.guardrailMode = .ok (evidence, event)

variable {svc : RAGService} {q : RagRequest} {r : ProductionCorrectiveRetriever} {o : RagOracle}

theorem Approved.mono {minEvidence : ℕ} {h h' : List RagEvent} {evidence : List EvidenceChunk}
    {fallback : Bool} (happroved : svc.Approved minEvidence q h evidence fallback)
    (hextends : h <+: h') : svc.Approved minEvidence q h' evidence fallback := by
  obtain ⟨past, chunks, x, hpast, happroved⟩ := happroved
  exact ⟨past, chunks, x, hpast.trans hextends, happroved⟩

/-! ## CRAG in a run -/

theorem run_cragStage {chunks : List RetrievedChunk} {h h' : List RagEvent}
    {corrected : CRAGOutcome} (htreatment : q.cragPlan.cohort = .treatment)
    (hrun : run o h (cragStage q chunks) = (.ok corrected, h')) :
    h' = h ++ [⟨.correct q.call.question chunks q.cragPlan.allowWeb, o h _⟩] ∧
      corrected = cragOutcome chunks (o h (.correct q.call.question chunks q.cragPlan.allowWeb)) := by
  have hcohort : q.cragPlan.cohort ≠ .shadow := by simp [htreatment]
  simp only [cragStage, if_neg hcohort] at hrun
  rw [executeCrag, if_pos (Or.inl htreatment), RagProgram.exceptException, bind_eq, run_bind,
    run_tryCatch] at hrun
  cases hx : o h (.correct q.call.question chunks q.cragPlan.allowWeb) with
  | ok outcome =>
    simp only [ask, run, hx, id, orRaise, pure_eq, Prod.mk.injEq, Except.ok.injEq] at hrun
    exact ⟨hrun.2.symm, hrun.1.symm⟩
  | error e =>
    by_cases hexception : e.isException = true
    · simp only [ask, run, hx, id, orRaise, hexception, if_true, pure_eq, Prod.mk.injEq,
        Except.ok.injEq] at hrun
      exact ⟨hrun.2.symm, hrun.1.symm⟩
    · simp [ask, run, hx, orRaise, hexception] at hrun

theorem run_guardStage {outcome crag : CRAGOutcome} {h h' : List RagEvent}
    (hrun : run o h (svc.guardStage q outcome) = (.ok crag, h')) :
    h <+: h' ∧ ∃ kept event, crag = { outcome with evidence := kept } ∧
      svc.contextGuard.filterEvidence outcome.evidence q.config.1.guardrailMode =
        .ok (kept, event) := by
  rw [guardStage] at hrun
  cases hfilter : svc.contextGuard.filterEvidence outcome.evidence q.config.1.guardrailMode with
  | error e =>
    rw [hfilter] at hrun
    cases congrArg Prod.fst hrun
  | ok filtered =>
    rw [hfilter] at hrun
    obtain ⟨kept, event⟩ := filtered
    obtain ⟨recorded, h₁, hrecord, hrun⟩ := run_bind_eq (p := recordEvent event) (h := h) hrun
    have hextends := prefix_run (o := o) (p := recordEvent event) (h := h)
    rw [hrecord] at hextends
    obtain rfl : h₁ = h' := congrArg Prod.snd hrun
    exact ⟨hextends, kept, event, (Except.ok.inj (congrArg Prod.fst hrun)).symm, rfl⟩

/-- What the gathered evidence is, where CRAG was in the treatment cohort. -/
theorem approved_of_gather {looked original : Option Embedding} {s : Stages}
    {h h' : List RagEvent} (hr : Corrects r o) (htreatment : q.cragPlan.cohort = .treatment)
    (habstain : s.crag.abstain = false)
    (hrun : run o h (svc.gather q looked) = (.ok (s, original), h')) :
    svc.Approved r.minEvidence q h' s.crag.evidence s.crag.fallback := by
  obtain ⟨⟨hyde, original₁, retrieved⟩, h₁, -, hrun⟩ := run_bind_eq hrun
  obtain ⟨reranked, h₂, -, hrun⟩ := run_bind_eq hrun
  obtain ⟨corrected, h₃, hcorrect, hrun⟩ := run_bind_eq hrun
  obtain ⟨crag, h₄, hguard, hrun⟩ := run_bind_eq hrun
  have hs : crag = s.crag := congrArg (fun x => x.1.crag) (Except.ok.inj (congrArg Prod.fst hrun))
  obtain rfl : h₄ = h' := congrArg Prod.snd hrun
  obtain ⟨rfl, hcorrected⟩ := run_cragStage htreatment hcorrect
  obtain ⟨hextends, kept, event, hcrag, hfilter⟩ := run_guardStage hguard
  rw [← hs, hcrag] at habstain ⊢
  rw [hcorrected] at habstain hfilter ⊢
  refine ⟨h₂, _, _, hextends, rfl, habstain, fun hfallback => ?_, event, hfilter⟩
  generalize (reranked.map (·.items.map (·.chunk))).getD retrieved = chunks at *
  obtain ⟨c, past, hx⟩ := hr h₂ q.call.question chunks q.cragPlan.allowWeb
  cases houtcome : o h₂ (.correct q.call.question chunks q.cragPlan.allowWeb) with
  | error e =>
    rw [houtcome] at hfallback
    exact nomatch hfallback
  | ok outcome =>
    rw [houtcome] at habstain hx
    exact (ProductionCorrectiveRetriever.returns_correct.run hx.symm).2 habstain

/-! ## The run -/

theorem not_isGenerate_of_gathers {op : RagOp} (h : op.Gathers) : op.isGenerate = false := by
  rcases h with h | ⟨strategy, text, embedding, topK, rfl⟩
  · cases op <;> first | rfl | exact h.elim
  · rfl

/-- A draft without abstention consults the LLM on the evidence. -/
theorem starts_compose {s : Stages} (habstain : s.crag.abstain = false) :
    (svc.compose q s).Starts (· = .generate s.crag.evidence q.call.question) := by
  have hdraft : (draft q s.crag).Starts (· = .generate s.crag.evidence q.call.question) := by
    rw [draft, if_neg (by simp [habstain])]
    exact Starts.bind (starts_ask rfl)
  exact hdraft.bind

/-- With abstention a fixed text goes to the output guard. -/
theorem returns_compose_abstain {s : Stages} (habstain : s.crag.abstain = true) :
    (svc.compose q s).Returns fun s' => svc.OutputOf (cragAbstention s.crag.webUsed) s'.answer := by
  have hdraft : draft q s.crag = return (cragAbstention s.crag.webUsed, false) := by
    rw [draft, if_pos habstain]
  have hreflect : (svc.reflectStage q s.crag (cragAbstention s.crag.webUsed) false).Returns
      fun outcome => (withoutFallback outcome).answer = cragAbstention s.crag.webUsed := by
    have hnone : svc.reflectStage q s.crag (cragAbstention s.crag.webUsed) false =
        return untouched (cragAbstention s.crag.webUsed) s.crag.evidence
          (if s.crag.abstain && q.selfReflectiveEnabled then some "crag_abstained"
            else q.selfReflectionPlan.bypassReason) := by
      simp [reflectStage, habstain]
    rw [hnone]
    exact returns_pure rfl
  have hrest : svc.compose q s = (do
      let outcome ← svc.reflectStage q s.crag (cragAbstention s.crag.webUsed) false
      let reflection := withoutFallback outcome
      let output ← svc.outputStage q reflection.answer
      return { s with
        fabricated := false, reflection, answer := output.1, outputAction := output.2 }) := by
    rw [compose, hdraft]
    rfl
  rw [hrest]
  refine hreflect.bind fun outcome houtcome => ?_
  refine Returns.bind (fun served hserved => ?_) (returns_outputStage _)
  exact houtcome ▸ hserved

/-- The LLM is consulted in the draft only. -/
theorem uses_compose_generate {s : Stages} :
    (svc.compose q s).Uses fun op => op.isGenerate = true →
      s.crag.abstain = false ∧ op = .generate s.crag.evidence q.call.question := by
  have hdraft : (draft q s.crag).Uses fun op => op.isGenerate = true →
      s.crag.abstain = false ∧ op = .generate s.crag.evidence q.call.question := by
    rw [draft]
    split
    · exact uses_pure _
    · rename_i habstain
      refine Uses.bind (fun answer => ?_) (uses_ask fun _ => ⟨by simpa using habstain, rfl⟩)
      refine Uses.bind (fun fabricated => ?_) (uses_orRaise _)
      split <;> exact uses_pure _
  refine Uses.bind (fun drafted => ?_) hdraft
  refine Uses.bind (fun outcome => ?_) (uses_reflectStage.mono fun op hop h => ?_)
  · refine Uses.bind (fun served => uses_pure _) ((uses_outputStage _).mono fun op hop h => ?_)
    cases op <;> first | exact hop.elim | exact Bool.noConfusion h
  · rcases hop.2 with hop | ⟨-, hop⟩
    · cases op <;> first | exact hop.elim | exact Bool.noConfusion h
    · cases op <;> first | exact hop.elim | exact Bool.noConfusion h

/-- A generation of an answer in which the LLM is consulted. -/
theorem exists_gather_of_generate {looked : Option Embedding} {h₀ : List RagEvent}
    {evidence : List EvidenceChunk} {question : String} {x : Except Raised String}
    (hh₀ : (⟨.generate evidence question, x⟩ : RagEvent) ∉ h₀)
    (hevent : (⟨.generate evidence question, x⟩ : RagEvent) ∈
      (run o h₀ (svc.generateAnswer q looked)).2) :
    ∃ s original h₁, run o h₀ (svc.gather q looked) = (.ok (s, original), h₁) ∧
      h₁ <+: (run o h₀ (svc.generateAnswer q looked)).2 ∧ s.crag.abstain = false ∧
      s.crag.evidence = evidence := by
  have hgenerate : ¬(RagOp.generate evidence question).isGenerate = false := Bool.noConfusion
  have hgather : (svc.gather q looked).Uses fun op => op.isGenerate = false :=
    (uses_gather looked).mono fun _ => not_isGenerate_of_gathers
  obtain ⟨⟨s, original⟩, h₁, hgathered, hh₁, hrun⟩ :=
    hgather.exists_run_bind hgenerate hh₀ hevent
  have hrun : run o h₀ (svc.generateAnswer q looked) = run o h₁ (svc.compose q s >>= fun stages =>
      svc.cacheResponse q stages original >>= fun _ => return svc.respond q stages) := hrun
  rw [hrun] at hevent ⊢
  refine ⟨s, original, h₁, hgathered, prefix_run, ?_⟩
  have hcompose : (⟨.generate evidence question, x⟩ : RagEvent) ∈
      (run o h₁ (svc.compose q s)).2 := by
    rcases mem_run_bind.1 hevent with hcompose | ⟨stages, -, htail⟩
    · exact hcompose
    · have huses : (svc.cacheResponse q stages original >>= fun _ =>
          return svc.respond q stages).Uses fun op => op.writesCache = true :=
        Uses.bind (fun _ => uses_pure _) (uses_cacheResponse (fun _ _ => rfl) (fun _ _ _ _ _ => rfl) stages original)
      exact (huses.mem_run htail).resolve_right Bool.noConfusion
  obtain ⟨habstain, hop⟩ := (uses_compose_generate.mem_run hcompose).resolve_left hh₁ rfl
  exact ⟨habstain, (RagOp.generate.inj hop).1.symm⟩

/-- A run in which the LLM is consulted. -/
theorem approved_of_generate {call : AnswerCall} {evidence : List EvidenceChunk}
    {question : String} {x : Except Raised String} (hr : Corrects r o)
    (hq : svc.prepare (o [] .currentConfig) call = .ok q)
    (htreatment : q.cragPlan.cohort = .treatment)
    (hevent : (⟨.generate evidence question, x⟩ : RagEvent) ∈ (run o [] (svc.answer call)).2) :
    ∃ fallback, svc.Approved r.minEvidence q (run o [] (svc.answer call)).2 evidence fallback := by
  have hconfig : RagOp.generate evidence question ≠ .currentConfig := RagOp.noConfusion
  obtain ⟨q', looked, h₀, hq', -, hh₀, hrun⟩ :=
    exists_generateAnswer hconfig (fun h => h.elim id id) hevent
  obtain rfl : q' = q := Except.ok.inj (hq'.symm.trans hq)
  rw [hrun] at hevent ⊢
  obtain ⟨s, original, h₁, hgathered, hextends, habstain, rfl⟩ :=
    exists_gather_of_generate hh₀ hevent
  exact ⟨s.crag.fallback, (approved_of_gather hr htreatment habstain hgathered).mono hextends⟩

/-- A generated answer for which the LLM was not consulted. -/
theorem abstention_of_generateAnswer {looked : Option Embedding} {h₀ h' : List RagEvent}
    {response : RagChatResponse}
    (hrun : run o h₀ (svc.generateAnswer q looked) = (.ok response, h'))
    (hnone : ∀ event ∈ h', event.1.isGenerate = false) :
    ∃ webUsed, svc.OutputOf (cragAbstention webUsed) response.answer := by
  obtain ⟨⟨s, original⟩, h₁, -, hrun⟩ := run_bind_eq hrun
  obtain ⟨stages, h₂, hcompose, hrun⟩ := run_bind_eq hrun
  have hextends : h₂ <+: h' := by
    have hrest := prefix_run (o := o) (h := h₂) (p := svc.cacheResponse q stages original >>=
      fun _ => return svc.respond q stages)
    rwa [hrun] at hrest
  obtain ⟨cached, h₃, -, hrun⟩ := run_bind_eq hrun
  obtain rfl : svc.respond q stages = response := Except.ok.inj (congrArg Prod.fst hrun)
  cases habstain : s.crag.abstain with
  | true =>
    exact ⟨s.crag.webUsed, (returns_compose_abstain habstain).run (congrArg Prod.fst hcompose)⟩
  | false =>
    have hstarts : (svc.compose q s).Starts _ := starts_compose habstain
    obtain ⟨event, hevent, hop⟩ := hstarts.exists_mem_run (o := o) (h := h₁)
    rw [hcompose] at hevent
    have hgenerate := hnone event (hextends.subset hevent)
    rw [hop] at hgenerate
    exact Bool.noConfusion hgenerate

theorem abstention_of_answer {call : AnswerCall} {response : RagChatResponse}
    (hresponse : (run o [] (svc.answer call)).1 = .ok response)
    (hgenerated : response.cacheHit = false)
    (hnone : ∀ event ∈ (run o [] (svc.answer call)).2, event.1.isGenerate = false) :
    ∃ webUsed, svc.OutputOf (cragAbstention webUsed) response.answer := by
  obtain ⟨h', hrun⟩ : ∃ h', run o [] (svc.answer call) = (.ok response, h') :=
    ⟨_, Prod.ext hresponse rfl⟩
  rw [hrun] at hnone
  obtain ⟨config, h₁, -, hrun⟩ := run_bind_eq hrun
  obtain ⟨q, h₂, -, hrun⟩ := run_bind_eq hrun
  obtain ⟨⟨cached, looked⟩, h₃, -, hrun⟩ := run_bind_eq hrun
  cases cached with
  | some cached =>
    obtain rfl := Except.ok.inj (congrArg Prod.fst hrun)
    exact Bool.noConfusion hgenerated
  | none => exact abstention_of_generateAnswer hrun hnone

theorem Writes.isPrefix {s : Stages} {original : Option Embedding} {h h' : List RagEvent}
    (hwrites : svc.Writes q s original h h') : h <+: h' := by
  rcases hwrites with ⟨r, rfl⟩ | ⟨embedding, r, -, -, rfl⟩
  · exact List.prefix_append _ _
  · exact List.prefix_append _ _

/-- A run that writes a cache. -/
theorem approved_of_write {call : AnswerCall} {event : RagEvent} (hr : Corrects r o)
    (hq : svc.prepare (o [] .currentConfig) call = .ok q)
    (htreatment : q.cragPlan.cohort = .treatment)
    (hevent : event ∈ (run o [] (svc.answer call)).2) (hwrites : event.1.writesCache = true) :
    ∃ evidence x, (⟨.generate evidence q.call.question, x⟩ : RagEvent) ∈
        (run o [] (svc.answer call)).2 ∧
      svc.Approved r.minEvidence q (run o [] (svc.answer call)).2 evidence false := by
  obtain ⟨q', s, original, h, hgenerated, hundegraded, -, hwritten, -⟩ :=
    undegraded_of_write hevent hwrites
  obtain rfl : q' = q := Except.ok.inj (hgenerated.prepared.symm.trans hq)
  obtain ⟨looked, h₀, gathered, h₁, -, hgather, hcompose⟩ := hgenerated.ran
  have hcrag : s.crag = gathered.crag :=
    ((returns_compose gathered).run (congrArg Prod.fst hcompose)).2.2
  obtain ⟨hfallback, -, habstain⟩ := hundegraded.crag
  rw [hcrag] at hfallback habstain
  have hstarts : (svc.compose q' gathered).Starts _ := starts_compose habstain
  obtain ⟨⟨op, x⟩, hmem, rfl⟩ := hstarts.exists_mem_run (o := o) (h := h₁)
  have hextends : h₁ <+: h := by
    have hrun := prefix_run (o := o) (h := h₁) (p := svc.compose q' gathered)
    rwa [hcompose] at hrun
  rw [hcompose] at hmem
  have happroved := approved_of_gather hr htreatment habstain hgather
  rw [hfallback] at happroved
  exact ⟨gathered.crag.evidence, x, hwritten.isPrefix.subset hmem,
    happroved.mono (hextends.trans hwritten.isPrefix)⟩

/-- In the treatment cohort : the LLM is consulted on what the context guard keeps of evidence
that CRAG did not abstain on, which was enough unless CRAG fell back. A generated answer for
which it was not consulted is a fixed abstention, as the output guard leaves it. A response
is cached only if the LLM was consulted for it on evidence of which CRAG, without falling
back, approved enough. -/
theorem sufficient_before_guard {call : AnswerCall} (hr : Corrects r o)
    (hq : svc.prepare (o [] .currentConfig) call = .ok q)
    (htreatment : q.cragPlan.cohort = .treatment) :
    (∀ evidence question x,
      (⟨.generate evidence question, x⟩ : RagEvent) ∈ (run o [] (svc.answer call)).2 →
        ∃ fallback, svc.Approved r.minEvidence q (run o [] (svc.answer call)).2 evidence fallback) ∧
      (∀ response, (run o [] (svc.answer call)).1 = .ok response → response.cacheHit = false →
        (∀ event ∈ (run o [] (svc.answer call)).2, event.1.isGenerate = false) →
        ∃ webUsed, svc.OutputOf (cragAbstention webUsed) response.answer) ∧
      ∀ event ∈ (run o [] (svc.answer call)).2, event.1.writesCache = true →
        ∃ evidence x, (⟨.generate evidence q.call.question, x⟩ : RagEvent) ∈
            (run o [] (svc.answer call)).2 ∧
          svc.Approved r.minEvidence q (run o [] (svc.answer call)).2 evidence false := by
  refine ⟨fun evidence question x hevent => approved_of_generate hr hq htreatment hevent,
    fun response => abstention_of_answer, fun event hevent hwrites => ?_⟩
  exact approved_of_write hr hq htreatment hevent hwrites

end RAGService

/-! ## CRAG at the desk -/

/-- Enforce mode, with CRAG alone. -/
def cragConfig : RagRuntimeConfig :=
  ⟨{ deskConfig.1 with
      cragEnabled := true
      cragRolloutPercentage := 100
      selfReflectiveEnabled := false
      selfReflectiveRetrievalEnabled := false }, by decide +kernel⟩

/-- One piece of evidence is enough, and there is no web. -/
def deskRetriever : ProductionCorrectiveRetriever :=
  ⟨false, false, 1⟩

/-- A grader and a refiner that approve what they are given. -/
def approvingCollaborators : CragOracle
  | _, .grade _ _ => .ok ⟨.correct, 1, [], 0⟩
  | _, .refineLocal _ chunks _ => .ok (localEvidence chunks, 0)
  | _, .permitsPublicRegulatoryWeb _ => .ok false
  | _, .formulate question => .ok (question, 0)
  | _, .search _ => .ok []
  | _, .refineWeb _ _ => .ok ([], 0)

/-- A day at the desk with its retriever. -/
def cragDay (chunks : List RetrievedChunk) : RagOracle
  | _, .correct question chunks allowWeb =>
    (run approvingCollaborators [] (deskRetriever.correct question chunks allowWeb)).1
  | h, op => deskDay cragConfig chunks [] "Two percent." h op

def cragRun (chunks : List RetrievedChunk) : Except Raised RagChatResponse × List RagEvent :=
  run (cragDay chunks) [] (desk.answer { question := "Fees?" })

/-- The LLM is consulted on `evidence`. -/
def RagOp.consultsOn (evidence : List EvidenceChunk) : RagOp → Bool
  | .generate prompted _ => prompted = evidence
  | _ => false

theorem exists_generate_of_any {h : List RagEvent} {evidence : List EvidenceChunk}
    (hany : (h.any fun event => event.1.consultsOn evidence) = true) :
    ∃ question x, (⟨.generate evidence question, x⟩ : RagEvent) ∈ h := by
  obtain ⟨⟨op, x⟩, hmem, hop⟩ := List.any_eq_true.1 hany
  cases op with
  | generate prompted question =>
    obtain rfl := of_decide_eq_true hop
    exact ⟨question, x, hmem⟩
  | _ => exact Bool.noConfusion hop

theorem exists_of_any_toOption {α : Type} {x : Except Raised α} {P : α → Bool}
    (h : x.toOption.any P = true) : ∃ a, x = .ok a ∧ P a = true := by
  cases x with
  | error e => exact Bool.noConfusion h
  | ok a => exact ⟨a, rfl, h⟩

theorem prepare_cragConfig : ∃ q, desk.prepare cragConfig { question := "Fees?" } = .ok q ∧
    q.cragPlan.cohort = .treatment := by
  have hany : ((desk.prepare cragConfig { question := "Fees?" }).toOption.any
      (·.cragPlan.cohort = .treatment)) = true := by decide +kernel
  obtain ⟨q, hq, hcohort⟩ := exists_of_any_toOption hany
  exact ⟨q, hq, of_decide_eq_true hcohort⟩

theorem corrects_cragDay (chunks : List RetrievedChunk) :
    RAGService.Corrects deskRetriever (cragDay chunks) :=
  fun _ _ _ _ => ⟨approvingCollaborators, [], rfl⟩

/-- CRAG approves a chunk that gives orders and the guard drops it : the LLM is consulted on no
evidence at all, and what it says is cached. -/
theorem prompted_without_evidence : RAGService.Corrects deskRetriever (cragDay [orderChunk]) ∧
    deskRetriever.minEvidence = 1 ∧
    (∃ q, desk.prepare cragConfig { question := "Fees?" } = .ok q ∧
      q.cragPlan.cohort = .treatment) ∧
    (∃ question x, (⟨.generate [] question, x⟩ : RagEvent) ∈ (cragRun [orderChunk]).2) ∧
    (∃ event ∈ (cragRun [orderChunk]).2, event.1.writesCache = true) ∧
    ∃ response, (cragRun [orderChunk]).1 = .ok response ∧
      (response.crag.fallback = false ∧ response.finalEvidence = []) := by
  refine ⟨corrects_cragDay _, rfl, prepare_cragConfig, exists_generate_of_any (by decide +kernel),
    List.any_eq_true.1 (by decide +kernel), ?_⟩
  have hresponse : ((cragRun [orderChunk]).1.toOption.any fun response =>
      response.crag.fallback = false ∧ response.finalEvidence = []) = true := by decide +kernel
  obtain ⟨response, hrun, hresponse⟩ := exists_of_any_toOption hresponse
  exact ⟨response, hrun, of_decide_eq_true hresponse⟩

/-- CRAG approves the fees, and the guard keeps them. -/
theorem sufficient_before_guard_fees : ∃ q fallback,
    desk.Approved 1 q (cragRun [feesChunk]).2 (localEvidence [feesChunk]) fallback := by
  obtain ⟨q, hq, htreatment⟩ := prepare_cragConfig
  have hany : ((cragRun [feesChunk]).2.any fun event =>
      event.1.consultsOn (localEvidence [feesChunk])) = true := by decide +kernel
  obtain ⟨question, x, hevent⟩ := exists_generate_of_any hany
  have hsufficient := RAGService.sufficient_before_guard (corrects_cragDay [feesChunk]) hq
    htreatment
  exact ⟨q, hsufficient.1 _ question x hevent⟩

end EnterpriseRag
