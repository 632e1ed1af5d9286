import EnterpriseRag.Rag.CacheUse

/-!
# The parts of a run

What operations the parts of `answer` perform, and so in which part of a run an operation
stands : one that a look-up does not perform stands after both caches missed
(`exists_generateAnswer`).
-/

namespace EnterpriseRag

open Program

namespace RAGService

variable {svc : RAGService} {q : RagRequest}

section Parametric

variable {S : RagOp → Prop}

theorem uses_getCached {key : String} (hget : S (.cacheGet key)) : (svc.getCached key).Uses S := by
  refine Uses.bind (fun x => ?_) (uses_attempt hget)
  match x with
  | .error e =>
    dsimp only
    split <;> trivial
  | .ok none => trivial
  | .ok (some raw) => exact Uses.bind (fun _ => uses_pure _) (uses_orRaise _)

theorem uses_firstLive (hget : ∀ key, S (.cacheGet key)) :
    ∀ keys : List String, (svc.firstLive keys).Uses S
  | [] => uses_pure _
  | key :: keys => by
    refine Uses.bind (fun found => ?_) (uses_getCached (hget key))
    cases found with
    | some response => exact uses_pure _
    | none => exact uses_firstLive hget keys

theorem uses_checkSemanticCache (hget : ∀ key, S (.cacheGet key))
    (hfind : ∀ embedding cacheNamespace topK threshold,
      S (.findCandidates embedding cacheNamespace topK threshold)) (embedding : Embedding) :
    (svc.checkSemanticCache q embedding).Uses S := by
  refine Uses.bind (fun x => ?_) (uses_attempt (hfind _ _ _ _))
  cases x with
  | error e =>
    dsimp only
    split <;> trivial
  | ok keys => exact uses_firstLive hget keys

theorem uses_lookup (hembed : ∀ texts, S (.embedTexts texts)) (hget : ∀ key, S (.cacheGet key))
    (hfind : svc.semanticOn q = true → ∀ embedding cacheNamespace topK threshold,
      S (.findCandidates embedding cacheNamespace topK threshold)) : (svc.lookup q).Uses S := by
  refine Uses.bind (fun found => ?_) (uses_getCached (hget _))
  cases found with
  | some response => exact uses_pure _
  | none =>
    dsimp only
    split
    · rename_i hon
      refine Uses.bind (fun embedding => ?_) (uses_embedOne hembed _)
      exact Uses.bind (fun _ => uses_pure _)
        (uses_checkSemanticCache hget (hfind (Bool.and_eq_true_iff.1 hon).2) embedding)
    · exact uses_pure _

end Parametric

theorem uses_execute {evidence : List EvidenceChunk} {answer : String} :
    (svc.selfReflection.execute q.call.question evidence answer (svc.retrieveReflectionEvidence q)
      q.selfReflectionPlan).Uses fun op => op.Reflects ∨
        q.selfReflectionPlan.allowRetrieval = true ∧ op.Augments :=
  ReflectionEngine.uses_execute (Or.inl trivial) (fun _ _ _ _ => Or.inl trivial)
    (fun _ _ => Or.inl trivial) (fun _ _ _ => Or.inl trivial) fun hallowed query =>
      (uses_retrieveReflectionEvidence query).mono fun _ hop => Or.inr ⟨hallowed, hop⟩

theorem uses_reflectStage {crag : CRAGOutcome} {answer : String} {fabricated : Bool} :
    (svc.reflectStage q crag answer fabricated).Uses fun op =>
      (q.selfReflectionPlan.cohort = .treatment ∨ q.selfReflectionPlan.cohort = .shadow) ∧
        (op.Reflects ∨ q.selfReflectionPlan.allowRetrieval = true ∧ op.Augments) := by
  rw [reflectStage]
  split
  · rename_i hruns
    have hcohort : q.selfReflectionPlan.cohort = .shadow := by
      simpa using (Bool.and_eq_true_iff.1 hruns).2
    exact Uses.bind (fun _ => uses_pure _) (uses_execute.mono fun _ hop => ⟨Or.inr hcohort, hop⟩)
  · split
    · rename_i hruns
      have hcohort : q.selfReflectionPlan.cohort = .treatment := by
        simpa using (Bool.and_eq_true_iff.1 hruns).2
      exact uses_execute.mono fun _ hop => ⟨Or.inl hcohort, hop⟩
    · exact uses_pure _

theorem composes_of_reflectStage {op : RagOp} {allowed : Prop}
    (h : op.Reflects ∨ allowed ∧ op.Augments) : op.Composes := by
  rcases h with h | ⟨-, h⟩
  · cases op <;> first | exact h.elim | trivial
  · exact composes_of_augments h

theorem uses_compose (s : Stages) : (svc.compose q s).Uses RagOp.Composes := by
  refine Uses.bind (fun drafted => ?_) (uses_draft trivial)
  refine Uses.bind (fun outcome => ?_) (uses_reflectStage.mono fun _ hop => composes_of_reflectStage hop.2)
  refine Uses.bind (fun served => uses_pure _) ((uses_outputStage _).mono fun op hop => ?_)
  exact composes_of_plain (plain_of_guards hop)

/-- The stages from the draft on leave those before as they are. -/
theorem returns_compose (s : Stages) :
    (svc.compose q s).Returns fun s' => s'.reranked = s.reranked ∧ s'.hyde = s.hyde ∧
      s'.crag = s.crag := by
  refine Returns.bind (fun drafted _ => ?_) (returns_true _)
  refine Returns.bind (fun outcome _ => ?_) (returns_true _)
  refine Returns.bind (fun served _ => ?_) (returns_true _)
  exact returns_pure ⟨rfl, rfl, rfl⟩

/-- What is performed after the reading of the snapshot serves a prepared request. -/
theorem exists_serve {o : RagOracle} {call : AnswerCall} {event : RagEvent}
    (hconfig : event.1 ≠ .currentConfig) (hevent : event ∈ (run o [] (svc.answer call)).2) :
    event ∉ [(⟨.currentConfig, o [] .currentConfig⟩ : RagEvent)] ∧
    ∃ q, svc.prepare (o [] .currentConfig) call = .ok q ∧
      run o [] (svc.answer call) = run o [⟨.currentConfig, o [] .currentConfig⟩] (svc.serve q) := by
  have hread : event ∉ [(⟨.currentConfig, o [] .currentConfig⟩ : RagEvent)] := by
    intro hmem
    obtain rfl := List.mem_singleton.1 hmem
    exact hconfig rfl
  have hanswer : run o [] (svc.answer call) =
      run o [⟨.currentConfig, o [] .currentConfig⟩]
        (orRaise (svc.prepare (o [] .currentConfig) call) >>= svc.serve) := rfl
  cases hprepared : svc.prepare (o [] .currentConfig) call with
  | error e =>
    rw [hanswer, hprepared] at hevent
    exact absurd hevent hread
  | ok q =>
    rw [hanswer, hprepared]
    exact ⟨hread, q, rfl, rfl⟩

/-- An operation that neither the reading of the snapshot nor a look-up performs stands in the
generation of an answer. -/
theorem exists_generateAnswer {o : RagOracle} {call : AnswerCall} {event : RagEvent}
    (hconfig : event.1 ≠ .currentConfig) (hlookup : ¬(event.1.ReadsCache ∨ event.1.Plain))
    (hevent : event ∈ (run o [] (svc.answer call)).2) :
    ∃ q looked h₀, svc.prepare (o [] .currentConfig) call = .ok q ∧
      run o [⟨.currentConfig, o [] .currentConfig⟩] (svc.lookup q) = (.ok (none, looked), h₀) ∧
      event ∉ h₀ ∧ run o [] (svc.answer call) = run o h₀ (svc.generateAnswer q looked) := by
  obtain ⟨hread, q, hprepared, hanswer⟩ := exists_serve hconfig hevent
  rw [hanswer] at hevent ⊢
  have hlooks : (svc.lookup q).Uses fun op => op.ReadsCache ∨ op.Plain :=
    uses_lookup (fun _ => Or.inr trivial) (fun _ => Or.inl trivial)
      fun _ _ _ _ _ => Or.inl trivial
  obtain ⟨⟨cached, looked⟩, h₀, hrun, hh₀, hserve⟩ :=
    hlooks.exists_run_bind hlookup hread hevent
  cases cached with
  | some response =>
    have hevent : event ∈ (run o [⟨.currentConfig, o [] .currentConfig⟩]
      (svc.lookup q >>= _)).2 := hevent
    rw [hserve] at hevent
    exact absurd hevent hh₀
  | none => exact ⟨q, looked, h₀, hprepared, hrun, hh₀, hserve⟩

/-! ## The calls that the plans admit -/

/-- A call that the plans of the request leave room for. -/
def Admits (svc : RAGService) (q : RagRequest) : RagOp → Prop
  | .currentConfig => False
  | .findCandidates _ _ _ _ | .recordSemantic _ _ _ _ => svc.semanticOn q = true
  | .transform _ => q.hydePlan.cohort = .treatment
  | .rerank _ _ _ _ => q.rerankPlan.cohort = .treatment
  | .correct _ _ allowWeb =>
    (q.cragPlan.cohort = .treatment ∨ q.cragPlan.cohort = .shadow) ∧ allowWeb = q.cragPlan.allowWeb
  | .critique _ _ _ | .revise _ _ _ _ | .decide _ _ _ _ | .perfCounter =>
    q.selfReflectionPlan.cohort = .treatment ∨ q.selfReflectionPlan.cohort = .shadow
  | .retrieve .reflection _ _ _ _ => q.selfReflectionPlan.allowRetrieval = true
  | _ => True

theorem admits_of_guards {op : RagOp} (h : op.Guards) : svc.Admits q op := by
  cases op <;> first | exact h.elim | trivial

theorem admits_of_reflectStage {op : RagOp}
    (hcohort : q.selfReflectionPlan.cohort = .treatment ∨ q.selfReflectionPlan.cohort = .shadow)
    (h : op.Reflects ∨ q.selfReflectionPlan.allowRetrieval = true ∧ op.Augments) :
    svc.Admits q op := by
  rcases h with h | ⟨hallowed, h⟩
  · cases op <;> first | exact h.elim | exact hcohort
  · cases op with
    | embedTexts texts => trivial
    | retrieve site _ _ _ _ =>
      cases site with
      | request => exact h.elim
      | reflection => exact hallowed
    | _ => exact h.elim

/-- A request calls what its plans admit. -/
theorem uses_serve : (svc.serve q).Uses (svc.Admits q) := by
  have hembed : ∀ texts, svc.Admits q (.embedTexts texts) := fun _ => trivial
  refine Uses.bind (fun looked => ?_) (uses_lookup hembed (fun _ => trivial) fun hon _ _ _ _ => hon)
  obtain ⟨cached, original⟩ := looked
  cases cached with
  | some response => exact uses_pure _
  | none =>
    have hgather : (svc.gather q original).Uses (svc.Admits q) := by
      refine Uses.bind (fun retrieved => ?_) (uses_retrieveStage hembed id (fun _ => trivial) _)
      refine Uses.bind (fun reranked => ?_) (uses_rerankStage (fun hcohort _ _ => hcohort) _)
      refine Uses.bind (fun corrected => ?_) (uses_cragStage fun hcohort => ⟨hcohort, rfl⟩)
      refine Uses.bind (fun crag => ?_) ((uses_guardStage _).mono fun _ => admits_of_guards)
      exact uses_pure _
    have hcompose : ∀ s, (svc.compose q s).Uses (svc.Admits q) := by
      intro s
      refine Uses.bind (fun drafted => ?_) (uses_draft trivial)
      refine Uses.bind (fun outcome => ?_)
        (uses_reflectStage.mono fun _ hop => admits_of_reflectStage hop.1 hop.2)
      refine Uses.bind (fun served => ?_) ((uses_outputStage _).mono fun _ => admits_of_guards)
      exact uses_pure _
    refine Uses.bind (fun gathered => ?_) hgather
    obtain ⟨gathered, original⟩ := gathered
    refine Uses.bind (fun s => ?_) (hcompose gathered)
    refine Uses.bind (fun _ => ?_) (uses_cacheResponse (fun _ _ => trivial) (fun hon _ _ _ _ => hon)
      s original)
    exact uses_pure _

/-- What a run of `answer` calls once it has read the snapshot. -/
theorem admits_of_answer {o : RagOracle} {call : AnswerCall} {event : RagEvent}
    (hevent : event ∈ (run o [] (svc.answer call)).2) (hconfig : event.1 ≠ .currentConfig) :
    ∃ q, svc.prepare (o [] .currentConfig) call = .ok q ∧ svc.Admits q event.1 := by
  obtain ⟨hread, q, hprepared, hanswer⟩ := exists_serve hconfig hevent
  rw [hanswer] at hevent
  exact ⟨q, hprepared, (uses_serve.mem_run hevent).resolve_left hread⟩

end RAGService

end EnterpriseRag
