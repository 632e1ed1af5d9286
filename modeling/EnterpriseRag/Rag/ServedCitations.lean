import EnterpriseRag.Rag.EvidenceGuard

/-!
# The policies a served answer cites

An answer is `Supplied` by evidence if, unless there is no evidence at all, every policy it
cites is in the source of some of it. The draft is checked against the evidence of the
guard, a revision against the evidence it was made from, the fixed answers cite nothing and
a redaction brings no citation of a policy, so every generated response is supplied by its
own final evidence (`supplied_of_generated`). Without evidence nothing is checked.
-/

namespace EnterpriseRag

open Program

/-- Unless there is no evidence, every policy cited is in the source of some of it. -/
def Supplied (answer : String) (evidence : List EvidenceChunk) : Prop :=
  evidence ≠ [] → ∀ content id, Cites answer content → NamesPolicy content id →
    ∃ item ∈ evidence, id <:+: item.source.toList

theorem supplied_of_checked {answer : String} {evidence : List EvidenceChunk}
    (h : findFabricatedCitations answer evidence = .ok []) : Supplied answer evidence :=
  fun hne _ _ => cited_policy_supplied hne h

/-- A text without an opening bracket cites nothing. -/
theorem supplied_of_not_mem {answer : String} {evidence : List EvidenceChunk}
    (h : '[' ∉ answer.toList) : Supplied answer evidence := by
  rintro - content id ⟨pre, post, hanswer, -⟩ -
  exact absurd (by rw [hanswer]; simp) h

theorem NamesPolicy.mem_prefix {text id : List Char} (h : NamesPolicy text id) : 'B' ∈ text := by
  obtain ⟨pre, digits, post, rfl, -⟩ := h
  simp [policyPrefix]

/-- A redaction cites no policy that was not cited before. -/
theorem Supplied.tokenize {answer : String} {evidence : List EvidenceChunk}
    (h : Supplied answer evidence) (isWord : Char → Bool) (tokens : TokenSource) :
    Supplied (EnterpriseRag.tokenize isWord tokens answer).1 evidence := by
  have hkept : ∀ text text' : List Char, Redacts text text' →
      Supplied (String.ofList text) evidence → Supplied (String.ofList text') evidence := by
    rintro text text' hredacts hsupplied hne content id ⟨pre, post, htext, hcontent, hplain⟩ hnames
    rw [String.toList_ofList] at htext
    have hbracketed : text' = pre ++ '[' :: (content ++ ']' :: post) := by simpa using htext
    rcases hredacts.exists_bracketed hplain hbracketed with ⟨pre', post', hbefore⟩ | hB
    · refine hsupplied hne content id ⟨pre', post', ?_, hcontent, hplain⟩ hnames
      rw [String.toList_ofList, hbefore]
      simp
    · exact absurd hnames.mem_prefix hB
  have hstart : Supplied (String.ofList answer.toList) evidence := by rwa [String.ofList_toList]
  rw [tokenize_fst]
  exact tokenizeKinds_induction (I := fun text => Supplied (String.ofList text) evidence) hkept
    hstart

theorem supplied_reflectionAbstention (evidence : List EvidenceChunk) :
    Supplied reflectionAbstention evidence :=
  supplied_of_not_mem (by decide +kernel)

namespace RAGService

variable {svc : RAGService} {q : RagRequest}

/-- The answer of a state is supplied by its evidence, but between retrieval and revision. -/
theorem roundRule_supplied {question : String} {maxRetrievals : ℕ}
    {augment : String → RagProgram (List EvidenceChunk)} :
    RoundRule (γ := Unit) svc.selfReflection question maxRetrievals augment
      (fun _ _ => True) (fun _ _ _ => ())
      (fun _ answer evidence => Supplied answer evidence)
      (fun _ answer evidence => Supplied answer evidence)
      (fun _ _ _ => True)
      (fun _ answer evidence => Supplied answer evidence)
      (fun _ => True) where
  clock _ := ⟨trivial, fun _ => rfl⟩
  decide _ _ _ _ _ := ⟨trivial, fun _ => rfl⟩
  start _ := supplied_reflectionAbstention _
  critique h := ⟨trivial, fun _ => trivial, fun _ => h⟩
  accept h := h
  decline _ := supplied_reflectionAbstention _
  invalid _ := trivial
  keep _ := trivial
  augment _ _ _ _ _ _ := keeps_of_forall (fun _ _ => trivial) fun _ x => by cases x <;> trivial
  exhaust _ := supplied_reflectionAbstention _
  revise _ := ⟨trivial, fun _ => ⟨trivial, fun _ _ hchecked => supplied_of_checked hchecked⟩⟩

theorem returns_draft (crag : CRAGOutcome) :
    (draft q crag).Returns fun drafted => Supplied drafted.1 crag.evidence := by
  rw [draft]
  split
  · refine returns_pure (supplied_of_not_mem ?_)
    cases crag.webUsed <;> decide +kernel
  · refine Returns.bind (fun answer _ => ?_) (returns_true _)
    refine Returns.bind (P := fun fabricated =>
      findFabricatedCitations answer crag.evidence = .ok fabricated) (fun fabricated hchecked => ?_)
      (returns_orRaise fun _ h => h)
    split
    · rename_i hnone
      exact returns_pure (supplied_of_checked (hnone ▸ hchecked))
    · exact returns_pure (supplied_of_not_mem (by decide +kernel))

theorem returns_reflectStage {crag : CRAGOutcome} {answer : String} {fabricated : Bool}
    (h : Supplied answer crag.evidence) :
    (svc.reflectStage q crag answer fabricated).Returns fun outcome =>
      Supplied outcome.answer outcome.evidence := by
  rw [reflectStage]
  split
  · refine Returns.bind (fun _ _ => ?_) (returns_true _)
    exact h
  split
  · refine Keeps.returns ((roundRule_supplied.keeps_execute h).mono fun _ x hx => ?_)
    rintro outcome rfl
    rcases hx with hx | ⟨-, rfl⟩
    · exact hx.1
    · exact h
  · exact h

theorem supplied_withoutFallback {outcome : SelfReflectionOutcome}
    (h : Supplied outcome.answer outcome.evidence) :
    Supplied (withoutFallback outcome).answer (withoutFallback outcome).evidence := by
  rw [withoutFallback]
  split
  · have hfixed : '[' ∉ reflectionFallbackAbstention.toList := by decide +kernel
    exact supplied_of_not_mem hfixed
  · exact h

theorem supplied_of_outputOf {answer served : String} {evidence : List EvidenceChunk}
    (h : Supplied answer evidence) (hserved : svc.OutputOf answer served) :
    Supplied served evidence := by
  have hblocked : Supplied outputBlockedAbstention evidence :=
    supplied_of_not_mem (by decide +kernel)
  rcases hserved with hserved | hserved | hserved
  · rw [hserved]
    exact h
  · rw [hserved]
    exact h.tokenize _ _
  · rw [hserved]
    exact hblocked

theorem returns_generateAnswer (original : Option Embedding) :
    (svc.generateAnswer q original).Returns fun response =>
      Supplied response.answer response.finalEvidence := by
  refine Returns.bind (fun gathered _ => ?_) (returns_true _)
  refine Returns.bind (P := fun stages : Stages => Supplied stages.answer stages.reflection.evidence)
    (fun stages hstages => ?_) ?_
  · refine Returns.bind (fun _ _ => ?_) (returns_true _)
    exact hstages
  · refine Returns.bind (fun drafted hdrafted => ?_) (returns_draft _)
    refine Returns.bind (fun outcome houtcome => ?_) (returns_reflectStage hdrafted)
    refine Returns.bind (fun served hserved => ?_) (returns_outputStage _)
    exact returns_pure (supplied_of_outputOf (supplied_withoutFallback houtcome) hserved)

/-- Every policy a generated response cites is in the source of some of its final evidence,
if it has any. -/
theorem supplied_of_generated {call : AnswerCall} {o : RagOracle} {response : RagChatResponse}
    (h : (run o [] (svc.answer call)).1 = .ok response) (hgenerated : response.cacheHit = false)
    (hevidence : response.finalEvidence ≠ []) :
    ∀ content id, Cites response.answer content → NamesPolicy content id →
      ∃ item ∈ response.finalEvidence, id <:+: item.source.toList := by
  have hserve : ∀ q, (svc.serve q).Returns fun response => response.cacheHit = false →
      Supplied response.answer response.finalEvidence := by
    intro q
    refine Returns.bind (fun found _ => ?_) (returns_true _)
    obtain ⟨cached, original⟩ := found
    cases cached with
    | some cached => exact fun h => nomatch h
    | none =>
      refine Returns.mono (P := fun r : RagChatResponse => Supplied r.answer r.finalEvidence) ?_
        (returns_generateAnswer original)
      exact fun _ h _ => h
  have hreturns : (svc.answer call).Returns fun response => response.cacheHit = false →
      Supplied response.answer response.finalEvidence :=
    Returns.bind (fun _ _ => Returns.bind (fun q _ => hserve q) (returns_true _)) (returns_true _)
  exact hreturns.run h hgenerated hevidence

end RAGService

/-! ## Citations at the desk -/

/-- What a response says and what it rests on. -/
def citedAnswer (response : RagChatResponse) : String × Bool × List EvidenceChunk :=
  (response.answer, response.cacheHit, response.finalEvidence)

theorem exists_citedAnswer {x : Except Raised RagChatResponse}
    {y : String × Bool × List EvidenceChunk} (h : x.toOption.map citedAnswer = some y) :
    ∃ response, x = .ok response ∧ citedAnswer response = y := by
  cases x with
  | error e => simp [Except.toOption] at h
  | ok response => exact ⟨response, rfl, by simpa [Except.toOption] using h⟩

/-- `BNK-POL-001`. -/
def feesPolicy : List Char :=
  policyPrefix ++ ['0', '0', '1']

/-- An answer that cites the chunk it was given. -/
theorem supplied_feesAnswer : ∃ response,
    (deskRun [feesChunk] [] "Two percent [BNK-POL-001].").1 = .ok response ∧
      Cites response.answer feesPolicy ∧
        ∃ item ∈ response.finalEvidence, feesPolicy <:+: item.source.toList := by
  have hserved : (deskRun [feesChunk] [] "Two percent [BNK-POL-001].").1.toOption.map citedAnswer =
      some ("Two percent [BNK-POL-001].", false, localEvidence [feesChunk]) := by
    decide +kernel
  obtain ⟨response, hrun, hresponse⟩ := exists_citedAnswer hserved
  obtain ⟨hanswer, hrest⟩ := Prod.mk.inj hresponse
  obtain ⟨hgenerated, hevidence⟩ := Prod.mk.inj hrest
  have hcites : Cites response.answer feesPolicy := by
    rw [hanswer]
    exact ⟨"Two percent ".toList, ".".toList, by decide +kernel, by decide,
      List.forall_iff_forall_mem.1 (by decide)⟩
  refine ⟨response, hrun, hcites, ?_⟩
  refine RAGService.supplied_of_generated hrun hgenerated ?_ feesPolicy feesPolicy hcites
    (namesPolicy_self (by decide) (by decide))
  rw [hevidence]
  exact List.cons_ne_nil _ _

/-- Without evidence the answer is served as the model wrote it, with a policy nobody
supplied. -/
theorem unsupplied_without_evidence : ∃ response,
    (deskRun [] [] "See [BNK-POL-999].").1 = .ok response ∧ response.cacheHit = false ∧
      response.finalEvidence = [] ∧ response.answer = "See [BNK-POL-999]." ∧
        ∃ content id, Cites response.answer content ∧ NamesPolicy content id := by
  have hserved : (deskRun [] [] "See [BNK-POL-999].").1.toOption.map citedAnswer =
      some ("See [BNK-POL-999].", false, []) := by
    decide +kernel
  obtain ⟨response, hrun, hresponse⟩ := exists_citedAnswer hserved
  obtain ⟨hanswer, hrest⟩ := Prod.mk.inj hresponse
  obtain ⟨hgenerated, hevidence⟩ := Prod.mk.inj hrest
  refine ⟨response, hrun, hgenerated, hevidence, hanswer, policyPrefix ++ ['9', '9', '9'],
    policyPrefix ++ ['9', '9', '9'], ?_,
    namesPolicy_self (by decide) (by decide)⟩
  rw [hanswer]
  exact ⟨"See ".toList, ".".toList, by decide +kernel, by decide,
    List.forall_iff_forall_mem.1 (by decide)⟩

end EnterpriseRag
