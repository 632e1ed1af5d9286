import EnterpriseRag.Library.LastMatch
import EnterpriseRag.Rag.ClaimChecker
import EnterpriseRag.Rag.ReflectionBounds

/-!
# Accepted answers

What the engine accepts, its critic has just judged. `AcceptanceTrace` is what a run has
seen so far : the last critique, whether there was a revision, and whether every decision
was the policy's. At the head of the loop a revised answer cites no source that its
evidence lacks (`Uncorrupted`), after a critique the answer and the evidence are the ones it
was given (`Judged`), and only a decision to accept leads from there to an accepted outcome.
-/

namespace EnterpriseRag

open Program

/-! ## The policy -/

namespace ReflectionPolicy

variable (p : ReflectionPolicy)

/-- What the policy asks of the critique of an answer it accepts. -/
structure Passes (critique : ReflectionCritique) : Prop where
  support : critique.supportLevel = .full
  claims : critique.unsupportedClaims = []
  aspects : critique.missingAspects = []
  evidenceRelevance : p.minEvidenceRelevance ≤ critique.evidenceRelevance
  answerRelevance : p.minAnswerRelevance ≤ critique.answerRelevance
  citationCompleteness : p.minCitationCompleteness ≤ critique.citationCompleteness
  utility : p.minUtility ≤ critique.utility

theorem passes_of_decide {critique : ReflectionCritique} {state : ReflectionState}
    {budget : ReflectionBudget} {claims : List String}
    (h : p.decide critique state budget claims = .accept) : p.Passes critique ∧ claims = [] := by
  unfold decide at h
  dsimp only at h
  split at h
  · rename_i hpass
    obtain ⟨⟨hsupport, hunsupported, hclaims⟩, hevidence, hanswer, hcitations, hutility,
      haspects⟩ := hpass
    exact ⟨⟨hsupport, hunsupported, haspects, hevidence, hanswer, hcitations, hutility⟩, hclaims⟩
  · split at h
    · exact nomatch h
    · split at h <;> exact nomatch h

/-- A decision of a run is the policy's. -/
def Decided : RagEvent → Prop
  | ⟨.decide critique state budget claims, r⟩ =>
    r = .ok (p.decide critique state budget claims)
  | _ => True

end ReflectionPolicy

/-! ## What a run has seen -/

structure AcceptanceTrace where
  critique : Option RagEvent := none
  revised : Bool := false
  decided : Prop := True

namespace AcceptanceTrace

variable (p : ReflectionPolicy)

def next (t : AcceptanceTrace) (op : RagOp) (r : op.Res) : AcceptanceTrace where
  critique := if op.isCritique then some ⟨op, r⟩ else t.critique
  revised := t.revised || op.isRevise
  decided := t.decided ∧ p.Decided ⟨op, r⟩

theorem follow_next (h : List RagEvent) :
    follow (next p) {} h =
      { critique := LastMatch.findLast (fun event => decide (event.1.isCritique = true)) h
        revised := h.any fun event => event.1.isRevise
        decided := ∀ event ∈ h, p.Decided event } := by
  induction h using List.reverseRecOn with
  | nil => simp [follow, LastMatch.findLast]
  | append_singleton h event ih =>
    have hdecided : (∀ event' ∈ h ++ [event], p.Decided event') ↔
        (∀ event' ∈ h, p.Decided event') ∧ p.Decided event := by
      rw [List.forall_mem_append, List.forall_mem_singleton]
    rw [follow_concat, ih, next, LastMatch.findLast_concat]
    simp only [hdecided, List.any_append, List.any_cons, List.any_nil, Bool.or_false,
      decide_eq_true_eq]

end AcceptanceTrace

/-! ## What an outcome stands on -/

namespace ReflectionEngine

variable (e : ReflectionEngine) (p : ReflectionPolicy) (question : String)

/-- The chunks an answer's claims are checked against. -/
def checkedChunks (evidence : List EvidenceChunk) : List RetrievedChunk :=
  evidence.map fun item => ⟨item.text, item.source, item.retrievalScore, item.pageNumber⟩

/-- A revised answer cites no source that its evidence lacks. -/
def Uncorrupted (t : AcceptanceTrace) (answer : String) (evidence : List EvidenceChunk) : Prop :=
  t.revised = true → findFabricatedCitations answer evidence = .ok []

/-- The last critique is of this answer and this evidence. -/
structure Judged (t : AcceptanceTrace) (answer : String) (evidence : List EvidenceChunk)
    (critique : ReflectionCritique) : Prop where
  last : t.critique = some ⟨.critique question evidence answer, .ok critique⟩
  uncorrupted : Uncorrupted t answer evidence

/-- What is known of an accepted answer. -/
structure Sound (t : AcceptanceTrace) (answer : String) (evidence : List EvidenceChunk)
    (critique : ReflectionCritique) : Prop extends Judged question t answer evidence critique where
  passes : p.Passes critique
  supported : e.findUnsupportedClaims answer (checkedChunks evidence) = []

/-- If the outcome is accepted, and the decisions were the policy's, it is sound. -/
def SoundOutcome (t : AcceptanceTrace) (outcome : SelfReflectionOutcome) : Prop :=
  outcome.accepted = true → t.decided →
    ∃ critique, e.Sound p question t outcome.answer outcome.evidence critique

variable {e p question} {t : AcceptanceTrace} {state : ReflectionState}
  {critique : ReflectionCritique} {action : ReflectionAction} {deadline : ℚ} {maxRetrievals : ℕ}
  {augment : String → RagProgram (List EvidenceChunk)}

theorem soundOutcome_abstainBudget (reason : String) :
    e.SoundOutcome p question t (abstainBudget state reason) :=
  fun h => nomatch h

theorem soundOutcome_abstainPolicy (reason : Option String) :
    e.SoundOutcome p question t (abstainPolicy state critique reason) :=
  fun h => nomatch h

/-- The end of a part : a sound outcome or something to go on with. -/
def SoundPart {α : Type} (e : ReflectionEngine) (p : ReflectionPolicy) (question : String)
    (P : AcceptanceTrace → α → Prop) (t : AcceptanceTrace) : Except Raised (Ended α) → Prop
  | .error _ => True
  | .ok (.inl outcome) => e.SoundOutcome p question t outcome
  | .ok (.inr a) => P t a

/-- The trace does not see the clock. -/
theorem next_perfCounter (t : AcceptanceTrace) :
    True ∧ ∀ r, t.next p .perfCounter r = t := by
  refine ⟨trivial, fun r => ?_⟩
  rw [AcceptanceTrace.next]
  simp [RagOp.isCritique, RagOp.isRevise, ReflectionPolicy.Decided]

theorem keeps_critiqueRound_sound (h : Uncorrupted t state.answer state.evidence) :
    Keeps (fun _ _ => True) (AcceptanceTrace.next p)
      (SoundPart e p question fun t go =>
        Judged question t go.1.answer go.1.evidence go.2.1 ∧
          (t.decided → go.2.2 = .accept →
            e.Sound p question t go.1.answer go.1.evidence go.2.1))
      t (e.critiqueRound question deadline maxRetrievals state) := by
  refine keeps_deadlineExceeded_bind (next_perfCounter t) fun exceeded => ?_
  split
  · exact soundOutcome_abstainBudget _
  split
  · exact soundOutcome_abstainBudget _
  refine keeps_noSecondsRemaining_bind (next_perfCounter t) fun none => ?_
  split
  · exact soundOutcome_abstainBudget _
  refine keeps_ask_bind trivial (fun _ _ _ => trivial) ?_
  rintro _ critique rfl
  have hjudged : Judged question
      (t.next p (.critique question state.evidence state.answer) (.ok critique))
      state.answer state.evidence critique :=
    ⟨rfl, fun hrevised => h (by simpa [AcceptanceTrace.next, RagOp.isRevise] using hrevised)⟩
  refine keeps_deadlineExceeded_bind (next_perfCounter _) fun exceeded => ?_
  split
  · exact soundOutcome_abstainPolicy _
  split
  · exact soundOutcome_abstainPolicy _
  refine keeps_ask_bind trivial (fun _ _ _ => trivial) ?_
  rintro _ action rfl
  -- the decision is neither a critique nor a revision
  have hkept : ∀ decision claims budget, Judged question
      (AcceptanceTrace.next p
        (t.next p (.critique question state.evidence state.answer) (.ok critique))
        (.decide critique decision budget claims) (.ok action))
      state.answer state.evidence critique := fun _ _ _ =>
    ⟨rfl, fun hrevised => hjudged.uncorrupted (by
      simpa [AcceptanceTrace.next, RagOp.isRevise] using hrevised)⟩
  refine ⟨hkept _ _ _, fun hdecided haccept => ?_⟩
  have hpolicy := Except.ok.inj hdecided.2
  obtain ⟨hpasses, hclaims⟩ := p.passes_of_decide (hpolicy.symm.trans haccept)
  exact ⟨hkept _ _ _, hpasses, hclaims⟩

theorem keeps_retrieveMore_sound :
    Keeps (fun _ _ => True) (AcceptanceTrace.next p)
      (SoundPart e p question fun _ _ => True) t
      (e.retrieveMore question deadline maxRetrievals augment state critique action) := by
  rw [retrieveMore]
  split
  · refine keeps_noSecondsRemaining_bind (next_perfCounter t) fun none => ?_
    split
    · exact soundOutcome_abstainPolicy _
    refine keeps_orRaise_bind (fun _ _ => trivial) fun query _ => ?_
    refine Keeps.bind (R := fun _ _ => True)
      (keeps_of_forall (fun _ _ => trivial) fun _ _ => trivial) (fun _ _ _ => trivial)
      fun t additional _ => ?_
    refine keeps_deadlineExceeded_bind (next_perfCounter _) fun exceeded => ?_
    split
    · exact soundOutcome_abstainPolicy _
    · trivial
  · trivial

theorem keeps_reviseRound_sound :
    Keeps (fun _ _ => True) (AcceptanceTrace.next p)
      (SoundPart e p question fun t state => Uncorrupted t state.answer state.evidence) t
      (e.reviseRound question deadline state critique) := by
  refine keeps_noSecondsRemaining_bind (next_perfCounter t) fun none => ?_
  split
  · exact soundOutcome_abstainPolicy _
  split
  · exact soundOutcome_abstainPolicy _
  have hrevised : Keeps (fun _ _ => True) (AcceptanceTrace.next p)
      (fun _ x => ∀ revised, x = .ok revised →
        findFabricatedCitations revised.1 state.evidence = .ok []) t
      (reviseAnswer question state critique) := by
    refine keeps_ask_bind trivial (fun _ _ _ _ h => nomatch h) fun _ revised _ => ?_
    refine keeps_orRaise_bind (fun _ _ _ h => nomatch h) fun fabricated hfabricated => ?_
    split
    · rename_i hnone
      rintro _ ⟨⟩
      exact hnone ▸ hfabricated
    · exact fun _ h => nomatch h
  refine hrevised.bind (fun _ _ _ => trivial) fun t revised hclean => ?_
  refine keeps_deadlineExceeded_bind (next_perfCounter _) fun exceeded => ?_
  split
  · exact soundOutcome_abstainPolicy _
  · exact fun _ => hclean revised rfl

theorem keeps_acceptRound_sound
    (h : t.decided → e.Sound p question t state.answer state.evidence critique) :
    Keeps (fun _ _ => True) (AcceptanceTrace.next p)
      (fun t x => ∀ outcome, x = .ok outcome → e.SoundOutcome p question t outcome) t
      (acceptRound deadline state critique) := by
  refine keeps_deadlineExceeded_bind (next_perfCounter t) fun exceeded => ?_
  split
  · rintro _ ⟨⟩
    exact soundOutcome_abstainPolicy _
  · rintro _ ⟨⟩ - hdecided
    exact ⟨critique, h hdecided⟩

/-- The loop ends with a sound outcome. -/
theorem keeps_reflectLoop_sound : ∀ {rounds : ℕ} {t : AcceptanceTrace} {state : ReflectionState},
    Uncorrupted t state.answer state.evidence →
      Keeps (fun _ _ => True) (AcceptanceTrace.next p)
        (fun t x => ∀ outcome, x = .ok outcome → e.SoundOutcome p question t outcome) t
        (e.reflectLoop question deadline maxRetrievals augment rounds state) := by
  intro rounds
  induction rounds with
  | zero =>
    intro t state h
    rw [reflectLoop]
    refine (keeps_critiqueRound_sound h).bind (fun _ _ _ _ h => by cases h) fun t ended hended => ?_
    split
    · rintro _ ⟨⟩
      exact hended
    · exact keeps_acceptRound_sound fun hdecided => hended.2 hdecided rfl
    · rintro _ ⟨⟩
      exact soundOutcome_abstainPolicy _
    · rintro _ ⟨⟩
      exact soundOutcome_abstainPolicy _
  | succ rounds ih =>
    intro t state h
    rw [reflectLoop]
    refine (keeps_critiqueRound_sound h).bind (fun _ _ _ _ h => by cases h) fun t ended hended => ?_
    split
    · rintro _ ⟨⟩
      exact hended
    · exact keeps_acceptRound_sound fun hdecided => hended.2 hdecided rfl
    · rintro _ ⟨⟩
      exact soundOutcome_abstainPolicy _
    · refine keeps_retrieveMore_sound.bind (fun _ _ _ _ h => by cases h) fun t ended hended => ?_
      split
      · rintro _ ⟨⟩
        exact hended
      refine keeps_reviseRound_sound.bind (fun _ _ _ _ h => by cases h) fun t ended hended => ?_
      split
      · rintro _ ⟨⟩
        exact hended
      · exact ih hended

/-! ## Accepted outcomes -/

/-- With the policy of thresholds, an accepted outcome is the answer and the evidence that the
last critique of the run was given. That critique passes, no claim of the answer is
unsupported, and if the run revised the answer it cites no source that the evidence lacks. -/
theorem reflect_sound (e : ReflectionEngine) (p : ReflectionPolicy) (isWord : Char → Bool)
    (lower : List Char → List Char) (question : String) (evidence : List EvidenceChunk)
    (answer : String) (augment : String → RagProgram (List EvidenceChunk)) (allowRetrieval : Bool)
    (o : RagOracle) (hchecker : e.findUnsupportedClaims = EnterpriseRag.findUnsupportedClaims isWord lower)
    (hpolicy : ∀ h critique state budget claims,
      o h (.decide critique state budget claims) = .ok (p.decide critique state budget claims))
    {outcome : SelfReflectionOutcome} {h : List RagEvent}
    (hrun : run o [] (e.reflect question evidence answer augment allowRetrieval) =
      (.ok outcome, h))
    (haccepted : outcome.accepted = true) :
    ∃ critique, LastMatch.IsLast (fun event : RagEvent => event.1.isCritique = true)
        ⟨.critique question outcome.evidence outcome.answer, .ok critique⟩ h ∧
      p.Passes critique ∧
      EnterpriseRag.findUnsupportedClaims isWord lower outcome.answer
        (checkedChunks outcome.evidence) = [] ∧
      ((∃ event ∈ h, event.1.isRevise = true) →
        findFabricatedCitations outcome.answer outcome.evidence = .ok []) := by
  have hkeeps : Keeps (fun _ _ => True) (AcceptanceTrace.next p)
      (fun t x => ∀ outcome, x = .ok outcome → e.SoundOutcome p question t outcome)
      (follow (AcceptanceTrace.next p) {} [])
      (e.reflect question evidence answer augment allowRetrieval) := by
    refine ⟨trivial, fun started => ?_⟩
    rw [(next_perfCounter _).2]
    exact keeps_reflectLoop_sound fun h => nomatch h
  have hend := hkeeps.run (o := o)
  rw [hrun, AcceptanceTrace.follow_next] at hend
  have hdecided : ∀ event ∈ h, p.Decided event := by
    rintro ⟨op, r⟩ hevent
    rw [← show (run o [] (e.reflect question evidence answer augment allowRetrieval)).2 = h from
      congrArg Prod.snd hrun] at hevent
    rcases answered_of_mem_run hevent with hevent | ⟨h', hr⟩
    · exact nomatch hevent
    cases op <;> try trivial
    exact hr.trans (hpolicy h' _ _ _ _)
  obtain ⟨critique, hsound⟩ := hend outcome rfl haccepted hdecided
  refine ⟨critique, LastMatch.findLast_eq_some_iff.1 hsound.last, hsound.passes,
    hchecker ▸ hsound.supported, fun ⟨event, hevent, hrevise⟩ => hsound.uncorrupted ?_⟩
  exact List.any_eq_true.2 ⟨event, hevent, hrevise⟩

end ReflectionEngine

/-! ## An accepted answer -/

/-- The desk's engine with the checker. -/
def deskChecked : ReflectionEngine :=
  { desk.selfReflection with
    findUnsupportedClaims := findUnsupportedClaims Char.isAlphanum (·.map Char.toLower) }

/-- The desk accepts the answer that it revised once. -/
theorem reflect_sound_desk :
    ∃ outcome h, run (deskDay deskConfig [] [scheduleChunk] "Fees are never due.") []
        (deskChecked.reflect "Fees?" [] "Two percent." deskAugment true) = (.ok outcome, h) ∧
      ∃ critique, LastMatch.IsLast (fun event : RagEvent => event.1.isCritique = true)
          ⟨.critique "Fees?" outcome.evidence outcome.answer, .ok critique⟩ h ∧
        deskPolicy.Passes critique ∧
        findUnsupportedClaims Char.isAlphanum (·.map Char.toLower) outcome.answer
          (ReflectionEngine.checkedChunks outcome.evidence) = [] ∧
        ((∃ event ∈ h, event.1.isRevise = true) →
          findFabricatedCitations outcome.answer outcome.evidence = .ok []) := by
  have haccepted : (run (deskDay deskConfig [] [scheduleChunk] "Fees are never due.") []
      (deskChecked.reflect "Fees?" [] "Two percent." deskAugment true)).1.toOption.map
        (·.accepted) = some true := by
    decide +kernel
  rcases hrun : run (deskDay deskConfig [] [scheduleChunk] "Fees are never due.") []
      (deskChecked.reflect "Fees?" [] "Two percent." deskAugment true) with ⟨_ | outcome, h⟩
  · rw [hrun] at haccepted
    exact nomatch haccepted
  · rw [hrun] at haccepted
    exact ⟨outcome, h, rfl, ReflectionEngine.reflect_sound deskChecked deskPolicy Char.isAlphanum
      (·.map Char.toLower) "Fees?" [] "Two percent." deskAugment true _ rfl
      (fun _ _ _ _ _ => rfl) hrun (Option.some.inj haccepted)⟩

end EnterpriseRag
