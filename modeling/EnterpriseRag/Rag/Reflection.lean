import EnterpriseRag.Core.Text
import EnterpriseRag.Rag.Citations
import EnterpriseRag.Rag.Operations

/-!
# Self-reflection

The loop critiques the answer, lets the policy choose, and revises, once more retrieving
first, until the answer is accepted or a budget is spent. `rounds` counts the revisions
left, so a run has one critique more than that at most. The time limits a call is given are
left out, the checks of the deadline are not.

A part of a round is `Ended` with an outcome or goes on with what the next part needs.
`RoundRule` is how a run is reasoned about : what holds of the answer and the evidence before
a critique, after it and before a revision carries from round to round (`keeps_execute`).
-/

namespace EnterpriseRag

/-! ## The query of an additional retrieval -/

/-- `unicodedata.category(ch) == "Cc"`. -/
def isControl (c : Char) : Bool :=
  c.toNat < 0x20 || (0x7f ≤ c.toNat ∧ c.toNat < 0xa0)

/-- `_FORBIDDEN_QUERY_MARKERS`. -/
def forbiddenQueryMarkers : List String :=
  ["ignore previous", "ignore all previous", "system prompt", "http://", "https://", "sql:"]

def validateReflectionQuery (casefold : String → String) (value : String) :
    Except Raised String :=
  let normalized := normalizeSpace value
  if value.toList.any isControl then .error (.exception "ValueError")
  else if ¬(3 ≤ normalized.length ∧ normalized.length ≤ 500) then .error (.exception "ValueError")
  else if forbiddenQueryMarkers.any (occursIn · (casefold normalized)) then
    .error (.exception "ValueError")
  else .ok normalized

/-! ## The evidence of a state -/

/-- The key two pieces of evidence are the same under. -/
def evidenceKey (casefold : String → String) (item : EvidenceChunk) :
    String × Option ℤ × String :=
  (item.source, item.pageNumber, normalizeSpace (casefold item.text))

/-- The loop of `_dedupe_evidence` : `result` holds what was kept so far. -/
def dedupeLoop (casefold : String → String) (maxChunks : ℕ) :
    List EvidenceChunk → List EvidenceChunk → List EvidenceChunk
  | result, [] => result
  | result, item :: rest =>
    if evidenceKey casefold item ∈ result.map (evidenceKey casefold) then
      dedupeLoop casefold maxChunks result rest
    else if maxChunks ≤ result.length + 1 then result ++ [item]
    else dedupeLoop casefold maxChunks (result ++ [item]) rest

/-- `_dedupe_evidence`. -/
def dedupeEvidence (casefold : String → String) (maxChunks : ℕ)
    (current additional : List EvidenceChunk) : List EvidenceChunk :=
  dedupeLoop casefold maxChunks [] (current ++ additional)

/-! ## The policy -/

/-- `ThresholdReflectionDecisionPolicy`. -/
structure ReflectionPolicy where
  minEvidenceRelevance : ℚ
  minAnswerRelevance : ℚ
  minCitationCompleteness : ℚ
  minUtility : ℤ
  deriving DecidableEq, Repr

def ReflectionPolicy.decide (p : ReflectionPolicy) (critique : ReflectionCritique)
    (state : ReflectionState) (budget : ReflectionBudget)
    (deterministicUnsupportedClaims : List String) : ReflectionAction :=
  let supported := critique.supportLevel = .full ∧ critique.unsupportedClaims = [] ∧
    deterministicUnsupportedClaims = []
  let qualityPass := supported ∧ p.minEvidenceRelevance ≤ critique.evidenceRelevance ∧
    p.minAnswerRelevance ≤ critique.answerRelevance ∧
    p.minCitationCompleteness ≤ critique.citationCompleteness ∧
    p.minUtility ≤ critique.utility ∧ critique.missingAspects = []
  let retrievalBudget := state.additionalRetrievals < budget.maxAdditionalRetrievals
  let revisionBudget := state.iteration < budget.maxIterations
  let evidenceInsufficient := critique.retrievalNeeded = true ∨
    critique.evidenceRelevance < p.minEvidenceRelevance ∨ critique.supportLevel = .none
  let evidenceUsable := p.minEvidenceRelevance ≤ critique.evidenceRelevance ∧
    critique.supportLevel ≠ .none
  if qualityPass then .accept
  else if evidenceInsufficient ∧ retrievalBudget ∧ revisionBudget then .retrieveMore
  else if evidenceUsable ∧ revisionBudget then .revise
  else .abstain

/-! ## The engine -/

/-- `StructuredSelfReflectionEngine`, with the checker of claims it calls. Its critic, its
policy and its reviser are operations. -/
structure ReflectionEngine where
  maxIterations : ℕ
  maxAdditionalRetrievals : ℕ
  maxTotalTokens : ℤ
  totalTimeout : ℚ
  maxEvidenceChunks : ℕ
  cacheNamespace : String
  casefold : String → String
  findUnsupportedClaims : String → List RetrievedChunk → List String

/-- `_ABSTENTION`. -/
def reflectionAbstention : String :=
  "The supplied approved evidence is insufficient to produce a fully " ++
    "supported answer to this question."

/-- `_abstain_budget` : before the critique of the round. -/
def abstainBudget (state : ReflectionState) (reason : String) : SelfReflectionOutcome where
  answer := reflectionAbstention
  evidence := state.evidence
  applied := true
  accepted := false
  finalAction := .abstain
  iterations := state.iteration
  additionalRetrievals := state.additionalRetrievals
  abstain := true
  bypassReason := some reason
  usageTokens := state.totalTokens

/-- `_abstain_policy` : with the scores of the critique. -/
def abstainPolicy (state : ReflectionState) (critique : ReflectionCritique)
    (reason : Option String) : SelfReflectionOutcome where
  answer := reflectionAbstention
  evidence := state.evidence
  applied := true
  accepted := false
  finalAction := .abstain
  iterations := state.iteration + 1
  additionalRetrievals := state.additionalRetrievals
  abstain := true
  bypassReason := reason
  supportLevel := some critique.supportLevel
  answerRelevance := some critique.answerRelevance
  citationCompleteness := some critique.citationCompleteness
  utility := some critique.utility
  usageTokens := state.totalTokens

def acceptAnswer (state : ReflectionState) (critique : ReflectionCritique) :
    SelfReflectionOutcome where
  answer := state.answer
  evidence := state.evidence
  applied := true
  accepted := true
  finalAction := .accept
  iterations := state.iteration + 1
  additionalRetrievals := state.additionalRetrievals
  supportLevel := some critique.supportLevel
  answerRelevance := some critique.answerRelevance
  citationCompleteness := some critique.citationCompleteness
  utility := some critique.utility
  usageTokens := state.totalTokens

/-- Reflection ended with an outcome, or goes on. -/
abbrev Ended (α : Type) : Type :=
  SelfReflectionOutcome ⊕ α

open Program

/-- `_deadline_exceeded`. -/
def deadlineExceeded (deadline : ℚ) : RagProgram Bool := do
  return deadline ≤ (← perform .perfCounter)

/-- `_remaining_seconds(deadline) <= 0`. -/
def noSecondsRemaining (deadline : ℚ) : RagProgram Bool := do
  return deadline - (← perform .perfCounter) ≤ 0

/-- The answer reviser : the LLM's revision, unless it cites what it was not given. -/
def reviseAnswer (question : String) (state : ReflectionState) (critique : ReflectionCritique) :
    RagProgram (String × ℤ) := do
  let revised ← ask (.revise question state.evidence state.answer critique) id
  let fabricated ← orRaise (findFabricatedCitations revised.1 state.evidence)
  if fabricated = [] then return revised else .raise (.exception "ValueError")

namespace ReflectionEngine

variable (e : ReflectionEngine) (question : String) (deadline : ℚ) (maxRetrievals : ℕ)

/-- A round up to the decision of the policy. -/
def critiqueRound (state : ReflectionState) :
    RagProgram (Ended (ReflectionState × ReflectionCritique × ReflectionAction)) := do
  if ← deadlineExceeded deadline then
    return .inl (abstainBudget state "budget_exhausted_deadline")
  else if e.maxTotalTokens < state.totalTokens then
    return .inl (abstainBudget state "budget_exhausted_tokens")
  else if ← noSecondsRemaining deadline then
    return .inl (abstainBudget state "budget_exhausted_deadline")
  else do
    let critique ← ask (.critique question state.evidence state.answer) id
    let state := { state with totalTokens := state.totalTokens + critique.usageTokens }
    if ← deadlineExceeded deadline then
      return .inl (abstainPolicy state critique (some "budget_exhausted_deadline"))
    else if e.maxTotalTokens < state.totalTokens then
      return .inl (abstainPolicy state critique (some "budget_exhausted_tokens"))
    else
      let claims := e.findUnsupportedClaims state.answer
        (state.evidence.map fun item => ⟨item.text, item.source, item.retrievalScore,
          item.pageNumber⟩)
      let budget := ⟨e.maxIterations, maxRetrievals, e.maxTotalTokens, deadline⟩
      return .inr (state, critique, ← ask (.decide critique state budget claims) id)

/-- The additional retrieval, for an action that asks for one the budget allows. -/
def retrieveMore (augment : String → RagProgram (List EvidenceChunk)) (state : ReflectionState)
    (critique : ReflectionCritique) (action : ReflectionAction) :
    RagProgram (Ended ReflectionState) := do
  if action = .retrieveMore ∧ state.additionalRetrievals < maxRetrievals then
    if ← noSecondsRemaining deadline then
      return .inl (abstainPolicy state critique (some "budget_exhausted_deadline"))
    else do
      let query ← orRaise (validateReflectionQuery e.casefold
        (orElseText critique.retrievalQuery question))
      let additional ← augment query
      let state := { state with
        evidence := dedupeEvidence e.casefold e.maxEvidenceChunks state.evidence additional
        additionalRetrievals := state.additionalRetrievals + 1 }
      if ← deadlineExceeded deadline then
        return .inl (abstainPolicy state critique (some "budget_exhausted_deadline"))
      else return .inr state
  else return .inr state

/-- The revision of a round. -/
def reviseRound (state : ReflectionState) (critique : ReflectionCritique) :
    RagProgram (Ended ReflectionState) := do
  if ← noSecondsRemaining deadline then
    return .inl (abstainPolicy state critique (some "budget_exhausted_deadline"))
  else if e.maxTotalTokens ≤ state.totalTokens then
    return .inl (abstainPolicy state critique (some "budget_exhausted_tokens"))
  else do
    let revised ← reviseAnswer question state critique
    if ← deadlineExceeded deadline then
      return .inl (abstainPolicy state critique (some "budget_exhausted_deadline"))
    else
      return .inr { state with
        answer := revised.1
        iteration := state.iteration + 1
        totalTokens := state.totalTokens + revised.2 }

/-- `ACCEPT`, after a last look at the deadline. -/
def acceptRound (state : ReflectionState) (critique : ReflectionCritique) :
    RagProgram SelfReflectionOutcome := do
  if ← deadlineExceeded deadline then
    return abstainPolicy state critique (some "budget_exhausted_deadline")
  else return acceptAnswer state critique

/-- The loop, with `rounds` revisions left. -/
def reflectLoop (augment : String → RagProgram (List EvidenceChunk)) :
    ℕ → ReflectionState → RagProgram SelfReflectionOutcome
  | rounds, state => do
    match ← e.critiqueRound question deadline maxRetrievals state with
    | .inl outcome => return outcome
    | .inr (state, critique, .accept) => acceptRound deadline state critique
    | .inr (state, critique, .abstain) => return abstainPolicy state critique none
    | .inr (state, critique, action) =>
      match rounds with
      | 0 => return abstainPolicy state critique (some "budget_exhausted_iterations")
      | rounds + 1 => do
        match ← e.retrieveMore question deadline maxRetrievals augment state critique action with
        | .inl outcome => return outcome
        | .inr state => do
          match ← e.reviseRound question deadline state critique with
          | .inl outcome => return outcome
          | .inr state => reflectLoop augment rounds state

/-- `reflect`. -/
def reflect (question : String) (evidence : List EvidenceChunk) (initialAnswer : String)
    (augment : String → RagProgram (List EvidenceChunk)) (allowRetrieval : Bool) :
    RagProgram SelfReflectionOutcome := do
  let started ← perform .perfCounter
  e.reflectLoop question (started + e.totalTimeout)
    (if allowRetrieval then e.maxAdditionalRetrievals else 0) augment e.maxIterations
    { answer := initialAnswer, evidence }

/-- What `FailSafeSelfReflectionEngine` makes of a failure. -/
def failSafeReflect (answer : String) (evidence : List EvidenceChunk) :
    SelfReflectionOutcome where
  answer
  evidence
  applied := false
  accepted := false
  finalAction := .abstain
  iterations := 0
  additionalRetrievals := 0
  fallback := true
  bypassReason := some "reflection_error"

/-- `DynamicSelfReflectionEngine.execute` in the cohorts that run the engine. -/
def execute (question : String) (evidence : List EvidenceChunk) (initialAnswer : String)
    (augment : String → RagProgram (List EvidenceChunk)) (plan : SelfReflectionPlan) :
    RagProgram SelfReflectionOutcome :=
  (e.reflect question evidence initialAnswer augment plan.allowRetrieval).exceptException
    fun _ => return failSafeReflect initialAnswer evidence

end ReflectionEngine

/-! ## Reasoning about rounds -/

universe u

section RoundRule

variable {γ : Type u} {allowed : γ → RagOp → Prop} {next : γ → (op : RagOp) → op.Res → γ}

/-- The clock is read, and the run goes on either way. -/
theorem keeps_deadlineExceeded_bind {α : Type} {Q : γ → Except Raised α → Prop} {g : γ}
    {deadline : ℚ} {f : Bool → RagProgram α}
    (hclock : allowed g .perfCounter ∧ ∀ r, next g .perfCounter r = g)
    (h : ∀ b, Keeps allowed next Q g (f b)) :
    Keeps allowed next Q g (deadlineExceeded deadline >>= f) :=
  ⟨hclock.1, fun r => by rw [hclock.2]; exact h _⟩

theorem keeps_noSecondsRemaining_bind {α : Type} {Q : γ → Except Raised α → Prop} {g : γ}
    {deadline : ℚ} {f : Bool → RagProgram α}
    (hclock : allowed g .perfCounter ∧ ∀ r, next g .perfCounter r = g)
    (h : ∀ b, Keeps allowed next Q g (f b)) :
    Keeps allowed next Q g (noSecondsRemaining deadline >>= f) :=
  ⟨hclock.1, fun r => by rw [hclock.2]; exact h _⟩

/-- What holds of the ghost state, the answer and the evidence of a state : `I` before a
critique, `J` after it, `K` before a revision, `D` of an outcome and `E` after a failure. -/
structure RoundRule (e : ReflectionEngine) (question : String) (maxRetrievals : ℕ)
    (augment : String → RagProgram (List EvidenceChunk)) (allowed : γ → RagOp → Prop)
    (next : γ → (op : RagOp) → op.Res → γ)
    (I J K D : γ → String → List EvidenceChunk → Prop) (E : γ → Prop) : Prop where
  clock : ∀ g, allowed g .perfCounter ∧ ∀ r, next g .perfCounter r = g
  decide : ∀ g c s b claims, allowed g (.decide c s b claims) ∧
    ∀ r, next g (.decide c s b claims) r = g
  start : ∀ {g answer evidence}, I g answer evidence → D g reflectionAbstention evidence
  critique : ∀ {g answer evidence}, I g answer evidence →
    allowed g (.critique question evidence answer) ∧
      (∀ x, E (next g (.critique question evidence answer) (.error x))) ∧
      ∀ c, J (next g (.critique question evidence answer) (.ok c)) answer evidence
  accept : ∀ {g answer evidence}, J g answer evidence → D g answer evidence
  decline : ∀ {g answer evidence}, J g answer evidence → D g reflectionAbstention evidence
  invalid : ∀ {g answer evidence}, J g answer evidence → E g
  keep : ∀ {g answer evidence}, J g answer evidence → K g answer evidence
  augment : 0 < maxRetrievals → ∀ {g answer evidence} (query : String), J g answer evidence →
    Keeps allowed next
      (fun g' x => match x with
        | .error _ => E g'
        | .ok additional => K g' answer
            (dedupeEvidence e.casefold e.maxEvidenceChunks evidence additional))
      g (augment query)
  exhaust : ∀ {g answer evidence}, K g answer evidence → D g reflectionAbstention evidence
  revise : ∀ {g answer evidence c}, K g answer evidence →
    allowed g (.revise question evidence answer c) ∧
      ∀ r, E (next g (.revise question evidence answer c) r) ∧
        ∀ revised, r = .ok revised → findFabricatedCitations revised.1 evidence = .ok [] →
          I (next g (.revise question evidence answer c) r) revised.1 evidence

namespace RoundRule

variable {e : ReflectionEngine} {question : String} {maxRetrievals : ℕ}
  {augment : String → RagProgram (List EvidenceChunk)}
  {I J K D : γ → String → List EvidenceChunk → Prop} {E : γ → Prop} {deadline : ℚ}
  {g : γ} {state : ReflectionState} {critique : ReflectionCritique} {action : ReflectionAction}

/-- An outcome of the loop. -/
def Outcome (D : γ → String → List EvidenceChunk → Prop) (g : γ) (o : SelfReflectionOutcome) :
    Prop :=
  D g o.answer o.evidence ∧ o.fallback = false

/-- The end of a part : an outcome, something to go on with, or a failure. -/
def Part {α : Type} (D : γ → String → List EvidenceChunk → Prop) (E : γ → Prop)
    (P : γ → α → Prop) (g : γ) : Except Raised (Ended α) → Prop
  | .error _ => E g
  | .ok (.inl outcome) => Outcome D g outcome
  | .ok (.inr a) => P g a

/-- The end of the loop. -/
def Whole (D : γ → String → List EvidenceChunk → Prop) (E : γ → Prop) (g : γ) :
    Except Raised SelfReflectionOutcome → Prop
  | .error _ => E g
  | .ok outcome => Outcome D g outcome

theorem keeps_critiqueRound (h : RoundRule e question maxRetrievals augment allowed next I J K D E)
    (hI : I g state.answer state.evidence) :
    Keeps allowed next (Part D E fun g x => J g x.1.answer x.1.evidence) g
      (e.critiqueRound question deadline maxRetrievals state) := by
  refine keeps_deadlineExceeded_bind (h.clock g) fun exceeded => ?_
  split
  · exact ⟨h.start hI, rfl⟩
  split
  · exact ⟨h.start hI, rfl⟩
  refine keeps_noSecondsRemaining_bind (h.clock g) fun none => ?_
  split
  · exact ⟨h.start hI, rfl⟩
  obtain ⟨hallowed, herror, hok⟩ := h.critique hI
  refine keeps_ask_bind hallowed ?_ ?_
  · rintro _ x rfl
    exact herror x
  rintro _ c rfl
  refine keeps_deadlineExceeded_bind (h.clock _) fun exceeded => ?_
  split
  · exact ⟨h.decline (hok c), rfl⟩
  split
  · exact ⟨h.decline (hok c), rfl⟩
  refine keeps_ask_bind (h.decide _ _ _ _ _).1 (fun r _ _ => ?_) fun r action _ => ?_
  · rw [(h.decide _ _ _ _ _).2]
    exact h.invalid (hok c)
  · rw [(h.decide _ _ _ _ _).2]
    exact hok c

theorem keeps_retrieveMore (h : RoundRule e question maxRetrievals augment allowed next I J K D E)
    (hJ : J g state.answer state.evidence) :
    Keeps allowed next (Part D E fun g s => K g s.answer s.evidence) g
      (e.retrieveMore question deadline maxRetrievals augment state critique action) := by
  rw [ReflectionEngine.retrieveMore]
  split
  · rename_i hbudget
    refine keeps_noSecondsRemaining_bind (h.clock g) fun none => ?_
    split
    · exact ⟨h.decline hJ, rfl⟩
    refine keeps_orRaise_bind (fun _ _ => h.invalid hJ) fun query _ => ?_
    refine (h.augment (by omega) query hJ).bind (fun _ _ hx => hx) fun g' additional hK => ?_
    refine keeps_deadlineExceeded_bind (h.clock _) fun exceeded => ?_
    split
    · exact ⟨h.exhaust hK, rfl⟩
    · exact hK
  · exact h.keep hJ

theorem keeps_reviseRound (h : RoundRule e question maxRetrievals augment allowed next I J K D E)
    (hK : K g state.answer state.evidence) :
    Keeps allowed next (Part D E fun g s => I g s.answer s.evidence) g
      (e.reviseRound question deadline state critique) := by
  refine keeps_noSecondsRemaining_bind (h.clock g) fun none => ?_
  split
  · exact ⟨h.exhaust hK, rfl⟩
  split
  · exact ⟨h.exhaust hK, rfl⟩
  obtain ⟨hallowed, hafter⟩ := h.revise (c := critique) hK
  have hrevised : Keeps allowed next
      (fun g x => match x with
        | .error _ => E g
        | .ok revised => I g revised.1 state.evidence) g
      (reviseAnswer question state critique) := by
    refine keeps_ask_bind hallowed (fun r _ _ => (hafter r).1) ?_
    rintro r revised rfl
    refine keeps_orRaise_bind (fun _ _ => (hafter _).1) fun fabricated hfabricated => ?_
    split
    · rename_i hnone
      exact (hafter _).2 revised rfl (hnone ▸ hfabricated)
    · exact (hafter _).1
  refine hrevised.bind (fun _ _ hx => hx) fun g' revised hI => ?_
  refine keeps_deadlineExceeded_bind (h.clock _) fun exceeded => ?_
  split
  · exact ⟨h.start hI, rfl⟩
  · exact hI

theorem keeps_reflectLoop (h : RoundRule e question maxRetrievals augment allowed next I J K D E) :
    ∀ {rounds : ℕ} {g : γ} {state : ReflectionState}, I g state.answer state.evidence →
      Keeps allowed next (Whole D E) g
        (e.reflectLoop question deadline maxRetrievals augment rounds state) := by
  intro rounds
  induction rounds with
  | zero =>
    intro g state hI
    rw [ReflectionEngine.reflectLoop]
    refine (h.keeps_critiqueRound hI).bind (fun _ _ hx => hx) fun g' ended hJ => ?_
    split
    · exact hJ
    · refine keeps_deadlineExceeded_bind (h.clock _) fun exceeded => ?_
      split
      · exact ⟨h.decline hJ, rfl⟩
      · exact ⟨h.accept hJ, rfl⟩
    · exact ⟨h.decline hJ, rfl⟩
    · exact ⟨h.decline hJ, rfl⟩
  | succ rounds ih =>
    intro g state hI
    rw [ReflectionEngine.reflectLoop]
    refine (h.keeps_critiqueRound hI).bind (fun _ _ hx => hx) fun g' ended hJ => ?_
    split
    · exact hJ
    · refine keeps_deadlineExceeded_bind (h.clock _) fun exceeded => ?_
      split
      · exact ⟨h.decline hJ, rfl⟩
      · exact ⟨h.accept hJ, rfl⟩
    · exact ⟨h.decline hJ, rfl⟩
    · refine (h.keeps_retrieveMore hJ).bind (fun _ _ hx => hx) fun g' ended hK => ?_
      split
      · exact hK
      refine (h.keeps_reviseRound hK).bind (fun _ _ hx => hx) fun g' ended hI => ?_
      split
      · exact hI
      · exact ih hI

/-- The engine behind its guard : an outcome of the loop, or the untouched answer after a
failure. -/
theorem keeps_execute {evidence : List EvidenceChunk} {answer : String} {plan : SelfReflectionPlan}
    (h : RoundRule e question (if plan.allowRetrieval then e.maxAdditionalRetrievals else 0)
      augment allowed next I J K D E) (hI : I g answer evidence) :
    Keeps allowed next
      (fun g x => match x with
        | .error _ => E g
        | .ok outcome => Outcome D g outcome ∨
            E g ∧ outcome = ReflectionEngine.failSafeReflect answer evidence)
      g (e.execute question evidence answer augment plan) := by
  rw [ReflectionEngine.execute, RagProgram.exceptException, keeps_tryCatch]
  have hwhole : Keeps allowed next (Whole D E) g
      (e.reflect question evidence answer augment plan.allowRetrieval) := by
    refine ⟨(h.clock g).1, fun started => ?_⟩
    rw [(h.clock g).2]
    exact h.keeps_reflectLoop hI
  refine hwhole.mono fun g' x hx => ?_
  cases x with
  | ok outcome => exact Or.inl hx
  | error x =>
    dsimp only
    split
    · exact Or.inr ⟨hx, rfl⟩
    · exact hx

end RoundRule

/-- The operations of the engine, with those of the augmenter if it may be called. -/
theorem ReflectionEngine.uses_execute {e : ReflectionEngine} {question : String}
    {augment : String → RagProgram (List EvidenceChunk)} {S : RagOp → Prop}
    {evidence : List EvidenceChunk} {answer : String} {plan : SelfReflectionPlan}
    (hclock : S .perfCounter)
    (hdecide : ∀ c state budget claims, S (.decide c state budget claims))
    (hcritique : ∀ evidence answer, S (.critique question evidence answer))
    (hrevise : ∀ evidence answer c, S (.revise question evidence answer c))
    (haugment : plan.allowRetrieval = true → ∀ query, (augment query).Uses S) :
    (e.execute question evidence answer augment plan).Uses S := by
  have hrule : RoundRule e question
      (if plan.allowRetrieval then e.maxAdditionalRetrievals else 0) augment
      (fun (_ : Unit) op => S op) (fun _ _ _ => ()) (fun _ _ _ => True) (fun _ _ _ => True)
      (fun _ _ _ => True) (fun _ _ _ => True) fun _ => True :=
    { clock := fun _ => ⟨hclock, fun _ => rfl⟩
      decide := fun _ c state budget claims => ⟨hdecide c state budget claims, fun _ => rfl⟩
      start := fun h => h
      critique := fun _ => ⟨hcritique _ _, fun _ => trivial, fun _ => trivial⟩
      accept := fun h => h
      decline := fun h => h
      invalid := fun h => h
      keep := fun h => h
      augment := by
        intro hmax g answer evidence query _
        have hallowed : plan.allowRetrieval = true := by
          by_contra hnot
          rw [if_neg hnot] at hmax
          exact Nat.lt_irrefl 0 hmax
        refine ((haugment hallowed query).keeps (I := fun _ => True)
          (fun g op hop _ => ⟨hop, fun _ => trivial⟩) trivial).mono fun _ x _ => ?_
        cases x <;> trivial
      exhaust := fun h => h
      revise := fun _ => ⟨hrevise _ _ _, fun _ => ⟨trivial, fun _ _ _ => trivial⟩⟩ }
  have hexecute : Keeps (fun (_ : Unit) op => S op) (fun _ _ _ => ()) _ ()
      (e.execute question evidence answer augment plan) := hrule.keeps_execute trivial
  exact hexecute.uses

end RoundRule

end EnterpriseRag
