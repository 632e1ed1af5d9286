import EnterpriseRag.Rag.EvidenceGuard

/-!
# The bounds of self-reflection

The loop of the engine ends whatever its critic, its policy, its reviser, its augmenter and
its clock do. `loopCost` is what a run may spend, for any cost of the single operations
(`pays_reflect`) : counting one kind of operation bounds its calls, counting all of them
bounds the run. An outcome that is not accepted is the fixed abstention, and an accepted one
is within the budget of tokens (`returns_reflect`).
-/

namespace EnterpriseRag

open Program

def RagOp.isCritique : RagOp → Bool
  | .critique _ _ _ => true
  | _ => false

namespace ReflectionEngine

/-! ## What a run spends -/

/-- What the engine's own operations cost at most. -/
structure EngineCost (cost : RagOp → ℕ) (critique decide revise clock : ℕ) : Prop where
  critique : ∀ question evidence answer, cost (.critique question evidence answer) ≤ critique
  decide : ∀ c state budget claims, cost (.decide c state budget claims) ≤ decide
  revise : ∀ question evidence answer c, cost (.revise question evidence answer c) ≤ revise
  clock : cost .perfCounter ≤ clock

/-- The cost of the loop with `rounds` revisions and `retrievals` retrievals left. -/
def loopCost (critique decide revise clock augment rounds retrievals : ℕ) : ℕ :=
  (rounds + 1) * (3 * clock + critique + decide) + rounds * (2 * clock + revise) +
    retrievals * (2 * clock + augment) + clock

section Cost

variable {e : ReflectionEngine} {question : String} {deadline : ℚ} {maxRetrievals : ℕ}
  {cost : RagOp → ℕ} {critique decide revise clock augmentation n : ℕ}
  {augment : String → RagProgram (List EvidenceChunk)} {state : ReflectionState}
  {c : ReflectionCritique} {action : ReflectionAction}

theorem pays_deadlineExceeded_bind {α : Type} {f : Bool → RagProgram α} {left : α → ℕ}
    (h : EngineCost cost critique decide revise clock) (hf : ∀ b, (f b).Pays cost n left) :
    (deadlineExceeded deadline >>= f).Pays cost (clock + n) left :=
  ⟨n, Nat.add_le_add_right h.clock n, fun _ => hf _⟩

theorem pays_noSecondsRemaining_bind {α : Type} {f : Bool → RagProgram α} {left : α → ℕ}
    (h : EngineCost cost critique decide revise clock) (hf : ∀ b, (f b).Pays cost n left) :
    (noSecondsRemaining deadline >>= f).Pays cost (clock + n) left :=
  ⟨n, Nat.add_le_add_right h.clock n, fun _ => hf _⟩

/-- A round up to the decision leaves what the rest of the round costs. -/
theorem pays_critiqueRound (h : EngineCost cost critique decide revise clock) (rest : ℕ → ℕ) :
    (e.critiqueRound question deadline maxRetrievals state).Pays cost
      (3 * clock + critique + decide + rest state.additionalRetrievals)
      fun ended => ended.elim (fun _ => 0) fun go => rest go.1.additionalRetrievals := by
  refine Pays.mono (n := clock + (clock + (critique + (clock +
    (decide + rest state.additionalRetrievals))))) (by omega) ?_
  refine pays_deadlineExceeded_bind h fun exceeded => ?_
  split
  · exact pays_pure (Nat.zero_le _)
  split
  · exact pays_pure (Nat.zero_le _)
  refine pays_noSecondsRemaining_bind h fun none => ?_
  split
  · exact pays_pure (Nat.zero_le _)
  refine pays_ask_bind (Nat.add_le_add_right (h.critique _ _ _) _) fun c => ?_
  refine pays_deadlineExceeded_bind h fun exceeded => ?_
  split
  · exact pays_pure (Nat.zero_le _)
  split
  · exact pays_pure (Nat.zero_le _)
  · exact pays_ask_bind (Nat.add_le_add_right (h.decide _ _ _ _) _) fun action =>
      pays_pure le_rfl

/-- An additional retrieval is paid from the budget of retrievals. -/
theorem pays_retrieveMore (h : EngineCost cost critique decide revise clock)
    (haugment : ∀ query, (augment query).CostAtMost cost augmentation) (rest : ℕ → ℕ)
    (hrest : ∀ used < maxRetrievals, 2 * clock + augmentation + rest (used + 1) ≤ rest used) :
    (e.retrieveMore question deadline maxRetrievals augment state c action).Pays cost
      (rest state.additionalRetrievals)
      fun ended => ended.elim (fun _ => 0) fun next => rest next.additionalRetrievals := by
  rw [retrieveMore]
  split
  · rename_i hbudget
    refine Pays.mono (n := clock + (augmentation + (clock +
      rest (state.additionalRetrievals + 1)))) ?_ ?_
    · have hused := hrest _ hbudget.2
      omega
    refine pays_noSecondsRemaining_bind h fun none => ?_
    split
    · exact pays_pure (Nat.zero_le _)
    refine pays_orRaise_bind fun query => ?_
    refine ((haugment query).frame _).bind fun additional => ?_
    rw [Nat.zero_add]
    refine pays_deadlineExceeded_bind h fun exceeded => ?_
    split
    · exact pays_pure (Nat.zero_le _)
    · exact pays_pure le_rfl
  · exact pays_pure le_rfl

theorem pays_reviseRound (h : EngineCost cost critique decide revise clock) (rest : ℕ → ℕ) :
    (e.reviseRound question deadline state c).Pays cost
      (2 * clock + revise + rest state.additionalRetrievals)
      fun ended => ended.elim (fun _ => 0) fun next => rest next.additionalRetrievals := by
  refine Pays.mono (n := clock + (revise + (clock + rest state.additionalRetrievals)))
    (by omega) ?_
  refine pays_noSecondsRemaining_bind h fun none => ?_
  split
  · exact pays_pure (Nat.zero_le _)
  split
  · exact pays_pure (Nat.zero_le _)
  have hrevised : (reviseAnswer question state c).CostAtMost cost revise := by
    refine pays_ask_bind (m := 0) (h.revise _ _ _ _) fun revised => ?_
    refine pays_orRaise_bind fun fabricated => ?_
    split
    · exact pays_pure le_rfl
    · trivial
  refine (hrevised.frame _).bind fun revised => ?_
  rw [Nat.zero_add]
  refine pays_deadlineExceeded_bind h fun exceeded => ?_
  split
  · exact pays_pure (Nat.zero_le _)
  · exact pays_pure le_rfl

/-- A round is paid from the cost of the loop, with the acceptance at its end. -/
theorem pays_reflectLoop (h : EngineCost cost critique decide revise clock)
    (haugment : ∀ query, (augment query).CostAtMost cost augmentation) :
    ∀ (rounds : ℕ) (state : ReflectionState),
      (e.reflectLoop question deadline maxRetrievals augment rounds state).CostAtMost cost
        (loopCost critique decide revise clock augmentation rounds
          (maxRetrievals - state.additionalRetrievals)) := by
  have haccept : ∀ {n : ℕ} {state : ReflectionState} {c : ReflectionCritique}, clock ≤ n →
      (acceptRound deadline state c).Pays cost n fun _ => 0 := by
    intro n state c hn
    refine Pays.mono hn (pays_deadlineExceeded_bind (n := 0) h fun exceeded => ?_)
    split <;> exact pays_pure (Nat.zero_le _)
  intro rounds
  induction rounds with
  | zero =>
    intro state
    rw [reflectLoop]
    refine ((pays_critiqueRound h fun used => clock + (maxRetrievals - used) *
      (2 * clock + augmentation)).mono ?_).bind fun ended => ?_
    · rw [loopCost]
      omega
    split
    · exact pays_pure (Nat.zero_le _)
    · exact haccept (Nat.le_add_right _ _)
    · exact pays_pure (Nat.zero_le _)
    · exact pays_pure (Nat.zero_le _)
  | succ rounds ih =>
    intro state
    -- what is left after the decision pays the retrieval, the revision and the rounds to come
    have hrest : ∀ used < maxRetrievals,
        2 * clock + augmentation + loopCost critique decide revise clock augmentation rounds
          (maxRetrievals - (used + 1)) =
        loopCost critique decide revise clock augmentation rounds (maxRetrievals - used) := by
      intro used hused
      obtain ⟨left, hleft⟩ : ∃ left, maxRetrievals - used = left + 1 :=
        ⟨maxRetrievals - used - 1, by omega⟩
      rw [hleft, show maxRetrievals - (used + 1) = left by omega, loopCost, loopCost, add_mul left]
      omega
    rw [reflectLoop]
    refine ((pays_critiqueRound h fun used => 2 * clock + revise + loopCost critique decide revise
      clock augmentation rounds (maxRetrievals - used)).mono ?_).bind fun ended => ?_
    · rw [loopCost, loopCost, add_mul (rounds + 1) 1, add_mul rounds 1 (2 * clock + revise)]
      omega
    split
    · exact pays_pure (Nat.zero_le _)
    · refine haccept ?_
      simp only [Sum.elim_inr, loopCost]
      omega
    · exact pays_pure (Nat.zero_le _)
    · refine (pays_retrieveMore h haugment (fun used => 2 * clock + revise + loopCost critique
        decide revise clock augmentation rounds (maxRetrievals - used)) ?_).bind fun ended => ?_
      · intro used hused
        have hused := hrest used hused
        omega
      split
      · exact pays_pure (Nat.zero_le _)
      refine (pays_reviseRound h fun used => loopCost critique decide revise clock augmentation
        rounds (maxRetrievals - used)).bind fun ended => ?_
      split
      · exact pays_pure (Nat.zero_le _)
      · exact ih _

/-- What `reflect` may spend. -/
theorem pays_reflect (h : EngineCost cost critique decide revise clock)
    (haugment : ∀ query, (augment query).CostAtMost cost augmentation) {answer : String}
    {evidence : List EvidenceChunk} {allowRetrieval : Bool} :
    (e.reflect question evidence answer augment allowRetrieval).CostAtMost cost
      (clock + loopCost critique decide revise clock augmentation e.maxIterations
        (if allowRetrieval then e.maxAdditionalRetrievals else 0)) :=
  ⟨_, Nat.add_le_add_right h.clock _, fun _ => pays_reflectLoop h haugment
    e.maxIterations { answer, evidence }⟩

end Cost

/-! ## What a run returns -/

/-- Accepted within the budget of tokens, or the fixed abstention. -/
def FailClosed (e : ReflectionEngine) (outcome : SelfReflectionOutcome) : Prop :=
  (outcome.accepted = true → outcome.usageTokens ≤ e.maxTotalTokens) ∧
    (outcome.accepted = false → outcome.answer = reflectionAbstention ∧ outcome.abstain = true)

section Outcome

variable {e : ReflectionEngine} {question : String} {deadline : ℚ} {maxRetrievals : ℕ}
  {augment : String → RagProgram (List EvidenceChunk)} {state : ReflectionState}
  {c : ReflectionCritique} {action : ReflectionAction}

theorem failClosed_abstainBudget (reason : String) : e.FailClosed (abstainBudget state reason) :=
  ⟨(fun h => nomatch h), fun _ => ⟨rfl, rfl⟩⟩

theorem failClosed_abstainPolicy (reason : Option String) :
    e.FailClosed (abstainPolicy state c reason) :=
  ⟨(fun h => nomatch h), fun _ => ⟨rfl, rfl⟩⟩

/-- After a critique that the run goes on from, the tokens are within the budget. -/
theorem returns_critiqueRound :
    (e.critiqueRound question deadline maxRetrievals state).Returns fun ended =>
      ended.elim e.FailClosed fun go => go.1.totalTokens ≤ e.maxTotalTokens := by
  refine Returns.bind (fun exceeded _ => ?_) (returns_true _)
  split
  · exact returns_pure (failClosed_abstainBudget _)
  split
  · exact returns_pure (failClosed_abstainBudget _)
  refine Returns.bind (fun none _ => ?_) (returns_true _)
  split
  · exact returns_pure (failClosed_abstainBudget _)
  refine Returns.bind (fun c _ => ?_) (returns_true _)
  refine Returns.bind (fun exceeded _ => ?_) (returns_true _)
  split
  · exact returns_pure (failClosed_abstainPolicy _)
  split
  · exact returns_pure (failClosed_abstainPolicy _)
  · rename_i htokens
    refine Returns.bind (fun action _ => ?_) (returns_true _)
    show state.totalTokens + c.usageTokens ≤ e.maxTotalTokens
    exact not_lt.1 htokens

theorem returns_retrieveMore :
    (e.retrieveMore question deadline maxRetrievals augment state c action).Returns fun ended =>
      ended.elim e.FailClosed fun _ => True := by
  rw [retrieveMore]
  split
  · refine Returns.bind (fun none _ => ?_) (returns_true _)
    split
    · exact returns_pure (failClosed_abstainPolicy _)
    refine Returns.bind (fun query _ => ?_) (returns_true _)
    refine Returns.bind (fun additional _ => ?_) (returns_true _)
    refine Returns.bind (fun exceeded _ => ?_) (returns_true _)
    split
    · exact returns_pure (failClosed_abstainPolicy _)
    · exact returns_pure trivial
  · exact returns_pure trivial

theorem returns_reviseRound :
    (e.reviseRound question deadline state c).Returns fun ended =>
      ended.elim e.FailClosed fun _ => True := by
  refine Returns.bind (fun none _ => ?_) (returns_true _)
  split
  · exact returns_pure (failClosed_abstainPolicy _)
  split
  · exact returns_pure (failClosed_abstainPolicy _)
  refine Returns.bind (fun revised _ => ?_) (returns_true _)
  refine Returns.bind (fun exceeded _ => ?_) (returns_true _)
  split
  · exact returns_pure (failClosed_abstainPolicy _)
  · exact returns_pure trivial

theorem returns_acceptRound (htokens : state.totalTokens ≤ e.maxTotalTokens) :
    (acceptRound deadline state c).Returns e.FailClosed := by
  refine Returns.bind (fun exceeded _ => ?_) (returns_true _)
  split
  · exact returns_pure (failClosed_abstainPolicy _)
  · exact returns_pure ⟨fun _ => htokens, fun h => nomatch h⟩

theorem returns_reflectLoop : ∀ {rounds : ℕ} {state : ReflectionState},
    (e.reflectLoop question deadline maxRetrievals augment rounds state).Returns e.FailClosed := by
  intro rounds
  induction rounds with
  | zero =>
    intro state
    rw [reflectLoop]
    refine Returns.bind (fun ended hended => ?_) returns_critiqueRound
    split
    · exact returns_pure hended
    · exact returns_acceptRound hended
    · exact returns_pure (failClosed_abstainPolicy _)
    · exact returns_pure (failClosed_abstainPolicy _)
  | succ rounds ih =>
    intro state
    rw [reflectLoop]
    refine Returns.bind (fun ended hended => ?_) returns_critiqueRound
    split
    · exact returns_pure hended
    · exact returns_acceptRound hended
    · exact returns_pure (failClosed_abstainPolicy _)
    · refine Returns.bind (fun ended hended => ?_) returns_retrieveMore
      split
      · exact returns_pure hended
      refine Returns.bind (fun ended hended => ?_) returns_reviseRound
      split
      · exact returns_pure hended
      · exact ih

theorem returns_reflect {answer : String} {evidence : List EvidenceChunk} {allowRetrieval : Bool} :
    (e.reflect question evidence answer augment allowRetrieval).Returns e.FailClosed :=
  Returns.bind (fun _ _ => returns_reflectLoop) (returns_true _)

end Outcome

/-! ## Bounded, fail-closed reflection -/

/-- The calls the engine makes itself. -/
def isEngineCall : RagOp → Bool
  | .critique _ _ _ | .decide _ _ _ _ | .revise _ _ _ _ | .perfCounter => true
  | _ => false

/-- Whatever the critic, the policy, the reviser, the augmenter and the clock do, a run of
`reflect` has a bounded number of revisions, critiques and calls to the augmenter (counted by
any call the augmenter makes once), it ends within a fixed number of calls if the augmenter
does, and it fails closed. -/
theorem reflect_bounded (e : ReflectionEngine) (question : String) (evidence : List EvidenceChunk)
    (answer : String) (augment : String → RagProgram (List EvidenceChunk))
    (allowRetrieval : Bool) (o : RagOracle)
    (haugment : ∀ query, (augment query).Uses fun op =>
      op.isCritique = false ∧ op.isRevise = false) :
    let reflected := run o [] (e.reflect question evidence answer augment allowRetrieval)
    let retrievals := if allowRetrieval then e.maxAdditionalRetrievals else 0
    (reflected.2.countP fun event => event.1.isRevise) ≤ e.maxIterations ∧
      (reflected.2.countP fun event => event.1.isCritique) ≤ e.maxIterations + 1 ∧
      (∀ p : RagOp → Bool, (∀ op, p op = true → isEngineCall op = false) →
        (∀ query, (augment query).CostAtMost (callCost p) 1) →
          (reflected.2.countP fun event => p event.1) ≤ retrievals) ∧
      (∀ n, (∀ query, (augment query).CostAtMost (callCost fun _ => true) n) →
        reflected.2.length ≤ 1 + loopCost 1 1 1 1 n e.maxIterations retrievals) ∧
      ∀ outcome, reflected.1 = .ok outcome → e.FailClosed outcome := by
  intro reflected retrievals
  refine ⟨?_, ?_, fun p hp hp' => ?_, fun n hn => ?_, fun outcome houtcome => ?_⟩
  · have hcost : EngineCost (callCost RagOp.isRevise) 0 0 1 0 :=
      ⟨fun _ _ _ => le_rfl, fun _ _ _ _ => le_rfl, fun _ _ _ _ => le_rfl, le_rfl⟩
    have hnone : ∀ query, (augment query).CostAtMost (callCost RagOp.isRevise) 0 := fun query =>
      (haugment query).costAtMost fun op hop => if_neg (by simp [hop.2])
    simpa [loopCost] using (pays_reflect (e := e) hcost hnone).countP_run (o := o)
  · have hcost : EngineCost (callCost RagOp.isCritique) 1 0 0 0 :=
      ⟨fun _ _ _ => le_rfl, fun _ _ _ _ => le_rfl, fun _ _ _ _ => le_rfl, le_rfl⟩
    have hnone : ∀ query, (augment query).CostAtMost (callCost RagOp.isCritique) 0 := fun query =>
      (haugment query).costAtMost fun op hop => if_neg (by simp [hop.1])
    simpa [loopCost] using (pays_reflect (e := e) hcost hnone).countP_run (o := o)
  · have hzero : ∀ op, isEngineCall op = true → callCost p op ≤ 0 := by
      intro op hop
      rw [callCost, if_neg]
      intro hpop
      rw [hp op hpop] at hop
      cases hop
    have hcost : EngineCost (callCost p) 0 0 0 0 :=
      ⟨fun _ _ _ => hzero _ rfl, fun _ _ _ _ => hzero _ rfl, fun _ _ _ _ => hzero _ rfl,
        hzero _ rfl⟩
    simpa [loopCost] using (pays_reflect (e := e) hcost hp').countP_run (o := o)
  · have hcost : EngineCost (callCost fun _ => true) 1 1 1 1 :=
      ⟨fun _ _ _ => le_rfl, fun _ _ _ _ => le_rfl, fun _ _ _ _ => le_rfl, le_rfl⟩
    have hlength : (reflected.2.countP fun _ => true) ≤ _ :=
      (pays_reflect (e := e) hcost hn).countP_run
    rwa [List.countP_true] at hlength
  · exact returns_reflect.run houtcome

end ReflectionEngine

/-! ## The desk's engine -/

/-- The additional retrieval of the desk. -/
def deskAugment (query : String) : RagProgram (List EvidenceChunk) := do
  return localEvidence (← ask (.retrieve .reflection .dense query none 5) id)

def RagOp.isReflectionRetrieval : RagOp → Bool
  | .retrieve .reflection _ _ _ _ => true
  | _ => false

/-- The desk's engine without retrieval : two revisions at most, no retrieval. -/
theorem reflect_bounded_desk :
    let reflected := run (deskDay deskConfig [] [scheduleChunk] "Two percent.") []
      (desk.selfReflection.reflect "Fees?" [] "Two percent." deskAugment false)
    (reflected.2.countP fun event => event.1.isRevise) ≤ 2 ∧
      (reflected.2.countP fun event => event.1.isReflectionRetrieval) ≤ 0 := by
  have hbounded := ReflectionEngine.reflect_bounded desk.selfReflection "Fees?" [] "Two percent."
    deskAugment false (deskDay deskConfig [] [scheduleChunk] "Two percent.")
    fun _ => Uses.bind (fun _ => uses_pure _) (uses_ask ⟨rfl, rfl⟩)
  refine ⟨hbounded.1, hbounded.2.2.1 RagOp.isReflectionRetrieval ?_ fun query => ?_⟩
  · intro op hop
    cases op <;> first | rfl | exact nomatch hop
  · exact pays_ask_bind (m := 0) le_rfl fun _ => pays_pure le_rfl

end EnterpriseRag
