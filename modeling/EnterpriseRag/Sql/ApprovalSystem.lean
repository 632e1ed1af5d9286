import EnterpriseRag.Library.Transition
import EnterpriseRag.Sql.Orchestrator
import Mathlib.Logic.Function.Basic

/-!
# The approval system

Chat turns that may store a proposal, approving calls, rejecting calls and the recovery
loop, all over one table. Every transaction is atomic. A chat turn reads its snapshot in
one step and answers in another, and an approving call takes one step for each call it
makes (`SQLService.advance`), so configuration changes, the clock and all other operations
come in between in any order. The `log` records what the results are about : proposals
stored, rows locked, rejected or found expired, and statements handed to the executor.

`SQLProposalStatus.Next` is the life of a proposal as the system really moves it, and
`status_step` says that every step takes every row along it and keeps its terms. `Sound`
is what makes that so : a row whose call has not finished is EXECUTING, or FAILED once the
recovery loop has taken it for abandoned, and no other call holds it.
-/

open Transition

namespace EnterpriseRag

inductive Observation
  | created (turn : ℕ) (config : RagRuntimeConfig) (proposal : SQLProposal)
  | locked (call : ℕ) (id : UUID) (reading at' : Timestamp)
  | expired (id : UUID)
  | rejected (id : UUID)
  | executed (call : ℕ) (config : RagRuntimeConfig) (principal : SQLPrincipal) (id : UUID)
      (validated : ValidatedSQL)
  deriving DecidableEq

structure ApprovalSystem where
  clock : Timestamp
  config : RagRuntimeConfig
  table : ProposalTable
  turns : ℕ → Option (ChatTurn × RagRuntimeConfig)
  calls : ℕ → Option ApproveCall
  log : List Observation

namespace ApprovalSystem

variable {ω : Type*}

inductive Event (ω : Type*)
  | tick (now : Timestamp)
  | configure (config : RagRuntimeConfig)
  | ask (i : ℕ) (turn : ChatTurn)
  | answer (i : ℕ) (ws : ℕ → ω)
  | approve (c : ℕ) (principal : SQLPrincipal) (id : UUID)
  | advance (c : ℕ) (w : ω)
  | reject (principal : SQLPrincipal) (id : UUID)
  | reclaim (olderThan : ℤ)

/-- No proposal, no turn and no call. -/
def init (clock : Timestamp) (config : RagRuntimeConfig) : ApprovalSystem :=
  ⟨clock, config, Table.empty, fun _ => none, fun _ => none, []⟩

/-- What a step of an approving call leaves in the log. -/
def observed (c : ℕ) (clock : Timestamp) (call : ApproveCall) (next : ApprovePoint) :
    List Observation :=
  match call.point with
  | .lock reading =>
    match next with
    | .catalog p => [.locked c p.id reading clock]
    | .raised e =>
      if e = .sqlProposalState "proposal_expired" then [.expired call.proposalId] else []
    | _ => []
  | .execute p _ validated => [.executed c call.config call.principal p.id validated]
  | _ => []

/-- One step. -/
def step (o : QueryOrchestrator ω) (s : ApprovalSystem) : Event ω → Option ApprovalSystem
  | .tick now => if now < s.clock then none else some { s with clock := now }
  | .configure config => some { s with config }
  | .ask i turn =>
    if (s.turns i).isSome then none
    else some { s with turns := Function.update s.turns i (some (turn, s.config)) }
  | .answer i ws =>
    (s.turns i).map fun (turn, config) =>
      match o.answer ws s.clock config turn s.table with
      | .ok (_, some (p, table)) =>
        { s with
          table
          turns := Function.update s.turns i none
          log := s.log ++ [.created i config p] }
      | _ => { s with turns := Function.update s.turns i none }
  | .approve c principal id =>
    if (s.calls c).isSome then none
    else
      some { s with
        calls := Function.update s.calls c (some (SQLService.approve principal id s.config)) }
  | .advance c w =>
    (s.calls c).bind fun call =>
      (o.sqlService.advance w s.clock call s.table).map fun (point, table) =>
        { s with
          table
          calls := Function.update s.calls c (some { call with point })
          log := s.log ++ observed c s.clock call point }
  | .reject principal id =>
    match s.table.reject id principal.username with
    | (.ok (), table) => some { s with table, log := s.log ++ [.rejected id] }
    | (.error _, table) => some { s with table }
  | .reclaim olderThan =>
    some { s with table := (s.table.reclaimStaleExecuting olderThan s.clock).2 }

/-- What each event does to the state. -/
theorem step_cases {o : QueryOrchestrator ω} {s s' : ApprovalSystem} {e : Event ω}
    (h : step o s e = some s') :
    ((∀ c w, e ≠ .advance c w) ∧ s'.table = s.table ∧ s'.calls = s.calls ∧ s'.log = s.log) ∨
    (∃ i ws turn config p, e = .answer i ws ∧ s.turns i = some (turn, config) ∧
      p.status = .proposed ∧ config.SqlOpen ∧
      s.table.insert { toSQLProposal := p } = some s'.table ∧ s'.calls = s.calls ∧
      s'.log = s.log ++ [.created i config p]) ∨
    (∃ c principal id, e = .approve c principal id ∧ s.calls c = none ∧ s'.table = s.table ∧
      s'.calls = Function.update s.calls c (some (SQLService.approve principal id s.config)) ∧
      s'.log = s.log) ∨
    (∃ c w call next, e = .advance c w ∧ s.calls c = some call ∧
      o.sqlService.advance w s.clock call s.table = some (next, s'.table) ∧
      s'.calls = Function.update s.calls c (some { call with point := next }) ∧
      s'.log = s.log ++ observed c s.clock call next) ∨
    (∃ principal id, e = .reject principal id ∧ s'.calls = s.calls ∧
      s'.table = (s.table.reject id principal.username).2 ∧
      (s'.log = s.log ∨ s'.log = s.log ++ [.rejected id] ∧
        (s.table.reject id principal.username).1 = .ok ())) ∨
    (∃ olderThan, e = .reclaim olderThan ∧ s'.calls = s.calls ∧ s'.log = s.log ∧
      s'.table = (s.table.reclaimStaleExecuting olderThan s.clock).2) := by
  cases e with
  | tick now =>
    simp only [step] at h
    split at h
    · simp at h
    · obtain rfl := Option.some.inj h
      exact Or.inl ⟨by simp, rfl, rfl, rfl⟩
  | configure config =>
    obtain rfl := Option.some.inj h
    exact Or.inl ⟨by simp, rfl, rfl, rfl⟩
  | ask i turn =>
    simp only [step] at h
    split at h
    · simp at h
    · obtain rfl := Option.some.inj h
      exact Or.inl ⟨by simp, rfl, rfl, rfl⟩
  | answer i ws =>
    simp only [step, Option.map_eq_some_iff] at h
    obtain ⟨⟨turn, config⟩, hturn, rfl⟩ := h
    dsimp only
    split
    · rename_i response p table hanswer
      obtain ⟨hopen, -, question, hproposed⟩ := QueryOrchestrator.answer_created hanswer
      obtain ⟨hstatus, -, -, hinsert⟩ := SQLService.propose_ok hproposed
      exact Or.inr (Or.inl ⟨i, ws, turn, config, p, rfl, hturn, hstatus, hopen, hinsert, rfl, rfl⟩)
    · exact Or.inl ⟨by simp, rfl, rfl, rfl⟩
  | approve c principal id =>
    simp only [step] at h
    split at h
    · simp at h
    · rename_i hfree
      obtain rfl := Option.some.inj h
      exact Or.inr (Or.inr (Or.inl ⟨c, principal, id, rfl, by simpa using hfree, rfl, rfl, rfl⟩))
  | advance c w =>
    simp only [step, Option.bind_eq_some_iff, Option.map_eq_some_iff] at h
    obtain ⟨call, hcall, ⟨next, table⟩, hadvance, rfl⟩ := h
    exact Or.inr (Or.inr (Or.inr (Or.inl ⟨c, w, call, next, rfl, hcall, hadvance, rfl, rfl⟩)))
  | reject principal id =>
    simp only [step] at h
    split at h
    · rename_i table hreject
      obtain rfl := Option.some.inj h
      exact Or.inr (Or.inr (Or.inr (Or.inr (Or.inl ⟨principal, id, rfl, rfl, by rw [hreject],
        Or.inr ⟨rfl, by rw [hreject]⟩⟩))))
    · rename_i err table hreject
      obtain rfl := Option.some.inj h
      exact Or.inr (Or.inr (Or.inr (Or.inr (Or.inl ⟨principal, id, rfl, rfl, by rw [hreject],
        Or.inl rfl⟩))))
  | reclaim olderThan =>
    obtain rfl := Option.some.inj h
    exact Or.inr (Or.inr (Or.inr (Or.inr (Or.inr ⟨olderThan, rfl, rfl, rfl, rfl⟩))))

end ApprovalSystem

/-! ## The life of a proposal -/

/-- One move of a proposal's status, or none. Only a call that records an execution
(`finishes`) makes it EXECUTED. -/
inductive SQLProposalStatus.Next (finishes : Prop) : SQLProposalStatus → SQLProposalStatus → Prop
  | stay (status : SQLProposalStatus) : Next finishes status status
  | lock : Next finishes .proposed .executing
  | reject : Next finishes .proposed .rejected
  | expire : Next finishes .proposed .expired
  | fail : Next finishes .executing .failed
  | finish : finishes → Next finishes .executing .executed
  | reopen : finishes → Next finishes .failed .executed

namespace ApprovalSystem

variable {ω : Type*} {o : QueryOrchestrator ω} {s s' : ApprovalSystem} {e : Event ω}

/-- Call `c` has locked `p` and not yet recorded the end of it. -/
def Holds (s : ApprovalSystem) (c : ℕ) (p : SQLProposal) : Prop :=
  ∃ call, s.calls c = some call ∧ call.point.held = some p

/-- The event is a call's `mark_executed` of proposal `id`. -/
def Finishes (s : ApprovalSystem) (e : Event ω) (id : UUID) : Prop :=
  ∃ c w call p validated raw safe answerText, e = .advance c w ∧ s.calls c = some call ∧
    call.point = .markExecuted p validated raw safe answerText ∧ p.id = id

/-- The rows of held proposals, and one holder each. -/
structure Sound (s : ApprovalSystem) : Prop where
  held : ∀ c p, s.Holds c p → ∃ r, s.table.find p.id = some r ∧ r.terms = p.terms ∧
    (r.status = .executing ∨ r.status = .failed)
  unique : ∀ c c' p p', s.Holds c p → s.Holds c' p' → p.id = p'.id → c = c'

theorem Finishes.holds {c : ℕ} {w : ω} {id : UUID}
    (h : s.Finishes (.advance c w) id) : ∃ p, s.Holds c p ∧ p.id = id := by
  obtain ⟨c', w', call, p, validated, raw, safe, answerText, he, hcall, hpoint, hid⟩ := h
  obtain ⟨rfl, rfl⟩ := Event.advance.inj he
  exact ⟨p, ⟨call, hcall, by rw [hpoint]; rfl⟩, hid⟩

/-- A row under an update that moves it as `Next` allows. -/
theorem next_updateWhere {t : ProposalTable} {p : ProposalRow → Bool}
    {f : ProposalRow → ProposalRow} {hf : ∀ r, (f r).id = r.id} {finishes : Prop} {id : UUID}
    {r : ProposalRow} (hr : t.find id = some r) (hterms : (f r).terms = r.terms)
    (hnext : p r → r.status.Next finishes (f r).status) :
    ∃ r', (t.updateWhere p f hf).find id = some r' ∧ r'.terms = r.terms ∧
      r.status.Next finishes r'.status := by
  rw [Table.find_updateWhere_of_some hr]
  by_cases hp : p r
  · rw [if_pos hp]
    exact ⟨f r, rfl, hterms, hnext hp⟩
  · rw [if_neg hp]
    exact ⟨r, rfl, rfl, .stay _⟩

/-- Every step takes every row along its life and keeps its terms. -/
theorem status_step (hs : s.Sound) (h : step o s e = some s') {id : UUID} {r : ProposalRow}
    (hr : s.table.find id = some r) :
    ∃ r', s'.table.find id = some r' ∧ r'.terms = r.terms ∧
      r.status.Next (s.Finishes e id) r'.status := by
  have hrid : r.id = id := ProposalTable.id_of_find hr
  rcases step_cases h with ⟨-, ht, -, -⟩ | ⟨i, ws, turn, config, p, -, -, -, -, ht, -, -⟩ |
    ⟨c, principal, id', -, -, ht, -, -⟩ | ⟨c, w, call, next, rfl, hcall, hadvance, -, -⟩ |
    ⟨principal, id', -, -, ht, -⟩ | ⟨olderThan, -, -, -, ht⟩
  · exact ⟨r, by rw [ht, hr], rfl, .stay _⟩
  · exact ⟨r, Table.find_insert_of_some ht hr, rfl, .stay _⟩
  · exact ⟨r, by rw [ht, hr], rfl, .stay _⟩
  · rcases SQLService.advance_cases hadvance with ⟨-, -, ht⟩ | ⟨now, p, -, -, hlock⟩ |
      ⟨now, err, -, -, hlock⟩ | ⟨p, validated, raw, safe, answerText, hpoint, -, ht⟩ |
      ⟨p, errorCode, err, hpoint, -, ht⟩ | ⟨p, -, -, ht⟩
    · exact ⟨r, by rw [ht, hr], rfl, .stay _⟩
    · rcases ProposalTable.lockForExecution_cases hlock with
        ⟨q, hq, -, hstatus, -, -, ht⟩ | ⟨q, -, -, -, hres, -⟩ | ⟨err, hres, -, -⟩
      · rw [ht]
        refine next_updateWhere hr rfl fun hp => ?_
        have hpid : r.id = call.proposalId := by simpa using hp
        rw [← hpid, hrid, hr] at hq
        obtain rfl := Option.some.inj hq
        rw [hstatus]
        exact .lock
      · simp at hres
      · simp at hres
    · rcases ProposalTable.lockForExecution_cases hlock with
        ⟨q, -, -, -, -, hres, -⟩ | ⟨q, hq, hstatus, -, -, ht⟩ | ⟨err', -, -, ht⟩
      · simp at hres
      · rw [ht]
        refine next_updateWhere hr rfl fun hp => ?_
        have hpid : r.id = call.proposalId := by simpa using hp
        rw [← hpid, hrid, hr] at hq
        obtain rfl := Option.some.inj hq
        rw [hstatus]
        exact .expire
      · exact ⟨r, by rw [ht, hr], rfl, .stay _⟩
    · -- the row of a held proposal is EXECUTING, or FAILED by the recovery loop
      rw [ht]
      refine next_updateWhere hr rfl fun hp => ?_
      have hpid : r.id = p.id := by simpa using hp
      have hfinish : s.Finishes (.advance c w) id :=
        ⟨c, w, call, p, validated, raw, safe, answerText, rfl, hcall, hpoint, hpid ▸ hrid⟩
      obtain ⟨q, hq, -, hstatus⟩ := hs.held c p ⟨call, hcall, by rw [hpoint]; rfl⟩
      rw [← hpid, hrid, hr] at hq
      obtain rfl := Option.some.inj hq
      rcases hstatus with hstatus | hstatus <;> rw [hstatus]
      · exact .finish hfinish
      · exact .reopen hfinish
    · rw [ht]
      refine next_updateWhere hr rfl fun hp => ?_
      have hpid : r.id = p.id := by simpa using hp
      obtain ⟨q, hq, -, hstatus⟩ := hs.held c p ⟨call, hcall, by rw [hpoint]; rfl⟩
      rw [← hpid, hrid, hr] at hq
      obtain rfl := Option.some.inj hq
      rcases hstatus with hstatus | hstatus <;> rw [hstatus]
      · exact .fail
      · exact .stay _
    · exact ⟨r, by rw [ht, hr], rfl, .stay _⟩
  · rw [ht]
    dsimp only [ProposalTable.reject]
    refine next_updateWhere hr rfl fun hp => ?_
    have hstatus : r.status = .proposed := by
      simp only [ProposalTable.isPending, decide_eq_true_eq] at hp
      exact hp.2.2
    rw [hstatus]
    exact .reject
  · rw [ht]
    dsimp only [ProposalTable.reclaimStaleExecuting]
    refine next_updateWhere hr rfl fun hp => ?_
    have hstatus : r.status = .executing := by
      simp only [ProposalTable.isStale, Bool.decide_and, Bool.and_eq_true, decide_eq_true_eq] at hp
      exact hp.1
    rw [hstatus]
    exact .fail

/-- A held row is still EXECUTING or FAILED after a step that is not its holder's. -/
theorem held_step (hs : s.Sound) (h : step o s e = some s') {c : ℕ} {p : SQLProposal}
    (hp : s.Holds c p) (hother : ∀ w, e ≠ .advance c w) :
    ∃ r, s'.table.find p.id = some r ∧ r.terms = p.terms ∧
      (r.status = .executing ∨ r.status = .failed) := by
  obtain ⟨r, hr, hterms, hstatus⟩ := hs.held c p hp
  obtain ⟨r', hr', hterms', hnext⟩ := status_step hs h hr
  refine ⟨r', hr', hterms'.trans hterms, ?_⟩
  have hnot : ¬s.Finishes e p.id := by
    rintro ⟨c', w, call, q, validated, raw, safe, answerText, rfl, hcall, hpoint, hid⟩
    obtain rfl := hs.unique c' c q p ⟨call, hcall, by rw [hpoint]; rfl⟩ hp hid
    exact hother w rfl
  generalize r'.status = status' at hnext ⊢
  generalize r.status = status at hnext hstatus
  cases hnext with
  | stay => exact hstatus
  | fail => exact Or.inr rfl
  | finish hf => exact absurd hf hnot
  | reopen hf => exact absurd hf hnot
  | lock => simp at hstatus
  | reject => simp at hstatus
  | expire => simp at hstatus

/-- A step that starts no hold keeps the rest sound. -/
theorem sound_of_holds (hs : s.Sound) (h : step o s e = some s')
    (hsub : ∀ c p, s'.Holds c p → s.Holds c p ∧ ∀ w, e ≠ .advance c w) : s'.Sound := by
  refine ⟨fun c p hp => ?_, fun c c' p p' hp hp' hid => ?_⟩
  · obtain ⟨hp, hother⟩ := hsub c p hp
    exact held_step hs h hp hother
  · exact hs.unique c c' p p' (hsub c p hp).1 (hsub c' p' hp').1 hid

theorem holds_update {c c' : ℕ} {call : ApproveCall}
    {p : SQLProposal} (hcalls : s'.calls = Function.update s.calls c (some call))
    (hp : s'.Holds c' p) : (c' = c ∧ call.point.held = some p) ∨ (c' ≠ c ∧ s.Holds c' p) := by
  obtain ⟨call', hcall', hheld⟩ := hp
  rw [hcalls] at hcall'
  by_cases hc : c' = c
  · subst hc
    rw [Function.update_self, Option.some.injEq] at hcall'
    subst hcall'
    exact Or.inl ⟨rfl, hheld⟩
  · rw [Function.update_of_ne hc] at hcall'
    exact Or.inr ⟨hc, call', hcall', hheld⟩

/-- What the stepping call holds it held before, with the table as it was, or has just
locked. -/
theorem held_advance {c : ℕ} {w : ω} {call : ApproveCall} {next : ApprovePoint} {p : SQLProposal}
    (hcall : s.calls c = some call)
    (hadvance : o.sqlService.advance w s.clock call s.table = some (next, s'.table))
    (hp : next.held = some p) :
    (s.Holds c p ∧ s'.table = s.table) ∨
    ∃ now r, call.point = .lock now ∧ s.table.find p.id = some r ∧
      r.username = call.principal.username ∧ r.status = .proposed ∧ now < r.expiresAt ∧
      p = { r.toSQLProposal with status := .executing } ∧ next = .catalog p ∧
      s'.table = s.table.setExecuting p.id s.clock := by
  rcases SQLService.advance_cases hadvance with ⟨-, rfl, -⟩ | ⟨now, q, hpoint, rfl, hlock⟩ |
    ⟨now, err, -, rfl, -⟩ | ⟨q, validated, raw, safe, answerText, -, rfl, -⟩ |
    ⟨q, errorCode, err, -, rfl, -⟩ | ⟨q, hheld, hnext, ht⟩
  · simp [ApprovePoint.held] at hp
  · obtain rfl : q = p := by simpa [ApprovePoint.held] using hp
    rcases ProposalTable.lockForExecution_cases hlock with
      ⟨r, hr, huser, hstatus, hexp, hres, ht⟩ | ⟨r, -, -, -, hres, -⟩ | ⟨err, hres, -, -⟩
    · obtain rfl := Except.ok.inj hres
      have hid : r.id = call.proposalId := ProposalTable.id_of_find hr
      rw [← hid] at hr ht
      exact Or.inr ⟨now, r, hpoint, hr, huser, hstatus, hexp, rfl, rfl, ht⟩
    · simp at hres
    · simp at hres
  · simp [ApprovePoint.held] at hp
  · simp [ApprovePoint.held] at hp
  · simp [ApprovePoint.held] at hp
  · rcases hnext with hnext | ⟨err, rfl⟩
    · obtain rfl := Option.some.inj (hnext.symm.trans hp)
      exact Or.inl ⟨⟨call, hcall, hheld⟩, ht⟩
    · simp [ApprovePoint.held] at hp

theorem sound_advance (hs : s.Sound) {c : ℕ} {w : ω} {call : ApproveCall} {next : ApprovePoint}
    (h : step o s (.advance c w) = some s') (hcall : s.calls c = some call)
    (hadvance : o.sqlService.advance w s.clock call s.table = some (next, s'.table))
    (hcalls : s'.calls = Function.update s.calls c (some { call with point := next })) :
    s'.Sound := by
  -- no other call holds what this one holds
  have hcross : ∀ c' p p', next.held = some p → c' ≠ c → s.Holds c' p' → p.id ≠ p'.id := by
    intro c' p p' hp hc hp' hid
    rcases held_advance hcall hadvance hp with ⟨hpold, -⟩ | ⟨now, r, -, hr, -, hstatus, -⟩
    · exact hc (hs.unique c' c p' p hp' hpold hid.symm)
    · obtain ⟨r', hr', -, hstatus'⟩ := hs.held c' p' hp'
      rw [← hid, hr] at hr'
      obtain rfl := Option.some.inj hr'
      simp [hstatus] at hstatus'
  refine ⟨fun c' p hp => ?_, fun c₁ c₂ p₁ p₂ hp₁ hp₂ hid => ?_⟩
  · rcases holds_update hcalls hp with ⟨rfl, hp⟩ | ⟨hc, hp⟩
    · rcases held_advance hcall hadvance hp with ⟨hpold, ht⟩ | ⟨now, r, -, hr, -, -, -, rfl, -, ht⟩
      · rw [ht]
        exact hs.held c' p hpold
      · rw [ht, ProposalTable.setExecuting, Table.find_updateWhere_of_some hr]
        exact ⟨_, rfl, by simp [SQLProposal.terms], by simp⟩
    · exact held_step hs h hp fun w' he => hc (Event.advance.inj he).1.symm
  · rcases holds_update hcalls hp₁ with ⟨rfl, hp₁⟩ | ⟨hc₁, hp₁⟩ <;>
      rcases holds_update hcalls hp₂ with ⟨rfl, hp₂⟩ | ⟨hc₂, hp₂⟩
    · rfl
    · exact absurd hid (hcross c₂ p₁ p₂ hp₁ hc₂ hp₂)
    · exact absurd hid.symm (hcross c₁ p₂ p₁ hp₂ hc₁ hp₁)
    · exact hs.unique c₁ c₂ p₁ p₂ hp₁ hp₂ hid

theorem sound_step (hs : s.Sound) (h : step o s e = some s') : s'.Sound := by
  have hsame : s'.calls = s.calls → (∀ c w, e ≠ .advance c w) → s'.Sound := fun hcalls he => by
    refine sound_of_holds hs h fun c p hp => ⟨?_, he c⟩
    rwa [Holds, hcalls] at hp
  rcases step_cases h with ⟨he, -, hcalls, -⟩ |
    ⟨i, ws, turn, config, p, rfl, -, -, -, -, hcalls, -⟩ |
    ⟨c, principal, id, rfl, -, -, hcalls, -⟩ | ⟨c, w, call, next, rfl, hcall, hadvance, hcalls, -⟩ |
    ⟨principal, id, rfl, hcalls, -, -⟩ | ⟨olderThan, rfl, hcalls, -, -⟩
  · exact hsame hcalls he
  · exact hsame hcalls (by simp)
  · refine sound_of_holds hs h fun c' p hp => ⟨?_, by simp⟩
    rcases holds_update hcalls hp with ⟨-, hheld⟩ | ⟨-, hp⟩
    · simp only [SQLService.approve] at hheld
      split at hheld <;> simp [ApprovePoint.held] at hheld
    · exact hp
  · exact sound_advance hs h hcall hadvance hcalls
  · exact hsame hcalls (by simp)
  · exact hsame hcalls (by simp)

theorem sound_init (clock : Timestamp) (config : RagRuntimeConfig) : (init clock config).Sound := by
  constructor <;> simp [Holds, init]

end ApprovalSystem

end EnterpriseRag
