import EnterpriseRag.Sql.ProposalLifecycle
import Mathlib.Data.List.Count

/-!
# At most one execution, and of what was approved

`Bound` is what ties a statement handed to the executor to the proposal : the call that
does it holds the proposal, locked it for its owner on a clock reading before the expiry,
and its statement is one the policy accepted, under a catalog of the proposal's version,
with the proposal's fingerprint. A proposal nobody has locked has not run, and neither has
one that a call holds and has not yet handed over, so no proposal runs twice.

`log_cases` says what a step can add to the log, and `bound_run` carries `Bound` along a
run. The expiry is judged on the clock reading the caller takes before the transaction, so
the row may become EXECUTING after it has expired (`locked_after_expiry`).
-/

open Transition

namespace EnterpriseRag

/-- A status only a locked proposal has. -/
def SQLProposalStatus.IsStarted (status : SQLProposalStatus) : Prop :=
  status = .executing ∨ status = .executed ∨ status = .failed

/-- A status only a proposal that was never locked ends in. -/
def SQLProposalStatus.IsClosed (status : SQLProposalStatus) : Prop :=
  status = .rejected ∨ status = .expired

theorem SQLProposalStatus.Next.isStarted {finishes : Prop} {status status' : SQLProposalStatus}
    (h : status.Next finishes status') (hs : status.IsStarted) : status'.IsStarted := by
  cases h <;> simp_all [SQLProposalStatus.IsStarted]

theorem SQLProposalStatus.Next.isClosed {finishes : Prop} {status status' : SQLProposalStatus}
    (h : status.Next finishes status') (hs : status.IsClosed) : status'.IsClosed := by
  cases h <;> simp_all [SQLProposalStatus.IsClosed]

/-- The statement of proposal `id` was handed to the executor. -/
def Observation.isExecutionOf (id : UUID) : Observation → Bool
  | .executed _ _ _ id' _ => id' = id
  | _ => false

namespace ApprovalSystem

variable {ω : Type*} {o : QueryOrchestrator ω} {s s' : ApprovalSystem} {e : Event ω}

/-- How often the statement of proposal `id` was handed to the executor. -/
def executions (s : ApprovalSystem) (id : UUID) : ℕ :=
  s.log.countP (Observation.isExecutionOf id)

/-! ## What a step adds to the log -/

/-- What lies behind an entry that the step `e` from `s` to `s'` adds. -/
def Caused (s : ApprovalSystem) (e : Event ω) (s' : ApprovalSystem) : Observation → Prop
  | .created _ config _ => config.SqlOpen
  | .locked c id reading _ => ∃ w call p, e = .advance c w ∧ s.calls c = some call ∧
      call.point = .lock reading ∧ p.id = id ∧ s'.Holds c p
  | .expired id => ∃ r, s'.table.find id = some r ∧ r.status = .expired
  | .rejected id => ∃ r, s'.table.find id = some r ∧ r.status = .rejected
  | .executed c config principal id validated => ∃ w call p catalog, e = .advance c w ∧
      s.calls c = some call ∧ call.point = .execute p catalog validated ∧
      call.config = config ∧ call.principal = principal ∧ p.id = id

theorem find_reject {id : UUID} {username : String} {t : ProposalTable}
    (h : (t.reject id username).1 = .ok ()) :
    ∃ r, (t.reject id username).2.find id = some r ∧ r.status = .rejected := by
  simp only [ProposalTable.reject, ite_eq_right_iff, reduceCtorEq, imp_false] at h ⊢
  rw [Table.rowcount, List.countP_eq_zero, not_forall] at h
  obtain ⟨r, h⟩ := h
  obtain ⟨hr, hp⟩ := Classical.not_imp.1 h
  rw [not_not] at hp
  have hid : r.id = id := by
    simp only [ProposalTable.isPending, decide_eq_true_eq] at hp
    exact hp.1
  have hfind : t.find id = some r := hid ▸ Table.find_of_mem hr
  exact ⟨_, Table.find_updateWhere_of_some hfind, by simp [hp]⟩

theorem find_of_expired {w : ω} {call : ApproveCall} {reading : Timestamp}
    (hpoint : call.point = .lock reading)
    (hadvance : o.sqlService.advance w s.clock call s.table =
      some (.raised (.sqlProposalState "proposal_expired"), s'.table)) :
    ∃ r, s'.table.find call.proposalId = some r ∧ r.status = .expired := by
  rw [SQLService.advance, hpoint] at hadvance
  dsimp only at hadvance
  split at hadvance
  · simp at hadvance
  · rename_i err table hlock
    obtain ⟨rfl, rfl⟩ : err = .sqlProposalState "proposal_expired" ∧ table = s'.table := by
      simpa using hadvance
    rcases ProposalTable.lockForExecution_cases hlock with
      ⟨r, -, -, -, -, hres, -⟩ | ⟨r, hr, -, -, -, ht⟩ | ⟨err, hres, hne, -⟩
    · simp at hres
    · have hid : r.id = call.proposalId := ProposalTable.id_of_find hr
      rw [ht, ProposalTable.setExpired]
      exact ⟨_, Table.find_updateWhere_of_some hr, by simp [hid]⟩
    · exact absurd (Except.error.inj hres).symm hne

/-- What a step of a call adds to the log. -/
theorem observed_cases {c : ℕ} {w : ω} {call : ApproveCall} {next : ApprovePoint}
    (hcall : s.calls c = some call)
    (hadvance : o.sqlService.advance w s.clock call s.table = some (next, s'.table))
    (hcalls : s'.calls = Function.update s.calls c (some { call with point := next })) :
    observed c s.clock call next = [] ∨
    ∃ obs, observed c s.clock call next = [obs] ∧ Caused s (.advance c w) s' obs := by
  unfold observed
  split
  · rename_i reading hpoint
    split
    · rename_i p
      exact Or.inr ⟨_, rfl, w, call, p, rfl, hcall, hpoint, rfl, _,
        by rw [hcalls, Function.update_self], rfl⟩
    · rename_i err
      split_ifs with herr
      · rw [herr] at hadvance
        exact Or.inr ⟨_, rfl, find_of_expired hpoint hadvance⟩
      · exact Or.inl rfl
    · exact Or.inl rfl
  · rename_i p catalog validated hpoint
    exact Or.inr ⟨_, rfl, w, call, p, catalog, rfl, hcall, hpoint, rfl, rfl, rfl⟩
  · exact Or.inl rfl

/-- A step adds nothing to the log, or one entry with its cause. -/
theorem log_cases (h : step o s e = some s') :
    s'.log = s.log ∨ ∃ obs, s'.log = s.log ++ [obs] ∧ Caused s e s' obs := by
  rcases step_cases h with ⟨-, -, -, hlog⟩ | ⟨i, ws, turn, config, p, -, -, -, hopen, -, -, hlog⟩ |
    ⟨c, principal, id, -, -, -, -, hlog⟩ | ⟨c, w, call, next, rfl, hcall, hadvance, hcalls, hlog⟩ |
    ⟨principal, id, -, -, ht, hlog | ⟨hlog, hok⟩⟩ | ⟨olderThan, -, -, hlog, -⟩
  · exact Or.inl hlog
  · exact Or.inr ⟨_, hlog, hopen⟩
  · exact Or.inl hlog
  · rcases observed_cases hcall hadvance hcalls with hnil | ⟨obs, hobs, hcaused⟩
    · exact Or.inl (by rw [hlog, hnil, List.append_nil])
    · exact Or.inr ⟨obs, by rw [hlog, hobs], hcaused⟩
  · exact Or.inl hlog
  · refine Or.inr ⟨_, hlog, ?_⟩
    rw [Caused, ht]
    exact find_reject hok
  · exact Or.inl hlog

theorem mem_log_step (h : step o s e = some s') {obs : Observation} (hobs : obs ∈ s.log) :
    obs ∈ s'.log := by
  rcases log_cases h with hlog | ⟨obs', hlog, -⟩ <;> rw [hlog]
  · exact hobs
  · exact List.mem_append_left _ hobs

theorem executions_append {obs : Observation} (hlog : s'.log = s.log ++ [obs]) (id : UUID) :
    s'.executions id = s.executions id + if obs.isExecutionOf id then 1 else 0 := by
  rw [executions, executions, hlog, List.countP_append, List.countP_singleton]

/-- A step hands over at most one statement, of a proposal a call at the executor holds. -/
theorem executions_step (h : step o s e = some s') (id : UUID) :
    s'.executions id = s.executions id ∨ s'.executions id = s.executions id + 1 ∧
      ∃ c w call p catalog validated, e = .advance c w ∧ s.calls c = some call ∧
        call.point = .execute p catalog validated ∧ p.id = id := by
  rcases log_cases h with hlog | ⟨obs, hlog, hcaused⟩
  · exact Or.inl (by rw [executions, executions, hlog])
  · rw [executions_append hlog]
    cases obs with
    | executed c config principal id' validated =>
      by_cases hid : id' = id
      · obtain ⟨w, call, p, catalog, he, hcall, hpoint, -, -, hp⟩ := hcaused
        refine Or.inr ⟨by simp [Observation.isExecutionOf, hid], c, w, call, p, catalog, validated,
          he, hcall, hpoint, hp.trans hid⟩
      · exact Or.inl (by simp [Observation.isExecutionOf, hid])
    | created => exact Or.inl rfl
    | locked => exact Or.inl rfl
    | expired => exact Or.inl rfl
    | rejected => exact Or.inl rfl

/-! ## What ties an execution to its proposal -/

/-- Call `c` of `principal` hands `validated` over for proposal `id`, after the log `pre` :
the proposal is the principal's, was locked on a clock reading before its expiry, and its
statement was accepted as `validated`. -/
def BoundExecution (o : QueryOrchestrator ω) (t : ProposalTable) (pre : List Observation)
    (c : ℕ) (principal : SQLPrincipal) (id : UUID) (validated : ValidatedSQL) : Prop :=
  ∃ r, t.find id = some r ∧ r.username = principal.username ∧
    (∃ reading at', .locked c id reading at' ∈ pre ∧ reading < r.expiresAt) ∧
    o.sqlService.Accepted principal r.toSQLProposal validated

/-- The invariant of the approval system that binds executions. -/
structure Bound (o : QueryOrchestrator ω) (s : ApprovalSystem) : Prop where
  owned : ∀ c call p, s.calls c = some call → call.point.held = some p →
    p.username = call.principal.username
  locked : ∀ c p, s.Holds c p →
    ∃ reading at', .locked c p.id reading at' ∈ s.log ∧ reading < p.expiresAt
  checked : ∀ c call, s.calls c = some call → o.sqlService.Checked call.principal call.point
  fresh : ∀ c call p, s.calls c = some call → call.point.held = some p →
    call.point.BeforeExecute → s.executions p.id = 0
  ran : ∀ id, 0 < s.executions id → ∃ r, s.table.find id = some r ∧ r.status.IsStarted
  closed : ∀ id, .rejected id ∈ s.log ∨ .expired id ∈ s.log →
    ∃ r, s.table.find id = some r ∧ r.status.IsClosed
  once : ∀ id, s.executions id ≤ 1
  bound : ∀ pre c config principal id validated post,
    s.log = pre ++ .executed c config principal id validated :: post →
      BoundExecution o s.table pre c principal id validated

theorem accepted_congr {svc : SQLService ω} {principal : SQLPrincipal} {p q : SQLProposal}
    {validated : ValidatedSQL} (h : p.terms = q.terms) (hp : svc.Accepted principal p validated) :
    svc.Accepted principal q validated := by
  obtain ⟨-, hsql, hfingerprint, hversion, -⟩ := SQLProposal.of_terms_eq h
  rwa [SQLService.Accepted, hfingerprint, hversion, hsql] at hp

theorem BoundExecution.step (hs : s.Sound) (h : step o s e = some s') {pre : List Observation}
    {c : ℕ} {principal : SQLPrincipal} {id : UUID} {validated : ValidatedSQL}
    (hb : BoundExecution o s.table pre c principal id validated) :
    BoundExecution o s'.table pre c principal id validated := by
  obtain ⟨r, hr, huser, ⟨reading, at', hlocked, hexp⟩, haccepted⟩ := hb
  obtain ⟨r', hr', hterms, -⟩ := status_step hs h hr
  obtain ⟨huser', -, -, -, hexp'⟩ := SQLProposal.of_terms_eq hterms
  exact ⟨r', hr', huser'.trans huser, ⟨reading, at', hlocked, hexp' ▸ hexp⟩,
    accepted_congr hterms.symm haccepted⟩

/-! ## Every step keeps it -/

/-- Where a call of the next state comes from. -/
theorem calls_cases (h : step o s e = some s') {c : ℕ} {call' : ApproveCall}
    (hcall' : s'.calls c = some call') :
    (s.calls c = some call' ∧ ∀ w, e ≠ .advance c w) ∨
    (∃ principal id, call' = SQLService.approve principal id s.config) ∨
    ∃ w call next, e = .advance c w ∧ s.calls c = some call ∧
      o.sqlService.advance w s.clock call s.table = some (next, s'.table) ∧
      s'.log = s.log ++ observed c s.clock call next ∧ call' = { call with point := next } := by
  rcases step_cases h with ⟨he, -, hcalls, -⟩ |
    ⟨i, ws, turn, config, p, rfl, -, -, -, -, hcalls, -⟩ |
    ⟨c₁, principal, id, rfl, -, -, hcalls, -⟩ |
    ⟨c₁, w, call, next, rfl, hcall, hadvance, hcalls, hlog⟩ |
    ⟨principal, id, rfl, hcalls, -, -⟩ | ⟨olderThan, rfl, hcalls, -, -⟩
  · exact Or.inl ⟨hcalls ▸ hcall', he _⟩
  · exact Or.inl ⟨hcalls ▸ hcall', by simp⟩
  · rw [hcalls] at hcall'
    by_cases hc : c = c₁
    · subst hc
      rw [Function.update_self, Option.some.injEq] at hcall'
      exact Or.inr (Or.inl ⟨principal, id, hcall'.symm⟩)
    · rw [Function.update_of_ne hc] at hcall'
      exact Or.inl ⟨hcall', by simp⟩
  · rw [hcalls] at hcall'
    by_cases hc : c = c₁
    · subst hc
      rw [Function.update_self, Option.some.injEq] at hcall'
      exact Or.inr (Or.inr ⟨w, call, next, rfl, hcall, hadvance, hlog, hcall'.symm⟩)
    · rw [Function.update_of_ne hc] at hcall'
      exact Or.inl ⟨hcall', fun w' he => hc (Event.advance.inj he).1.symm⟩
  · exact Or.inl ⟨hcalls ▸ hcall', by simp⟩
  · exact Or.inl ⟨hcalls ▸ hcall', by simp⟩

/-- A proposal at a call that has not passed the executor was just locked, or was before
the executor already in that call, and not at it. -/
theorem held_before_step (h : step o s e = some s') {c : ℕ} {call' : ApproveCall}
    {p : SQLProposal} (hcall' : s'.calls c = some call') (hheld : call'.point.held = some p) :
    (s.calls c = some call' ∧ ∀ w, e ≠ .advance c w) ∨
    ∃ w call, e = .advance c w ∧ s.calls c = some call ∧ call.principal = call'.principal ∧
      ((call.point.held = some p ∧ (call'.point.BeforeExecute → call.point.BeforeExecute ∧
          ∀ p catalog validated, call.point ≠ .execute p catalog validated)) ∨
        ∃ reading r, call.point = .lock reading ∧ s.table.find p.id = some r ∧
          r.status = .proposed ∧ p.username = call.principal.username ∧
          reading < p.expiresAt ∧ .locked c p.id reading s.clock ∈ s'.log) := by
  rcases calls_cases h hcall' with hold | ⟨principal, id, rfl⟩ |
    ⟨w, call, next, rfl, hcall, hadvance, hlog, rfl⟩
  · exact Or.inl hold
  · simp only [SQLService.approve] at hheld
    split at hheld <;> simp [ApprovePoint.held] at hheld
  · refine Or.inr ⟨w, call, rfl, hcall, rfl, ?_⟩
    rcases held_advance hcall hadvance hheld with ⟨⟨call₁, hcall₁, hheld₁⟩, -⟩ |
      ⟨reading, r, hpoint, hr, huser, hstatus, hexp, rfl, rfl, -⟩
    · obtain rfl := Option.some.inj (hcall.symm.trans hcall₁)
      refine Or.inl ⟨hheld₁, fun hb => ?_⟩
      rcases SQLService.beforeExecute_advance hb hadvance with ⟨now, hpoint⟩ | hbefore
      · simp [hpoint, ApprovePoint.held] at hheld₁
      · exact hbefore
    · refine Or.inr ⟨reading, r, hpoint, hr, hstatus, huser, hexp, ?_⟩
      rw [hlog, observed, hpoint]
      simp

theorem Bound.idle (hb : s.Bound o) {id : UUID} {r : ProposalRow} (hr : s.table.find id = some r)
    (hstatus : ¬r.status.IsStarted) : s.executions id = 0 := by
  by_contra hne
  obtain ⟨q, hq, hstarted⟩ := hb.ran id (Nat.pos_of_ne_zero hne)
  obtain rfl := Option.some.inj (hr.symm.trans hq)
  exact hstatus hstarted

theorem ran_step (hs : s.Sound) (hb : s.Bound o) (h : step o s e = some s') (id : UUID)
    (hpos : 0 < s'.executions id) : ∃ r, s'.table.find id = some r ∧ r.status.IsStarted := by
  obtain ⟨r, hr, hstarted⟩ : ∃ r, s.table.find id = some r ∧ r.status.IsStarted := by
    rcases executions_step h id with heq |
      ⟨-, c, w, call, p, catalog, validated, -, hcall, hpoint, hid⟩
    · exact hb.ran id (heq ▸ hpos)
    · obtain ⟨r, hr, -, hstatus⟩ := hs.held c p ⟨call, hcall, by rw [hpoint]; rfl⟩
      exact ⟨r, hid ▸ hr, hstatus.imp_right Or.inr⟩
  obtain ⟨r', hr', -, hnext⟩ := status_step hs h hr
  exact ⟨r', hr', hnext.isStarted hstarted⟩

theorem once_step (hb : s.Bound o) (h : step o s e = some s') (id : UUID) :
    s'.executions id ≤ 1 := by
  rcases executions_step h id with heq |
    ⟨heq, c, w, call, p, catalog, validated, -, hcall, hpoint, hid⟩
  · rw [heq]
    exact hb.once id
  · have hfresh := hb.fresh c call p hcall (by rw [hpoint]; rfl) (by rw [hpoint]; trivial)
    rw [heq, ← hid, hfresh]

theorem fresh_step (hs : s.Sound) (hb : s.Bound o) (h : step o s e = some s') {c : ℕ}
    {call' : ApproveCall} {p : SQLProposal} (hcall' : s'.calls c = some call')
    (hheld : call'.point.held = some p) (hbefore : call'.point.BeforeExecute) :
    s'.executions p.id = 0 := by
  rcases held_before_step h hcall' hheld with ⟨hcall, hother⟩ |
    ⟨w, call, rfl, hcall, -, ⟨hheld₁, hkeep⟩ | ⟨reading, r, hpoint, hr, hstatus, -⟩⟩
  · -- only its holder hands a proposal over
    rcases executions_step h p.id with heq |
      ⟨-, c₁, w, call₁, q, catalog, validated, rfl, hcall₁, hpoint, hid⟩
    · rw [heq]
      exact hb.fresh c call' p hcall hheld hbefore
    · have hholds : s.Holds c₁ q := ⟨call₁, hcall₁, by rw [hpoint]; rfl⟩
      obtain rfl := hs.unique c₁ c q p hholds ⟨call', hcall, hheld⟩ hid
      exact absurd rfl (hother w)
  · obtain ⟨hb₁, hnot⟩ := hkeep hbefore
    rcases executions_step h p.id with heq |
      ⟨-, c₁, w₁, call₁, q, catalog, validated, he, hcall₁, hpoint, -⟩
    · rw [heq]
      exact hb.fresh c call p hcall hheld₁ hb₁
    · obtain ⟨rfl, rfl⟩ := Event.advance.inj he
      obtain rfl := Option.some.inj (hcall.symm.trans hcall₁)
      exact absurd hpoint (hnot q catalog validated)
  · rcases executions_step h p.id with heq |
      ⟨-, c₁, w₁, call₁, q, catalog, validated, he, hcall₁, hpoint₁, -⟩
    · rw [heq]
      exact hb.idle hr (by simp [hstatus, SQLProposalStatus.IsStarted])
    · obtain ⟨rfl, rfl⟩ := Event.advance.inj he
      obtain rfl := Option.some.inj (hcall.symm.trans hcall₁)
      simp [hpoint] at hpoint₁

theorem closed_step (hs : s.Sound) (hb : s.Bound o) (h : step o s e = some s') (id : UUID)
    (hmem : .rejected id ∈ s'.log ∨ .expired id ∈ s'.log) :
    ∃ r, s'.table.find id = some r ∧ r.status.IsClosed := by
  have hold : .rejected id ∈ s.log ∨ .expired id ∈ s.log →
      ∃ r, s'.table.find id = some r ∧ r.status.IsClosed := fun hmem => by
    obtain ⟨r, hr, hclosed⟩ := hb.closed id hmem
    obtain ⟨r', hr', -, hnext⟩ := status_step hs h hr
    exact ⟨r', hr', hnext.isClosed hclosed⟩
  rcases log_cases h with hlog | ⟨obs, hlog, hcaused⟩
  · rw [hlog] at hmem
    exact hold hmem
  · rw [hlog, List.mem_append, List.mem_append, List.mem_singleton, List.mem_singleton] at hmem
    rcases hmem with (hmem | rfl) | (hmem | rfl)
    · exact hold (Or.inl hmem)
    · obtain ⟨r, hr, hstatus⟩ := hcaused
      exact ⟨r, hr, Or.inl hstatus⟩
    · exact hold (Or.inr hmem)
    · obtain ⟨r, hr, hstatus⟩ := hcaused
      exact ⟨r, hr, Or.inr hstatus⟩

theorem bound_execution_step (hs : s.Sound) (hb : s.Bound o) (h : step o s e = some s')
    {pre post : List Observation} {c : ℕ} {config : RagRuntimeConfig} {principal : SQLPrincipal}
    {id : UUID} {validated : ValidatedSQL}
    (hsplit : s'.log = pre ++ .executed c config principal id validated :: post) :
    BoundExecution o s'.table pre c principal id validated := by
  refine BoundExecution.step hs h ?_
  rcases log_cases h with hlog | ⟨obs, hlog, hcaused⟩
  · exact hb.bound pre c config principal id validated post (hlog ▸ hsplit)
  · rw [hlog] at hsplit
    rcases concat_eq_append_cons hsplit with ⟨rfl, rfl, -⟩ | ⟨post', -, hold⟩
    · -- the statement just handed over
      obtain ⟨w, call, p, catalog, rfl, hcall, hpoint, -, rfl, rfl⟩ := hcaused
      have hheld : call.point.held = some p := by rw [hpoint]; rfl
      obtain ⟨r, hr, hterms, -⟩ := hs.held c p ⟨call, hcall, hheld⟩
      obtain ⟨reading, at', hlocked, hexp⟩ := hb.locked c p ⟨call, hcall, hheld⟩
      obtain ⟨huser', -, -, -, hexp'⟩ := SQLProposal.of_terms_eq hterms
      have haccepted := hb.checked c call hcall
      rw [hpoint] at haccepted
      exact ⟨r, hr, huser'.trans (hb.owned c call p hcall hheld),
        ⟨reading, at', hlocked, hexp' ▸ hexp⟩, accepted_congr hterms.symm haccepted⟩
    · exact hb.bound pre c config principal id validated post' hold

theorem bound_init (clock : Timestamp) (config : RagRuntimeConfig) :
    (init clock config).Bound o := by
  constructor <;> simp [init, Holds, executions]

theorem bound_step (hs : s.Sound) (hb : s.Bound o) (h : step o s e = some s') : s'.Bound o where
  owned c call' p hcall' hheld := by
    rcases held_before_step h hcall' hheld with ⟨hcall, -⟩ |
      ⟨w, call, -, hcall, hprincipal, ⟨hheld₁, -⟩ | ⟨reading, r, -, -, -, huser, -⟩⟩
    · exact hb.owned c call' p hcall hheld
    · exact hprincipal ▸ hb.owned c call p hcall hheld₁
    · exact hprincipal ▸ huser
  locked c p hp := by
    obtain ⟨call', hcall', hheld⟩ := hp
    rcases held_before_step h hcall' hheld with ⟨hcall, -⟩ |
      ⟨w, call, -, hcall, -, ⟨hheld₁, -⟩ | ⟨reading, r, -, -, -, -, hexp, hmem⟩⟩
    · obtain ⟨reading, at', hmem, hexp⟩ := hb.locked c p ⟨call', hcall, hheld⟩
      exact ⟨reading, at', mem_log_step h hmem, hexp⟩
    · obtain ⟨reading, at', hmem, hexp⟩ := hb.locked c p ⟨call, hcall, hheld₁⟩
      exact ⟨reading, at', mem_log_step h hmem, hexp⟩
    · exact ⟨reading, s.clock, hmem, hexp⟩
  checked c call' hcall' := by
    rcases calls_cases h hcall' with ⟨hcall, -⟩ | ⟨principal, id, rfl⟩ |
      ⟨w, call, next, -, hcall, hadvance, -, rfl⟩
    · exact hb.checked c call' hcall
    · simp only [SQLService.approve]
      split <;> trivial
    · have hnext : o.sqlService.Checked call.principal next :=
        SQLService.checked_advance (hb.checked c call hcall) hadvance
      exact hnext
  fresh c call' p hcall' hheld hbefore := fresh_step hs hb h hcall' hheld hbefore
  ran := ran_step hs hb h
  closed := closed_step hs hb h
  once := once_step hb h
  bound pre c config principal id validated post := bound_execution_step hs hb h

/-- Every state a run reaches binds its executions. -/
theorem bound_run {clock : Timestamp} {config : RagRuntimeConfig} {es : List (Event ω)}
    {t : ApprovalSystem} (ht : exec (step o) (init clock config) es = some t) : t.Bound o := by
  have hboth : t.Sound ∧ t.Bound o :=
    invariant (I := fun s => s.Sound ∧ s.Bound o)
      (fun s e s' ⟨hs, hb⟩ h => ⟨sound_step hs h, bound_step hs hb h⟩)
      ⟨sound_init clock config, bound_init clock config⟩ ht
  exact hboth.2

/-- No statement runs twice, each runs for its proposal's owner after a lock on a clock
reading before the expiry, as the policy accepted it under the proposal's catalog version
and with its fingerprint, and what was rejected or found expired never runs. -/
theorem execution_bound {clock : Timestamp} {config : RagRuntimeConfig} {es : List (Event ω)}
    {t : ApprovalSystem} (ht : exec (step o) (init clock config) es = some t) :
    (∀ id, t.executions id ≤ 1) ∧
    (∀ pre c config principal id validated post,
      t.log = pre ++ .executed c config principal id validated :: post →
        ∃ r, t.table.find id = some r ∧ r.username = principal.username ∧
          (∃ reading at', .locked c id reading at' ∈ pre ∧ reading < r.expiresAt) ∧
          validated.fingerprint = r.sqlFingerprint ∧
          ∃ w catalog, catalog.version = r.catalogVersion ∧
            o.sqlService.validateAndRewrite w r.sql catalog principal = .ok validated) ∧
    ∀ id, .rejected id ∈ t.log ∨ .expired id ∈ t.log → t.executions id = 0 := by
  have hb := bound_run ht
  refine ⟨hb.once, hb.bound, fun id hmem => ?_⟩
  obtain ⟨r, hr, hclosed⟩ := hb.closed id hmem
  refine hb.idle hr fun hstarted => ?_
  rcases hclosed with hclosed | hclosed <;> simp [hclosed, SQLProposalStatus.IsStarted] at hstarted

/-- A proposal stored, approved and executed. -/
theorem execution_bound_approveSchedule :
    ∃ t, exec (step balanceOrchestrator) (init 0 sqlOn) (approveSchedule 9) = some t ∧
      t.executions 1 = 1 ∧ (∀ id, t.executions id ≤ 1) ∧
      ∀ id, .rejected id ∈ t.log ∨ .expired id ∈ t.log → t.executions id = 0 := by
  have ht : exec (step balanceOrchestrator) (init 0 sqlOn) (approveSchedule 9) = some _ := rfl
  exact ⟨_, ht, by decide +kernel, (execution_bound ht).1, (execution_bound ht).2.2⟩

/-- The call reads the clock, then waits for the row until the proposal has expired. -/
def waitSchedule : List (Event (Option Raised)) :=
  approveSchedule 1 ++ [.tick 1000000000] ++ List.replicate 8 (.advance 0 none)

/-- When each proposal was locked. -/
def lockTimes (s : ApprovalSystem) : List (UUID × Timestamp) :=
  s.log.filterMap fun
    | .locked _ id _ at' => some (id, at')
    | _ => none

/-- The only lock of the proposal that was executed is past its expiry. -/
theorem locked_after_expiry :
    ∃ t, exec (step balanceOrchestrator) (init 0 sqlOn) waitSchedule = some t ∧
      t.executions 1 = 1 ∧ t.lockTimes = [(1, 1000000000)] ∧
      (t.table.find 1).map (·.expiresAt) = some 900000000 := by
  have ht : exec (step balanceOrchestrator) (init 0 sqlOn) waitSchedule = some _ := rfl
  exact ⟨_, ht, by decide +kernel, by decide +kernel, by decide +kernel⟩

end ApprovalSystem

end EnterpriseRag
