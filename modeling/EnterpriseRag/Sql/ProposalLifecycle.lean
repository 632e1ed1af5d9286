import EnterpriseRag.Sql.ApprovalSystem

/-!
# Where a proposal ends

Two questions about the end of a proposal's life. Whether a terminal status is final :
`mark_executed` writes its status without looking at the row's, so a row the recovery
loop has failed becomes EXECUTED when the slow call that held it finishes. That is the
only way out of a terminal status (`keepsTerminal_step_iff`), and a run keeps every
terminal status exactly when none of its steps takes it (`terminal_absorbing_iff`).

And whether a call that is over has recorded its end : it has unless a collaborator raised
what the handler around it does not catch (`SQLService.Uncaught`), and then the row stays
EXECUTING unless the recovery loop has been there before (`over_recorded_iff`).
-/

open Transition

namespace EnterpriseRag

/-! ## A service that raises on demand -/

/-- Collaborators that answer in the world `none` and raise `e` in the world `some e`. -/
def answering {α : Type} (a : α) : Option Raised → Except Raised α
  | none => .ok a
  | some e => .error e

def balanceQuery : ValidatedSQL where
  sql := "SELECT a.balance FROM bank.accounts AS a LIMIT 100"
  fingerprint := "f1"
  referencedTables := ["bank.accounts"]
  referencedColumns := ["bank.accounts.balance"]
  projectionSensitive := [false]
  rowLimit := 100
  policyVersion := "sql-policy-v1"

def balanceService : SQLService (Option Raised) where
  catalog w _ := answering { version := 1, columns := [] } w
  syncGenerator w _ := answering () w
  generate w _ _ _ _ := answering "SELECT balance FROM bank.accounts" w
  validateAndRewrite w _ _ _ := answering balanceQuery w
  explain w _ _ := answering ⟨1, 1, 1⟩ w
  execute w _ _ := answering ⟨["balance"], [[.other "7"]], 1, false, 2, 1⟩ w
  applyResultPolicy w raw _ _ _ :=
    answering ⟨raw.columns, raw.rows, raw.rowCount, raw.truncated, 0⟩ w
  answer w _ _ _ := answering "The balance is 7." w
  uuid4 _ := 1
  proposalTtl := 900000000
  maxGenerationAttempts := 2

def balanceOrchestrator : QueryOrchestrator (Option Raised) where
  sqlService := balanceService
  guardInput w question mode _ := answering (question, ⟨.input, .allow, mode, [], false⟩) w
  ragAnswer w _ _ _ := answering { answer := "", sources := [], confidence := 0, route := "rag" } w
  route w _ := answering ⟨.sql, 1, "structured_fact"⟩ w
  recordSecurityEvent w _ _ _ := answering () w
  bucket _ _ := 0

/-- SQL on for everyone, no kill switch set. -/
def sqlOn : RagRuntimeConfig :=
  derived ⟨{ updatedAt := 0, sqlEnabled := true, sqlRolloutPercentage := 100 }, by decide +kernel⟩

def balanceTurn : ChatTurn where
  principal := ⟨"ada", true⟩
  conversationId := 1
  question := "What is the balance?"
  topK := 5
  retrievalMode := none

namespace ApprovalSystem

/-- A proposal is stored and rejected, and the recovery loop passes. -/
def rejectSchedule : List (Event (Option Raised)) :=
  [.ask 0 balanceTurn, .answer 0 fun _ => none, .reject ⟨"ada", true, none, []⟩ 1,
    .reclaim 300000000]

/-- A proposal is stored and approved, and its call takes `n` steps. -/
def approveSchedule (n : ℕ) : List (Event (Option Raised)) :=
  [.ask 0 balanceTurn, .answer 0 fun _ => none, .approve 0 ⟨"ada", true, none, []⟩ 1] ++
    List.replicate n (.advance 0 none)

/-- The call hands its statement to the executor, which takes so long that the recovery
loop fails the row. -/
def slowSchedule : List (Event (Option Raised)) :=
  approveSchedule 6 ++ [.tick 400000000, .reclaim 300000000]

end ApprovalSystem

namespace ApprovalSystem

variable {ω : Type*} {o : QueryOrchestrator ω} {s s' : ApprovalSystem} {e : Event ω}

/-! ## Terminal statuses -/

/-- Every row with a terminal status still has it later on. -/
def KeepsTerminal (s s' : ApprovalSystem) : Prop :=
  ∀ id r, s.table.find id = some r → r.status.IsTerminal →
    ∃ r', s'.table.find id = some r' ∧ r'.status = r.status

/-- A call is about to record the execution of a proposal whose row is already FAILED. -/
def ReopensFailed (s : ApprovalSystem) (e : Event ω) : Prop :=
  ∃ id r, s.Finishes e id ∧ s.table.find id = some r ∧ r.status = .failed

theorem keepsTerminal_refl (s : ApprovalSystem) : s.KeepsTerminal s :=
  fun _ r hr _ => ⟨r, hr, rfl⟩

theorem keepsTerminal_trans {s₁ s₂ s₃ : ApprovalSystem} (h₁₂ : s₁.KeepsTerminal s₂)
    (h₂₃ : s₂.KeepsTerminal s₃) : s₁.KeepsTerminal s₃ := by
  intro id r hr hterminal
  obtain ⟨r₂, hr₂, hstatus₂⟩ := h₁₂ id r hr hterminal
  obtain ⟨r₃, hr₃, hstatus₃⟩ := h₂₃ id r₂ hr₂ (hstatus₂ ▸ hterminal)
  exact ⟨r₃, hr₃, hstatus₃.trans hstatus₂⟩

/-- `mark_executed` writes EXECUTED whatever the row says. -/
theorem finishes_step {id : UUID} {r : ProposalRow} (hf : s.Finishes e id)
    (h : step o s e = some s') (hr : s.table.find id = some r) :
    ∃ r', s'.table.find id = some r' ∧ r'.status = .executed := by
  obtain ⟨c, w, call, p, validated, raw, safe, answerText, rfl, hcall, hpoint, rfl⟩ := hf
  simp only [step, hcall, Option.bind_some, SQLService.advance, hpoint, Option.map_some,
    Option.some.injEq] at h
  subst h
  have hid : r.id = p.id := ProposalTable.id_of_find hr
  simp [ProposalTable.markExecuted, Table.find_updateWhere, hr, hid]

/-- A step keeps every terminal status unless it records an execution on a FAILED row. -/
theorem keepsTerminal_step_iff (hs : s.Sound) (h : step o s e = some s') :
    s.KeepsTerminal s' ↔ ¬s.ReopensFailed e := by
  constructor
  · rintro hkeep ⟨id, r, hf, hr, hstatus⟩
    obtain ⟨r', hr', hexecuted⟩ := finishes_step hf h hr
    obtain ⟨q, hq, hkept⟩ := hkeep id r hr (by rw [hstatus]; trivial)
    rw [hr'] at hq
    obtain rfl := Option.some.inj hq
    rw [hexecuted, hstatus] at hkept
    simp at hkept
  · intro hnot id r hr hterminal
    obtain ⟨r', hr', -, hnext⟩ := status_step hs h hr
    refine ⟨r', hr', ?_⟩
    have hreopen : r.status = .failed → ¬s.Finishes e id := fun hstatus hf =>
      hnot ⟨id, r, hf, hr, hstatus⟩
    generalize r'.status = status' at hnext ⊢
    generalize r.status = status at hnext hterminal hreopen
    cases hnext with
    | stay => rfl
    | reopen hf => exact absurd hf (hreopen rfl)
    | lock => exact hterminal.elim
    | reject => exact hterminal.elim
    | expire => exact hterminal.elim
    | fail => exact hterminal.elim
    | finish => exact hterminal.elim

/-- Between any two states of a run every terminal status is kept, exactly when no call
of the run records an execution on a row that is already FAILED. -/
theorem terminal_absorbing_iff {clock : Timestamp} {config : RagRuntimeConfig}
    {es : List (Event ω)} {t : ApprovalSystem}
    (ht : exec (step o) (init clock config) es = some t) :
    (∀ pre mid post u v, es = pre ++ mid ++ post →
      exec (step o) (init clock config) pre = some u → exec (step o) u mid = some v →
        u.KeepsTerminal v) ↔
      Along (step o) (fun s e => ¬s.ReopensFailed e) (init clock config) es :=
  forall_segment_iff_along (J := Sound) keepsTerminal_refl keepsTerminal_trans
    (fun _ _ _ => sound_step) (fun _ _ _ => keepsTerminal_step_iff) (sound_init clock config) ht

/-- The stored status of a proposal. -/
def statusOf (s : ApprovalSystem) (id : UUID) : Option SQLProposalStatus :=
  (s.table.find id).map (·.status)

theorem statusOf_eq_some {id : UUID} {status : SQLProposalStatus} :
    s.statusOf id = some status ↔ ∃ r, s.table.find id = some r ∧ r.status = status := by
  simp [statusOf, Option.map_eq_some_iff]

/-- A rejected proposal, and a pass of the recovery loop over it. -/
theorem terminal_absorbing_rejectSchedule :
    ∃ t, exec (step balanceOrchestrator) (init 0 sqlOn) rejectSchedule = some t ∧
      t.statusOf 1 = some .rejected ∧
      ∀ pre mid post u v, rejectSchedule = pre ++ mid ++ post →
        exec (step balanceOrchestrator) (init 0 sqlOn) pre = some u →
          exec (step balanceOrchestrator) u mid = some v → u.KeepsTerminal v := by
  have hrun : ((exec (step balanceOrchestrator) (init 0 sqlOn) rejectSchedule).map fun t =>
      t.statusOf 1) = some (some .rejected) := by decide +kernel
  obtain ⟨t, ht, hstatus⟩ := Option.map_eq_some_iff.1 hrun
  refine ⟨t, ht, hstatus, (terminal_absorbing_iff ht).2 ?_⟩
  refine along_of_forall_mem (fun e he s hreopens => ?_) _
  obtain ⟨id, r, ⟨c, w, call, p, validated, raw, safe, answerText, rfl, -⟩, -⟩ := hreopens
  simp [rejectSchedule] at he

/-- A slow execution overtaken by the recovery loop : the row is FAILED, and then
EXECUTED. -/
theorem slow_execution_reopens :
    ∃ u v, exec (step balanceOrchestrator) (init 0 sqlOn) slowSchedule = some u ∧
      exec (step balanceOrchestrator) u (List.replicate 3 (.advance 0 none)) = some v ∧
      u.statusOf 1 = some .failed ∧ v.statusOf 1 = some .executed ∧ ¬u.KeepsTerminal v := by
  have hrun : ((exec (step balanceOrchestrator) (init 0 sqlOn) slowSchedule).map fun u =>
      (u.statusOf 1, (exec (step balanceOrchestrator) u (List.replicate 3 (.advance 0 none))).map
        fun v => v.statusOf 1)) = some (some .failed, some (some .executed)) := by decide +kernel
  obtain ⟨u, hu, hboth⟩ := Option.map_eq_some_iff.1 hrun
  obtain ⟨hfailed, hafter⟩ := Prod.mk.inj hboth
  obtain ⟨v, hv, hexecuted⟩ := Option.map_eq_some_iff.1 hafter
  refine ⟨u, v, hu, hv, hfailed, hexecuted, fun hkeep => ?_⟩
  obtain ⟨r, hr, hstatus⟩ := statusOf_eq_some.1 hfailed
  obtain ⟨r', hr', hkept⟩ := hkeep 1 r hr (by rw [hstatus]; trivial)
  obtain ⟨q, hq, hqstatus⟩ := statusOf_eq_some.1 hexecuted
  rw [hr'] at hq
  obtain rfl := Option.some.inj hq
  rw [hqstatus, hstatus] at hkept
  simp at hkept

end ApprovalSystem

/-! ## The end of a call -/

namespace SQLService

variable {ω : Type*} {svc : SQLService ω} {w : ω} {clock : Timestamp} {call : ApproveCall}
  {t t' : ProposalTable} {next : ApprovePoint} {p : SQLProposal} {e : Raised}

/-- The collaborator the call is about to use raises, and the handler around that use, if
there is one, does not catch what it raises. -/
def Uncaught (svc : SQLService ω) (w : ω) (call : ApproveCall) : Prop :=
  match call.point with
  | .catalog _ => ∃ e, svc.catalog w call.principal = .error e
  | .validate p catalog =>
    ∃ e, svc.validateAndRewrite w p.sql catalog call.principal = .error e ∧
      ∀ code, e ≠ .sqlPolicyViolation code
  | .explain _ _ validated =>
    ∃ e, svc.explain w validated call.principal = .error e ∧ e.isException = false
  | .execute _ _ validated =>
    ∃ e, svc.execute w validated call.principal = .error e ∧ e.isException = false
  | .applyResult _ catalog validated raw =>
    ∃ e, svc.applyResultPolicy w raw call.principal catalog validated = .error e ∧
      e.isException = false
  | .answer p validated _ safe =>
    ∃ e, svc.answer w p.question validated safe = .error e ∧ e.isException = false
  | _ => False

theorem onExecutionError_eq_raised {e' : Raised}
    (h : ApprovePoint.onExecutionError p e = .raised e') : e.isException = false := by
  unfold ApprovePoint.onExecutionError at h
  split at h
  · simp [ApprovePoint.fail] at h
  · split_ifs at h with hexc
    · simp [ApprovePoint.fail] at h
    · simpa using hexc

theorem onPostExecutionError_eq_raised {e' : Raised}
    (h : ApprovePoint.onPostExecutionError p e = .raised e') : e.isException = false := by
  unfold ApprovePoint.onPostExecutionError at h
  split_ifs at h with hexc
  · simp [ApprovePoint.fail] at h
  · simpa using hexc

/-- A call that raises while it holds a proposal has marked it failed, or met an error no
handler catches. -/
theorem uncaught_of_raised (hheld : call.point.held = some p)
    (h : svc.advance w clock call t = some (.raised e, t')) :
    (∃ errorCode, call.point = .markFailed p errorCode e) ∨ svc.Uncaught w call := by
  unfold advance at h
  unfold Uncaught
  split at h
  case h_1 hpoint => simp [hpoint, ApprovePoint.held] at hheld
  case h_2 now hpoint => simp [hpoint, ApprovePoint.held] at hheld
  case h_3 q hpoint =>
    rw [hpoint]
    repeat' split at h
    · rename_i hraise
      exact Or.inr ⟨_, hraise⟩
    · simp at h
    · simp at h
  case h_4 q catalog hpoint =>
    rw [hpoint]
    repeat' split at h
    · simp [ApprovePoint.fail] at h
    · rename_i hother hraise
      exact Or.inr ⟨_, hraise, hother⟩
    · simp [ApprovePoint.fail] at h
    · simp at h
  case h_5 q catalog validated hpoint =>
    rw [hpoint]
    split at h
    · rename_i hraise
      exact Or.inr ⟨_, hraise, onExecutionError_eq_raised (Prod.mk.inj (Option.some.inj h)).1⟩
    · simp at h
  case h_6 q catalog validated hpoint =>
    rw [hpoint]
    split at h
    · rename_i hraise
      exact Or.inr ⟨_, hraise, onExecutionError_eq_raised (Prod.mk.inj (Option.some.inj h)).1⟩
    · simp at h
  case h_7 q catalog validated raw hpoint =>
    rw [hpoint]
    split at h
    · rename_i hraise
      exact Or.inr ⟨_, hraise, onPostExecutionError_eq_raised (Prod.mk.inj (Option.some.inj h)).1⟩
    · simp at h
  case h_8 q validated raw safe hpoint =>
    rw [hpoint]
    split at h
    · rename_i hraise
      exact Or.inr ⟨_, hraise, onPostExecutionError_eq_raised (Prod.mk.inj (Option.some.inj h)).1⟩
    · simp at h
  case h_9 => simp at h
  case h_10 q errorCode err hpoint =>
    rw [hpoint] at hheld ⊢
    obtain rfl : q = p := by simpa [ApprovePoint.held] using hheld
    obtain rfl : err = e := by simpa using (Prod.mk.inj (Option.some.inj h)).1
    exact Or.inl ⟨errorCode, rfl⟩
  case h_11 => simp at h
  case h_12 => simp at h

/-- How a call that holds a proposal can end. -/
theorem over_cases (hheld : call.point.held = some p) (hover : next.IsOver)
    (h : svc.advance w clock call t = some (next, t')) :
    (∃ completed rowCount executionMs, next = .returned completed ∧ ¬svc.Uncaught w call ∧
      t' = t.markExecuted p.id rowCount executionMs clock) ∨
    (∃ errorCode e, next = .raised e ∧ ¬svc.Uncaught w call ∧ t' = t.markFailed p.id errorCode) ∨
    ∃ e, next = .raised e ∧ svc.Uncaught w call ∧ t' = t := by
  rcases advance_cases h with ⟨hpoint, -⟩ | ⟨now, q, hpoint, -⟩ | ⟨now, err, hpoint, -⟩ |
    ⟨q, validated, raw, safe, answerText, hpoint, rfl, ht⟩ | ⟨q, errorCode, err, hpoint, rfl, ht⟩ |
    ⟨q, hq, hnext, ht⟩
  · simp [hpoint, ApprovePoint.held] at hheld
  · simp [hpoint, ApprovePoint.held] at hheld
  · simp [hpoint, ApprovePoint.held] at hheld
  · obtain rfl : q = p := by simpa [hpoint, ApprovePoint.held] using hheld
    exact Or.inl ⟨_, _, _, rfl, by simp [Uncaught, hpoint], ht⟩
  · obtain rfl : q = p := by simpa [hpoint, ApprovePoint.held] using hheld
    exact Or.inr (Or.inl ⟨_, _, rfl, by simp [Uncaught, hpoint], ht⟩)
  · rcases hnext with hnext | ⟨e, rfl⟩
    · cases next <;> simp [ApprovePoint.held, ApprovePoint.IsOver] at hnext hover
    · rcases uncaught_of_raised hheld h with ⟨errorCode, hpoint⟩ | huncaught
      · simp only [advance, hpoint, Option.some.injEq, Prod.mk.injEq] at h
        exact Or.inr (Or.inl ⟨errorCode, e, rfl, by simp [Uncaught, hpoint], h.2.symm⟩)
      · exact Or.inr (Or.inr ⟨e, rfl, huncaught, ht⟩)

end SQLService

namespace ApprovalSystem

variable {ω : Type*} {o : QueryOrchestrator ω} {clock : Timestamp} {config : RagRuntimeConfig}

/-- A call that ends while it holds a proposal leaves it EXECUTED or FAILED, and EXECUTED
exactly when it returned its answer, unless a collaborator raised what no handler catches
while the row was still EXECUTING. -/
theorem over_recorded_iff {es : List (Event ω)} {u t : ApprovalSystem} {c : ℕ} {w : ω}
    {call call' : ApproveCall} {p : SQLProposal}
    (hu : exec (step o) (init clock config) es = some u)
    (ht : step o u (.advance c w) = some t) (hcall : u.calls c = some call)
    (hheld : call.point.held = some p) (hcall' : t.calls c = some call')
    (hover : call'.point.IsOver) :
    (t.statusOf p.id = some .executed ∨ t.statusOf p.id = some .failed) ∧
        (t.statusOf p.id = some .executed ↔ ∃ completed, call'.point = .returned completed) ↔
      ¬(o.sqlService.Uncaught w call ∧ u.statusOf p.id = some .executing) := by
  have hs : u.Sound := invariant (fun _ _ _ => sound_step) (sound_init clock config) hu
  obtain ⟨r, hr, -, hstatus⟩ := hs.held c p ⟨call, hcall, hheld⟩
  simp only [step, hcall, Option.bind_some, Option.map_eq_some_iff] at ht
  obtain ⟨⟨next, table⟩, hadvance, rfl⟩ := ht
  obtain rfl : { call with point := next } = call' := by simpa using hcall'
  rcases SQLService.over_cases hheld hover hadvance with
    ⟨completed, rowCount, executionMs, rfl, huncaught, rfl⟩ | ⟨errorCode, e, rfl, huncaught, rfl⟩ |
    ⟨e, rfl, huncaught, rfl⟩
  · have hid : r.id = p.id := ProposalTable.id_of_find hr
    simp [statusOf, ProposalTable.markExecuted, Table.find_updateWhere, hr, hid, huncaught]
  · have hid : r.id = p.id := ProposalTable.id_of_find hr
    simp [statusOf, ProposalTable.markFailed, Table.find_updateWhere, hr, hid, huncaught]
  · rcases hstatus with hstatus | hstatus <;> simp [statusOf, hr, hstatus, huncaught]

/-- Every collaborator answers, and the call ends by recording the execution. -/
theorem over_recorded_approveSchedule :
    ∃ u t call, exec (step balanceOrchestrator) (init 0 sqlOn) (approveSchedule 8) = some u ∧
      step balanceOrchestrator u (.advance 0 none) = some t ∧ t.calls 0 = some call ∧
      (t.statusOf 1 = some .executed ∨ t.statusOf 1 = some .failed) ∧
      (t.statusOf 1 = some .executed ↔ ∃ completed, call.point = .returned completed) := by
  have hu : exec (step balanceOrchestrator) (init 0 sqlOn) (approveSchedule 8) = some _ := rfl
  refine ⟨_, _, _, hu, rfl, rfl, ?_⟩
  refine Iff.mpr (over_recorded_iff (c := 0) (w := none) hu rfl rfl rfl rfl trivial) ?_
  exact fun h => h.1

/-- The catalog raises right after the lock has committed : the call is over and the row
is still EXECUTING. -/
theorem broken_catalog_strands :
    ∃ u t, exec (step balanceOrchestrator) (init 0 sqlOn) (approveSchedule 2) = some u ∧
      step balanceOrchestrator u (.advance 0 (some (.exception "RuntimeError"))) = some t ∧
      u.statusOf 1 = some .executing ∧
      (t.calls 0).map (·.point) = some (.raised (.exception "RuntimeError")) ∧
      ¬(t.statusOf 1 = some .executed ∨ t.statusOf 1 = some .failed) := by
  have hu : exec (step balanceOrchestrator) (init 0 sqlOn) (approveSchedule 2) = some _ := rfl
  refine ⟨_, _, hu, rfl, by decide +kernel, rfl, by decide +kernel⟩

end ApprovalSystem

end EnterpriseRag
