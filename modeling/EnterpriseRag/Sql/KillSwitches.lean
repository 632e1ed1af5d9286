import EnterpriseRag.Sql.BoundExecution

/-!
# The SQL kill switches

Three switches close the SQL route : `sql_enabled` unset, `emergency_disabled` set and
`safety_lockdown_enabled` set. A chat turn honours all three before it stores a proposal.
An approving call looks at the first two only, in the snapshot it reads at its start
(`Gated`), so a call that starts under a lockdown runs its statement all the same.
`switches_honoured_iff` says that nothing else goes wrong : every operation of a run that
stored a proposal or reached the executor did so under a snapshot with SQL open, exactly
when no call that started under a lockdown reaches the executor.
-/

open Transition

namespace EnterpriseRag

/-- The snapshot read by the operation that stored a proposal or reached the executor. -/
def Observation.snapshot : Observation → Option RagRuntimeConfig
  | .created _ config _ => some config
  | .executed _ config _ _ _ => some config
  | .locked .. | .expired _ | .rejected _ => none

namespace ApprovalSystem

variable {ω : Type*} {o : QueryOrchestrator ω} {s s' : ApprovalSystem} {e : Event ω}

/-- Whatever stored a proposal or reached the executor did so with SQL open. -/
def SwitchesHonoured (s : ApprovalSystem) : Prop :=
  ∀ obs ∈ s.log, ∀ config, obs.snapshot = some config → config.SqlOpen

/-- A call that is not over started with SQL on and the emergency switch clear. -/
def Gated (s : ApprovalSystem) : Prop :=
  ∀ c call, s.calls c = some call → ¬call.point.IsOver →
    call.config.1.sqlEnabled = true ∧ call.config.1.emergencyDisabled = false

/-- A call that started under a lockdown is about to hand its statement to the executor. -/
def LockdownExecution (s : ApprovalSystem) (e : Event ω) : Prop :=
  ∃ c w call p catalog validated, e = .advance c w ∧ s.calls c = some call ∧
    call.point = .execute p catalog validated ∧ call.config.1.safetyLockdownEnabled = true

theorem not_isOver_of_advance {svc : SQLService ω} {w : ω} {clock : Timestamp}
    {call : ApproveCall} {t t' : ProposalTable} {next : ApprovePoint}
    (h : svc.advance w clock call t = some (next, t')) : ¬call.point.IsOver := by
  unfold SQLService.advance at h
  cases hpoint : call.point <;> simp [hpoint, ApprovePoint.IsOver] at h ⊢

theorem gated_step (hg : s.Gated) (h : step o s e = some s') : s'.Gated := by
  intro c call' hcall' hover
  rcases calls_cases h hcall' with ⟨hcall, -⟩ | ⟨principal, id, rfl⟩ |
    ⟨w, call, next, -, hcall, hadvance, -, rfl⟩
  · exact hg c call' hcall hover
  · simp only [SQLService.approve] at hover ⊢
    split at hover
    · exact absurd trivial hover
    · rename_i hswitch
      simpa using hswitch
  · exact hg c call hcall (not_isOver_of_advance hadvance)

theorem log_of_execute {c : ℕ} {w : ω} {call : ApproveCall} {p : SQLProposal}
    {catalog : CatalogSnapshot} {validated : ValidatedSQL} (h : step o s (.advance c w) = some s')
    (hcall : s.calls c = some call) (hpoint : call.point = .execute p catalog validated) :
    s'.log = s.log ++ [.executed c call.config call.principal p.id validated] := by
  simp only [step, hcall, Option.bind_some, Option.map_eq_some_iff] at h
  obtain ⟨⟨next, table⟩, -, rfl⟩ := h
  simp [observed, hpoint]

/-- A step honours the switches unless it is an execution under a lockdown. -/
theorem switchesHonoured_step_iff (hg : s.Gated) (hsw : s.SwitchesHonoured)
    (h : step o s e = some s') : s'.SwitchesHonoured ↔ ¬s.LockdownExecution e := by
  constructor
  · rintro hsw' ⟨c, w, call, p, catalog, validated, rfl, hcall, hpoint, hlockdown⟩
    have hopen := hsw' (.executed c call.config call.principal p.id validated)
      (by simp [log_of_execute h hcall hpoint]) call.config rfl
    simp [hopen.safetyLockdownEnabled] at hlockdown
  · intro hnot obs hobs config hconfig
    rcases log_cases h with hlog | ⟨obs', hlog, hcaused⟩
    · exact hsw obs (hlog ▸ hobs) config hconfig
    · rw [hlog, List.mem_append, List.mem_singleton] at hobs
      rcases hobs with hobs | rfl
      · exact hsw obs hobs config hconfig
      · cases obs with
        | created i config' p =>
          obtain rfl := Option.some.inj hconfig
          exact hcaused
        | executed c config' principal id validated =>
          obtain rfl := Option.some.inj hconfig
          obtain ⟨w, call, p, catalog, rfl, hcall, hpoint, rfl, -, -⟩ := hcaused
          obtain ⟨hsql, hemergency⟩ :=
            hg c call hcall (by simp [hpoint, ApprovePoint.IsOver])
          refine ⟨hsql, hemergency, ?_⟩
          by_contra hlockdown
          exact hnot
            ⟨c, w, call, p, catalog, validated, rfl, hcall, hpoint, by simpa using hlockdown⟩
        | locked => simp [Observation.snapshot] at hconfig
        | expired => simp [Observation.snapshot] at hconfig
        | rejected => simp [Observation.snapshot] at hconfig

/-- The switches are honoured in every state of a run exactly when no call that started
under a lockdown reaches the executor. -/
theorem switches_honoured_iff {clock : Timestamp} {config : RagRuntimeConfig}
    {es : List (Event ω)} {t : ApprovalSystem}
    (ht : exec (step o) (init clock config) es = some t) :
    (∀ pre post u, es = pre ++ post → exec (step o) (init clock config) pre = some u →
      u.SwitchesHonoured) ↔
      Along (step o) (fun s e => ¬s.LockdownExecution e) (init clock config) es :=
  forall_reached_iff_along (J := Gated) (fun _ _ _ => gated_step)
    (fun _ _ _ => switchesHonoured_step_iff) (by simp [Gated, init])
    (by simp [SwitchesHonoured, init]) ht

/-- SQL on, and a safety lockdown engaged. -/
def lockedDown : RagRuntimeConfig :=
  derived ⟨
    { updatedAt := 0
      sqlEnabled := true
      sqlRolloutPercentage := 100
      safetyLockdownEnabled := true }, by decide +kernel⟩

/-- A proposal is stored, a lockdown is engaged, and the same question is asked again. -/
def lockdownTurns : List (Event (Option Raised)) :=
  [.ask 0 balanceTurn, .answer 0 fun _ => none, .configure lockedDown, .ask 1 balanceTurn,
    .answer 1 fun _ => none]

/-- The turn under the lockdown stores nothing. -/
theorem switches_honoured_lockdownTurns :
    ∃ t, exec (step balanceOrchestrator) (init 0 sqlOn) lockdownTurns = some t ∧
      t.log.length = 1 ∧ t.SwitchesHonoured := by
  have ht : exec (step balanceOrchestrator) (init 0 sqlOn) lockdownTurns = some _ := rfl
  refine ⟨_, ht, by decide +kernel,
    (switches_honoured_iff ht).2 ?_ lockdownTurns [] _ (List.append_nil _).symm ht⟩
  refine along_of_forall_mem (fun e he s hlockdown => ?_) _
  obtain ⟨c, w, call, p, catalog, validated, rfl, -⟩ := hlockdown
  simp [lockdownTurns] at he

/-- A proposal is stored, a lockdown is engaged, and the proposal is approved. -/
def lockdownApproval : List (Event (Option Raised)) :=
  [.ask 0 balanceTurn, .answer 0 fun _ => none, .configure lockedDown,
    .approve 0 ⟨"ada", true, none, []⟩ 1] ++ List.replicate 9 (.advance 0 none)

/-- The call that starts under the lockdown executes its statement and completes. -/
theorem lockdown_executes :
    ∃ t, exec (step balanceOrchestrator) (init 0 sqlOn) lockdownApproval = some t ∧
      t.executions 1 = 1 ∧ t.statusOf 1 = some .executed ∧ ¬t.SwitchesHonoured := by
  have ht : exec (step balanceOrchestrator) (init 0 sqlOn) lockdownApproval = some _ := rfl
  refine ⟨_, ht, by decide +kernel, by decide +kernel, fun hsw => ?_⟩
  have hopen := hsw (.executed 0 lockedDown ⟨"ada", true, none, []⟩ 1 balanceQuery)
    (by decide +kernel) lockedDown rfl
  exact absurd hopen.safetyLockdownEnabled (by decide +kernel)

end ApprovalSystem

end EnterpriseRag
