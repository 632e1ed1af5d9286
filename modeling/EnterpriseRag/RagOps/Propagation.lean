import EnterpriseRag.Library.Transition
import EnterpriseRag.RagOps.Repository
import Mathlib.Logic.Function.Basic

/-!
# Propagation of the configuration to a worker

A worker serves every request from the snapshot in its store. Two kinds of writer replace
it. An admin handler commits a row and later, in a step of its own, applies the row its
own commit returned (`RagOpsController._apply`). The poller reads the current row and, in
a later step, applies it if its `updated_at` is past the last one the poller saw
(`RagOpsConfigPoller._poll_once`). Neither looks at what is in the store.

`Worker.Fresh` is what makes the next tick leave the store right : either the tick will
not be skipped, or the store already holds what the row derives. Poll steps leave it
as it is. A commit or an application settles it, so the last of them in a run decides
whether the worker converges.

* `AdminWorker` is the worker that serves the admin requests, stamps strictly increasing
  from commit to commit. The last application goes wrong when it is of another
  configuration than the row's after the poller has seen the row (`StaleApply`).
* `PollingWorker` is a worker that only polls, while transactions overlap and each stamps
  its own start. The last commit goes wrong when it carries a stamp the poller has
  already seen (`StaleCommit`).
-/

open Transition

namespace EnterpriseRag

/-! ## A worker and its poller -/

/-- The snapshot store and the poller of a worker. `polled` is the row of a tick that has
read it and not yet compared it. -/
structure Worker where
  current : RagRuntimeConfig
  lastSeenUpdatedAt : Option Timestamp := none
  polled : Option RagOpsRow := none
  deriving DecidableEq

/-- The store after `apply_rag_ops_config` : unchanged if the snapshot's constructor
raises. -/
def RagRuntimeConfig.replaced (current : RagRuntimeConfig) (row : RagOpsRow) :
    RagRuntimeConfig :=
  match applyRagOpsConfig row.1 with
  | .ok config => config
  | .error _ => current

@[simp] theorem RagRuntimeConfig.replaced_eq (current : RagRuntimeConfig) (row : RagOpsRow) :
    current.replaced row = derived row := by
  rw [replaced, applyRagOpsConfig_ok]

namespace Worker

/-- `RagOpsController._apply`. -/
def apply (w : Worker) (row : RagOpsRow) : Worker :=
  { w with current := w.current.replaced row }

/-- The poller saw a row stamped `t` or later. -/
def hasSeen (w : Worker) (t : Timestamp) : Bool :=
  w.lastSeenUpdatedAt.any fun seen => t ≤ seen

/-- The first half of a tick : `get_config`. -/
def pollRead (w : Worker) (row : RagOpsRow) : Worker :=
  { w with polled := some row }

/-- The second half : skip a row the poller has seen, remember and apply any other. -/
def pollCompare (w : Worker) : Worker :=
  match w.polled with
  | none => w
  | some row =>
    if w.hasSeen row.1.updatedAt then { w with polled := none }
    else
      { current := w.current.replaced row
        lastSeenUpdatedAt := some row.1.updatedAt
        polled := none }

theorem hasSeen_iff {w : Worker} {t : Timestamp} :
    w.hasSeen t ↔ ∃ seen, w.lastSeenUpdatedAt = some seen ∧ t ≤ seen := by
  simp [hasSeen, Option.any_eq_true]

theorem pollCompare_of_none {w : Worker} (h : w.polled = none) : w.pollCompare = w := by
  simp [pollCompare, h]

theorem pollCompare_of_seen {w : Worker} {row : RagOpsRow} (hp : w.polled = some row)
    (h : w.hasSeen row.1.updatedAt) : w.pollCompare = { w with polled := none } := by
  simp only [pollCompare, hp, h, if_true]

theorem pollCompare_of_not_seen {w : Worker} {row : RagOpsRow} (hp : w.polled = some row)
    (h : ¬w.hasSeen row.1.updatedAt) :
    w.pollCompare = ⟨derived row, some row.1.updatedAt, none⟩ := by
  simp only [pollCompare, hp, if_neg h, RagRuntimeConfig.replaced_eq]

@[simp] theorem polled_pollCompare (w : Worker) : w.pollCompare.polled = none := by
  unfold pollCompare
  split
  · assumption
  · split <;> rfl

theorem pollCompare_pollCompare (w : Worker) : w.pollCompare.pollCompare = w.pollCompare :=
  pollCompare_of_none (polled_pollCompare w)

/-- Once the tick in flight is over, the next one will not skip `row`, or the store holds
what `row` derives. -/
def Fresh (w : Worker) (row : RagOpsRow) : Prop :=
  w.pollCompare.hasSeen row.1.updatedAt → w.pollCompare.current = derived row

theorem fresh_pollCompare (w : Worker) (row : RagOpsRow) :
    w.pollCompare.Fresh row ↔ w.Fresh row := by
  rw [Fresh, Fresh, pollCompare_pollCompare]

/-- A full tick leaves the store right exactly when the worker is fresh. -/
theorem current_tick_iff {w : Worker} (h : w.polled = none) (row : RagOpsRow) :
    (w.pollRead row).pollCompare.current = derived row ↔ w.Fresh row := by
  rw [Fresh, pollCompare_of_none h]
  by_cases hseen : w.hasSeen row.1.updatedAt
  · rw [pollCompare_of_seen (w := w.pollRead row) rfl hseen]
    simp [hseen, pollRead]
  · rw [pollCompare_of_not_seen (w := w.pollRead row) rfl hseen]
    simp [hseen]

/-- Reading the row the worker is compared with does not change whether it is fresh. -/
theorem fresh_pollRead {w : Worker} (h : w.polled = none) (row : RagOpsRow) :
    (w.pollRead row).Fresh row ↔ w.Fresh row := by
  rw [← current_tick_iff h, Fresh]
  refine ⟨fun hfresh => ?_, fun hcur _ => hcur⟩
  by_cases hseen : w.hasSeen row.1.updatedAt
  · refine hfresh ?_
    rw [pollCompare_of_seen (w := w.pollRead row) rfl hseen]
    exact hseen
  · rw [pollCompare_of_not_seen (w := w.pollRead row) rfl hseen]

end Worker

/-! ## The worker that serves the admin requests -/

/-- The database and the worker. `handlers h` is the row handler `h` has committed and
not yet applied. -/
structure AdminWorker where
  db : RagOpsStore
  handlers : ℕ → Option RagOpsRow
  worker : Worker

namespace AdminWorker

inductive Event
  | commit (h : ℕ) (write : RowWrite) (now : Timestamp)
  | apply (h : ℕ)
  | pollRead
  | pollCompare
  deriving DecidableEq

/-- A write handler's commit or application, as opposed to a poll step. -/
def Event.IsHandler : Event → Prop
  | .commit .. => True
  | .apply _ => True
  | .pollRead => False
  | .pollCompare => False

/-- No handler has anything to apply and the poller has not run. -/
def init (db : RagOpsStore) (current : RagRuntimeConfig) : AdminWorker :=
  ⟨db, fun _ => none, ⟨current, none, none⟩⟩

/-- One step of a handler or of the poller. A commit is later than the one before; a
write that raises commits nothing and is no step. -/
def step (s : AdminWorker) : Event → Option AdminWorker
  | .commit h write now =>
    if (s.handlers h).isSome ∨ now ≤ s.db.row.1.updatedAt then none
    else
      match write.commit now s.db with
      | .error _ => none
      | .ok db => some { s with db, handlers := Function.update s.handlers h (some db.row) }
  | .apply h =>
    (s.handlers h).map fun row =>
      { s with handlers := Function.update s.handlers h none, worker := s.worker.apply row }
  | .pollRead =>
    if s.worker.polled.isSome then none
    else some { s with worker := s.worker.pollRead s.db.row }
  | .pollCompare =>
    if s.worker.polled.isNone then none else some { s with worker := s.worker.pollCompare }

/-- `r` is the database's row or was committed before it. -/
def NotAhead (s : AdminWorker) (r : RagOpsRow) : Prop :=
  r.1.updatedAt < s.db.row.1.updatedAt ∨ r = s.db.row

/-- No row a handler or the poller holds is ahead of the database. -/
structure Behind (s : AdminWorker) : Prop where
  handlers : ∀ h r, s.handlers h = some r → s.NotAhead r
  polled : ∀ r, s.worker.polled = some r → s.NotAhead r
  seen : ∀ t, s.worker.lastSeenUpdatedAt = some t → t ≤ s.db.row.1.updatedAt

theorem NotAhead.le {s : AdminWorker} {r : RagOpsRow} (h : s.NotAhead r) :
    r.1.updatedAt ≤ s.db.row.1.updatedAt := by
  rcases h with h | rfl
  · exact h.le
  · exact le_rfl

/-- What each event does to the state. -/
theorem step_cases {s s' : AdminWorker} {e : Event} (h : s.step e = some s') :
    (∃ i write now db, e = .commit i write now ∧ s.db.row.1.updatedAt < now ∧
      db.row.1.updatedAt = now ∧
      s' = { s with db, handlers := Function.update s.handlers i (some db.row) }) ∨
    (∃ i row, e = .apply i ∧ s.handlers i = some row ∧
      s' = { s with handlers := Function.update s.handlers i none, worker := s.worker.apply row }) ∨
    (e = .pollRead ∧ s.worker.polled = none ∧
      s' = { s with worker := s.worker.pollRead s.db.row }) ∨
    (e = .pollCompare ∧ s' = { s with worker := s.worker.pollCompare }) := by
  cases e with
  | commit i write now =>
    simp only [step] at h
    split at h
    · simp at h
    · rename_i hguard
      rw [not_or, not_le] at hguard
      split at h
      · simp at h
      · rename_i db hdb
        exact Or.inl ⟨i, write, now, db, rfl, hguard.2, RowWrite.updatedAt_commit hdb,
          (Option.some.inj h).symm⟩
  | apply i =>
    simp only [step, Option.map_eq_some_iff] at h
    obtain ⟨row, hrow, rfl⟩ := h
    exact Or.inr (Or.inl ⟨i, row, rfl, hrow, rfl⟩)
  | pollRead =>
    simp only [step] at h
    split at h
    · simp at h
    · rename_i hnone
      exact Or.inr (Or.inr (Or.inl ⟨rfl, by simpa using hnone, (Option.some.inj h).symm⟩))
  | pollCompare =>
    simp only [step] at h
    split at h
    · simp at h
    · exact Or.inr (Or.inr (Or.inr ⟨rfl, (Option.some.inj h).symm⟩))

theorem behind_init (db : RagOpsStore) (current : RagRuntimeConfig) :
    (init db current).Behind := by
  constructor <;> simp [init]

theorem behind_pollCompare {s : AdminWorker} (hb : s.Behind) :
    { s with worker := s.worker.pollCompare : AdminWorker }.Behind := by
  refine ⟨hb.handlers, fun r hr => by simp at hr, fun t ht => ?_⟩
  simp only [Worker.pollCompare] at ht
  split at ht
  · exact hb.seen t ht
  · rename_i row hrow
    split at ht
    · exact hb.seen t ht
    · obtain rfl := Option.some.inj ht
      exact (hb.polled row hrow).le

theorem behind_step {s s' : AdminWorker} {e : Event} (hb : s.Behind) (h : s.step e = some s') :
    s'.Behind := by
  rcases step_cases h with ⟨i, write, now, db, -, hlt, hnow, rfl⟩ | ⟨i, row, -, hrow, rfl⟩ |
    ⟨-, hnone, rfl⟩ | ⟨-, rfl⟩
  · -- every row committed before is strictly older than the new one
    have hold : ∀ r, s.NotAhead r → r.1.updatedAt < db.row.1.updatedAt := fun r hr =>
      hnow ▸ hr.le.trans_lt hlt
    refine ⟨fun j r hj => ?_, fun r hr => Or.inl (hold r (hb.polled r hr)), fun t ht => ?_⟩
    · by_cases hji : j = i
      · subst hji
        simp only [Function.update_self, Option.some.injEq] at hj
        exact Or.inr hj.symm
      · simp only [Function.update_of_ne hji] at hj
        exact Or.inl (hold r (hb.handlers j r hj))
    · exact (hb.seen t ht).trans (hnow ▸ hlt.le)
  · refine ⟨fun j r hj => ?_, hb.polled, hb.seen⟩
    by_cases hji : j = i
    · subst hji
      simp at hj
    · simp only [Function.update_of_ne hji] at hj
      exact hb.handlers j r hj
  · refine ⟨hb.handlers, fun r hr => ?_, hb.seen⟩
    simp only [Worker.pollRead, Option.some.injEq] at hr
    exact Or.inr hr.symm
  · exact behind_pollCompare hb

/-- Handler `h` is about to apply a row that derives another configuration than the
database's row, which the poller has already seen. -/
def StaleApply (s : AdminWorker) (h : ℕ) : Prop :=
  ∃ row, s.handlers h = some row ∧
    s.worker.lastSeenUpdatedAt = some s.db.row.1.updatedAt ∧ derived row ≠ derived s.db.row

/-- The poller has seen the database's row only if that is the last one it saw. -/
theorem hasSeen_row_iff {s : AdminWorker} (hb : s.Behind) :
    s.worker.hasSeen s.db.row.1.updatedAt ↔
      s.worker.lastSeenUpdatedAt = some s.db.row.1.updatedAt := by
  rw [Worker.hasSeen_iff]
  constructor
  · rintro ⟨t, ht, hle⟩
    rw [ht, le_antisymm (hb.seen t ht) hle]
  · intro h
    exact ⟨_, h, le_rfl⟩

/-- An application leaves the worker fresh unless it is stale. -/
theorem fresh_apply_iff {s : AdminWorker} (hb : s.Behind) {h : ℕ} {row : RagOpsRow}
    (hrow : s.handlers h = some row) :
    (s.worker.apply row).Fresh s.db.row ↔ ¬s.StaleApply h := by
  have hstale : ¬s.StaleApply h ↔
      (s.worker.hasSeen s.db.row.1.updatedAt → derived row = derived s.db.row) := by
    rw [hasSeen_row_iff hb]
    simp [StaleApply, hrow]
  rw [hstale]
  cases hp : s.worker.polled with
  | none =>
    rw [Worker.Fresh, Worker.pollCompare_of_none (w := s.worker.apply row) hp]
    simp [Worker.apply, Worker.hasSeen]
  | some p =>
    by_cases hseen : s.worker.hasSeen p.1.updatedAt
    · -- the tick in flight will be skipped
      rw [Worker.Fresh, Worker.pollCompare_of_seen (w := s.worker.apply row) hp hseen]
      simp [Worker.apply, Worker.hasSeen]
    · -- the tick in flight will apply its row, and be right if that is the database's
      rw [Worker.Fresh, Worker.pollCompare_of_not_seen (w := s.worker.apply row) hp hseen]
      have hnot : ¬s.worker.hasSeen s.db.row.1.updatedAt := by
        rw [hasSeen_row_iff hb]
        intro hl
        exact hseen (Worker.hasSeen_iff.2 ⟨_, hl, (hb.polled p hp).le⟩)
      refine iff_of_true (fun hle => ?_) fun hdb => absurd hdb hnot
      rcases hb.polled p hp with hlt | rfl
      · obtain ⟨t, ht, hle⟩ := Worker.hasSeen_iff.1 hle
        obtain rfl := Option.some.inj ht
        exact absurd hle (not_le.2 hlt)
      · rfl

/-- A handler's event settles whether the worker is fresh. -/
theorem fresh_handler_iff {s s' : AdminWorker} {e : Event} (hb : s.Behind) (he : e.IsHandler)
    (h : s.step e = some s') :
    s'.worker.Fresh s'.db.row ↔ ∀ i, e = .apply i → ¬s.StaleApply i := by
  rcases step_cases h with ⟨i, write, now, db, rfl, hlt, hnow, rfl⟩ | ⟨i, row, rfl, hrow, rfl⟩ |
    ⟨rfl, -, -⟩ | ⟨rfl, -⟩
  · -- nothing the poller has read is as late as the new row
    refine iff_of_true (fun hseen => ?_) (by simp)
    obtain ⟨t, ht, hle⟩ := Worker.hasSeen_iff.1 hseen
    have hseen' := (behind_pollCompare hb).seen t ht
    rw [hnow] at hle
    exact absurd (hle.trans hseen') (not_le.2 hlt)
  · rw [fresh_apply_iff hb hrow]
    simp
  · exact absurd he (by simp [Event.IsHandler])
  · exact absurd he (by simp [Event.IsHandler])

/-- A poll step leaves the worker as fresh as it was. -/
theorem fresh_poll_iff {s s' : AdminWorker} {e : Event} (he : ¬e.IsHandler)
    (h : s.step e = some s') : s'.worker.Fresh s'.db.row ↔ s.worker.Fresh s.db.row := by
  rcases step_cases h with ⟨i, write, now, db, rfl, -⟩ | ⟨i, row, rfl, -⟩ | ⟨rfl, hnone, rfl⟩ |
    ⟨rfl, rfl⟩
  · exact absurd trivial he
  · exact absurd trivial he
  · exact Worker.fresh_pollRead hnone _
  · exact Worker.fresh_pollCompare _ _

/-- A full tick at the end of a run leaves the store equal to what the database's row
derives exactly when the last handler event of the run is not a stale application. -/
theorem poll_converges_iff {db : RagOpsStore} {current : RagRuntimeConfig} {es : List Event}
    {t : AdminWorker}
    (ht : exec step (init db current) (es ++ [.pollRead, .pollCompare]) = some t) :
    t.worker.current = derived t.db.row ↔
      ∀ pre h post u, es = pre ++ .apply h :: post → exec step (init db current) pre = some u →
        (∀ e ∈ post, ¬e.IsHandler) → ¬u.StaleApply h := by
  obtain ⟨s, hs, htick⟩ := exec_append.1 ht
  obtain ⟨s₁, hread, hcompare⟩ := exec_cons.1 htick
  rw [exec_singleton] at hcompare
  obtain ⟨hnone, rfl⟩ : s.worker.polled = none ∧
      s₁ = { s with worker := s.worker.pollRead s.db.row } := by
    simpa using step_cases hread
  obtain rfl : t = { s with worker := (s.worker.pollRead s.db.row).pollCompare } := by
    simpa using step_cases hcompare
  have hfresh : (init db current).worker.Fresh (init db current).db.row := by
    simp [init, Worker.Fresh, Worker.pollCompare, Worker.hasSeen]
  rw [Worker.current_tick_iff hnone, holds_iff_last_decisive (G := fun s => s.worker.Fresh s.db.row)
    (J := Behind) (D := Event.IsHandler) (P := fun u e => ∀ i, e = .apply i → ¬u.StaleApply i)
    (fun s e s' => behind_step) (fun s e s' _ => fresh_poll_iff)
    (fun s e s' => fresh_handler_iff) (behind_init db current) hfresh hs]
  constructor
  · intro h pre i post u hsplit hu hpost
    exact h pre (.apply i) post u hsplit hu trivial hpost i rfl
  · rintro h pre e post u hsplit hu - hpost i rfl
    exact h pre i post u hsplit hu hpost

/-- One handler that disables everything and applies its row before the poller runs. -/
theorem poll_converges_promptApply :
    ∃ t, exec step (init ⟨.initial 0, []⟩ (derived (.initial 0)))
        ([.commit 0 (.setEmergencyDisabled "admin" true none) 1, .apply 0] ++
          [.pollRead, .pollCompare]) = some t ∧ t.worker.current = derived t.db.row := by
  obtain ⟨t, ht⟩ := Option.isSome_iff_exists.1 (show (exec step
    (init ⟨.initial 0, []⟩ (derived (.initial 0)))
    ([.commit 0 (.setEmergencyDisabled "admin" true none) 1, .apply 0] ++
      [.pollRead, .pollCompare])).isSome from rfl)
  refine ⟨t, ht, (poll_converges_iff ht).2 ?_⟩
  rintro pre h post u hsplit hu - ⟨row, -, hseen, -⟩
  rcases pre with _ | ⟨a, _ | ⟨b, pre⟩⟩
  · simp at hsplit
  · -- the poller has not run when the row is applied
    obtain ⟨rfl, -⟩ := List.cons.inj hsplit
    obtain rfl := Option.some.inj hu
    simp [init] at hseen
  · simp at hsplit

/-- Two handlers and one tick between their applications. Handler `0` engages the
lockdown, then handler `1` disables everything and applies its row, a tick sees that
row, and handler `0` applies the older one. -/
def overtakenSchedule : List Event :=
  [.commit 0 (.setSafetyLockdown "ops" true none) 1,
    .commit 1 (.setEmergencyDisabled "admin" true (some "incident")) 2,
    .apply 1, .pollRead, .pollCompare, .apply 0, .pollRead, .pollCompare]

/-- The schedule of two handlers ends with every handler finished and a further tick
completed, the row's emergency switch set and the store's clear. -/
theorem overtaken_emergency_lost :
    ∃ t, exec step (init ⟨.initial 0, []⟩ (derived (.initial 0))) overtakenSchedule = some t ∧
      (∀ h, t.handlers h = none) ∧ t.db.row.1.emergencyDisabled = true ∧
      t.worker.current.1.emergencyDisabled = false ∧
      t.worker.current ≠ derived t.db.row := by
  refine ⟨_, rfl, fun h => ?_, by decide +kernel, by decide +kernel, by decide +kernel⟩
  simp only [Function.update_apply]
  split_ifs <;> rfl

end AdminWorker

/-! ## A worker that only polls -/

/-- The database, the transactions that have started and not yet committed, each with its
start, and a worker. -/
structure PollingWorker where
  db : RagOpsStore
  clock : Timestamp
  started : ℕ → Option (RowWrite × Timestamp)
  worker : Worker

namespace PollingWorker

inductive Event
  | start (i : ℕ) (write : RowWrite) (now : Timestamp)
  | commit (i : ℕ)
  | pollRead
  | pollCompare
  deriving DecidableEq

def Event.IsCommit : Event → Prop
  | .commit _ => True
  | _ => False

/-- No transaction has started and the poller has not run. -/
def init (db : RagOpsStore) (clock : Timestamp) (current : RagRuntimeConfig) : PollingWorker :=
  ⟨db, clock, fun _ => none, ⟨current, none, none⟩⟩

/-- One step of a transaction or of the poller. Transactions start in the order of the
clock and commit in the order the row lock is granted, each on the row committed before
it. -/
def step (s : PollingWorker) : Event → Option PollingWorker
  | .start i write now =>
    if (s.started i).isSome ∨ now < s.clock then none
    else some { s with clock := now, started := Function.update s.started i (some (write, now)) }
  | .commit i =>
    match s.started i with
    | none => none
    | some (write, now) =>
      match write.commit now s.db with
      | .error _ => none
      | .ok db => some { s with db, started := Function.update s.started i none }
  | .pollRead =>
    if s.worker.polled.isSome then none
    else some { s with worker := s.worker.pollRead s.db.row }
  | .pollCompare =>
    if s.worker.polled.isNone then none else some { s with worker := s.worker.pollCompare }

/-- Transaction `i` is about to commit with a stamp the poller has already seen, or will
have seen after the tick in flight, and changes what the worker's store should hold. -/
def StaleCommit (s : PollingWorker) (i : ℕ) : Prop :=
  ∃ write now db, s.started i = some (write, now) ∧ write.commit now s.db = .ok db ∧
    s.worker.pollCompare.hasSeen now ∧ s.worker.pollCompare.current ≠ derived db.row

/-- What each event does to the state. -/
theorem step_cases {s s' : PollingWorker} {e : Event} (h : s.step e = some s') :
    (∃ i write now, e = .start i write now ∧ s' = { s with
      clock := now, started := Function.update s.started i (some (write, now)) }) ∨
    (∃ i write now db, e = .commit i ∧ s.started i = some (write, now) ∧
      write.commit now s.db = .ok db ∧
      s' = { s with db, started := Function.update s.started i none }) ∨
    (e = .pollRead ∧ s.worker.polled = none ∧
      s' = { s with worker := s.worker.pollRead s.db.row }) ∨
    (e = .pollCompare ∧ s' = { s with worker := s.worker.pollCompare }) := by
  cases e with
  | start i write now =>
    simp only [step] at h
    split at h
    · simp at h
    · exact Or.inl ⟨i, write, now, rfl, (Option.some.inj h).symm⟩
  | commit i =>
    simp only [step] at h
    split at h
    · simp at h
    · rename_i write now hstart
      split at h
      · simp at h
      · rename_i db hdb
        exact Or.inr (Or.inl ⟨i, write, now, db, rfl, hstart, hdb, (Option.some.inj h).symm⟩)
  | pollRead =>
    simp only [step] at h
    split at h
    · simp at h
    · rename_i hnone
      exact Or.inr (Or.inr (Or.inl ⟨rfl, by simpa using hnone, (Option.some.inj h).symm⟩))
  | pollCompare =>
    simp only [step] at h
    split at h
    · simp at h
    · exact Or.inr (Or.inr (Or.inr ⟨rfl, (Option.some.inj h).symm⟩))

/-- A commit leaves the worker fresh unless it is stale. -/
theorem fresh_commit_iff {s s' : PollingWorker} {e : Event} (he : e.IsCommit)
    (h : s.step e = some s') :
    s'.worker.Fresh s'.db.row ↔ ∀ i, e = .commit i → ¬s.StaleCommit i := by
  rcases step_cases h with ⟨i, write, now, rfl, -⟩ | ⟨i, write, now, db, rfl, hstart, hdb, rfl⟩ |
    ⟨rfl, -, -⟩ | ⟨rfl, -⟩
  · exact absurd he (by simp [Event.IsCommit])
  · rw [Worker.Fresh, RowWrite.updatedAt_commit hdb]
    simp [StaleCommit, hstart, hdb]
  · exact absurd he (by simp [Event.IsCommit])
  · exact absurd he (by simp [Event.IsCommit])

/-- Every other step leaves the worker as fresh as it was. -/
theorem fresh_other_iff {s s' : PollingWorker} {e : Event} (he : ¬e.IsCommit)
    (h : s.step e = some s') : s'.worker.Fresh s'.db.row ↔ s.worker.Fresh s.db.row := by
  rcases step_cases h with ⟨i, write, now, rfl, rfl⟩ | ⟨i, write, now, db, rfl, -⟩ |
    ⟨rfl, hnone, rfl⟩ | ⟨rfl, rfl⟩
  · rfl
  · exact absurd trivial he
  · exact Worker.fresh_pollRead hnone _
  · exact Worker.fresh_pollCompare _ _

/-- A full tick at the end of a run leaves the store equal to what the committed row
derives exactly when the last commit of the run is not stale. -/
theorem poll_propagates_iff {db : RagOpsStore} {clock : Timestamp} {current : RagRuntimeConfig}
    {es : List Event} {t : PollingWorker}
    (ht : exec step (init db clock current) (es ++ [.pollRead, .pollCompare]) = some t) :
    t.worker.current = derived t.db.row ↔
      ∀ pre i post u, es = pre ++ .commit i :: post →
        exec step (init db clock current) pre = some u → (∀ e ∈ post, ¬e.IsCommit) →
          ¬u.StaleCommit i := by
  obtain ⟨s, hs, htick⟩ := exec_append.1 ht
  obtain ⟨s₁, hread, hcompare⟩ := exec_cons.1 htick
  rw [exec_singleton] at hcompare
  obtain ⟨hnone, rfl⟩ : s.worker.polled = none ∧
      s₁ = { s with worker := s.worker.pollRead s.db.row } := by
    simpa using step_cases hread
  obtain rfl : t = { s with worker := (s.worker.pollRead s.db.row).pollCompare } := by
    simpa using step_cases hcompare
  have hfresh : (init db clock current).worker.Fresh (init db clock current).db.row := by
    simp [init, Worker.Fresh, Worker.pollCompare, Worker.hasSeen]
  rw [Worker.current_tick_iff hnone, holds_iff_last_decisive (G := fun s => s.worker.Fresh s.db.row)
    (J := fun _ => True) (D := Event.IsCommit)
    (P := fun u e => ∀ i, e = .commit i → ¬u.StaleCommit i) (fun _ _ _ _ _ => trivial)
    (fun s e s' _ => fresh_other_iff) (fun s e s' _ => fresh_commit_iff) trivial hfresh hs]
  constructor
  · intro h pre i post u hsplit hu hpost
    exact h pre (.commit i) post u hsplit hu trivial hpost i rfl
  · rintro h pre e post u hsplit hu - hpost i rfl
    exact h pre i post u hsplit hu hpost

/-- One emergency disable with no other transaction in its way. -/
theorem poll_propagates_loneCommit :
    ∃ t, exec step (init ⟨.initial 0, []⟩ 0 (derived (.initial 0)))
        ([.start 0 (.setEmergencyDisabled "admin" true none) 1, .commit 0] ++
          [.pollRead, .pollCompare]) = some t ∧ t.worker.current = derived t.db.row := by
  obtain ⟨t, ht⟩ := Option.isSome_iff_exists.1 (show (exec step
    (init ⟨.initial 0, []⟩ 0 (derived (.initial 0)))
    ([.start 0 (.setEmergencyDisabled "admin" true none) 1, .commit 0] ++
      [.pollRead, .pollCompare])).isSome from rfl)
  refine ⟨t, ht, (poll_propagates_iff ht).2 ?_⟩
  rintro pre i post u hsplit hu - ⟨write, now, db, -, -, hseen, -⟩
  rcases pre with _ | ⟨a, _ | ⟨b, pre⟩⟩
  · simp at hsplit
  · -- the poller has not run when the transaction commits
    obtain ⟨rfl, -⟩ := List.cons.inj hsplit
    obtain rfl := Option.some.inj hu
    simp [init, Worker.pollCompare, Worker.hasSeen] at hseen
  · simp at hsplit

/-- The emergency disable starts first and waits for the row lock; the corpus bump starts
later, commits first and is polled. -/
def overlappedSchedule : List Event :=
  [.start 0 (.setEmergencyDisabled "admin" true (some "incident")) 1,
    .start 1 (.bumpCorpusVersion "admin" "policy.pdf") 2,
    .commit 1, .pollRead, .pollCompare, .commit 0, .pollRead, .pollCompare]

/-- After the overlapping transactions and a further tick the row's emergency switch is
set and the polling worker's is clear. -/
theorem overlapped_emergency_skipped :
    ∃ t, exec step (init ⟨.initial 0, []⟩ 0 (derived (.initial 0))) overlappedSchedule = some t ∧
      (∀ i, t.started i = none) ∧ t.db.row.1.emergencyDisabled = true ∧
      t.worker.current.1.emergencyDisabled = false ∧
      t.worker.current ≠ derived t.db.row := by
  refine ⟨_, rfl, fun i => ?_, by decide +kernel, by decide +kernel, by decide +kernel⟩
  simp only [Function.update_apply]
  split_ifs <;> rfl

end PollingWorker

end EnterpriseRag
