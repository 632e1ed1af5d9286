import EnterpriseRag.Library.Table
import EnterpriseRag.Sql.Models

/-!
# The proposal repository

The rows of `sql_query_proposals` and the transactions on them. `lockForExecution` runs
under the row lock and takes the caller's clock reading as an argument; every other
column that PostgreSQL stamps takes its `now()`, here `dbNow`.

A row's `terms` are the columns no transaction changes. `lockForExecution_cases` says
everything the lock can do; `reclaimStaleExecuting`, `reject`, `markExecuted` and
`markFailed` are plain updates, the first two guarded by the status, the last two by the
id alone.
-/

namespace EnterpriseRag

structure ProposalRow extends SQLProposal where
  approvedAt : Option Timestamp := none
  executedAt : Option Timestamp := none
  rowCount : Option ℕ := none
  executionMs : Option ℚ := none
  errorCode : Option String := none
  deriving DecidableEq, Repr

abbrev ProposalTable := Table fun r : ProposalRow => r.id

/-- What a proposal is made with, whatever became of it. -/
def SQLProposal.terms (p : SQLProposal) : SQLProposal :=
  { p with status := .proposed }

/-- What the checks at approval time read of a proposal is among its terms. -/
theorem SQLProposal.of_terms_eq {p q : SQLProposal} (h : p.terms = q.terms) :
    p.username = q.username ∧ p.sql = q.sql ∧ p.sqlFingerprint = q.sqlFingerprint ∧
      p.catalogVersion = q.catalogVersion ∧ p.expiresAt = q.expiresAt := by
  refine ⟨?_, ?_, ?_, ?_, ?_⟩
  · show p.terms.username = q.terms.username
    rw [h]
  · show p.terms.sql = q.terms.sql
    rw [h]
  · show p.terms.sqlFingerprint = q.terms.sqlFingerprint
    rw [h]
  · show p.terms.catalogVersion = q.terms.catalogVersion
    rw [h]
  · show p.terms.expiresAt = q.terms.expiresAt
    rw [h]

namespace ProposalTable

/-- `create`. The row takes `created_at` from the database. -/
def create (p : SQLProposal) (dbNow : Timestamp) (t : ProposalTable) :
    Except Raised (SQLProposal × ProposalTable) :=
  match t.insert { p with createdAt := dbNow } with
  | none => .error (.exception "UniqueViolation")
  | some t' => .ok (p, t')

/-- `get_owned`. -/
def getOwned (id : UUID) (username : String) (t : ProposalTable) : Option SQLProposal :=
  ((t.find id).filter fun r => r.username = username).map (·.toSQLProposal)

def setExpired (id : UUID) (t : ProposalTable) : ProposalTable :=
  t.updateWhere (fun r => r.id = id) (fun r => { r with status := .expired }) fun _ => rfl

def setExecuting (id : UUID) (dbNow : Timestamp) (t : ProposalTable) : ProposalTable :=
  t.updateWhere (fun r => r.id = id)
    (fun r => { r with status := .executing, approvedAt := some dbNow }) fun _ => rfl

/-- `lock_for_execution`, with the table it commits. The `proposal_expired` error is
raised after its own commit. -/
def lockForExecution (id : UUID) (username : String) (now dbNow : Timestamp)
    (t : ProposalTable) : Except Raised SQLProposal × ProposalTable :=
  match t.getOwned id username with
  | none => (.error (.sqlProposalNotFound id), t)
  | some proposal =>
    if proposal.status ≠ .proposed then (.error (.sqlProposalState "proposal_already_consumed"), t)
    else if proposal.expiresAt ≤ now then
      (.error (.sqlProposalState "proposal_expired"), t.setExpired id)
    else (.ok { proposal with status := .executing }, t.setExecuting id dbNow)

/-- `mark_executed`. -/
def markExecuted (id : UUID) (rowCount : ℕ) (executionMs : ℚ) (dbNow : Timestamp)
    (t : ProposalTable) : ProposalTable :=
  t.updateWhere (fun r => r.id = id)
    (fun r => { r with
      status := .executed
      executedAt := some dbNow
      rowCount := some rowCount
      executionMs := some executionMs }) fun _ => rfl

/-- `mark_failed`. -/
def markFailed (id : UUID) (errorCode : String) (t : ProposalTable) : ProposalTable :=
  t.updateWhere (fun r => r.id = id)
    (fun r => { r with status := .failed, errorCode := some errorCode }) fun _ => rfl

def isPending (id : UUID) (username : String) (r : ProposalRow) : Bool :=
  r.id = id ∧ r.username = username ∧ r.status = .proposed

/-- `reject`, with the table it commits. -/
def reject (id : UUID) (username : String) (t : ProposalTable) :
    Except Raised Unit × ProposalTable :=
  (if t.rowcount (isPending id username) = 0 then .error (.sqlProposalState "proposal_not_pending")
    else .ok (),
    t.updateWhere (isPending id username) (fun r => { r with status := .rejected }) fun _ => rfl)

def isStale (olderThan : ℤ) (dbNow : Timestamp) (r : ProposalRow) : Bool :=
  r.status = .executing ∧ r.approvedAt.any fun at' => at' < dbNow - olderThan

/-- `reclaim_stale_executing`, with how many rows it reclaimed. -/
def reclaimStaleExecuting (olderThan : ℤ) (dbNow : Timestamp) (t : ProposalTable) :
    ℕ × ProposalTable :=
  (t.rowcount (isStale olderThan dbNow),
    t.updateWhere (isStale olderThan dbNow)
      (fun r => { r with
        status := .failed
        errorCode := some "stale_execution_reclaimed" }) fun _ => rfl)

/-! ## What the transactions do -/

theorem id_of_find {t : ProposalTable} {id : UUID} {r : ProposalRow} (h : t.find id = some r) :
    r.id = id := by
  have hkey := Table.key_of_find h
  exact hkey

theorem create_ok {p q : SQLProposal} {dbNow : Timestamp} {t t' : ProposalTable}
    (h : t.create p dbNow = .ok (q, t')) :
    q = p ∧ t.insert { p with createdAt := dbNow } = some t' := by
  unfold create at h
  split at h
  · simp at h
  · rename_i t₁ ht
    obtain ⟨rfl, rfl⟩ := Prod.mk.inj (Except.ok.inj h)
    exact ⟨rfl, ht⟩

theorem getOwned_eq_some {id : UUID} {username : String} {t : ProposalTable} {p : SQLProposal} :
    t.getOwned id username = some p ↔
      ∃ r, t.find id = some r ∧ r.username = username ∧ r.toSQLProposal = p := by
  simp [getOwned, Option.filter_eq_some_iff, and_assoc]

/-- Everything the lock can do. -/
theorem lockForExecution_cases {id : UUID} {username : String} {now dbNow : Timestamp}
    {t t' : ProposalTable} {res : Except Raised SQLProposal}
    (h : t.lockForExecution id username now dbNow = (res, t')) :
    (∃ r, t.find id = some r ∧ r.username = username ∧ r.status = .proposed ∧
      now < r.expiresAt ∧ res = .ok { r.toSQLProposal with status := .executing } ∧
      t' = t.setExecuting id dbNow) ∨
    (∃ r, t.find id = some r ∧ r.status = .proposed ∧ r.expiresAt ≤ now ∧
      res = .error (.sqlProposalState "proposal_expired") ∧ t' = t.setExpired id) ∨
    ∃ e, res = .error e ∧ e ≠ .sqlProposalState "proposal_expired" ∧ t' = t := by
  unfold lockForExecution at h
  split at h
  · obtain ⟨rfl, rfl⟩ := Prod.mk.inj h
    exact Or.inr (Or.inr ⟨_, rfl, by simp, rfl⟩)
  · rename_i p hp
    obtain ⟨r, hr, huser, rfl⟩ := getOwned_eq_some.1 hp
    split at h
    · obtain ⟨rfl, rfl⟩ := Prod.mk.inj h
      exact Or.inr (Or.inr ⟨_, rfl, by simp, rfl⟩)
    · rename_i hstatus
      rw [not_not] at hstatus
      split at h
      · rename_i hexp
        obtain ⟨rfl, rfl⟩ := Prod.mk.inj h
        exact Or.inr (Or.inl ⟨r, hr, hstatus, hexp, rfl, rfl⟩)
      · rename_i hexp
        obtain ⟨rfl, rfl⟩ := Prod.mk.inj h
        exact Or.inl ⟨r, hr, huser, hstatus, not_le.1 hexp, rfl, rfl⟩

end ProposalTable

end EnterpriseRag
