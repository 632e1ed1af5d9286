import EnterpriseRag.Library.Ownership
import EnterpriseRag.Library.Script
import EnterpriseRag.Sql.ResultBounds
import Mathlib.Logic.Function.Basic

/-!
# Sessions of the SQL executor

`PostgresReadOnlySQLExecutor` as programs over a connection pool. The calls of any number of
requests interleave, and any call may raise, before or after it did what it does.

`session` is one request : its calls are a fixed script up to the first that raises, then the
rollback and the return of the connection. `confined` is all of them together : every query of
a model runs on a connection that its request alone holds, in a transaction that is read only
and carries the timeouts and the user of that request, and nothing is ever committed.
-/

namespace EnterpriseRag

open Program

/-! ## The executor -/

/-- `SQLExecutionLimits`. -/
structure SQLSessionLimits extends SQLExecutionLimits where
  statementTimeoutMs : ℕ
  lockTimeoutMs : ℕ
  maxPlanCost : ℚ
  maxPlanRows : ℕ
  statementTimeoutMs_pos : 0 < statementTimeoutMs
  lockTimeoutMs_pos : 0 < lockTimeoutMs
  maxPlanCost_pos : 0 < maxPlanCost
  maxPlanRows_pos : 0 < maxPlanRows

/-- What the executor has a cursor execute. -/
inductive SQLStatement
  | setTransactionReadOnly
  /-- `SELECT set_config(name, value, true)`. -/
  | setConfig (name value : String)
  | query (sql : String)
  deriving DecidableEq, Repr

/-- The entry `Plan` of an element of a plan document, as far as it is read. -/
structure PlanNode where
  totalCost : Option ℚ
  planRows : Option ℤ
  planWidth : Option ℤ

/-- The first column of what `EXPLAIN` returns. The document lists its elements' plans. -/
inductive PlanCell
  | document (elements : List (Option PlanNode))
  | raw (text : String)

/-- The calls of the executor. -/
inductive SessionOp
  | getconn
  | setAutocommit (conn : ℕ) (on : Bool)
  | cursor (conn : ℕ)
  | execute (conn : ℕ) (statement : SQLStatement)
  | fetchone (conn : ℕ)
  | fetchmany (conn : ℕ) (size : ℕ)
  | perfCounter
  | rollback (conn : ℕ)
  | putconn (conn : ℕ)
  deriving DecidableEq, Repr

/-- What a call answers. A statement answers the names of its columns. -/
def SessionOp.Res : SessionOp → Type
  | .getconn => Except Raised ℕ
  | .setAutocommit _ _ => Except Raised Unit
  | .cursor _ => Except Raised Unit
  | .execute _ _ => Except Raised (Option (List String))
  | .fetchone _ => Except Raised (Option PlanCell)
  | .fetchmany _ _ => Except Raised (List (List Cell))
  | .perfCounter => ℚ
  | .rollback _ => Except Raised Unit
  | .putconn _ => Except Raised Unit

/-- Whether the call returned. -/
def SessionOp.returned : (op : SessionOp) → op.Res → Bool
  | .getconn, r => Except.isOk r
  | .setAutocommit _ _, r => Except.isOk r
  | .cursor _, r => Except.isOk r
  | .execute _ _, r => Except.isOk r
  | .fetchone _, r => Except.isOk r
  | .fetchmany _ _, r => Except.isOk r
  | .perfCounter, _ => true
  | .rollback _, r => Except.isOk r
  | .putconn _, r => Except.isOk r

abbrev SessionProgram : Type → Type :=
  Program SessionOp SessionOp.Res Raised

abbrev SessionOracle : Type :=
  Oracle SessionOp SessionOp.Res

/-- `PostgresConnectionPool.connection`, around the body of a `with`. -/
def withConnection {α : Type} (body : ℕ → SessionProgram α) : SessionProgram α := do
  let conn ← ask .getconn id
  (body conn).tryFinally (ask (.putconn conn) id)

/-- `time.perf_counter`. -/
def perfCounter : SessionProgram ℚ :=
  perform SessionOp.perfCounter

namespace SQLSessionLimits

variable (limits : SQLSessionLimits) (loads : String → Except Raised (List (Option PlanNode)))

/-- The statements of `_prepare_transaction`. -/
def preparation (principal : SQLPrincipal) : List SQLStatement :=
  [.setTransactionReadOnly,
    .setConfig "statement_timeout" (toString limits.statementTimeoutMs ++ "ms"),
    .setConfig "lock_timeout" (toString limits.lockTimeoutMs ++ "ms"),
    .setConfig "app.current_user" principal.username,
    .setConfig "app.tenant_id" (principal.tenantId.getD "")]

/-- One `execute` after the other. -/
def executeAll (conn : ℕ) : List SQLStatement → SessionProgram Unit
  | [] => return ()
  | statement :: statements => do
    let _ ← ask (.execute conn statement) id
    executeAll conn statements

/-- `_prepare_transaction`. -/
def prepareTransaction (conn : ℕ) (principal : SQLPrincipal) : SessionProgram Unit := do
  ask (.setAutocommit conn false) id
  ask (.cursor conn) id
  executeAll conn (limits.preparation principal)

/-- The assessment of a plan. -/
def assess : Option PlanCell → Except Raised ExplainAssessment
  | none => .error (.sqlExecutionRejected "explain_returned_no_plan")
  | some cell => do
    let document ← match cell with
      | .document elements => .ok elements
      | .raw text => loads text
    match document with
    | [] => .error (.exception "IndexError")
    | none :: _ => .error (.exception "KeyError")
    | some plan :: _ =>
      .ok ⟨plan.totalCost.getD 0, plan.planRows.getD 0, plan.planWidth.getD 0⟩

/-- The gates of a plan. -/
def gate (assessment : ExplainAssessment) : Except Raised ExplainAssessment :=
  if limits.maxPlanCost < assessment.totalCost then
    .error (.sqlExecutionRejected "plan_cost_exceeded")
  else if (limits.maxPlanRows : ℤ) < assessment.planRows then
    .error (.sqlExecutionRejected "plan_rows_exceeded")
  else .ok assessment

def explainText (query : ValidatedSQL) : String :=
  "EXPLAIN (FORMAT JSON) " ++ query.sql

/-- The `try` of `explain`. -/
def explainOn (query : ValidatedSQL) (principal : SQLPrincipal) (conn : ℕ) :
    SessionProgram ExplainAssessment := do
  limits.prepareTransaction conn principal
  ask (.cursor conn) id
  let _ ← ask (.execute conn (.query (explainText query))) id
  let row ← ask (.fetchone conn) id
  orRaise (assess loads row >>= limits.gate)

/-- `explain`. -/
def explain (query : ValidatedSQL) (principal : SQLPrincipal) : SessionProgram ExplainAssessment :=
  withConnection fun conn =>
    (limits.explainOn loads query principal conn).tryFinally (ask (.rollback conn) id)

/-- What `execute` makes of the columns and the rows fetched. -/
def bounded (description : Option (List String)) (fetched : List (List Cell)) (durationMs : ℚ) :
    SQLExecutionResult :=
  let (bounded, totalBytes, truncated) := limits.boundRows [] 0
    (limits.maxResultRows < fetched.length) (fetched.take limits.maxResultRows)
  { columns := description.getD []
    rows := bounded
    rowCount := bounded.length
    truncated
    durationMs
    bytesReturned := totalBytes }

/-- The `try` of `execute`. -/
def executeOn (query : ValidatedSQL) (principal : SQLPrincipal) (conn : ℕ) (started : ℚ) :
    SessionProgram SQLExecutionResult := do
  limits.prepareTransaction conn principal
  ask (.cursor conn) id
  let description ← ask (.execute conn (.query query.sql)) id
  let fetched ← ask (.fetchmany conn (limits.maxResultRows + 1)) id
  let now ← perfCounter
  return limits.bounded description fetched ((now - started) * 1000)

/-- `execute`. -/
def executeQuery (query : ValidatedSQL) (principal : SQLPrincipal) :
    SessionProgram SQLExecutionResult :=
  withConnection fun conn => do
    let started ← perfCounter
    (limits.executeOn query principal conn started).tryFinally (ask (.rollback conn) id)

end SQLSessionLimits

/-- A request to the executor. -/
structure SQLRequest where
  explains : Bool
  query : ValidatedSQL
  principal : SQLPrincipal

inductive SQLAnswer
  | assessment (assessment : ExplainAssessment)
  | result (result : SQLExecutionResult)

/-- The text that a request has executed. -/
def SQLRequest.text (w : SQLRequest) : String :=
  if w.explains then SQLSessionLimits.explainText w.query else w.query.sql

namespace SQLSessionLimits

variable (limits : SQLSessionLimits) (loads : String → Except Raised (List (Option PlanNode)))

/-- What the executor does for a request. -/
def serve (w : SQLRequest) : SessionProgram SQLAnswer :=
  if w.explains then do
    let assessment ← limits.explain loads w.query w.principal
    return .assessment assessment
  else do
    let result ← limits.executeQuery w.query w.principal
    return .result result

/-- The calls between `getconn` and `rollback`. -/
def script (w : SQLRequest) (conn : ℕ) : List SessionOp :=
  (if w.explains then [] else [.perfCounter]) ++
    (.setAutocommit conn false :: .cursor conn ::
      (limits.preparation w.principal).map (.execute conn)) ++
    [.cursor conn, .execute conn (.query w.text)] ++
    (if w.explains then [.fetchone conn]
      else [.fetchmany conn (limits.maxResultRows + 1), .perfCounter])

/-! ## One request -/

/-- The history of a request that was given the connection : its script up to the first call
that raises, the rollback and the return of the connection. -/
def historyOn (o : SessionOracle) (w : SQLRequest) (conn : ℕ) :
    List (Event SessionOp SessionOp.Res) :=
  let h := (performScript SessionOp.returned o (limits.script w conn)
    [⟨.getconn, (.ok conn : Except Raised ℕ)⟩]).2
  let h' := h ++ [⟨.rollback conn, o h (.rollback conn)⟩]
  h' ++ [⟨.putconn conn, o h' (.putconn conn)⟩]

/-- A plan within the limits, or what is returned of a result. -/
def Within (w : SQLRequest) : SQLAnswer → Prop
  | .assessment a => a.totalCost ≤ limits.maxPlanCost ∧ a.planRows ≤ limits.maxPlanRows
  | .result r => ∃ conn : SQLConnection,
    limits.toSQLExecutionLimits.execute conn w.query w.principal = .ok r

section Session

variable {limits loads} {o : SessionOracle} {gate : Raised → Prop}

theorem follows_executeAll (conn : ℕ) : ∀ statements : List SQLStatement,
    Follows SessionOp.returned gate (statements.map (.execute conn)) (executeAll conn statements)
  | [] => follows_pure ()
  | _ :: statements =>
    follows_ask_bind (fun _ => rfl) fun _ => follows_executeAll conn statements

theorem follows_prepareTransaction (conn : ℕ) (principal : SQLPrincipal) :
    Follows SessionOp.returned gate
      (.setAutocommit conn false :: .cursor conn ::
        (limits.preparation principal).map (.execute conn))
      (limits.prepareTransaction conn principal) :=
  follows_ask_bind (fun _ => rfl) fun _ => follows_ask_bind (fun _ => rfl) fun _ =>
    follows_executeAll conn _

theorem run_withConnection_error {α : Type} {body : ℕ → SessionProgram α} {e : Raised}
    (he : (o [] .getconn : Except Raised ℕ) = .error e) :
    run o [] (withConnection body) =
      (.error e, [⟨.getconn, (.error e : Except Raised ℕ)⟩]) := by
  have hraised : ∀ r : Except Raised ℕ, r = .error e →
      run o [⟨.getconn, r⟩] (orRaise r >>= fun conn =>
        (body conn).tryFinally (ask (.putconn conn) id)) =
          (.error e, [⟨.getconn, (.error e : Except Raised ℕ)⟩]) := by
    rintro _ rfl
    rfl
  exact hraised _ he

/-- A request that took a connection : what it does in between, the rollback and the return. -/
theorem run_withConnection {α : Type} (body : ℕ → SessionProgram α) {script : List SessionOp}
    {conn : ℕ} (hconn : (o [] .getconn : Except Raised ℕ) = .ok conn)
    (hbody : Follows SessionOp.returned gate script (body conn)) :
    let start : List (Event SessionOp SessionOp.Res) :=
      [⟨.getconn, (.ok conn : Except Raised ℕ)⟩]
    let h := performScript SessionOp.returned o script start
    let h' := h.2 ++ [⟨.rollback conn, o h.2 (.rollback conn)⟩]
    let x := run o [] (withConnection fun conn => (body conn).tryFinally (ask (.rollback conn) id))
    x.2 = h' ++ [⟨.putconn conn, o h' (.putconn conn)⟩] ∧
      ∀ a, x.1 = .ok a → (run o start (body conn)).1 = .ok a ∧
        ∀ event ∈ x.2, SessionOp.returned event.1 event.2 = true := by
  intro start h h' x
  obtain ⟨hhistory, hreturns⟩ := hbody.run (o := o) (h := start)
  have hx : x = run o start
      (((body conn).tryFinally (ask (.rollback conn) id)).tryFinally (ask (.putconn conn) id)) := by
    have hgiven : ∀ r : Except Raised ℕ, r = .ok conn →
        run o [⟨.getconn, r⟩] (orRaise r >>= fun conn =>
          ((body conn).tryFinally (ask (.rollback conn) id)).tryFinally
            (ask (.putconn conn) id)) = run o start
          (((body conn).tryFinally (ask (.rollback conn) id)).tryFinally
            (ask (.putconn conn) id)) := by
      rintro _ rfl
      rfl
    exact hgiven _ hconn
  have hrollback : run o start ((body conn).tryFinally (ask (.rollback conn) id)) =
      ((o h.2 (.rollback conn) : Except Raised Unit) >>= fun _ => (run o start (body conn)).1,
        h') := by
    have hh : h.2 = (run o start (body conn)).2 := hhistory.symm
    show _ = ((o h.2 (.rollback conn) : Except Raised Unit) >>= fun _ =>
      (run o start (body conn)).1, h.2 ++ [⟨.rollback conn, o h.2 (.rollback conn)⟩])
    rw [hh]
    exact run_tryFinally_ask
  have hputconn : x = ((o h' (.putconn conn) : Except Raised Unit) >>= fun _ =>
      (o h.2 (.rollback conn) : Except Raised Unit) >>= fun _ => (run o start (body conn)).1,
        h' ++ [⟨.putconn conn, o h' (.putconn conn)⟩]) := by
    refine hx.trans (run_tryFinally_ask.trans ?_)
    rw [hrollback]
    rfl
  rw [hputconn]
  refine ⟨rfl, fun a ha => ?_⟩
  obtain ⟨_, hput, ha⟩ := bind_eq_ok.1 ha
  obtain ⟨_, hroll, ha⟩ := bind_eq_ok.1 ha
  refine ⟨ha, fun event hevent => ?_⟩
  rcases List.mem_append.1 hevent with hevent | hevent
  · rcases List.mem_append.1 hevent with hevent | hevent
    · refine returned_of_performScript (hreturns a ha) (fun event hevent => ?_) event hevent
      rw [List.mem_singleton.1 hevent]
      rfl
    · rw [List.mem_singleton.1 hevent]
      show Except.isOk (o h.2 (.rollback conn) : Except Raised Unit) = true
      rw [hroll]
      rfl
  · rw [List.mem_singleton.1 hevent]
    show Except.isOk (o h' (.putconn conn) : Except Raised Unit) = true
    rw [hput]
    rfl

theorem follows_explainOn (query : ValidatedSQL) (principal : SQLPrincipal) (conn : ℕ) :
    Follows SessionOp.returned (fun _ => True)
      ((.setAutocommit conn false :: .cursor conn ::
        (limits.preparation principal).map (.execute conn)) ++
        [.cursor conn, .execute conn (.query (explainText query)), .fetchone conn])
      (limits.explainOn loads query principal conn) :=
  Follows.bind (fun _ => follows_ask_bind (fun _ => rfl) fun _ =>
    follows_ask_bind (fun _ => rfl) fun _ => follows_ask_bind (fun _ => rfl) fun _ =>
      follows_orRaise fun _ _ => trivial) (follows_prepareTransaction conn principal)

theorem follows_executeOn (query : ValidatedSQL) (principal : SQLPrincipal) (conn : ℕ)
    (started : ℚ) :
    Follows SessionOp.returned (fun _ => True)
      ((.setAutocommit conn false :: .cursor conn ::
        (limits.preparation principal).map (.execute conn)) ++
        [.cursor conn, .execute conn (.query query.sql),
          .fetchmany conn (limits.maxResultRows + 1), .perfCounter])
      (limits.executeOn query principal conn started) :=
  Follows.bind (fun _ => follows_ask_bind (fun _ => rfl) fun _ =>
    follows_ask_bind (fun _ => rfl) fun _ => follows_ask_bind (fun _ => rfl) fun _ =>
      follows_perform_bind (fun _ => rfl) fun _ => follows_pure _)
    (follows_prepareTransaction conn principal)

theorem within_explainOn (query : ValidatedSQL) (principal : SQLPrincipal) (conn : ℕ) :
    (limits.explainOn loads query principal conn).Returns fun a =>
      a.totalCost ≤ limits.maxPlanCost ∧ a.planRows ≤ (limits.maxPlanRows : ℤ) := by
  refine Returns.bind (fun _ _ => Returns.bind (fun _ _ => Returns.bind (fun _ _ =>
    Returns.bind (fun row _ => returns_orRaise fun a ha => ?_) (returns_true _)) (returns_true _))
      (returns_true _)) (returns_true _)
  obtain ⟨assessment, -, ha⟩ := bind_eq_ok.1 ha
  rw [gate] at ha
  split at ha
  · cases ha
  · rename_i hcost
    split at ha
    · cases ha
    · rename_i hrows
      obtain rfl := Except.ok.inj ha
      exact ⟨not_lt.1 hcost, not_lt.1 hrows⟩

theorem within_executeOn (query : ValidatedSQL) (principal : SQLPrincipal) (conn : ℕ)
    (started : ℚ) :
    (limits.executeOn query principal conn started).Returns fun r =>
      ∃ conn : SQLConnection, limits.toSQLExecutionLimits.execute conn query principal = .ok r :=
  Returns.bind (fun _ _ => Returns.bind (fun _ _ => Returns.bind (fun description _ =>
    Returns.bind (fun fetched _ => Returns.bind (fun now _ => returns_pure
      ⟨⟨fun _ => .ok (), fun _ => .ok ⟨description, fun _ => fetched⟩, (now - started) * 1000⟩,
        rfl⟩) (returns_true _)) (returns_true _)) (returns_true _)) (returns_true _))
    (returns_true _)

/-- What a request calls, and that it returns only if every call did. -/
theorem session (limits : SQLSessionLimits)
    (loads : String → Except Raised (List (Option PlanNode))) (w : SQLRequest)
    (o : SessionOracle) :
    (∀ e, (o [] .getconn : Except Raised ℕ) = .error e →
      run o [] (limits.serve loads w) = (.error e, [⟨.getconn, (.error e : Except Raised ℕ)⟩])) ∧
      ∀ conn, (o [] .getconn : Except Raised ℕ) = .ok conn →
        (run o [] (limits.serve loads w)).2 = limits.historyOn o w conn ∧
          ∀ answer, (run o [] (limits.serve loads w)).1 = .ok answer →
            limits.Within w answer ∧
              ∀ event ∈ limits.historyOn o w conn, event.1.returned event.2 = true := by
  obtain ⟨explains, query, principal⟩ := w
  cases explains with
  | true =>
    have hserve : run o [] (limits.serve loads ⟨true, query, principal⟩) =
        ((run o [] (limits.explain loads query principal)).1.map .assessment,
          (run o [] (limits.explain loads query principal)).2) := run_bind_return
    rw [hserve]
    refine ⟨fun e he => ?_, fun conn hconn => ?_⟩
    · rw [explain, run_withConnection_error he]
      rfl
    · obtain ⟨hhistory, hreturns⟩ := run_withConnection (limits.explainOn loads query principal)
        hconn (follows_explainOn query principal conn)
      refine ⟨hhistory, fun answer hanswer => ?_⟩
      obtain ⟨a, ha, rfl⟩ := map_eq_ok.1 hanswer
      obtain ⟨hbody, hall⟩ := hreturns a ha
      exact ⟨(within_explainOn query principal conn).run hbody, fun event hevent =>
        hall event (hhistory.symm ▸ hevent)⟩
  | false =>
    have hserve : run o [] (limits.serve loads ⟨false, query, principal⟩) =
        ((run o [] (limits.executeQuery query principal)).1.map .result,
          (run o [] (limits.executeQuery query principal)).2) := run_bind_return
    rw [hserve]
    refine ⟨fun e he => ?_, fun conn hconn => ?_⟩
    · rw [executeQuery, run_withConnection_error he]
      rfl
    · have hfollows : Follows SessionOp.returned (fun _ => True)
          (limits.script ⟨false, query, principal⟩ conn)
          (perfCounter >>= limits.executeOn query principal conn) :=
        follows_perform_bind (fun _ => rfl) fun started =>
          follows_executeOn query principal conn started
      obtain ⟨hhistory, hreturns⟩ := run_withConnection
        (fun conn => perfCounter >>= limits.executeOn query principal conn) hconn hfollows
      refine ⟨hhistory, fun answer hanswer => ?_⟩
      obtain ⟨a, ha, rfl⟩ := map_eq_ok.1 hanswer
      obtain ⟨hbody, hall⟩ := hreturns a ha
      refine ⟨?_, fun event hevent => hall event (hhistory.symm ▸ hevent)⟩
      exact (Returns.bind (fun started _ => within_executeOn query principal conn started)
        (returns_true perfCounter)).run hbody

end Session

/-! ### A plan -/

def deskLimits : SQLSessionLimits where
  toSQLExecutionLimits := SQLExecutionLimits.twoRows
  statementTimeoutMs := 5000
  lockTimeoutMs := 500
  maxPlanCost := 100000
  maxPlanRows := 100000
  statementTimeoutMs_pos := by decide
  lockTimeoutMs_pos := by decide
  maxPlanCost_pos := by decide +kernel
  maxPlanRows_pos := by decide

def noPlan (_ : String) : Except Raised (List (Option PlanNode)) :=
  .error (.exception "JSONDecodeError")

def planRequest : SQLRequest where
  explains := true
  query := ⟨"SELECT 1", "f", [], [], [], 1, "v1"⟩
  principal := { username := "ann", isAdmin := false }

/-- A day on which every call returns. -/
def planDay : SessionOracle
  | _, .getconn => (.ok 0 : Except Raised ℕ)
  | _, .setAutocommit _ _ => (.ok () : Except Raised Unit)
  | _, .cursor _ => (.ok () : Except Raised Unit)
  | _, .execute _ _ => (.ok none : Except Raised (Option (List String)))
  | _, .fetchone _ =>
    (.ok (some (.document [some ⟨some 8, some 1, none⟩])) : Except Raised (Option PlanCell))
  | _, .fetchmany _ _ => (.ok [] : Except Raised (List (List Cell)))
  | _, .perfCounter => (0 : ℚ)
  | _, .rollback _ => (.ok () : Except Raised Unit)
  | _, .putconn _ => (.ok () : Except Raised Unit)

theorem session_plan :
    (run planDay [] (deskLimits.serve noPlan planRequest)).2 =
        deskLimits.historyOn planDay planRequest 0 ∧
      ∀ answer, (run planDay [] (deskLimits.serve noPlan planRequest)).1 = .ok answer →
        deskLimits.Within planRequest answer ∧
          ∀ event ∈ deskLimits.historyOn planDay planRequest 0,
            event.1.returned event.2 = true :=
  (session deskLimits noPlan planRequest planDay).2 0 rfl

end SQLSessionLimits

/-! ## Many requests -/

/-- What has been set in a transaction, in order. -/
structure SQLTransaction where
  readOnly : Bool
  settings : List (String × String)
  deriving DecidableEq, Repr

/-- The session behind a connection. -/
structure SQLSession where
  autocommit : Bool
  transaction : Option SQLTransaction
  deriving DecidableEq, Repr

/-- The server, the sessions of the connections that the pool has given out, and the queries
executed, each with the session it ran in. -/
structure SQLServer (δ : Type) where
  data : δ
  sessions : ℕ → Option SQLSession
  log : List (String × SQLSession)

namespace SQLSession

/-- Outside of autocommit a statement begins a transaction if there is none. With autocommit what
it sets is over with it. -/
def inTransaction (session : SQLSession) (f : SQLTransaction → SQLTransaction) : SQLSession :=
  if session.autocommit then session
  else { session with transaction := some (f (session.transaction.getD ⟨false, []⟩)) }

/-- The session after a call that returned. `psycopg2` sets autocommit only outside of a
transaction. -/
def step (session : SQLSession) : SessionOp → SQLSession
  | .setAutocommit _ on => ⟨on, none⟩
  | .execute _ .setTransactionReadOnly => session.inTransaction fun t => { t with readOnly := true }
  | .execute _ (.setConfig name value) =>
    session.inTransaction fun t => { t with settings := t.settings ++ [(name, value)] }
  | .rollback _ => { session with transaction := none }
  | _ => session

end SQLSession

namespace SQLServer

variable {δ : Type}

def setSession (s : SQLServer δ) (conn : ℕ) (session : Option SQLSession) : SQLServer δ :=
  { s with sessions := Function.update s.sessions conn session }

/-- A call on a connection that was given out. One that raises leaves any session. -/
def OnConnection (s : SQLServer δ) (conn : ℕ) (op : SessionOp) (r : op.Res) (s' : SQLServer δ) :
    Prop :=
  ∃ session session', s.sessions conn = some session ∧
    (op.returned r = true → session' = session.step op) ∧ s' = s.setSession conn (some session')

/-- What the pool and the server may answer. The pool gives out a connection that nobody has and
that is in no transaction. A query may leave any session behind, and if it raises it may have been
executed or not; what it does to the data stays only with autocommit. -/
def Handles (s : SQLServer δ) : (op : SessionOp) → op.Res → SQLServer δ → Prop
  | .getconn, r, s' =>
    (∃ conn autocommit, r = .ok conn ∧ s.sessions conn = none ∧
      s' = s.setSession conn (some ⟨autocommit, none⟩)) ∨ (∃ e, r = .error e) ∧ s' = s
  | .perfCounter, _, s' => s' = s
  | .putconn conn, r, s' => (r = .ok () ∧ s' = s.setSession conn none) ∨
    (∃ e, r = .error e) ∧ ∃ session, s' = s.setSession conn (some session)
  | .execute conn (.query sql), r, s' => ∃ session session', s.sessions conn = some session ∧
    s'.sessions = Function.update s.sessions conn (some session') ∧
    (s'.log = s.log ++ [(sql, session)] ∨ (∃ e, r = .error e) ∧ s'.log = s.log) ∧
    (s'.data = s.data ∨ session.autocommit = true)
  | .setAutocommit conn on, r, s' => s.OnConnection conn (.setAutocommit conn on) r s'
  | .cursor conn, r, s' => s.OnConnection conn (.cursor conn) r s'
  | .execute conn statement, r, s' => s.OnConnection conn (.execute conn statement) r s'
  | .fetchone conn, r, s' => s.OnConnection conn (.fetchone conn) r s'
  | .fetchmany conn size, r, s' => s.OnConnection conn (.fetchmany conn size) r s'
  | .rollback conn, r, s' => s.OnConnection conn (.rollback conn) r s'

end SQLServer

namespace SQLSessionLimits

variable (limits : SQLSessionLimits)

/-- The session in which a principal's query runs. -/
def prepared (principal : SQLPrincipal) : SQLSession where
  autocommit := false
  transaction := some
    { readOnly := true
      settings :=
        [("statement_timeout", toString limits.statementTimeoutMs ++ "ms"),
          ("lock_timeout", toString limits.lockTimeoutMs ++ "ms"),
          ("app.current_user", principal.username),
          ("app.tenant_id", principal.tenantId.getD "")] }

/-! ### What a request knows -/

/-- The connection that a request holds, and its session as far as it is known. -/
abbrev Held : Type :=
  Option (ℕ × Option SQLSession)

/-- What is known of the session after a call that returned. -/
def knownAfter : Option SQLSession → SessionOp → Option SQLSession
  | _, .setAutocommit _ on => some ⟨on, none⟩
  | _, .execute _ (.query _) => none
  | k, op => k.map (·.step op)

/-- What a request holds and knows after a call. -/
def hold (g : Held) : (op : SessionOp) → op.Res → Held
  | .getconn, r => (Except.toOption r).map (·, none)
  | .perfCounter, _ => g
  | .putconn conn, r =>
    if (SessionOp.putconn conn).returned r then none else g.map fun x => (x.1, none)
  | op, r => g.map fun x => (x.1, if op.returned r then knownAfter x.2 op else none)

/-- What a request may do. -/
def Allows (w : SQLRequest) (g : Held) : SessionOp → Prop
  | .getconn => g = none
  | .perfCounter => True
  | .setAutocommit conn on => on = false ∧ ∃ k, g = some (conn, k)
  | .execute conn (.query sql) => sql = w.text ∧ g = some (conn, some (limits.prepared w.principal))
  | .execute conn _ => ∃ k, g = some (conn, k)
  | .cursor conn => ∃ k, g = some (conn, k)
  | .fetchone conn => ∃ k, g = some (conn, k)
  | .fetchmany conn _ => ∃ k, g = some (conn, k)
  | .rollback conn => ∃ k, g = some (conn, k)
  | .putconn conn => ∃ k, g = some (conn, k)

section Confinement

variable {limits} {loads : String → Except Raised (List (Option PlanNode))} {w : SQLRequest}
  {conn : ℕ} {k : Option SQLSession} {α β : Type}

/-- A call on the connection that is held. -/
theorem keeps_call {Q : Held → Except Raised β → Prop} {op : SessionOp}
    {f : op.Res → Except Raised α} {rest : α → SessionProgram β}
    (herror : ∀ k e, Q (some (conn, k)) (.error e))
    (hallows : limits.Allows w (some (conn, k)) op)
    (hhold : ∀ r, hold (some (conn, k)) op r =
      some (conn, if op.returned r then knownAfter k op else none))
    (hreturned : ∀ r, op.returned r = (f r).isOk)
    (hrest : ∀ a, Keeps (limits.Allows w) hold Q (some (conn, knownAfter k op)) (rest a)) :
    Keeps (limits.Allows w) hold Q (some (conn, k)) (ask op f >>= rest) := by
  refine keeps_ask_bind hallows (fun r e _ => ?_) fun r a hr => ?_
  · rw [hhold r]
    exact herror _ e
  · rw [hhold r, hreturned r, hr]
    exact hrest a

/-- The connection is held, and after a return its session is `k`. -/
def HoldsKnown (conn : ℕ) (k : Option SQLSession) (g : Held) (x : Except Raised Unit) : Prop :=
  (∃ k, g = some (conn, k)) ∧ (x = .ok () → g = some (conn, k))

theorem keeps_executeAll : ∀ {statements : List SQLStatement} {k : Option SQLSession},
    (∀ sql, .query sql ∉ statements) →
      Keeps (limits.Allows w) hold
        (HoldsKnown conn (statements.foldl (fun k s => knownAfter k (.execute conn s)) k))
        (some (conn, k)) (executeAll conn statements)
  | [], k, _ => ⟨⟨k, rfl⟩, fun _ => rfl⟩
  | statement :: statements, k, h => by
    have hrest : ∀ sql, .query sql ∉ statements := fun sql hsql =>
      h sql (List.mem_cons_of_mem _ hsql)
    refine keeps_call (fun k e => ⟨⟨k, rfl⟩, fun h => by cases h⟩) ?_ (fun _ => rfl)
      (fun _ => rfl) fun _ => keeps_executeAll hrest
    cases statement with
    | setTransactionReadOnly => exact ⟨k, rfl⟩
    | setConfig name value => exact ⟨k, rfl⟩
    | query sql => exact absurd List.mem_cons_self (h sql)

theorem prepared_eq (conn : ℕ) (principal : SQLPrincipal) :
    (limits.preparation principal).foldl (fun k s => knownAfter k (.execute conn s))
      (some ⟨false, none⟩) = some (limits.prepared principal) :=
  rfl

theorem keeps_prepareTransaction :
    Keeps (limits.Allows w) hold (HoldsKnown conn (some (limits.prepared w.principal)))
      (some (conn, k)) (limits.prepareTransaction conn w.principal) := by
  refine keeps_call (fun k e => ⟨⟨k, rfl⟩, fun h => by cases h⟩) ⟨rfl, k, rfl⟩ (fun _ => rfl)
    (fun _ => rfl) fun _ => ?_
  refine keeps_call (fun k e => ⟨⟨k, rfl⟩, fun h => by cases h⟩) ⟨_, rfl⟩ (fun _ => rfl)
    (fun _ => rfl) fun _ => ?_
  rw [← prepared_eq conn]
  refine keeps_executeAll fun sql hsql => ?_
  simp [preparation] at hsql

/-- The request holds the connection, whatever comes of it. -/
def Holds (conn : ℕ) (g : Held) (_ : Except Raised α) : Prop :=
  ∃ k, g = some (conn, k)

theorem keeps_explainOn (hw : w.explains = true) :
    Keeps (limits.Allows w) hold (Holds conn) (some (conn, k))
      (limits.explainOn loads w.query w.principal conn) := by
  refine keeps_prepareTransaction.bind (fun g e h => h.1) fun g _ h => ?_
  rw [h.2 rfl]
  refine keeps_call (fun k e => ⟨k, rfl⟩) ⟨_, rfl⟩ (fun _ => rfl) (fun _ => rfl) fun _ => ?_
  refine keeps_call (fun k e => ⟨k, rfl⟩) ⟨?_, rfl⟩ (fun _ => rfl) (fun _ => rfl) fun _ => ?_
  · rw [SQLRequest.text, if_pos hw]
  refine keeps_call (fun k e => ⟨k, rfl⟩) ⟨_, rfl⟩ (fun _ => rfl) (fun _ => rfl) fun _ => ?_
  exact keeps_orRaise.2 ⟨_, rfl⟩

theorem keeps_executeOn (hw : w.explains = false) (started : ℚ) :
    Keeps (limits.Allows w) hold (Holds conn) (some (conn, k))
      (limits.executeOn w.query w.principal conn started) := by
  refine keeps_prepareTransaction.bind (fun g e h => h.1) fun g _ h => ?_
  rw [h.2 rfl]
  refine keeps_call (fun k e => ⟨k, rfl⟩) ⟨_, rfl⟩ (fun _ => rfl) (fun _ => rfl) fun _ => ?_
  refine keeps_call (fun k e => ⟨k, rfl⟩) ⟨?_, rfl⟩ (fun _ => rfl) (fun _ => rfl) fun _ => ?_
  · rw [SQLRequest.text, if_neg (by simp [hw])]
  refine keeps_call (fun k e => ⟨k, rfl⟩) ⟨_, rfl⟩ (fun _ => rfl) (fun _ => rfl) fun _ => ?_
  exact ⟨trivial, fun _ => ⟨_, rfl⟩⟩

/-- A request starts with nothing, and uses only the connection that it is given. -/
theorem keeps_withConnection (body : ℕ → SessionProgram α)
    (hbody : ∀ conn, Keeps (limits.Allows w) hold (Holds conn) (some (conn, none)) (body conn)) :
    Keeps (limits.Allows w) hold (fun _ _ => True) none
      (withConnection fun conn => (body conn).tryFinally (ask (.rollback conn) id)) := by
  refine keeps_ask_bind rfl (fun _ _ _ => trivial) fun r conn hr => ?_
  obtain rfl : r = Except.ok conn := hr
  refine Keeps.tryFinally (R := Holds conn) (fun g x hg => ?_)
    (Keeps.tryFinally (R := Holds conn) (fun g x hg => ?_) (hbody conn))
  · refine keeps_ask.2 ⟨hg, fun r => ?_⟩
    cases r <;> trivial
  · obtain ⟨k, rfl⟩ := hg
    refine keeps_ask.2 ⟨⟨k, rfl⟩, fun r => ?_⟩
    cases r with
    | error e => exact ⟨_, rfl⟩
    | ok _ => exact ⟨_, rfl⟩

theorem keeps_serve (w : SQLRequest) :
    Keeps (limits.Allows w) hold (fun _ _ => True) none (limits.serve loads w) := by
  cases hw : w.explains with
  | true =>
    rw [serve, if_pos hw]
    exact (keeps_withConnection (limits.explainOn loads w.query w.principal)
      fun conn => keeps_explainOn hw).bind (fun _ _ _ => trivial) fun _ _ _ => trivial
  | false =>
    rw [serve, if_neg (by simp [hw])]
    refine (keeps_withConnection (fun conn => perfCounter >>=
      limits.executeOn w.query w.principal conn) fun conn => ⟨trivial, fun started => ?_⟩).bind
        (fun _ _ _ => trivial) fun _ _ _ => trivial
    exact keeps_executeOn hw started

/-! ### All of them -/

/-- The connection of a call. -/
def conn? : SessionOp → Option ℕ
  | .getconn | .perfCounter => none
  | .setAutocommit conn _ | .cursor conn | .execute conn _ | .fetchone conn | .fetchmany conn _
  | .rollback conn | .putconn conn => some conn

def owned (g : Held) : Set ℕ :=
  {conn | ∃ k, g = some (conn, k)}

variable {δ : Type} {s s' : SQLServer δ} {g g' : Held} {op : SessionOp} {r : op.Res}

/-- The connections that are not given out. -/
def free (s : SQLServer δ) : Set ℕ :=
  {conn | s.sessions conn = none}

/-- What a request knows is so. -/
def Sound (g : Held) (s : SQLServer δ) : Prop :=
  ∀ conn k, g = some (conn, k) → ∃ session, s.sessions conn = some session ∧
    ∀ known, k = some known → session = known

/-- A call on the connection that runs no query and gives nothing back. -/
inductive Plain (conn : ℕ) : SessionOp → Prop
  | setAutocommit (on : Bool) : Plain conn (.setAutocommit conn on)
  | cursor : Plain conn (.cursor conn)
  | setTransactionReadOnly : Plain conn (.execute conn .setTransactionReadOnly)
  | setConfig (name value : String) : Plain conn (.execute conn (.setConfig name value))
  | fetchone : Plain conn (.fetchone conn)
  | fetchmany (size : ℕ) : Plain conn (.fetchmany conn size)
  | rollback : Plain conn (.rollback conn)

inductive Kind : SessionOp → Prop
  | getconn : Kind .getconn
  | perfCounter : Kind .perfCounter
  | putconn (conn : ℕ) : Kind (.putconn conn)
  | query (conn : ℕ) (sql : String) : Kind (.execute conn (.query sql))
  | plain {conn : ℕ} {op : SessionOp} (h : Plain conn op) : Kind op

theorem kind : ∀ op : SessionOp, Kind op
  | .getconn => .getconn
  | .perfCounter => .perfCounter
  | .putconn conn => .putconn conn
  | .setAutocommit _ on => .plain (.setAutocommit on)
  | .cursor _ => .plain .cursor
  | .execute conn (.query sql) => .query conn sql
  | .execute _ .setTransactionReadOnly => .plain .setTransactionReadOnly
  | .execute _ (.setConfig name value) => .plain (.setConfig name value)
  | .fetchone _ => .plain .fetchone
  | .fetchmany _ size => .plain (.fetchmany size)
  | .rollback _ => .plain .rollback

theorem Plain.conn?_eq (h : Plain conn op) : conn? op = some conn := by
  cases h <;> rfl

theorem Plain.mem_owned (h : Plain conn op) (hallows : limits.Allows w g op) : conn ∈ owned g := by
  cases h with
  | setAutocommit on => exact hallows.2
  | _ => exact hallows

theorem Plain.onConnection (h : Plain conn op) (hop : s.Handles op r s') :
    s.OnConnection conn op r s' := by
  cases h <;> exact hop

theorem Plain.hold_eq (h : Plain conn op) (g : Held) (r : op.Res) :
    hold g op r = g.map fun x => (x.1, if op.returned r then knownAfter x.2 op else none) := by
  cases h <;> rfl

theorem mem_owned_of_allows (hallows : limits.Allows w g op) (hconn : conn? op = some conn) :
    conn ∈ owned g := by
  cases kind op with
  | getconn => cases hconn
  | perfCounter => cases hconn
  | putconn c => exact Option.some.inj hconn ▸ hallows
  | query c sql =>
    obtain rfl := Option.some.inj hconn
    exact ⟨_, hallows.2⟩
  | plain h => exact Option.some.inj (h.conn?_eq.symm.trans hconn) ▸ h.mem_owned hallows

/-- A connection that was given out changes only under its own calls. -/
theorem sessions_of_ne (hop : s.Handles op r s') (hgiven : s.sessions conn ≠ none)
    (hconn : conn? op ≠ some conn) : s'.sessions conn = s.sessions conn := by
  have hne : ∀ {c : ℕ} {session : Option SQLSession}, c ≠ conn →
      Function.update s.sessions c session conn = s.sessions conn := fun h =>
    Function.update_of_ne (Ne.symm h) _ _
  cases kind op with
  | getconn =>
    rcases hop with ⟨c, _, -, hnone, rfl⟩ | ⟨-, rfl⟩
    · exact hne fun h => hgiven (h ▸ hnone)
    · rfl
  | perfCounter =>
    obtain rfl : s' = s := hop
    rfl
  | putconn c =>
    rcases hop with ⟨-, rfl⟩ | ⟨-, _, rfl⟩
    · exact hne fun h => hconn (congrArg some h)
    · exact hne fun h => hconn (congrArg some h)
  | query c sql =>
    obtain ⟨_, _, -, hsessions, -⟩ := hop
    rw [hsessions]
    exact hne fun h => hconn (congrArg some h)
  | plain h =>
    obtain ⟨_, _, -, -, rfl⟩ := h.onConnection hop
    exact hne fun heq => hconn (h.conn?_eq.trans (congrArg some heq))

theorem step_of_knownAfter {session known : SQLSession}
    (h : ∀ known, k = some known → session = known) (hknown : knownAfter k op = some known) :
    session.step op = known := by
  have hmap : k.map (·.step op) = some known → session.step op = known := by
    rintro hmap
    obtain ⟨known', hk, rfl⟩ := Option.map_eq_some_iff.1 hmap
    rw [h known' hk]
  cases op with
  | setAutocommit c on => exact Option.some.inj hknown
  | execute c statement =>
    cases statement with
    | query sql => cases hknown
    | _ => exact hmap hknown
  | _ => exact hmap hknown

theorem sound_onConnection (hg : Sound g s) (hmem : conn ∈ owned g)
    (hop : s.OnConnection conn op r s')
    (hhold : hold g op r =
      g.map fun x => (x.1, if op.returned r then knownAfter x.2 op else none)) :
    Sound (hold g op r) s' := by
  obtain ⟨k, rfl⟩ := hmem
  obtain ⟨session, session', hsession, hstep, rfl⟩ := hop
  obtain ⟨_, hsame, hknown⟩ := hg conn k rfl
  obtain rfl := Option.some.inj (hsession.symm.trans hsame)
  rw [hhold]
  rintro c k' hk'
  obtain ⟨rfl, rfl⟩ := Prod.mk.inj (Option.some.inj hk')
  refine ⟨session', Function.update_self _ _ _, fun known h => ?_⟩
  split at h
  · rename_i hreturned
    rw [hstep hreturned]
    exact step_of_knownAfter hknown h
  · cases h

theorem sound_hold (hg : Sound g s) (hallows : limits.Allows w g op) (hop : s.Handles op r s') :
    Sound (hold g op r) s' := by
  cases kind op with
  | getconn =>
    rcases hop with ⟨conn, autocommit, rfl, -, rfl⟩ | ⟨⟨e, rfl⟩, -⟩
    · rintro c k hk
      obtain ⟨rfl, rfl⟩ := Prod.mk.inj (Option.some.inj hk)
      exact ⟨_, Function.update_self _ _ _, fun _ h => by cases h⟩
    · rintro c k hk
      cases hk
  | perfCounter =>
    obtain rfl : s' = s := hop
    exact hg
  | putconn conn =>
    obtain ⟨k, rfl⟩ := hallows
    rcases hop with ⟨rfl, -⟩ | ⟨⟨e, rfl⟩, session, rfl⟩
    · rintro c k' hk'
      cases hk'
    · rintro c k' hk'
      obtain ⟨rfl, rfl⟩ := Prod.mk.inj (Option.some.inj hk')
      exact ⟨session, Function.update_self _ _ _, fun _ h => by cases h⟩
  | query conn sql =>
    obtain ⟨-, rfl⟩ := hallows
    obtain ⟨_, session', -, hsessions, -⟩ := hop
    rintro c k hk
    obtain ⟨rfl, rfl⟩ := Prod.mk.inj (Option.some.inj hk)
    refine ⟨session', ?_, fun known h => ?_⟩
    · rw [hsessions]
      exact Function.update_self _ _ _
    · split at h <;> cases h
  | plain h =>
    exact sound_onConnection hg (h.mem_owned hallows) (h.onConnection hop) (h.hold_eq g r)

/-- The only connection that a request comes to hold is one that nobody had. -/
theorem owned_hold (hop : s.Handles op r s') : owned (hold g op r) ⊆ owned g ∪ free s := by
  have hsame : ∀ {f : ℕ × Option SQLSession → Option SQLSession},
      owned (g.map fun x => (x.1, f x)) ⊆ owned g ∪ free s := by
    rintro f conn ⟨k, hk⟩
    obtain ⟨⟨c, k'⟩, rfl, hpair⟩ := Option.map_eq_some_iff.1 hk
    obtain ⟨rfl, -⟩ := Prod.mk.inj hpair
    exact Or.inl ⟨k', rfl⟩
  cases kind op with
  | getconn =>
    rintro conn ⟨k, hk⟩
    rcases hop with ⟨c, autocommit, rfl, hnone, -⟩ | ⟨⟨e, rfl⟩, -⟩
    · obtain ⟨rfl, -⟩ := Prod.mk.inj (Option.some.inj hk)
      exact Or.inr hnone
    · cases hk
  | perfCounter => exact Set.subset_union_left
  | putconn conn =>
    rw [hold]
    split
    · rintro c ⟨k, hk⟩
      cases hk
    · exact hsame
  | query conn sql => exact hsame
  | plain h =>
    rw [h.hold_eq]
    exact hsame

/-- The data is as it was, and every query ran in the session prepared for its request. -/
def Confined (limits : SQLSessionLimits) (data : δ) (P : SQLRequest → Prop)
    (s : SQLServer δ) : Prop :=
  s.data = data ∧ ∀ e ∈ s.log, ∃ w, P w ∧ e = (w.text, limits.prepared w.principal)

theorem confined_handles {data : δ} {P : SQLRequest → Prop} (hw : P w)
    (hs : Confined limits data P s) (hg : Sound g s) (hallows : limits.Allows w g op)
    (hop : s.Handles op r s') : Confined limits data P s' := by
  have hsession : ∀ {c : ℕ} {session : Option SQLSession},
      Confined limits data P (s.setSession c session) := hs
  cases kind op with
  | getconn =>
    rcases hop with ⟨c, _, -, -, rfl⟩ | ⟨-, rfl⟩
    · exact hsession
    · exact hs
  | perfCounter =>
    obtain rfl : s' = s := hop
    exact hs
  | putconn c =>
    rcases hop with ⟨-, rfl⟩ | ⟨-, _, rfl⟩
    · exact hsession
    · exact hsession
  | query c sql =>
    -- the session is the one prepared for the request, so nothing stays and the log fits
    obtain ⟨rfl, rfl⟩ := hallows
    obtain ⟨session, _, hgiven, -, hlog, hdata⟩ := hop
    obtain ⟨_, hsame, hknown⟩ := hg c _ rfl
    obtain rfl := Option.some.inj (hgiven.symm.trans hsame)
    obtain rfl := hknown _ rfl
    refine ⟨?_, fun e he => ?_⟩
    · rcases hdata with hdata | hauto
      · rw [hdata, hs.1]
      · cases hauto
    · rcases hlog with hlog | ⟨-, hlog⟩
      · rw [hlog] at he
        rcases List.mem_append.1 he with he | he
        · exact hs.2 e he
        · exact ⟨w, hw, List.mem_singleton.1 he⟩
      · rw [hlog] at he
        exact hs.2 e he
  | plain h =>
    obtain ⟨_, _, -, -, rfl⟩ := h.onConnection hop
    exact hsession

/-- What is known of connections of other requests stays so. -/
theorem sound_of_disjoint (hallows : limits.Allows w g op) (hop : s.Handles op r s')
    (hdisjoint : Disjoint (owned g) (owned g')) (hg' : Sound g' s) : Sound g' s' := by
  rintro conn k rfl
  obtain ⟨session, hsession, hknown⟩ := hg' conn k rfl
  refine ⟨session, ?_, hknown⟩
  rw [sessions_of_ne hop (by simp [hsession]) fun hconn => ?_, hsession]
  exact Set.disjoint_left.1 hdisjoint (mem_owned_of_allows hallows hconn) ⟨k, rfl⟩

/-- In every run each query ran in the session prepared for its request, and no data changed. -/
theorem confined (limits : SQLSessionLimits)
    (loads : String → Except Raised (List (Option PlanNode))) {ws : List SQLRequest}
    {t u : Threads SessionOp SessionOp.Res Raised SQLAnswer SQLRequest (SQLServer δ)}
    (hrun : Threads.Run (limits.serve loads) SQLServer.Handles ws t u) (hempty : t.pool = [])
    (hlog : t.state.log = []) :
    u.state.data = t.state.data ∧
      ∀ e ∈ u.state.log, ∃ w ∈ ws, e = (w.text, limits.prepared w.principal) := by
  have hstart : Confined limits t.state.data (· ∈ ws) t.state :=
    ⟨rfl, fun e he => by simp [hlog] at he⟩
  have hapart : Threads.Apart (· ∈ ws) (Confined limits t.state.data (· ∈ ws)) Sound owned
      limits.Allows hold (fun _ _ _ => True) u := by
    refine hrun.apart (fun w _ => ⟨none, ?_, fun _ _ _ h => (by cases h), keeps_serve w⟩)
      (fun w g s op r s' hw hs hg hallows hop => ⟨confined_handles hw hs hg hallows hop,
        sound_hold hg hallows hop, owned_hold hop⟩)
      (fun g s hg => Set.disjoint_left.2 ?_)
      (fun w g s op r s' _ hallows hop g' hdisjoint hg' =>
        sound_of_disjoint hallows hop hdisjoint hg') (fun w hw => hw)
      (Threads.apart_of_nil hempty hstart)
    · refine Set.eq_empty_iff_forall_notMem.2 fun conn h => ?_
      obtain ⟨k, hk⟩ := h
      cases hk
    · rintro conn ⟨k, rfl⟩ hfree
      obtain ⟨session, hsession, -⟩ := hg conn k rfl
      rw [show s.sessions conn = none from hfree] at hsession
      cases hsession
  exact hapart.1

end Confinement

/-- The server with the session behind connection 0. -/
def deskServer (session : Option SQLSession) (log : List (String × SQLSession)) : SQLServer ℕ where
  data := 0
  sessions := Function.update (fun _ => none) 0 session
  log := log

theorem deskServer_sessions (session : Option SQLSession) (log : List (String × SQLSession)) :
    (deskServer session log).sessions 0 = session := by
  simp [deskServer]

theorem deskServer_setSession (session session' : Option SQLSession)
    (log : List (String × SQLSession)) :
    (deskServer session log).setSession 0 session' = deskServer session' log := by
  simp [SQLServer.setSession, deskServer]

theorem onConnection_deskServer (session : SQLSession) (op : SessionOp) (r : op.Res)
    (log : List (String × SQLSession)) :
    (deskServer (some session) log).OnConnection 0 op r
      (deskServer (some (session.step op)) log) :=
  ⟨session, _, deskServer_sessions _ _, fun _ => rfl, (deskServer_setSession _ _ _).symm⟩

/-- A run up to the query, on a connection that was in autocommit. -/
theorem run_plan : ∃ v : Threads SessionOp SessionOp.Res Raised SQLAnswer SQLRequest (SQLServer ℕ),
    Threads.Run (deskLimits.serve noPlan) SQLServer.Handles (List.replicate 11 planRequest)
      ⟨deskServer none [], []⟩ v ∧
    v.state = deskServer (some (deskLimits.prepared planRequest.principal))
      [(planRequest.text, deskLimits.prepared planRequest.principal)] := by
  have hgetconn : (deskServer none []).Handles .getconn (.ok 0 : Except Raised ℕ)
      (deskServer (some ⟨true, none⟩) []) :=
    Or.inl ⟨0, true, rfl, deskServer_sessions _ _, (deskServer_setSession _ _ _).symm⟩
  have hcall := fun (op : SessionOp) (r : op.Res) (session : SQLSession) =>
    onConnection_deskServer session op r []
  have hset := fun (statement : SQLStatement) (session : SQLSession) =>
    onConnection_deskServer session (.execute 0 statement)
      (.ok none : Except Raised (Option (List String))) []
  have hquery : (deskServer (some (deskLimits.prepared planRequest.principal)) []).Handles
      (.execute 0 (.query planRequest.text)) (.ok none : Except Raised (Option (List String)))
      (deskServer (some (deskLimits.prepared planRequest.principal))
        [(planRequest.text, deskLimits.prepared planRequest.principal)]) :=
    ⟨_, _, deskServer_sessions _ _, (Function.update_idem _ _ _).symm, Or.inl rfl, Or.inl rfl⟩
  exact ⟨⟨_, _⟩, .cons (.arrive planRequest _ []) (.alone hgetconn
    (.alone (hcall (.setAutocommit 0 false) (.ok () : Except Raised Unit) _)
    (.alone (hcall (.cursor 0) (.ok () : Except Raised Unit) _)
    (.alone (hset .setTransactionReadOnly _) (.alone (hset (.setConfig _ _) _)
    (.alone (hset (.setConfig _ _) _) (.alone (hset (.setConfig _ _) _)
    (.alone (hset (.setConfig _ _) _)
    (.alone (hcall (.cursor 0) (.ok () : Except Raised Unit) _)
    (.alone hquery (.nil _))))))))))), rfl⟩

theorem confined_plan : ∃ v : Threads SessionOp SessionOp.Res Raised SQLAnswer SQLRequest
      (SQLServer ℕ),
    v.state.log = [(planRequest.text, deskLimits.prepared planRequest.principal)] ∧
      (v.state.data = 0 ∧ ∀ e ∈ v.state.log, ∃ w ∈ List.replicate 11 planRequest,
        e = (w.text, deskLimits.prepared w.principal)) := by
  obtain ⟨v, hrun, hv⟩ := run_plan
  exact ⟨v, by rw [hv]; rfl, confined deskLimits noPlan hrun rfl rfl⟩

end SQLSessionLimits

end EnterpriseRag
