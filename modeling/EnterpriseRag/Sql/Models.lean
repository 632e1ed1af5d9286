import EnterpriseRag.Core.Exceptions

/-!
# Text-to-SQL data

The records the SQL service, its policy, its executor and its repository pass to each
other.
-/

namespace EnterpriseRag

inductive QueryRoute
  | rag
  | sql
  | hybridRagSql
  | reject
  deriving DecidableEq, Repr

inductive SQLProposalStatus
  | proposed
  | approved
  | executing
  | executed
  | rejected
  | expired
  | failed
  deriving DecidableEq, Repr

/-- The states no operation is meant to leave. -/
def SQLProposalStatus.IsTerminal : SQLProposalStatus → Prop
  | .executed | .rejected | .expired | .failed => True
  | .proposed | .approved | .executing => False

instance (status : SQLProposalStatus) : Decidable status.IsTerminal := by
  cases status <;> simp only [SQLProposalStatus.IsTerminal] <;> infer_instance

structure RouteDecision where
  route : QueryRoute
  confidence : ℚ
  reasonCode : String

structure AuthenticatedUser where
  username : String
  isAdmin : Bool
  deriving DecidableEq, Repr

/-- The capability scope of a caller. -/
structure SQLPrincipal where
  username : String
  isAdmin : Bool
  tenantId : Option String := none
  permissions : List String := []
  deriving DecidableEq, Repr

def toSqlPrincipal (user : AuthenticatedUser) : SQLPrincipal :=
  { username := user.username, isAdmin := user.isAdmin }

structure CatalogColumn where
  schemaName : String
  tableName : String
  columnName : String
  dataType : String
  description : Option String := none
  sensitive : Bool := false
  deriving DecidableEq, Repr

structure CatalogSnapshot where
  version : ℤ
  columns : List CatalogColumn
  relationships : List String := []
  businessRules : List String := []
  deriving DecidableEq, Repr

structure ValidatedSQL where
  sql : String
  fingerprint : String
  referencedTables : List String
  referencedColumns : List String
  projectionSensitive : List Bool
  rowLimit : ℤ
  policyVersion : String
  deriving DecidableEq, Repr

structure ExplainAssessment where
  totalCost : ℚ
  planRows : ℤ
  planWidth : ℤ

structure SQLProposal where
  id : UUID
  username : String
  conversationId : ℤ
  question : String
  sql : String
  sqlFingerprint : String
  referencedTables : List String
  assumptions : List String
  catalogVersion : ℤ
  policyVersion : String
  status : SQLProposalStatus
  expiresAt : Timestamp
  createdAt : Timestamp
  deriving DecidableEq, Repr

/-- A cell of a result row : a string, or a value of another type with its `str`. -/
inductive Cell
  | text (s : String)
  | other (str : String)
  deriving DecidableEq, Repr

structure SQLExecutionResult where
  columns : List String
  rows : List (List Cell)
  rowCount : ℕ
  truncated : Bool
  durationMs : ℚ
  bytesReturned : ℕ
  deriving DecidableEq, Repr

structure SanitizedSQLResult where
  columns : List String
  rows : List (List Cell)
  rowCount : ℕ
  truncated : Bool
  snapshotAt : Timestamp
  deriving DecidableEq, Repr

structure SQLCompletedAnswer where
  answer : String
  result : SanitizedSQLResult
  proposal : SQLProposal
  validated : ValidatedSQL
  deriving DecidableEq, Repr

end EnterpriseRag
