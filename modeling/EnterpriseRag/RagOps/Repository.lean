import EnterpriseRag.RagOps.Config

/-!
# The transactions on the RAG operations row

Each admin write is one transaction that holds the row lock of the singleton row, so it
reads the row the previous transaction committed. It stamps `updated_at` with PostgreSQL's
`now()`, the start of its own transaction, here the argument `now`.

`updateConfig` is the partial update : fields of the payload that are `none` keep their
column (`coalesce`), the dependent flags are checked again under the lock, and an audit
entry is written exactly when a diffed field changed (`diff`). The two switches and the
corpus counter each write an entry of their own. A `RowWrite` is one of the four writes
that stamp `updated_at`, and `RowWrite.commit` its transaction; a write that raises
commits nothing, neither row nor entry.
-/

namespace EnterpriseRag

/-- A column's value as the audit entry's JSON holds it. -/
inductive FieldValue
  | bool (b : Bool)
  | int (n : ℤ)
  | real (q : ℚ)
  | text (s : String)
  deriving DecidableEq, Repr

/-- What an audit entry says of one key : the values before and after, the value after
alone, or a plain text. -/
inductive AuditChange
  | diff (old new : FieldValue)
  | new (value : FieldValue)
  | note (text : String)
  deriving DecidableEq, Repr

structure AuditEntry where
  actor : String
  action : String
  changes : List (String × AuditChange)
  reason : Option String
  createdAt : Timestamp
  deriving DecidableEq, Repr

/-- The row and its audit log, oldest entry first. -/
structure RagOpsStore where
  row : RagOpsRow
  auditLog : List AuditEntry

/-- Why a write raised : a dependent flag without its parent, a CHECK constraint, or a
counter past the range of its column. -/
inductive RepositoryError
  | invalidRagOpsConfig (message : String)
  | checkViolation
  | integerOutOfRange
  deriving DecidableEq, Repr

/-- The payload of a partial update. -/
structure ConfigUpdate where
  rerankingEnabled : Option Bool := none
  rerankerBackend : Option RerankerBackendName := none
  rerankerRolloutPercentage : Option ℤ := none
  semanticCacheEnabled : Option Bool := none
  semanticCacheThreshold : Option ℚ := none
  hydeEnabled : Option Bool := none
  hydeRolloutPercentage : Option ℤ := none
  cragEnabled : Option Bool := none
  cragRolloutPercentage : Option ℤ := none
  cragWebEnabled : Option Bool := none
  cragShadowEnabled : Option Bool := none
  selfReflectiveEnabled : Option Bool := none
  selfReflectiveRolloutPercentage : Option ℤ := none
  selfReflectiveShadowEnabled : Option Bool := none
  selfReflectiveRetrievalEnabled : Option Bool := none
  sqlEnabled : Option Bool := none
  sqlRolloutPercentage : Option ℤ := none
  guardrailMode : Option GuardrailModeName := none
  guardrailPolicyVersion : Option String := none
  deriving DecidableEq, Repr

def RerankerBackendName.value : RerankerBackendName → String
  | .local => "local"
  | .voyage => "voyage"

def GuardrailModeName.value : GuardrailModeName → String
  | .enforce => "enforce"
  | .monitor => "monitor"

/-- `_DIFF_FIELDS`, each with the column it reads. -/
def diffFields : List (String × (RagOpsConfig → FieldValue)) :=
  [("reranking_enabled", fun c => .bool c.rerankingEnabled),
    ("reranker_backend", fun c => .text c.rerankerBackend.value),
    ("reranker_rollout_percentage", fun c => .int c.rerankerRolloutPercentage),
    ("semantic_cache_enabled", fun c => .bool c.semanticCacheEnabled),
    ("semantic_cache_threshold", fun c => .real c.semanticCacheThreshold),
    ("hyde_enabled", fun c => .bool c.hydeEnabled),
    ("hyde_rollout_percentage", fun c => .int c.hydeRolloutPercentage),
    ("crag_enabled", fun c => .bool c.cragEnabled),
    ("crag_rollout_percentage", fun c => .int c.cragRolloutPercentage),
    ("crag_web_enabled", fun c => .bool c.cragWebEnabled),
    ("crag_shadow_enabled", fun c => .bool c.cragShadowEnabled),
    ("self_reflective_enabled", fun c => .bool c.selfReflectiveEnabled),
    ("self_reflective_rollout_percentage", fun c => .int c.selfReflectiveRolloutPercentage),
    ("self_reflective_shadow_enabled", fun c => .bool c.selfReflectiveShadowEnabled),
    ("self_reflective_retrieval_enabled", fun c => .bool c.selfReflectiveRetrievalEnabled),
    ("sql_enabled", fun c => .bool c.sqlEnabled),
    ("sql_rollout_percentage", fun c => .int c.sqlRolloutPercentage),
    ("guardrail_mode", fun c => .text c.guardrailMode.value),
    ("guardrail_policy_version", fun c => .text c.guardrailPolicyVersion)]

/-- `_diff` : the diffed fields whose value changed. -/
def diff (old new : RagOpsConfig) : List (String × AuditChange) :=
  diffFields.filterMap fun f =>
    if f.2 old = f.2 new then none else some (f.1, .diff (f.2 old) (f.2 new))

/-- The `SET col = COALESCE(%s, col), …` of the partial update. -/
def RagOpsConfig.coalesce (c : RagOpsConfig) (p : ConfigUpdate) (actor : String)
    (now : Timestamp) : RagOpsConfig :=
  { c with
    rerankingEnabled := p.rerankingEnabled.getD c.rerankingEnabled
    rerankerBackend := p.rerankerBackend.getD c.rerankerBackend
    rerankerRolloutPercentage := p.rerankerRolloutPercentage.getD c.rerankerRolloutPercentage
    semanticCacheEnabled := p.semanticCacheEnabled.getD c.semanticCacheEnabled
    semanticCacheThreshold := p.semanticCacheThreshold.getD c.semanticCacheThreshold
    hydeEnabled := p.hydeEnabled.getD c.hydeEnabled
    hydeRolloutPercentage := p.hydeRolloutPercentage.getD c.hydeRolloutPercentage
    cragEnabled := p.cragEnabled.getD c.cragEnabled
    cragRolloutPercentage := p.cragRolloutPercentage.getD c.cragRolloutPercentage
    cragWebEnabled := p.cragWebEnabled.getD c.cragWebEnabled
    cragShadowEnabled := p.cragShadowEnabled.getD c.cragShadowEnabled
    selfReflectiveEnabled := p.selfReflectiveEnabled.getD c.selfReflectiveEnabled
    selfReflectiveRolloutPercentage :=
      p.selfReflectiveRolloutPercentage.getD c.selfReflectiveRolloutPercentage
    selfReflectiveShadowEnabled :=
      p.selfReflectiveShadowEnabled.getD c.selfReflectiveShadowEnabled
    selfReflectiveRetrievalEnabled :=
      p.selfReflectiveRetrievalEnabled.getD c.selfReflectiveRetrievalEnabled
    sqlEnabled := p.sqlEnabled.getD c.sqlEnabled
    sqlRolloutPercentage := p.sqlRolloutPercentage.getD c.sqlRolloutPercentage
    guardrailMode := p.guardrailMode.getD c.guardrailMode
    guardrailPolicyVersion := p.guardrailPolicyVersion.getD c.guardrailPolicyVersion
    updatedAt := now
    updatedBy := some actor }

/-- The re-validation of the merged dependent flags under the row lock. -/
def checkDependentFlags (c : RagOpsConfig) : Except RepositoryError Unit :=
  if c.cragWebEnabled && !c.cragEnabled then
    .error (.invalidRagOpsConfig "crag_web_enabled requires crag_enabled")
  else if c.cragShadowEnabled && !c.cragEnabled then
    .error (.invalidRagOpsConfig "crag_shadow_enabled requires crag_enabled")
  else if c.selfReflectiveShadowEnabled && !c.selfReflectiveEnabled then
    .error (.invalidRagOpsConfig "self_reflective_shadow_enabled requires self_reflective_enabled")
  else if c.selfReflectiveRetrievalEnabled && !c.selfReflectiveEnabled then
    .error
      (.invalidRagOpsConfig "self_reflective_retrieval_enabled requires self_reflective_enabled")
  else .ok ()

/-- `update_config`. -/
def updateConfig (actor : String) (reason : Option String) (p : ConfigUpdate) (now : Timestamp)
    (s : RagOpsStore) : Except RepositoryError RagOpsStore :=
  let new := s.row.1.coalesce p actor now
  match checkDependentFlags new with
  | .error e => .error e
  | .ok () =>
    if h : new.Stored then
      let changes := diff s.row.1 new
      .ok ⟨⟨new, h⟩,
        if changes = [] then s.auditLog
        else s.auditLog ++ [⟨actor, "config_update", changes, reason, now⟩]⟩
    else .error .checkViolation

/-- `set_emergency_disabled`. -/
def setEmergencyDisabled (actor : String) (disabled : Bool) (reason : Option String)
    (now : Timestamp) (s : RagOpsStore) : RagOpsStore :=
  ⟨⟨{ s.row.1 with
      emergencyDisabled := disabled
      emergencyDisabledReason := reason
      emergencyDisabledAt := if disabled then some now else none
      emergencyDisabledBy := if disabled then some actor else none
      updatedAt := now
      updatedBy := some actor }, { s.row.2 with }⟩,
    s.auditLog ++ [⟨actor, if disabled then "emergency_disable" else "emergency_enable",
      [("emergency_disabled", .new (.bool disabled))], reason, now⟩]⟩

/-- `set_safety_lockdown`. -/
def setSafetyLockdown (actor : String) (enabled : Bool) (reason : Option String)
    (now : Timestamp) (s : RagOpsStore) : RagOpsStore :=
  ⟨⟨{ s.row.1 with
      safetyLockdownEnabled := enabled
      safetyLockdownReason := reason
      safetyLockdownAt := if enabled then some now else none
      safetyLockdownBy := if enabled then some actor else none
      updatedAt := now
      updatedBy := some actor }, { s.row.2 with }⟩,
    s.auditLog ++
      [⟨actor, if enabled then "safety_lockdown_enabled" else "safety_lockdown_disabled",
        [("safety_lockdown_enabled", .new (.bool enabled))], reason, now⟩]⟩

/-- The largest value of an INTEGER column. -/
def integerMax : ℤ := 2147483647

/-- `bump_corpus_version`. -/
def bumpCorpusVersion (actor source : String) (now : Timestamp) (s : RagOpsStore) :
    Except RepositoryError RagOpsStore :=
  if integerMax < s.row.1.corpusVersion + 1 then .error .integerOutOfRange
  else
    .ok ⟨⟨{ s.row.1 with
        corpusVersion := s.row.1.corpusVersion + 1
        updatedAt := now
        updatedBy := some actor },
        { s.row.2 with corpus := le_trans s.row.2.corpus (Int.le.intro 1 rfl) }⟩,
      s.auditLog ++ [⟨actor, "corpus_version_bump",
        [("source", .note source), ("corpus_version", .new (.int (s.row.1.corpusVersion + 1)))],
        none, now⟩]⟩

/-- `record_cache_invalidation` : the one write that neither stamps `updated_at` nor is
audited. -/
def recordCacheInvalidation (now : Timestamp) (s : RagOpsStore) : RagOpsStore :=
  ⟨⟨{ s.row.1 with lastCacheInvalidatedAt := some now }, { s.row.2 with }⟩, s.auditLog⟩

/-- A write that stamps `updated_at`. -/
inductive RowWrite
  | updateConfig (actor : String) (reason : Option String) (payload : ConfigUpdate)
  | setEmergencyDisabled (actor : String) (disabled : Bool) (reason : Option String)
  | setSafetyLockdown (actor : String) (enabled : Bool) (reason : Option String)
  | bumpCorpusVersion (actor source : String)
  deriving DecidableEq, Repr

/-- The transaction of a write that started at `now`. -/
def RowWrite.commit (now : Timestamp) (s : RagOpsStore) :
    RowWrite → Except RepositoryError RagOpsStore
  | .updateConfig actor reason p => EnterpriseRag.updateConfig actor reason p now s
  | .setEmergencyDisabled actor disabled reason =>
    .ok (EnterpriseRag.setEmergencyDisabled actor disabled reason now s)
  | .setSafetyLockdown actor enabled reason =>
    .ok (EnterpriseRag.setSafetyLockdown actor enabled reason now s)
  | .bumpCorpusVersion actor source => EnterpriseRag.bumpCorpusVersion actor source now s

/-- A committed write carries the start of its own transaction. -/
theorem RowWrite.updatedAt_commit {now : Timestamp} {s s' : RagOpsStore} {w : RowWrite}
    (h : w.commit now s = .ok s') : s'.row.1.updatedAt = now := by
  cases w with
  | updateConfig actor reason p =>
    simp only [commit, EnterpriseRag.updateConfig] at h
    split at h
    · simp at h
    · split at h
      · obtain rfl := Except.ok.inj h
        rfl
      · simp at h
  | setEmergencyDisabled actor disabled reason =>
    obtain rfl := Except.ok.inj h
    rfl
  | setSafetyLockdown actor enabled reason =>
    obtain rfl := Except.ok.inj h
    rfl
  | bumpCorpusVersion actor source =>
    simp only [commit, EnterpriseRag.bumpCorpusVersion] at h
    split at h
    · simp at h
    · obtain rfl := Except.ok.inj h
      rfl

end EnterpriseRag
