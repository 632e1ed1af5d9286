import Mathlib.Data.Rat.Defs
import Mathlib.Algebra.Order.Ring.Rat
import Mathlib.Tactic.NormNum

/-!
# The RAG operations row and the snapshot derived from it

`RagOpsConfig` is the singleton row of `rag_ops_config`. Its columns carry the CHECK
constraints of the migrations, so a row that violates one cannot be stored : a stored
row is a `RagOpsRow`, a configuration with a proof of `Stored`.

`RagRuntimeFields` are the fields of the frozen snapshot every request reads, and
`postInit` is the validation its constructor runs. A snapshot is a `RagRuntimeConfig`,
fields that passed it. `applyRagOpsConfig` derives the snapshot from a row, with the
emergency switch folded into the reranking and the semantic cache flags only. A stored
row always passes the validation (`applyRagOpsConfig_ok`), so what it derives is the
total function `derived`.
-/

namespace EnterpriseRag

/-- An instant, in microseconds. -/
abbrev Timestamp := ℤ

inductive RerankerBackendName
  | «local»
  | voyage
  deriving DecidableEq, Repr

inductive GuardrailModeName
  | enforce
  | monitor
  deriving DecidableEq, Repr

/-- The admin-mutable configuration, one column a field. -/
structure RagOpsConfig where
  rerankingEnabled : Bool := false
  rerankerBackend : RerankerBackendName := .local
  rerankerRolloutPercentage : ℤ := 100
  semanticCacheEnabled : Bool := false
  semanticCacheThreshold : ℚ := 95 / 100
  hydeEnabled : Bool := false
  hydeRolloutPercentage : ℤ := 0
  cragEnabled : Bool := false
  cragRolloutPercentage : ℤ := 0
  cragWebEnabled : Bool := false
  emergencyDisabled : Bool := false
  emergencyDisabledReason : Option String := none
  emergencyDisabledAt : Option Timestamp := none
  emergencyDisabledBy : Option String := none
  corpusVersion : ℤ := 1
  lastCacheInvalidatedAt : Option Timestamp := none
  updatedAt : Timestamp
  updatedBy : Option String := none
  cragShadowEnabled : Bool := false
  selfReflectiveEnabled : Bool := false
  selfReflectiveRolloutPercentage : ℤ := 0
  selfReflectiveShadowEnabled : Bool := false
  selfReflectiveRetrievalEnabled : Bool := false
  sqlEnabled : Bool := false
  sqlRolloutPercentage : ℤ := 0
  sqlProposalOnly : Bool := true
  guardrailMode : GuardrailModeName := .enforce
  guardrailPolicyVersion : String := "guardrails-policy-v1"
  safetyLockdownEnabled : Bool := false
  safetyLockdownReason : Option String := none
  safetyLockdownAt : Option Timestamp := none
  safetyLockdownBy : Option String := none
  deriving DecidableEq, Repr

/-- A percentage column's CHECK. -/
def IsPercentage (p : ℤ) : Prop :=
  0 ≤ p ∧ p ≤ 100

instance (p : ℤ) : Decidable (IsPercentage p) :=
  inferInstanceAs (Decidable (0 ≤ p ∧ p ≤ 100))

/-- What the table guarantees of its row : the CHECK constraints of the migrations, and
a corpus counter that starts at one and is only ever incremented. -/
structure RagOpsConfig.Stored (c : RagOpsConfig) : Prop where
  reranker : IsPercentage c.rerankerRolloutPercentage
  threshold : 0 ≤ c.semanticCacheThreshold ∧ c.semanticCacheThreshold ≤ 1
  hyde : IsPercentage c.hydeRolloutPercentage
  crag : IsPercentage c.cragRolloutPercentage
  cragWeb : c.cragWebEnabled → c.cragEnabled
  cragShadow : c.cragShadowEnabled → c.cragEnabled
  selfReflective : IsPercentage c.selfReflectiveRolloutPercentage
  selfReflectiveShadow : c.selfReflectiveShadowEnabled → c.selfReflectiveEnabled
  selfReflectiveRetrieval : c.selfReflectiveRetrievalEnabled → c.selfReflectiveEnabled
  sql : IsPercentage c.sqlRolloutPercentage
  sqlProposalOnly : c.sqlProposalOnly
  corpus : 1 ≤ c.corpusVersion

instance (c : RagOpsConfig) : Decidable c.Stored :=
  decidable_of_iff
    (IsPercentage c.rerankerRolloutPercentage ∧
      (0 ≤ c.semanticCacheThreshold ∧ c.semanticCacheThreshold ≤ 1) ∧
      IsPercentage c.hydeRolloutPercentage ∧ IsPercentage c.cragRolloutPercentage ∧
      (c.cragWebEnabled → c.cragEnabled) ∧ (c.cragShadowEnabled → c.cragEnabled) ∧
      IsPercentage c.selfReflectiveRolloutPercentage ∧
      (c.selfReflectiveShadowEnabled → c.selfReflectiveEnabled) ∧
      (c.selfReflectiveRetrievalEnabled → c.selfReflectiveEnabled) ∧
      IsPercentage c.sqlRolloutPercentage ∧ c.sqlProposalOnly ∧ 1 ≤ c.corpusVersion)
    ⟨fun ⟨h1, h2, h3, h4, h5, h6, h7, h8, h9, h10, h11, h12⟩ =>
        ⟨h1, h2, h3, h4, h5, h6, h7, h8, h9, h10, h11, h12⟩,
      fun ⟨h1, h2, h3, h4, h5, h6, h7, h8, h9, h10, h11, h12⟩ =>
        ⟨h1, h2, h3, h4, h5, h6, h7, h8, h9, h10, h11, h12⟩⟩

/-- The row as the table holds it. -/
abbrev RagOpsRow := {c : RagOpsConfig // c.Stored}

/-- The row the migrations create. -/
def RagOpsRow.initial (now : Timestamp) : RagOpsRow :=
  ⟨{ updatedAt := now }, by constructor <;> simp [IsPercentage]; norm_num⟩

/-! ## The snapshot -/

/-- The fields of the snapshot the request paths read. -/
structure RagRuntimeFields where
  rerankingEnabled : Bool
  rerankerBackend : RerankerBackendName
  rerankerRolloutPercentage : ℤ
  emergencyDisabled : Bool
  semanticCacheEnabled : Bool
  semanticCacheThreshold : ℚ
  corpusVersion : ℤ
  hydeEnabled : Bool
  hydeRolloutPercentage : ℤ
  cragEnabled : Bool
  cragRolloutPercentage : ℤ
  cragWebEnabled : Bool
  cragShadowEnabled : Bool := false
  selfReflectiveEnabled : Bool := false
  selfReflectiveRolloutPercentage : ℤ := 0
  selfReflectiveShadowEnabled : Bool := false
  selfReflectiveRetrievalEnabled : Bool := false
  sqlEnabled : Bool := false
  sqlRolloutPercentage : ℤ := 0
  sqlProposalOnly : Bool := true
  guardrailMode : GuardrailModeName := .enforce
  guardrailPolicyVersion : String := "guardrails-policy-v1"
  safetyLockdownEnabled : Bool := false
  deriving DecidableEq, Repr

/-- `__post_init__`, with the message of the error it raises. The check that
`guardrail_mode` is one of its two names is the type of the field. -/
def RagRuntimeFields.postInit (c : RagRuntimeFields) : Except String Unit :=
  if ¬IsPercentage c.rerankerRolloutPercentage then
    .error "reranker_rollout_percentage must be between 0 and 100"
  else if ¬IsPercentage c.hydeRolloutPercentage then
    .error "hyde_rollout_percentage must be between 0 and 100"
  else if ¬(0 ≤ c.semanticCacheThreshold ∧ c.semanticCacheThreshold ≤ 1) then
    .error "semantic_cache_threshold must be between 0.0 and 1.0"
  else if c.corpusVersion < 1 then
    .error "corpus_version must be positive"
  else if ¬IsPercentage c.cragRolloutPercentage then
    .error "crag_rollout_percentage must be between 0 and 100"
  else if c.cragWebEnabled && !c.cragEnabled then
    .error "crag_web_enabled requires crag_enabled"
  else if c.cragShadowEnabled && !c.cragEnabled then
    .error "crag_shadow_enabled requires crag_enabled"
  else if ¬IsPercentage c.selfReflectiveRolloutPercentage then
    .error "self_reflective_rollout_percentage must be between 0 and 100"
  else if c.selfReflectiveShadowEnabled && !c.selfReflectiveEnabled then
    .error "self_reflective_shadow_enabled requires self_reflective_enabled"
  else if c.selfReflectiveRetrievalEnabled && !c.selfReflectiveEnabled then
    .error "self_reflective_retrieval_enabled requires self_reflective_enabled"
  else if ¬IsPercentage c.sqlRolloutPercentage then
    .error "sql_rollout_percentage must be between 0 and 100"
  else if !c.sqlProposalOnly then
    .error ("sql_proposal_only cannot be disabled - this release has no " ++
      "automatic SQL execution path")
  else .ok ()

/-- A snapshot : fields that passed the constructor's validation. -/
abbrev RagRuntimeConfig := {c : RagRuntimeFields // c.postInit = .ok ()}

/-- The constructor. -/
def RagRuntimeConfig.make (c : RagRuntimeFields) : Except String RagRuntimeConfig :=
  match h : c.postInit with
  | .ok () => .ok ⟨c, h⟩
  | .error e => .error e

/-- What the constructor's checks leave. -/
structure RagRuntimeFields.Valid (c : RagRuntimeFields) : Prop where
  reranker : IsPercentage c.rerankerRolloutPercentage
  hyde : IsPercentage c.hydeRolloutPercentage
  threshold : 0 ≤ c.semanticCacheThreshold ∧ c.semanticCacheThreshold ≤ 1
  corpus : 1 ≤ c.corpusVersion
  crag : IsPercentage c.cragRolloutPercentage
  cragWeb : c.cragWebEnabled → c.cragEnabled
  cragShadow : c.cragShadowEnabled → c.cragEnabled
  selfReflective : IsPercentage c.selfReflectiveRolloutPercentage
  selfReflectiveShadow : c.selfReflectiveShadowEnabled → c.selfReflectiveEnabled
  selfReflectiveRetrieval : c.selfReflectiveRetrievalEnabled → c.selfReflectiveEnabled
  sql : IsPercentage c.sqlRolloutPercentage
  sqlProposalOnly : c.sqlProposalOnly

theorem RagRuntimeConfig.valid (config : RagRuntimeConfig) : config.1.Valid := by
  have hcheck : ∀ {p : Prop} [Decidable p] {e : String} {x : Except String Unit},
      (if p then .error e else x) = .ok () → ¬p ∧ x = .ok () := by
    intro p _ e x h
    by_cases hp : p
    · rw [if_pos hp] at h
      exact nomatch h
    · exact ⟨hp, (if_neg hp).symm.trans h⟩
  have himp : ∀ {a b : Bool}, ¬(a && !b) = true → a = true → b = true := by
    intro a b h ha
    simpa [ha] using h
  obtain ⟨hreranker, h⟩ := hcheck config.2
  obtain ⟨hhyde, h⟩ := hcheck h
  obtain ⟨hthreshold, h⟩ := hcheck h
  obtain ⟨hcorpus, h⟩ := hcheck h
  obtain ⟨hcrag, h⟩ := hcheck h
  obtain ⟨hweb, h⟩ := hcheck h
  obtain ⟨hshadow, h⟩ := hcheck h
  obtain ⟨hreflective, h⟩ := hcheck h
  obtain ⟨hreflectiveShadow, h⟩ := hcheck h
  obtain ⟨hretrieval, h⟩ := hcheck h
  obtain ⟨hsql, h⟩ := hcheck h
  obtain ⟨hproposalOnly, -⟩ := hcheck h
  exact ⟨not_not.1 hreranker, not_not.1 hhyde, not_not.1 hthreshold, not_lt.1 hcorpus,
    not_not.1 hcrag, himp hweb, himp hshadow, not_not.1 hreflective, himp hreflectiveShadow,
    himp hretrieval, not_not.1 hsql, by simpa using hproposalOnly⟩

/-- The snapshot's fields as `apply_rag_ops_config` fills them in. HyDE, CRAG and
self-reflection keep their raw flags. -/
def RagOpsConfig.runtimeFields (c : RagOpsConfig) : RagRuntimeFields where
  rerankingEnabled := c.rerankingEnabled && !c.emergencyDisabled
  rerankerBackend := c.rerankerBackend
  rerankerRolloutPercentage := c.rerankerRolloutPercentage
  emergencyDisabled := c.emergencyDisabled
  semanticCacheEnabled := c.semanticCacheEnabled && !c.emergencyDisabled
  semanticCacheThreshold := c.semanticCacheThreshold
  corpusVersion := c.corpusVersion
  hydeEnabled := c.hydeEnabled
  hydeRolloutPercentage := c.hydeRolloutPercentage
  cragEnabled := c.cragEnabled
  cragRolloutPercentage := c.cragRolloutPercentage
  cragWebEnabled := c.cragWebEnabled
  cragShadowEnabled := c.cragShadowEnabled
  selfReflectiveEnabled := c.selfReflectiveEnabled
  selfReflectiveRolloutPercentage := c.selfReflectiveRolloutPercentage
  selfReflectiveShadowEnabled := c.selfReflectiveShadowEnabled
  selfReflectiveRetrievalEnabled := c.selfReflectiveRetrievalEnabled
  sqlEnabled := c.sqlEnabled
  sqlRolloutPercentage := c.sqlRolloutPercentage
  sqlProposalOnly := c.sqlProposalOnly
  guardrailMode := c.guardrailMode
  guardrailPolicyVersion := c.guardrailPolicyVersion
  safetyLockdownEnabled := c.safetyLockdownEnabled

/-- The snapshot `apply_rag_ops_config` puts in the store, or the validation error. -/
def applyRagOpsConfig (c : RagOpsConfig) : Except String RagRuntimeConfig :=
  RagRuntimeConfig.make c.runtimeFields

theorem postInit_runtimeFields (c : RagOpsRow) : c.1.runtimeFields.postInit = .ok () := by
  obtain ⟨c, h⟩ := c
  have hcorpus : ¬c.corpusVersion < 1 := not_lt.2 h.corpus
  have hweb : (c.cragWebEnabled && !c.cragEnabled) = false := by
    cases hw : c.cragWebEnabled
    · rfl
    · simp [h.cragWeb hw]
  have hshadow : (c.cragShadowEnabled && !c.cragEnabled) = false := by
    cases hw : c.cragShadowEnabled
    · rfl
    · simp [h.cragShadow hw]
  have hrshadow : (c.selfReflectiveShadowEnabled && !c.selfReflectiveEnabled) = false := by
    cases hw : c.selfReflectiveShadowEnabled
    · rfl
    · simp [h.selfReflectiveShadow hw]
  have hretrieval : (c.selfReflectiveRetrievalEnabled && !c.selfReflectiveEnabled) = false := by
    cases hw : c.selfReflectiveRetrievalEnabled
    · rfl
    · simp [h.selfReflectiveRetrieval hw]
  have hsql : c.sqlProposalOnly = true := h.sqlProposalOnly
  simp only [RagRuntimeFields.postInit, RagOpsConfig.runtimeFields, h.reranker, h.hyde,
    h.threshold, h.crag, h.selfReflective, h.sql, hcorpus, hweb, hshadow, hrshadow, hretrieval,
    hsql, and_self, not_true_eq_false, if_false, Bool.not_true, Bool.false_eq_true]

/-- The snapshot a stored row derives. -/
def derived (c : RagOpsRow) : RagRuntimeConfig :=
  ⟨c.1.runtimeFields, postInit_runtimeFields c⟩

/-- Applying a stored row never raises, and the store then holds what it derives. -/
theorem applyRagOpsConfig_ok (c : RagOpsRow) : applyRagOpsConfig c.1 = .ok (derived c) := by
  unfold applyRagOpsConfig RagRuntimeConfig.make
  split
  · rfl
  · rename_i e h
    rw [postInit_runtimeFields] at h
    simp at h

end EnterpriseRag
