import EnterpriseRag.Library.Dict
import EnterpriseRag.Library.Samples
import Mathlib.Algebra.Order.Field.Basic
import Mathlib.Algebra.Order.Field.Rat

/-!
# The metrics of the RAG pipeline

`RagMetricsService` keeps a rolling window of samples for each stage, totals that never shrink
and the counts of bypassed requests. Every record takes the lock, so the records of all threads
come one after the other in some order, and `panels_shown` says for every such order what each panel
shows : the last samples of its own stage, with percentiles, rates and counts that agree with each
other, and the sums over all of its own records. `shadow_apart` is why the shadow cohorts have
windows of their own.
-/

namespace EnterpriseRag

/-! ## The records -/

/-- An attempted rerank or HyDE transform. -/
structure AttemptSample where
  durationMs : ℚ
  fallback : Bool
  deriving DecidableEq, Repr

structure CragSample where
  durationMs : ℚ
  decision : Option String
  fallback : Bool
  abstain : Bool
  webUsed : Bool
  deriving DecidableEq, Repr

structure ReflectionSample where
  durationMs : ℚ
  finalAction : String
  fallback : Bool
  iterations : ℤ
  additionalRetrievals : ℤ
  deriving DecidableEq, Repr

/-- The calls that record something. -/
inductive MetricsRecord
  | rerank (sample : AttemptSample) (usageTokens : Option ℤ)
  | semanticCacheLookup (hit : Bool)
  | hydeAttempt (sample : AttemptSample) (usageTokens : ℤ)
  | hydeBypass (reason : String)
  | cragOutcome (sample : CragSample) (usageTokens : ℤ)
  | cragBypass (reason : String)
  | cragShadowDecision (sample : CragSample) (usageTokens : ℤ)
  | selfReflectionOutcome (sample : ReflectionSample) (usageTokens : ℤ)
  | selfReflectionBypass (reason : String)
  | selfReflectionShadowOutcome (sample : ReflectionSample) (usageTokens : ℤ)
  deriving DecidableEq, Repr

structure RagMetrics where
  rerankSamples : List AttemptSample := []
  voyageTokensTotal : ℤ := 0
  semanticLookups : ℤ := 0
  semanticHits : ℤ := 0
  hydeSamples : List AttemptSample := []
  hydeUsageTokensTotal : ℤ := 0
  hydeBypassCounts : List (String × ℤ) := [("rollout", 0), ("emergency_disabled", 0)]
  cragSamples : List CragSample := []
  cragUsageTokensTotal : ℤ := 0
  cragBypassCounts : List (String × ℤ) := [("rollout", 0), ("emergency_disabled", 0)]
  cragShadowSamples : List CragSample := []
  cragShadowUsageTokensTotal : ℤ := 0
  reflectionSamples : List ReflectionSample := []
  reflectionUsageTokensTotal : ℤ := 0
  reflectionBypassCounts : List (String × ℤ) := [("rollout", 0), ("emergency_disabled", 0)]
  reflectionShadowSamples : List ReflectionSample := []
  reflectionShadowUsageTokensTotal : ℤ := 0

namespace RagMetrics

open Samples

/-- `counts.get(reason, 0)`. -/
def bypasses (counts : List (String × ℤ)) (reason : String) : ℤ :=
  (counts.lookup reason).getD 0

/-- `counts[reason] = counts.get(reason, 0) + 1`. -/
def countBypass (counts : List (String × ℤ)) (reason : String) : List (String × ℤ) :=
  Dict.set counts reason (bypasses counts reason + 1)

variable (windowSize : ℕ)

def record (m : RagMetrics) : MetricsRecord → RagMetrics
  | .rerank sample usageTokens => { m with
      rerankSamples := push windowSize m.rerankSamples sample
      voyageTokensTotal := m.voyageTokensTotal + usageTokens.getD 0 }
  | .semanticCacheLookup hit => { m with
      semanticLookups := m.semanticLookups + 1
      semanticHits := m.semanticHits + if hit then 1 else 0 }
  | .hydeAttempt sample usageTokens => { m with
      hydeSamples := push windowSize m.hydeSamples sample
      hydeUsageTokensTotal := m.hydeUsageTokensTotal + max usageTokens 0 }
  | .hydeBypass reason => { m with
      hydeBypassCounts := countBypass m.hydeBypassCounts reason }
  | .cragOutcome sample usageTokens => { m with
      cragSamples := push windowSize m.cragSamples sample
      cragUsageTokensTotal := m.cragUsageTokensTotal + max usageTokens 0 }
  | .cragBypass reason => { m with
      cragBypassCounts := countBypass m.cragBypassCounts reason }
  | .cragShadowDecision sample usageTokens => { m with
      cragShadowSamples := push windowSize m.cragShadowSamples sample
      cragShadowUsageTokensTotal := m.cragShadowUsageTokensTotal + max usageTokens 0 }
  | .selfReflectionOutcome sample usageTokens => { m with
      reflectionSamples := push windowSize m.reflectionSamples sample
      reflectionUsageTokensTotal := m.reflectionUsageTokensTotal + max usageTokens 0 }
  | .selfReflectionBypass reason => { m with
      reflectionBypassCounts := countBypass m.reflectionBypassCounts reason }
  | .selfReflectionShadowOutcome sample usageTokens => { m with
      reflectionShadowSamples := push windowSize m.reflectionShadowSamples sample
      reflectionShadowUsageTokensTotal :=
        m.reflectionShadowUsageTokensTotal + max usageTokens 0 }

/-- The service after the records of all threads, in the order they took the lock. -/
def run (records : List MetricsRecord) : RagMetrics :=
  records.foldl (record windowSize) {}

/-! ## The snapshots -/

def durations {σ : Type} (durationMs : σ → ℚ) (samples : List σ) : List ℚ :=
  (samples.map durationMs).insertionSort (· ≤ ·)

/-- `count / attempts if attempts else 0.0`. -/
def rate (count attempts : ℕ) : ℚ :=
  if attempts = 0 then 0 else count / attempts

/-- What every snapshot of a window has. -/
structure WindowSnapshot where
  sampleCount : ℕ
  p50LatencyMs : Option ℚ
  p95LatencyMs : Option ℚ
  fallbackRate : ℚ
  usageTokensTotal : ℤ
  deriving DecidableEq, Repr

def windowSnapshot {σ : Type} (durationMs : σ → ℚ) (fallback : σ → Bool) (samples : List σ)
    (tokens : ℤ) : WindowSnapshot where
  sampleCount := samples.length
  p50LatencyMs := percentile (durations durationMs samples) 50 100
  p95LatencyMs := percentile (durations durationMs samples) 95 100
  fallbackRate := rate (samples.countP fallback) samples.length
  usageTokensTotal := tokens

/-- `rerank_stats`. -/
def rerankStats (m : RagMetrics) : WindowSnapshot :=
  windowSnapshot (·.durationMs) (·.fallback) m.rerankSamples m.voyageTokensTotal

structure SemanticCacheMetricsSnapshot where
  lookups : ℤ
  hits : ℤ
  hitRate : ℚ
  deriving DecidableEq, Repr

def semanticCacheStats (m : RagMetrics) : SemanticCacheMetricsSnapshot where
  lookups := m.semanticLookups
  hits := m.semanticHits
  hitRate := if m.semanticLookups = 0 then 0 else m.semanticHits / m.semanticLookups

/-- Bypassed requests, by the two reasons that are shown. -/
structure BypassSnapshot where
  rolloutBypasses : ℤ
  emergencyBypasses : ℤ
  deriving DecidableEq, Repr

def bypassSnapshot (counts : List (String × ℤ)) : BypassSnapshot :=
  ⟨bypasses counts "rollout", bypasses counts "emergency_disabled"⟩

def hydeStats (m : RagMetrics) : WindowSnapshot × BypassSnapshot :=
  (windowSnapshot (·.durationMs) (·.fallback) m.hydeSamples m.hydeUsageTokensTotal,
    bypassSnapshot m.hydeBypassCounts)

structure CragSnapshot where
  window : WindowSnapshot
  correctCount : ℕ
  ambiguousCount : ℕ
  incorrectCount : ℕ
  abstentionRate : ℚ
  webUseRate : ℚ
  deriving DecidableEq, Repr

def cragSnapshot (samples : List CragSample) (tokens : ℤ) : CragSnapshot where
  window := windowSnapshot (·.durationMs) (·.fallback) samples tokens
  correctCount := samples.countP (·.decision = some "correct")
  ambiguousCount := samples.countP (·.decision = some "ambiguous")
  incorrectCount := samples.countP (·.decision = some "incorrect")
  abstentionRate := rate (samples.countP (·.abstain)) samples.length
  webUseRate := rate (samples.countP (·.webUsed)) samples.length

def cragStats (m : RagMetrics) : CragSnapshot × BypassSnapshot :=
  (cragSnapshot m.cragSamples m.cragUsageTokensTotal, bypassSnapshot m.cragBypassCounts)

def cragShadowStats (m : RagMetrics) : CragSnapshot :=
  cragSnapshot m.cragShadowSamples m.cragShadowUsageTokensTotal

structure SelfReflectionSnapshot where
  window : WindowSnapshot
  firstPassAcceptanceRate : ℚ
  revisionRate : ℚ
  additionalRetrievalRate : ℚ
  abstentionRate : ℚ
  averageIterations : ℚ
  deriving DecidableEq, Repr

def selfReflectionSnapshot (samples : List ReflectionSample) (tokens : ℤ) :
    SelfReflectionSnapshot where
  window := windowSnapshot (·.durationMs) (·.fallback) samples tokens
  firstPassAcceptanceRate :=
    rate (samples.countP fun s => s.finalAction = "accept" && s.iterations ≤ 1) samples.length
  revisionRate := rate (samples.countP (1 < ·.iterations)) samples.length
  additionalRetrievalRate := rate (samples.countP (0 < ·.additionalRetrievals)) samples.length
  abstentionRate := rate (samples.countP (·.finalAction = "abstain")) samples.length
  averageIterations :=
    if samples.length = 0 then 0 else (samples.map (·.iterations)).sum / samples.length

def selfReflectionStats (m : RagMetrics) : SelfReflectionSnapshot × BypassSnapshot :=
  (selfReflectionSnapshot m.reflectionSamples m.reflectionUsageTokensTotal,
    bypassSnapshot m.reflectionBypassCounts)

def selfReflectionShadowStats (m : RagMetrics) : SelfReflectionSnapshot :=
  selfReflectionSnapshot m.reflectionShadowSamples m.reflectionShadowUsageTokensTotal

/-! ## What the records leave -/

section Recorded

def rerankSample : MetricsRecord → Option AttemptSample
  | .rerank sample _ => some sample
  | _ => none

def hydeSample : MetricsRecord → Option AttemptSample
  | .hydeAttempt sample _ => some sample
  | _ => none

def cragSample : MetricsRecord → Option CragSample
  | .cragOutcome sample _ => some sample
  | _ => none

def cragShadowSample : MetricsRecord → Option CragSample
  | .cragShadowDecision sample _ => some sample
  | _ => none

def reflectionSample : MetricsRecord → Option ReflectionSample
  | .selfReflectionOutcome sample _ => some sample
  | _ => none

def reflectionShadowSample : MetricsRecord → Option ReflectionSample
  | .selfReflectionShadowOutcome sample _ => some sample
  | _ => none

def voyageTokens : MetricsRecord → ℤ
  | .rerank _ usageTokens => usageTokens.getD 0
  | _ => 0

def hydeTokens : MetricsRecord → ℤ
  | .hydeAttempt _ usageTokens => max usageTokens 0
  | _ => 0

def cragTokens : MetricsRecord → ℤ
  | .cragOutcome _ usageTokens => max usageTokens 0
  | _ => 0

def cragShadowTokens : MetricsRecord → ℤ
  | .cragShadowDecision _ usageTokens => max usageTokens 0
  | _ => 0

def reflectionTokens : MetricsRecord → ℤ
  | .selfReflectionOutcome _ usageTokens => max usageTokens 0
  | _ => 0

def reflectionShadowTokens : MetricsRecord → ℤ
  | .selfReflectionShadowOutcome _ usageTokens => max usageTokens 0
  | _ => 0

/-- The last samples of a stage. -/
def last {σ : Type} (records : List MetricsRecord) (sample : MetricsRecord → Option σ) : List σ :=
  (records.filterMap sample).rtake windowSize

def used (records : List MetricsRecord) (tokens : MetricsRecord → ℤ) : ℤ :=
  (records.map tokens).sum

/-- What the service holds of a list of records : of each stage the last samples, and the sums
and the counts over the whole list. -/
structure Holds (records : List MetricsRecord) (m : RagMetrics) : Prop where
  rerank : m.rerankSamples = last windowSize records rerankSample
  voyage : m.voyageTokensTotal = used records voyageTokens
  hits : m.semanticHits = records.count (.semanticCacheLookup true)
  misses : m.semanticLookups - m.semanticHits = records.count (.semanticCacheLookup false)
  hyde : m.hydeSamples = last windowSize records hydeSample
  hydeTokens : m.hydeUsageTokensTotal = used records hydeTokens
  hydeBypass : ∀ reason, bypasses m.hydeBypassCounts reason = records.count (.hydeBypass reason)
  crag : m.cragSamples = last windowSize records cragSample
  cragTokens : m.cragUsageTokensTotal = used records cragTokens
  cragBypass : ∀ reason, bypasses m.cragBypassCounts reason = records.count (.cragBypass reason)
  cragShadow : m.cragShadowSamples = last windowSize records cragShadowSample
  cragShadowTokens : m.cragShadowUsageTokensTotal = used records cragShadowTokens
  reflection : m.reflectionSamples = last windowSize records reflectionSample
  reflectionTokens : m.reflectionUsageTokensTotal = used records reflectionTokens
  reflectionBypass : ∀ reason,
    bypasses m.reflectionBypassCounts reason = records.count (.selfReflectionBypass reason)
  reflectionShadow :
    m.reflectionShadowSamples = last windowSize records reflectionShadowSample
  reflectionShadowTokens :
    m.reflectionShadowUsageTokensTotal = used records reflectionShadowTokens

variable {windowSize : ℕ}

theorem bypasses_countBypass (counts : List (String × ℤ)) (reason other : String) :
    bypasses (countBypass counts reason) other =
      bypasses counts other + if reason = other then 1 else 0 := by
  rw [countBypass, bypasses, Dict.lookup_set]
  by_cases h : other = reason
  · rw [if_pos h, if_pos h.symm, Option.getD_some, h]
  · rw [if_neg h, if_neg fun h' => h h'.symm, add_zero, bypasses]

theorem run_window {α : Type} (window : RagMetrics → List α) {sample : MetricsRecord → Option α}
    (hstart : window {} = [])
    (hstep : ∀ m r, window (record windowSize m r) =
      (sample r).elim (window m) (push windowSize (window m)))
    (records : List MetricsRecord) :
    window (run windowSize records) = last windowSize records sample :=
  foldl_window hstart hstep records

theorem run_total (total : RagMetrics → ℤ) {amount : MetricsRecord → ℤ} (hstart : total {} = 0)
    (hstep : ∀ m r, total (record windowSize m r) = total m + amount r)
    (records : List MetricsRecord) :
    total (run windowSize records) = used records amount :=
  foldl_total hstart hstep records

/-- Both reasons start at zero, and so does a reason the dictionary has no entry for. -/
theorem bypasses_start (reason : String) :
    bypasses [("rollout", 0), ("emergency_disabled", 0)] reason = 0 := by
  rw [bypasses, Dict.lookup_cons_eq, Dict.lookup_cons_eq]
  split
  · rfl
  · split <;> rfl

/-- A count that one record raises by one is how often that record was made. -/
theorem run_count (total : RagMetrics → ℤ) (own : MetricsRecord) (hstart : total {} = 0)
    (hstep : ∀ m r, total (record windowSize m r) = total m + if r = own then 1 else 0)
    (records : List MetricsRecord) : total (run windowSize records) = records.count own := by
  rw [run_total total hstart hstep]
  unfold used
  induction records with
  | nil => rfl
  | cons r records ih =>
    rw [List.map_cons, List.sum_cons, List.count_cons, ih]
    by_cases h : r = own
    · simp [h, add_comm]
    · simp [h]

theorem run_holds (windowSize : ℕ) (records : List MetricsRecord) :
    Holds windowSize records (run windowSize records) where
  rerank := run_window (·.rerankSamples) rfl (fun m r => by cases r <;> rfl) records
  voyage := run_total (·.voyageTokensTotal) rfl
    (fun m r => by cases r <;> simp [record, voyageTokens]) records
  hits := run_count (·.semanticHits) _ rfl (fun m r => by cases r <;> simp [record]) records
  misses := run_count (fun m => m.semanticLookups - m.semanticHits) _ rfl (fun m r => by
    cases r with
    | semanticCacheLookup hit =>
      cases hit <;> simp only [record, reduceCtorEq, MetricsRecord.semanticCacheLookup.injEq,
        Bool.false_eq_true, if_true, if_false] <;> omega
    | _ => simp [record]) records
  hyde := run_window (·.hydeSamples) rfl (fun m r => by cases r <;> rfl) records
  hydeTokens := run_total (·.hydeUsageTokensTotal) rfl
    (fun m r => by cases r <;> simp [record, RagMetrics.hydeTokens]) records
  hydeBypass reason := run_count (bypasses ·.hydeBypassCounts reason) _
    (bypasses_start reason)
    (fun m r => by cases r <;> simp [record, bypasses_countBypass]) records
  crag := run_window (·.cragSamples) rfl (fun m r => by cases r <;> rfl) records
  cragTokens := run_total (·.cragUsageTokensTotal) rfl
    (fun m r => by cases r <;> simp [record, RagMetrics.cragTokens]) records
  cragBypass reason := run_count (bypasses ·.cragBypassCounts reason) _
    (bypasses_start reason)
    (fun m r => by cases r <;> simp [record, bypasses_countBypass]) records
  cragShadow := run_window (·.cragShadowSamples) rfl (fun m r => by cases r <;> rfl) records
  cragShadowTokens := run_total (·.cragShadowUsageTokensTotal) rfl
    (fun m r => by cases r <;> simp [record, RagMetrics.cragShadowTokens]) records
  reflection := run_window (·.reflectionSamples) rfl (fun m r => by cases r <;> rfl) records
  reflectionTokens := run_total (·.reflectionUsageTokensTotal) rfl
    (fun m r => by cases r <;> simp [record, RagMetrics.reflectionTokens]) records
  reflectionBypass reason := run_count (bypasses ·.reflectionBypassCounts reason) _
    (bypasses_start reason)
    (fun m r => by cases r <;> simp [record, bypasses_countBypass]) records
  reflectionShadow :=
    run_window (·.reflectionShadowSamples) rfl (fun m r => by cases r <;> rfl) records
  reflectionShadowTokens := run_total (·.reflectionShadowUsageTokensTotal) rfl
    (fun m r => by cases r <;> simp [record, RagMetrics.reflectionShadowTokens]) records

end Recorded

/-! ## Shadow and served -/

section Shadow

variable {windowSize : ℕ}

def isShadow : MetricsRecord → Bool
  | .cragShadowDecision _ _ => true
  | .selfReflectionShadowOutcome _ _ => true
  | _ => false

/-- The service without the windows of the shadow cohorts. -/
def servedPart (m : RagMetrics) : RagMetrics :=
  { m with
    cragShadowSamples := []
    cragShadowUsageTokensTotal := 0
    reflectionShadowSamples := []
    reflectionShadowUsageTokensTotal := 0 }

/-- The windows of the shadow cohorts alone. -/
def shadowPart (m : RagMetrics) : RagMetrics :=
  { cragShadowSamples := m.cragShadowSamples
    cragShadowUsageTokensTotal := m.cragShadowUsageTokensTotal
    reflectionShadowSamples := m.reflectionShadowSamples
    reflectionShadowUsageTokensTotal := m.reflectionShadowUsageTokensTotal }

theorem servedPart_record (m : RagMetrics) (r : MetricsRecord) :
    servedPart (record windowSize m r) =
      if !isShadow r then record windowSize (servedPart m) r else servedPart m := by
  cases r <;> rfl

theorem shadowPart_record (m : RagMetrics) (r : MetricsRecord) :
    shadowPart (record windowSize m r) =
      if isShadow r then record windowSize (shadowPart m) r else shadowPart m := by
  cases r <;> rfl

/-- The served part is that of a service no shadow cohort ever recorded to. -/
theorem servedPart_run (records : List MetricsRecord) :
    servedPart (run windowSize records) = run windowSize (records.filter (!isShadow ·)) :=
  foldl_part rfl servedPart_record records

theorem shadowPart_run (records : List MetricsRecord) :
    shadowPart (run windowSize records) = run windowSize (records.filter isShadow) :=
  foldl_part rfl shadowPart_record records

theorem shadow_apart (windowSize : ℕ) (records : List MetricsRecord) :
    let m := run windowSize records
    let served := run windowSize (records.filter (!isShadow ·))
    let shadow := run windowSize (records.filter isShadow)
    (rerankStats m = rerankStats served ∧ semanticCacheStats m = semanticCacheStats served ∧
        hydeStats m = hydeStats served ∧ cragStats m = cragStats served ∧
        selfReflectionStats m = selfReflectionStats served) ∧
      cragShadowStats m = cragShadowStats shadow ∧
      selfReflectionShadowStats m = selfReflectionShadowStats shadow := by
  intro m served shadow
  have hserved : servedPart m = served := servedPart_run records
  have hshadow : shadowPart m = shadow := shadowPart_run records
  rw [← hserved, ← hshadow]
  exact ⟨⟨rfl, rfl, rfl, rfl, rfl⟩, rfl, rfl⟩

end Shadow

/-! ## What the panels show -/

section Panels

theorem rate_mem {count attempts : ℕ} (h : count ≤ attempts) :
    0 ≤ rate count attempts ∧ rate count attempts ≤ 1 := by
  unfold rate
  split
  · simp
  · rename_i hne
    have hpos : (0 : ℚ) < attempts := by exact_mod_cast Nat.pos_of_ne_zero hne
    exact ⟨div_nonneg (Nat.cast_nonneg _) hpos.le, (div_le_one hpos).2 (by exact_mod_cast h)⟩

theorem rate_add_le {count other attempts : ℕ} (h : count + other ≤ attempts) :
    rate count attempts + rate other attempts ≤ 1 := by
  have hsum : rate count attempts + rate other attempts = rate (count + other) attempts := by
    unfold rate
    split
    · exact add_zero 0
    · rw [← add_div, Nat.cast_add]
  rw [hsum]
  exact (rate_mem h).2

/-- What a panel shows of the durations of a window and of the tokens that were used. -/
structure WindowSnapshot.Shows (w : WindowSnapshot) (durations : List ℚ) (tokens : ℤ) :
    Prop where
  counted : w.sampleCount = durations.length
  p50_none : w.p50LatencyMs = none ↔ durations = []
  p95_none : w.p95LatencyMs = none ↔ durations = []
  ordered : ∀ p50 ∈ w.p50LatencyMs, ∀ p95 ∈ w.p95LatencyMs, p50 ≤ p95
  p50_share : ∀ p50 ∈ w.p50LatencyMs, 2 * durations.countP (· < p50) ≤ durations.length ∧
    durations.length ≤ 2 * durations.countP (· ≤ p50)
  p95_share : ∀ p95 ∈ w.p95LatencyMs, 100 * durations.countP (· < p95) ≤ 95 * durations.length ∧
    95 * durations.length ≤ 100 * durations.countP (· ≤ p95)
  fallbackRate : 0 ≤ w.fallbackRate ∧ w.fallbackRate ≤ 1
  usage : w.usageTokensTotal = tokens

theorem windowSnapshot_shows {σ : Type} (durationMs : σ → ℚ) (fallback : σ → Bool)
    (samples : List σ) (tokens : ℤ) :
    (windowSnapshot durationMs fallback samples tokens).Shows (samples.map durationMs) tokens := by
  have hperm : (durations durationMs samples).Perm (samples.map durationMs) :=
    List.perm_insertionSort _ _
  have hsorted : (durations durationMs samples).Pairwise (· ≤ ·) :=
    List.pairwise_insertionSort _ _
  have hnone : ∀ num, percentile (durations durationMs samples) num 100 = none ↔
      samples.map durationMs = [] := fun num => by
    rw [percentile_eq_none_iff, ← List.length_eq_zero_iff, hperm.length_eq,
      List.length_eq_zero_iff]
  have hshare : ∀ num ≤ 100, ∀ p ∈ percentile (durations durationMs samples) num 100,
      100 * (samples.map durationMs).countP (· < p) ≤ num * (samples.map durationMs).length ∧
        num * (samples.map durationMs).length ≤
          100 * (samples.map durationMs).countP (· ≤ p) := by
    intro num hnum p hp
    have hcount := countP_percentile hsorted hp
    rw [hperm.countP_eq, hperm.countP_eq, hperm.length_eq] at hcount
    have hmul : (samples.map durationMs).length * num ≤
        (samples.map durationMs).length * 100 := Nat.mul_le_mul_left _ hnum
    rw [Nat.mul_comm num]
    omega
  exact {
    counted := (List.length_map _).symm
    p50_none := hnone 50
    p95_none := hnone 95
    ordered := fun p50 h50 p95 h95 => percentile_mono hsorted (by omega) h50 h95
    p50_share := fun p50 h50 => by
      have := hshare 50 (by omega) p50 h50
      omega
    p95_share := hshare 95 (by omega)
    fallbackRate := rate_mem List.countP_le_length
    usage := rfl }

structure CragSnapshot.Shows (c : CragSnapshot) (samples : List CragSample) (tokens : ℤ) :
    Prop where
  window : c.window.Shows (samples.map (·.durationMs)) tokens
  decided : c.correctCount + c.ambiguousCount + c.incorrectCount ≤ samples.length
  abstentionRate : 0 ≤ c.abstentionRate ∧ c.abstentionRate ≤ 1
  webUseRate : 0 ≤ c.webUseRate ∧ c.webUseRate ≤ 1

theorem cragSnapshot_shows (samples : List CragSample) (tokens : ℤ) :
    (cragSnapshot samples tokens).Shows samples tokens where
  window := windowSnapshot_shows _ _ samples tokens
  decided := by
    unfold cragSnapshot
    induction samples with
    | nil => exact Nat.le_refl 0
    | cons s samples ih =>
      simp only [List.countP_cons, List.length_cons, decide_eq_true_eq] at ih ⊢
      split
      · simp_all
        omega
      · split
        · simp_all
          omega
        · split <;> omega
  abstentionRate := rate_mem List.countP_le_length
  webUseRate := rate_mem List.countP_le_length

/-- An answer accepted at the first pass is neither revised nor abstained from. -/
structure SelfReflectionSnapshot.Shows (r : SelfReflectionSnapshot)
    (samples : List ReflectionSample) (tokens : ℤ) : Prop where
  window : r.window.Shows (samples.map (·.durationMs)) tokens
  accepted : 0 ≤ r.firstPassAcceptanceRate
  revised : 0 ≤ r.revisionRate ∧ r.firstPassAcceptanceRate + r.revisionRate ≤ 1
  abstained : 0 ≤ r.abstentionRate ∧ r.firstPassAcceptanceRate + r.abstentionRate ≤ 1
  retrieved : 0 ≤ r.additionalRetrievalRate ∧ r.additionalRetrievalRate ≤ 1

/-- Samples of two kinds that exclude each other. -/
theorem countP_add_le {σ : Type} {p q : σ → Bool} (h : ∀ s, p s = true → q s = false)
    (samples : List σ) : samples.countP p + samples.countP q ≤ samples.length := by
  induction samples with
  | nil => exact Nat.le_refl 0
  | cons s samples ih =>
    rw [List.countP_cons, List.countP_cons, List.length_cons]
    cases hp : p s with
    | false =>
      rw [if_neg Bool.false_ne_true]
      split <;> omega
    | true =>
      rw [h s hp, if_pos rfl, if_neg Bool.false_ne_true]
      omega

theorem selfReflectionSnapshot_shows (samples : List ReflectionSample) (tokens : ℤ) :
    (selfReflectionSnapshot samples tokens).Shows samples tokens where
  window := windowSnapshot_shows _ _ samples tokens
  accepted := (rate_mem List.countP_le_length).1
  revised := ⟨(rate_mem List.countP_le_length).1, rate_add_le (countP_add_le (fun s h => by
    simp only [Bool.and_eq_true, decide_eq_true_eq, decide_eq_false_iff_not] at h ⊢
    omega) samples)⟩
  abstained := ⟨(rate_mem List.countP_le_length).1, rate_add_le (countP_add_le (fun s h => by
    simp only [Bool.and_eq_true, decide_eq_true_eq] at h
    simp [h.1]) samples)⟩
  retrieved := rate_mem List.countP_le_length

/-- What the panel of the semantic cache shows of its hits and misses. -/
def semanticCacheSnapshot (hits misses : ℕ) : SemanticCacheMetricsSnapshot :=
  ⟨(hits + misses : ℕ), hits, rate hits (hits + misses)⟩

theorem semanticCacheStats_eq {m : RagMetrics} {hits misses : ℕ} (hhits : m.semanticHits = hits)
    (hmisses : m.semanticLookups - m.semanticHits = misses) :
    semanticCacheStats m = semanticCacheSnapshot hits misses := by
  have hlookups : m.semanticLookups = (hits + misses : ℕ) := by omega
  rw [semanticCacheStats, semanticCacheSnapshot, hhits, hlookups, rate]
  simp only [Int.cast_natCast, Nat.cast_eq_zero]

/-- Each panel shows the last samples of its own stage and the tokens and bypasses of all of its
own records. -/
theorem panels_shown (windowSize : ℕ) (records : List MetricsRecord) :
    let m := run windowSize records
    (rerankStats m).Shows ((last windowSize records rerankSample).map (·.durationMs))
        (used records voyageTokens) ∧
      (hydeStats m).1.Shows ((last windowSize records hydeSample).map (·.durationMs))
        (used records hydeTokens) ∧
      (cragStats m).1.Shows (last windowSize records cragSample) (used records cragTokens) ∧
      (cragShadowStats m).Shows (last windowSize records cragShadowSample)
        (used records cragShadowTokens) ∧
      (selfReflectionStats m).1.Shows (last windowSize records reflectionSample)
        (used records reflectionTokens) ∧
      (selfReflectionShadowStats m).Shows (last windowSize records reflectionShadowSample)
        (used records reflectionShadowTokens) ∧
      (hydeStats m).2 = ⟨records.count (.hydeBypass "rollout"),
        records.count (.hydeBypass "emergency_disabled")⟩ ∧
      (cragStats m).2 = ⟨records.count (.cragBypass "rollout"),
        records.count (.cragBypass "emergency_disabled")⟩ ∧
      (selfReflectionStats m).2 = ⟨records.count (.selfReflectionBypass "rollout"),
        records.count (.selfReflectionBypass "emergency_disabled")⟩ ∧
      semanticCacheStats m = semanticCacheSnapshot (records.count (.semanticCacheLookup true))
        (records.count (.semanticCacheLookup false)) := by
  intro m
  have h : Holds windowSize records m := run_holds windowSize records
  refine ⟨?_, ?_, ?_, ?_, ?_, ?_, ?_, ?_, ?_, ?_⟩
  · rw [← h.voyage, ← h.rerank]
    exact windowSnapshot_shows _ _ _ _
  · rw [← h.hydeTokens, ← h.hyde]
    exact windowSnapshot_shows _ _ _ _
  · rw [← h.cragTokens, ← h.crag]
    exact cragSnapshot_shows _ _
  · rw [← h.cragShadowTokens, ← h.cragShadow]
    exact cragSnapshot_shows _ _
  · rw [← h.reflectionTokens, ← h.reflection]
    exact selfReflectionSnapshot_shows _ _
  · rw [← h.reflectionShadowTokens, ← h.reflectionShadow]
    exact selfReflectionSnapshot_shows _ _
  · rw [← h.hydeBypass, ← h.hydeBypass]
    rfl
  · rw [← h.cragBypass, ← h.cragBypass]
    rfl
  · rw [← h.reflectionBypass, ← h.reflectionBypass]
    rfl
  · exact semanticCacheStats_eq h.hits h.misses

end Panels

end RagMetrics

end EnterpriseRag
