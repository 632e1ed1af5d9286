import Mathlib.Data.Finset.Basic
import Mathlib.Data.List.Basic

/-!
# Comparing two eval reports

`invokeAll` sorts the cases of a run into rows, skips and errors, and `checkCaseParity` compares
two reports before their scores are compared. A case with an error counts as not attempted, and
where the reports attempted different cases the check passes. `parity_exact_iff` : it says
whether the same cases were scored exactly if the runs have errors at the same cases, or scored
the same cases anyway.
-/

namespace EnterpriseRag

namespace Eval

inductive Intent
  | rag
  | sql
  | hybrid
  | webFallback
  deriving DecidableEq, Repr

def Intent.value : Intent → String
  | .rag => "rag"
  | .sql => "sql"
  | .hybrid => "hybrid"
  | .webFallback => "web_fallback"

/-- `GoldenCase`, as far as a run reads it. -/
structure GoldenCase where
  id : String
  question : String
  intent : Intent
  demonstratesFeature : String
  goldenSources : List String
  goldenAnswerKeywords : List String
  forbiddenKeywords : List String := []
  deriving DecidableEq, Repr

/-- A retrieved passage. -/
structure RetrievedChunk where
  text : String
  source : String
  deriving DecidableEq, Repr

structure InvokeResponse where
  answer : String
  sources : List String := []
  deriving DecidableEq, Repr

/-- A `SkippedIntent`, or any other `Exception`. -/
inductive InvokeError
  | skippedIntent (reason : String)
  | exception (reason : String)
  deriving DecidableEq, Repr

/-- The system under test, with a profile. It need not answer the same way twice, so a call
takes a world `w : ω` that the run does not control. -/
structure Invoker (ω : Type*) where
  invoke : ω → String → Intent → Except InvokeError (InvokeResponse × List RetrievedChunk)

/-- `EvalRow`, before it is scored. -/
structure EvalRow where
  id : String
  demonstratesFeature : String
  intent : String
  question : String
  answer : String
  contexts : List String
  groundTruth : String
  actualSources : List String
  rankedSources : List String
  goldenSources : List String
  forbiddenKeywords : List String
  deriving DecidableEq, Repr

structure SkippedEntry where
  id : String
  reason : String
  deriving DecidableEq, Repr

/-- `EvalPayload`, as far as reports are compared. -/
structure EvalPayload where
  rows : List EvalRow := []
  skipped : List SkippedEntry := []
  errors : List SkippedEntry := []
  deriving DecidableEq, Repr

/-- `_build_row`. -/
def buildRow (case : GoldenCase) (response : InvokeResponse) (chunks : List RetrievedChunk) :
    EvalRow where
  id := case.id
  demonstratesFeature := case.demonstratesFeature
  intent := case.intent.value
  question := case.question
  answer := response.answer
  contexts := chunks.map (·.text)
  groundTruth := ", ".intercalate case.goldenAnswerKeywords
  actualSources := response.sources
  rankedSources := chunks.map (·.source)
  goldenSources := case.goldenSources
  forbiddenKeywords := case.forbiddenKeywords

variable {ω : Type*}

/-- The answer to a case, where its call is made in the world `ws case`. -/
def Invoker.answer (invoker : Invoker ω) (ws : GoldenCase → ω) (case : GoldenCase) :
    Except InvokeError (InvokeResponse × List RetrievedChunk) :=
  invoker.invoke (ws case) case.question case.intent

/-- `_invoke_all`, with the buckets so far. -/
def invokeAll (invoker : Invoker ω) (ws : GoldenCase → ω) :
    EvalPayload → List GoldenCase → EvalPayload
  | report, [] => report
  | report, case :: cases =>
    match invoker.answer ws case with
    | .error (.skippedIntent reason) =>
      invokeAll invoker ws { report with skipped := report.skipped ++ [⟨case.id, reason⟩] } cases
    | .error (.exception reason) =>
      invokeAll invoker ws { report with errors := report.errors ++ [⟨case.id, reason⟩] } cases
    | .ok (response, chunks) =>
      invokeAll invoker ws { report with rows := report.rows ++ [buildRow case response chunks] }
        cases

namespace EvalPayload

/-- The cases that were scored. -/
def rowIds (report : EvalPayload) : Finset String :=
  (report.rows.map (·.id)).toFinset

def skippedIds (report : EvalPayload) : Finset String :=
  (report.skipped.map (·.id)).toFinset

/-- The cases that were lost to an error. -/
def errorIds (report : EvalPayload) : Finset String :=
  (report.errors.map (·.id)).toFinset

/-- `_attempted_case_ids`. -/
def attemptedCaseIds (report : EvalPayload) : Finset String :=
  report.rowIds ∪ report.skippedIds

end EvalPayload

/-- `check_case_parity`. -/
def checkCaseParity (before after : EvalPayload) : Bool :=
  if before.attemptedCaseIds ≠ after.attemptedCaseIds then true
  else if before.rowIds ≠ after.rowIds then false
  else true

/-! ## What a run reports -/

section Run

variable (invoker : Invoker ω) (ws : GoldenCase → ω)

/-- A case is scored if the system answered. -/
def Scored (case : GoldenCase) : Prop :=
  ∃ answered, invoker.answer ws case = .ok answered

def Skipped (case : GoldenCase) : Prop :=
  ∃ reason, invoker.answer ws case = .error (.skippedIntent reason)

def Errored (case : GoldenCase) : Prop :=
  ∃ reason, invoker.answer ws case = .error (.exception reason)

/-- The row of a case that is scored. -/
def rowOf (case : GoldenCase) : Option EvalRow :=
  match invoker.answer ws case with
  | .ok (response, chunks) => some (buildRow case response chunks)
  | .error _ => none

def skipOf (case : GoldenCase) : Option SkippedEntry :=
  match invoker.answer ws case with
  | .error (.skippedIntent reason) => some ⟨case.id, reason⟩
  | _ => none

def errorOf (case : GoldenCase) : Option SkippedEntry :=
  match invoker.answer ws case with
  | .error (.exception reason) => some ⟨case.id, reason⟩
  | _ => none

variable {invoker ws}

/-- Every case ends up in one of the three buckets. -/
theorem invokeAll_eq : ∀ {report : EvalPayload} {cases : List GoldenCase},
    invokeAll invoker ws report cases =
      { rows := report.rows ++ cases.filterMap (rowOf invoker ws)
        skipped := report.skipped ++ cases.filterMap (skipOf invoker ws)
        errors := report.errors ++ cases.filterMap (errorOf invoker ws) }
  | report, [] => by simp [invokeAll]
  | report, case :: cases => by
    rw [invokeAll]
    split
    all_goals
      rename_i hanswer
      rw [invokeAll_eq]
      simp [rowOf, skipOf, errorOf, hanswer]

theorem exists_rowOf {case : GoldenCase} {id : String} :
    (∃ row, rowOf invoker ws case = some row ∧ row.id = id) ↔
      case.id = id ∧ Scored invoker ws case := by
  rw [rowOf, Scored]
  cases invoker.answer ws case with
  | ok answered => simp [buildRow]
  | error e => simp

theorem exists_skipOf {case : GoldenCase} {id : String} :
    (∃ entry, skipOf invoker ws case = some entry ∧ entry.id = id) ↔
      case.id = id ∧ Skipped invoker ws case := by
  rw [skipOf, Skipped]
  cases invoker.answer ws case with
  | ok answered => simp
  | error e => cases e <;> simp

theorem exists_errorOf {case : GoldenCase} {id : String} :
    (∃ entry, errorOf invoker ws case = some entry ∧ entry.id = id) ↔
      case.id = id ∧ Errored invoker ws case := by
  rw [errorOf, Errored]
  cases invoker.answer ws case with
  | ok answered => simp
  | error e => cases e <;> simp

variable {cases : List GoldenCase} {id : String}

theorem mem_rowIds_invokeAll : id ∈ (invokeAll invoker ws {} cases).rowIds ↔
    ∃ case ∈ cases, case.id = id ∧ Scored invoker ws case := by
  rw [invokeAll_eq]
  simp only [EvalPayload.rowIds, List.nil_append, List.mem_toFinset, List.mem_map,
    List.mem_filterMap, ← exists_rowOf]
  tauto

theorem mem_skippedIds_invokeAll : id ∈ (invokeAll invoker ws {} cases).skippedIds ↔
    ∃ case ∈ cases, case.id = id ∧ Skipped invoker ws case := by
  rw [invokeAll_eq]
  simp only [EvalPayload.skippedIds, List.nil_append, List.mem_toFinset, List.mem_map,
    List.mem_filterMap, ← exists_skipOf]
  tauto

theorem mem_errorIds_invokeAll : id ∈ (invokeAll invoker ws {} cases).errorIds ↔
    ∃ case ∈ cases, case.id = id ∧ Errored invoker ws case := by
  rw [invokeAll_eq]
  simp only [EvalPayload.errorIds, List.nil_append, List.mem_toFinset, List.mem_map,
    List.mem_filterMap, ← exists_errorOf]
  tauto

theorem not_errored_iff {case : GoldenCase} :
    ¬Errored invoker ws case ↔ Scored invoker ws case ∨ Skipped invoker ws case := by
  rw [Errored, Scored, Skipped]
  cases invoker.answer ws case with
  | ok answered => simp
  | error e => cases e <;> simp

/-- A case was attempted if it was not lost to an error. -/
theorem mem_attemptedCaseIds_invokeAll : id ∈ (invokeAll invoker ws {} cases).attemptedCaseIds ↔
    ∃ case ∈ cases, case.id = id ∧ ¬Errored invoker ws case := by
  rw [EvalPayload.attemptedCaseIds, Finset.mem_union, mem_rowIds_invokeAll,
    mem_skippedIds_invokeAll]
  simp only [not_errored_iff, ← exists_or, ← and_or_left]

end Run

/-! ## When the check is exact -/

/-- The check says whether the same cases were scored, and fails where one report has a row and
the other an error. -/
structure ParityExact (before after : EvalPayload) : Prop where
  same : checkCaseParity before after = true ↔ before.rowIds = after.rowIds
  lost : ∀ id, id ∈ before.rowIds ∧ id ∈ after.errorIds ∨ id ∈ before.errorIds ∧ id ∈ after.rowIds →
    checkCaseParity before after = false

theorem checkCaseParity_eq_true_iff {before after : EvalPayload} :
    checkCaseParity before after = true ↔
      before.attemptedCaseIds ≠ after.attemptedCaseIds ∨ before.rowIds = after.rowIds := by
  rw [checkCaseParity]
  split_ifs with hattempted hrows
  · simp [hattempted]
  · simp [not_not.1 hattempted, hrows]
  · simp [not_not.1 hrows]

section Exact

variable {cases : List GoldenCase} {invoker invoker' : Invoker ω} {ws ws' : GoldenCase → ω}

/-- Ids tell cases apart. -/
theorem exists_id_iff (hids : (cases.map (·.id)).Nodup) {P : GoldenCase → Prop}
    {case : GoldenCase} (hcase : case ∈ cases) :
    (∃ c ∈ cases, c.id = case.id ∧ P c) ↔ P case := by
  constructor
  · rintro ⟨c, hc, hid, hP⟩
    exact List.inj_on_of_nodup_map hids hc hcase hid ▸ hP
  · exact fun hP => ⟨case, hcase, rfl, hP⟩

/-- Two sets of ids are the same if they are those of the same cases. -/
theorem eq_iff_of_mem (hids : (cases.map (·.id)).Nodup) {P Q : GoldenCase → Prop}
    {before after : Finset String}
    (hbefore : ∀ id, id ∈ before ↔ ∃ case ∈ cases, case.id = id ∧ P case)
    (hafter : ∀ id, id ∈ after ↔ ∃ case ∈ cases, case.id = id ∧ Q case) :
    before = after ↔ ∀ case ∈ cases, (P case ↔ Q case) := by
  constructor
  · rintro rfl case hcase
    rw [← exists_id_iff (P := P) hids hcase, ← hbefore, hafter, exists_id_iff hids hcase]
  · intro h
    ext id
    rw [hbefore, hafter]
    exact exists_congr fun case => and_congr_right fun hcase => and_congr_right fun _ =>
      h case hcase

/-- A case that is scored has no error. -/
theorem not_errored_of_scored {case : GoldenCase} (h : Scored invoker ws case) :
    ¬Errored invoker ws case :=
  not_errored_iff.2 (Or.inl h)

/-- For two runs over the same cases the check is exact if and only if the runs have errors at
the same cases, or scored the same cases. -/
theorem parity_exact_iff (hids : (cases.map (·.id)).Nodup) :
    ParityExact (invokeAll invoker ws {} cases) (invokeAll invoker' ws' {} cases) ↔
      (∀ case ∈ cases, (Errored invoker ws case ↔ Errored invoker' ws' case)) ∨
      ∀ case ∈ cases, (Scored invoker ws case ↔ Scored invoker' ws' case) := by
  have hrows := @eq_iff_of_mem cases hids _ _ _ _
    (fun id => @mem_rowIds_invokeAll _ invoker ws cases id)
    (fun id => @mem_rowIds_invokeAll _ invoker' ws' cases id)
  have hattempted := @eq_iff_of_mem cases hids _ _ _ _
    (fun id => @mem_attemptedCaseIds_invokeAll _ invoker ws cases id)
    (fun id => @mem_attemptedCaseIds_invokeAll _ invoker' ws' cases id)
  simp only [not_iff_not] at hattempted
  rw [← hrows, ← hattempted]
  constructor
  · intro h
    by_contra hneither
    obtain ⟨hdiffer, hscored⟩ := not_or.1 hneither
    exact hscored (h.same.1 (checkCaseParity_eq_true_iff.2 (Or.inl hdiffer)))
  · intro h
    have hsame : checkCaseParity (invokeAll invoker ws {} cases)
        (invokeAll invoker' ws' {} cases) = true ↔
          (invokeAll invoker ws {} cases).rowIds = (invokeAll invoker' ws' {} cases).rowIds := by
      rw [checkCaseParity_eq_true_iff]
      refine ⟨fun hcheck => ?_, Or.inr⟩
      rcases hcheck with hdiffer | hscored
      · exact h.resolve_left hdiffer
      · exact hscored
    refine ⟨hsame, fun id hlost => ?_⟩
    rw [← Bool.not_eq_true, hsame, hrows]
    intro hscored
    rcases hlost with ⟨hrow, herror⟩ | ⟨herror, hrow⟩
    · obtain ⟨case, hcase, rfl, hok⟩ := mem_rowIds_invokeAll.1 hrow
      have herrored := (exists_id_iff hids hcase).1 (mem_errorIds_invokeAll.1 herror)
      exact not_errored_of_scored ((hscored case hcase).1 hok) herrored
    · obtain ⟨case, hcase, rfl, hok⟩ := mem_rowIds_invokeAll.1 hrow
      have herrored := (exists_id_iff hids hcase).1 (mem_errorIds_invokeAll.1 herror)
      exact not_errored_of_scored ((hscored case hcase).2 hok) herrored

end Exact

/-! ## A case that is lost -/

/-- It answers, or the pipeline fails. -/
def upOrDown : Invoker Bool where
  invoke up _ _ := if up then .ok (⟨"Ten dollars.", []⟩, []) else .error (.exception "timeout")

def feeCase : GoldenCase where
  id := "q-001"
  question := "What is the wire fee?"
  intent := .rag
  demonstratesFeature := "baseline"
  goldenSources := ["FEES.pdf"]
  goldenAnswerKeywords := ["ten"]

/-- The only case is scored before and lost to an error after, and the check passes. -/
theorem lost_case_passes :
    checkCaseParity (invokeAll upOrDown (fun _ => true) {} [feeCase])
      (invokeAll upOrDown (fun _ => false) {} [feeCase]) = true ∧
    ¬ParityExact (invokeAll upOrDown (fun _ => true) {} [feeCase])
      (invokeAll upOrDown (fun _ => false) {} [feeCase]) := by
  have hpasses : checkCaseParity (invokeAll upOrDown (fun _ => true) {} [feeCase])
    (invokeAll upOrDown (fun _ => false) {} [feeCase]) = true := by decide
  refine ⟨hpasses, fun h => ?_⟩
  exact absurd (h.same.1 hpasses) (by decide)

theorem parity_exact_iff_feeCase :
    ParityExact (invokeAll upOrDown (fun _ => true) {} [feeCase])
      (invokeAll upOrDown (fun _ => false) {} [feeCase]) ↔
    (∀ case ∈ [feeCase], (Errored upOrDown (fun _ => true) case ↔
      Errored upOrDown (fun _ => false) case)) ∨
    ∀ case ∈ [feeCase], (Scored upOrDown (fun _ => true) case ↔
      Scored upOrDown (fun _ => false) case) :=
  parity_exact_iff (List.nodup_singleton _)

end Eval

end EnterpriseRag
