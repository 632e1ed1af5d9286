import Mathlib.Algebra.Order.Field.Rat
import Mathlib.Data.Finset.Range
import EnterpriseRag.Rag.CorrectiveRetriever

/-!
# The retrieval grader

`StructuredLLMRetrievalGrader.grade` : the LLM's payload, once it has a grade for each of the
chunks it was shown, is turned into a decision by two thresholds. A payload that does not
parse is asked for once more.
-/

namespace EnterpriseRag

/-- `^[a-z0-9_]{1,40}$`. -/
def isReasonCode (code : String) : Bool :=
  1 ≤ code.length && code.length ≤ 40 &&
    code.toList.all fun c => ('a' ≤ c && c ≤ 'z') || ('0' ≤ c && c ≤ '9') || c = '_'

/-- `_RetrievalGradePayload`, after its validation. -/
structure RetrievalGradePayload where
  coverage : ℚ
  chunks : List ChunkGrade
  coverageRange : 0 ≤ coverage ∧ coverage ≤ 1
  relevanceRange : ∀ item ∈ chunks, 0 ≤ item.relevance ∧ item.relevance ≤ 1
  reasonCode : ∀ item ∈ chunks, isReasonCode item.reasonCode = true
  uniqueIndices : (chunks.map (·.index)).Nodup

/-- `_PARSE_RETRY_ATTEMPTS`. -/
def parseRetryAttempts : ℕ := 2

/-- An error of parsing : `ValidationError` is a `ValueError`. -/
def Raised.isParseError (e : Raised) : Bool :=
  e = .exception "ValueError" || e = .exception "ValidationError"

/-- `StructuredLLMRetrievalGrader` : its LLM is asked a question about chunks, once for each
attempt. -/
structure StructuredLLMRetrievalGrader where
  correct : ℚ
  ambiguous : ℚ
  maxChunks : ℕ
  thresholds : 0 ≤ ambiguous ∧ ambiguous < correct ∧ correct ≤ 1
  generateStructured : String → List RetrievedChunk → ℕ → Except Raised (RetrievalGradePayload × ℤ)

namespace StructuredLLMRetrievalGrader

variable (grader : StructuredLLMRetrievalGrader)

/-- The chunk counts as support. -/
def supports (item : ChunkGrade) : Bool :=
  item.supportsQuestion && grader.ambiguous ≤ item.relevance

def decision (value : RetrievalGradePayload) : CRAGDecision :=
  let supportive := value.chunks.any grader.supports
  if grader.correct ≤ value.coverage ∧ supportive then .correct
  else if value.coverage < grader.ambiguous ∧ ¬supportive then .incorrect
  else .ambiguous

/-- An attempt, with exactly one grade for each of the chunks that were shown. -/
def attempt (question : String) (selected : List RetrievedChunk) (n : ℕ) :
    Except Raised (RetrievalGradePayload × ℤ) := do
  let (value, tokens) ← grader.generateStructured question selected n
  if (value.chunks.map (·.index)).toFinset = Finset.range selected.length then
    return (value, tokens)
  else .error (.exception "ValueError")

/-- The attempts from the `n`th on, of which `left` are left. -/
def attempts (question : String) (selected : List RetrievedChunk) :
    ℕ → ℕ → Except Raised RetrievalGrade
  | 0, _ => .error (.exception "GraderParseError")
  | left + 1, n =>
    match grader.attempt question selected n with
    | .ok (value, tokens) => .ok ⟨grader.decision value, value.coverage, value.chunks, tokens⟩
    | .error e => if e.isParseError then attempts question selected left (n + 1) else .error e

def grade (question : String) (chunks : List RetrievedChunk) : Except Raised RetrievalGrade :=
  let selected := chunks.take grader.maxChunks
  if selected = [] then .ok { decision := .incorrect, coverage := 0, chunks := [] }
  else grader.attempts question selected parseRetryAttempts 1

variable {grader} {question : String} {chunks : List RetrievedChunk} {grade : RetrievalGrade}

/-- A grade is made of a payload with one grade for each chunk that was shown. -/
theorem exists_of_attempts {selected : List RetrievedChunk} : ∀ {left n : ℕ},
    grader.attempts question selected left n = .ok grade →
      ∃ value : RetrievalGradePayload, grade.decision = grader.decision value ∧
        grade.chunks = value.chunks ∧
        (value.chunks.map (·.index)).toFinset = Finset.range selected.length
  | 0, _, h => nomatch h
  | left + 1, n, h => by
    rw [attempts] at h
    cases hattempt : grader.attempt question selected n with
    | ok reply =>
      obtain ⟨value, tokens⟩ := reply
      rw [hattempt] at h
      obtain rfl := Except.ok.inj h
      refine ⟨value, rfl, rfl, ?_⟩
      obtain ⟨⟨value', tokens'⟩, -, hchecked⟩ := bind_eq_ok.1 hattempt
      dsimp only at hchecked
      split at hchecked
      · rename_i hexact
        obtain rfl := congrArg Prod.fst (Except.ok.inj hchecked)
        exact hexact
      · exact nomatch hchecked
    | error e =>
      rw [hattempt] at h
      dsimp only at h
      split at h
      · exact exists_of_attempts h
      · exact nomatch h

/-- No chunk of an incorrect grade counts as support. -/
theorem not_supports_of_incorrect (h : grader.grade question chunks = .ok grade)
    (hincorrect : grade.decision = .incorrect) {item : ChunkGrade} (hitem : item ∈ grade.chunks) :
    grader.supports item = false := by
  rw [StructuredLLMRetrievalGrader.grade] at h
  split at h
  · obtain rfl := Except.ok.inj h
    exact nomatch hitem
  · obtain ⟨value, hdecision, hchunks, -⟩ := exists_of_attempts h
    rw [hincorrect, decision] at hdecision
    split at hdecision
    · exact nomatch hdecision
    split at hdecision
    · rename_i hnone
      rw [hchunks] at hitem
      rw [Bool.eq_false_iff]
      exact fun hsupports => hnone.2 (List.any_eq_true.2 ⟨item, hitem, hsupports⟩)
    · exact nomatch hdecision

end StructuredLLMRetrievalGrader

end EnterpriseRag
