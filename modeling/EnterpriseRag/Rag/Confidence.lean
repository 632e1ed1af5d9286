import EnterpriseRag.Library.JsonText
import EnterpriseRag.Rag.CachedGuardrails
import EnterpriseRag.Rag.EvidenceMonotone
import Mathlib.Algebra.Order.Field.Rat
import Mathlib.Data.List.Dedup
import Mathlib.Tactic.Linarith

/-!
# The confidence of an answer

`compute_confidence_breakdown` weighs five signals, each between zero and one. Since the weights
sum to one the total never needs to be cut (`breakdown_bounds`), and `reordered` says what it
does not depend on : the order a reranker puts the chunks in, and outside of dense retrieval the
scores of the chunks altogether. What a call returns has such a confidence, found in a cache or
composed (`served_confidence`). Numbers are rationals here.
-/

namespace EnterpriseRag

open Program Transition

structure ConfidenceBreakdown where
  evidenceCoverage : ℚ
  faithfulness : ℚ
  retrievalStrength : ℚ
  citationPrecision : ℚ
  answerability : ℚ
  total : ℚ
  deriving DecidableEq, Repr

namespace ConfidenceScorer

variable (lower : List Char → List Char)

/-- `_RELEVANCE_FLOOR`. -/
def relevanceFloor : ℚ :=
  1 / 2

/-- `_COVERAGE_SATURATION_COUNT`. -/
def coverageSaturationCount : ℕ :=
  3

/-- `_REFUSAL_PHRASES`. -/
def refusalPhrases : List String :=
  ["does not contain", "doesn't contain", "no relevant context", "not contain the answer",
    "don't know", "do not know", "cannot determine", "unable to determine", "no information",
    "not provided in the context"]

/-- `_REFUSAL_SHORT_ANSWER_WORD_LIMIT`. -/
def refusalShortAnswerWordLimit : ℕ :=
  25

/-- `max(0.0, min(1.0, x))`. -/
def clamp (x : ℚ) : ℚ :=
  max 0 (min 1 x)

/-- `_evidence_coverage`. -/
def evidenceCoverage (chunks : List RetrievedChunk) (retrievalMode : String) : ℚ :=
  let supporting :=
    if retrievalMode = "dense" then chunks.filter (relevanceFloor ≤ ·.score) else chunks
  if supporting = [] then 0
  else
    let countScore := min ((supporting.length : ℚ) / coverageSaturationCount) 1
    let diversityScore :=
      ((min (supporting.map (·.source)).dedup.length coverageSaturationCount : ℕ) : ℚ) /
        coverageSaturationCount
    (countScore + diversityScore) / 2

/-- `_retrieval_strength`. -/
def retrievalStrength (chunks : List RetrievedChunk) (retrievalMode : String) : ℚ :=
  match chunks with
  | [] => 0
  | first :: rest =>
    if retrievalMode ≠ "dense" then 1 / 2
    else
      let topScore := clamp first.score
      if rest = [] then topScore
      else
        let meanRest := (rest.map fun c => clamp c.score).sum / rest.length
        let margin := max 0 (topScore - meanRest)
        clamp (7 / 10 * topScore + 3 / 10 * margin)

local instance lawfulBEq_word : LawfulBEq (List Char) :=
  inferInstance

/-- `_faithfulness`. -/
def faithfulness (chunks : List RetrievedChunk) (answer : String) : ℚ :=
  let contextWords := ClaimChecker.contentWords lower
    (" ".intercalate (chunks.map (·.text))).toList
  let answerWords := ClaimChecker.contentWords lower answer.toList
  if contextWords = [] ∨ answerWords = [] then 0
  else answerWords.countP (· ∈ contextWords) / answerWords.length

/-- `_extract_cited_sources`. -/
def extractCitedSources (answer : String) : List String :=
  ((brackets answer).flatMap fun bracket =>
    (((bracket.splitOnP fun c => c = ',' || c = ';').map strip).filter (· ≠ [])).map
      String.ofList).dedup

/-- `_citation_precision`. -/
def citationPrecision (chunks : List RetrievedChunk) (answer : String) : ℚ :=
  let availableSources := chunks.map (·.source)
  if availableSources = [] then 1
  else
    let cited := extractCitedSources answer
    if cited = [] then 1 / 2
    else cited.countP (· ∈ availableSources) / cited.length

/-- `_answerability`. -/
def answerability (chunks : List RetrievedChunk) (answer : String) : ℚ :=
  if chunks = [] then 0
  else
    let answerWords := ClaimChecker.contentWords lower answer.toList
    if answerWords = [] then 0
    else if !refusalPhrases.any fun phrase => phrase.toList <:+: lower answer.toList then 1
    else if answerWords.length ≤ refusalShortAnswerWordLimit then 3 / 10
    else 7 / 10

/-- The weighted sum of the components. -/
def weigh (coverage faithfulness strength precision answerability : ℚ) : ℚ :=
  30 / 100 * coverage + 25 / 100 * faithfulness + 20 / 100 * strength + 15 / 100 * precision +
    10 / 100 * answerability

/-- `compute_confidence_breakdown`. -/
def computeConfidenceBreakdown (chunks : List RetrievedChunk) (answer retrievalMode : String)
    (retrievalOrderedChunks : List RetrievedChunk) : ConfidenceBreakdown :=
  let coverage := evidenceCoverage chunks retrievalMode
  let faithful := faithfulness lower chunks answer
  let strength := retrievalStrength
    (if retrievalOrderedChunks ≠ [] then retrievalOrderedChunks else chunks) retrievalMode
  let precision := citationPrecision chunks answer
  let answerable := answerability lower chunks answer
  ⟨coverage, faithful, strength, precision, answerable,
    clamp (weigh coverage faithful strength precision answerable)⟩

/-- `compute_confidence`. -/
def computeConfidence (chunks : List RetrievedChunk) (answer retrievalMode : String)
    (retrievalOrderedChunks : List RetrievedChunk) : ℚ :=
  (computeConfidenceBreakdown lower chunks answer retrievalMode retrievalOrderedChunks).total

/-! ## Between zero and one -/

/-- A component, or a total. -/
def IsScore (x : ℚ) : Prop :=
  0 ≤ x ∧ x ≤ 1

theorem isScore_clamp (x : ℚ) : IsScore (clamp x) :=
  ⟨le_max_left _ _, max_le zero_le_one (min_le_left _ _)⟩

theorem clamp_of_isScore {x : ℚ} (h : IsScore x) : clamp x = x := by
  rw [clamp, min_eq_right h.2, max_eq_right h.1]

theorem isScore_share {α : Type} (p : α → Bool) (l : List α) :
    IsScore ((l.countP p : ℚ) / l.length) := by
  refine ⟨div_nonneg (Nat.cast_nonneg _) (Nat.cast_nonneg _), ?_⟩
  exact div_le_one_of_le₀ (Nat.cast_le.2 List.countP_le_length) (Nat.cast_nonneg _)

theorem isScore_evidenceCoverage (chunks : List RetrievedChunk) (mode : String) :
    IsScore (evidenceCoverage chunks mode) := by
  unfold evidenceCoverage
  generalize (if mode = "dense" then chunks.filter (relevanceFloor ≤ ·.score) else chunks) =
    supporting
  simp only
  split
  · exact ⟨le_rfl, zero_le_one⟩
  · have hcount : IsScore (min ((supporting.length : ℚ) / coverageSaturationCount) 1) :=
      ⟨le_min (div_nonneg (Nat.cast_nonneg _) (Nat.cast_nonneg _)) zero_le_one, min_le_right _ _⟩
    have hdiversity : IsScore (((min (supporting.map (·.source)).dedup.length
        coverageSaturationCount : ℕ) : ℚ) / coverageSaturationCount) :=
      ⟨div_nonneg (Nat.cast_nonneg _) (Nat.cast_nonneg _),
        div_le_one_of_le₀ (Nat.cast_le.2 (min_le_right _ _)) (Nat.cast_nonneg _)⟩
    obtain ⟨h₁, h₂⟩ := hcount
    obtain ⟨h₃, h₄⟩ := hdiversity
    constructor <;> linarith

theorem isScore_retrievalStrength (chunks : List RetrievedChunk) (mode : String) :
    IsScore (retrievalStrength chunks mode) := by
  unfold retrievalStrength
  split
  · exact ⟨le_rfl, zero_le_one⟩
  · split
    · constructor <;> norm_num
    · simp only
      split
      · exact isScore_clamp _
      · exact isScore_clamp _

theorem isScore_faithfulness (chunks : List RetrievedChunk) (answer : String) :
    IsScore (faithfulness lower chunks answer) := by
  unfold faithfulness
  simp only
  split
  · exact ⟨le_rfl, zero_le_one⟩
  · exact isScore_share _ _

theorem isScore_citationPrecision (chunks : List RetrievedChunk) (answer : String) :
    IsScore (citationPrecision chunks answer) := by
  unfold citationPrecision
  simp only
  split
  · exact ⟨zero_le_one, le_rfl⟩
  · split
    · constructor <;> norm_num
    · exact isScore_share _ _

theorem isScore_answerability (chunks : List RetrievedChunk) (answer : String) :
    IsScore (answerability lower chunks answer) := by
  unfold answerability
  simp only
  split
  · exact ⟨le_rfl, zero_le_one⟩
  · split
    · exact ⟨le_rfl, zero_le_one⟩
    · split
      · exact ⟨zero_le_one, le_rfl⟩
      · split <;> constructor <;> norm_num

theorem isScore_weigh {c f s p a : ℚ} (hc : IsScore c) (hf : IsScore f) (hs : IsScore s)
    (hp : IsScore p) (ha : IsScore a) : IsScore (weigh c f s p a) := by
  obtain ⟨hc₀, hc₁⟩ := hc
  obtain ⟨hf₀, hf₁⟩ := hf
  obtain ⟨hs₀, hs₁⟩ := hs
  obtain ⟨hp₀, hp₁⟩ := hp
  obtain ⟨ha₀, ha₁⟩ := ha
  unfold weigh
  constructor <;> linarith

/-- What a breakdown of confidence is within. -/
structure Bounded (chunks : List RetrievedChunk) (answer mode : String) (b : ConfidenceBreakdown) :
    Prop where
  coverage : IsScore b.evidenceCoverage
  faithfulness : IsScore b.faithfulness
  strength : IsScore b.retrievalStrength
  precision : IsScore b.citationPrecision
  answerability : IsScore b.answerability
  total : IsScore b.total
  /-- The total is never cut. -/
  uncut : b.total = weigh b.evidenceCoverage b.faithfulness b.retrievalStrength
    b.citationPrecision b.answerability
  certain : b.total = 1 ↔ b.evidenceCoverage = 1 ∧ b.faithfulness = 1 ∧ b.retrievalStrength = 1 ∧
    b.citationPrecision = 1 ∧ b.answerability = 1
  uncalibrated : mode ≠ "dense" → b.total ≤ 9 / 10
  uncited : chunks ≠ [] → extractCitedSources answer = [] → b.total ≤ 925 / 1000

theorem retrievalStrength_le_of_ne_dense {chunks : List RetrievedChunk} {mode : String}
    (h : mode ≠ "dense") : retrievalStrength chunks mode ≤ 1 / 2 := by
  unfold retrievalStrength
  split
  · norm_num
  · rw [if_pos h]

theorem breakdown_bounds (chunks : List RetrievedChunk) (answer mode : String)
    (ordered : List RetrievedChunk) :
    Bounded chunks answer mode (computeConfidenceBreakdown lower chunks answer mode ordered) := by
  generalize hb : computeConfidenceBreakdown lower chunks answer mode ordered = b
  have hc : IsScore b.evidenceCoverage := hb ▸ isScore_evidenceCoverage chunks mode
  have hf : IsScore b.faithfulness := hb ▸ isScore_faithfulness lower chunks answer
  have hs : IsScore b.retrievalStrength := hb ▸ isScore_retrievalStrength _ mode
  have hp : IsScore b.citationPrecision := hb ▸ isScore_citationPrecision chunks answer
  have ha : IsScore b.answerability := hb ▸ isScore_answerability lower chunks answer
  have hw := isScore_weigh hc hf hs hp ha
  have huncut : b.total = weigh b.evidenceCoverage b.faithfulness b.retrievalStrength
      b.citationPrecision b.answerability := by
    have hclamp : b.total = clamp (weigh b.evidenceCoverage b.faithfulness b.retrievalStrength
        b.citationPrecision b.answerability) := by rw [← hb, computeConfidenceBreakdown]
    rw [hclamp, clamp_of_isScore hw]
  have htotal : b.total = 30 / 100 * b.evidenceCoverage + 25 / 100 * b.faithfulness +
      20 / 100 * b.retrievalStrength + 15 / 100 * b.citationPrecision +
      10 / 100 * b.answerability := huncut
  refine ⟨hc, hf, hs, hp, ha, huncut ▸ hw, huncut, ?_, fun hmode => ?_, fun hne huncited => ?_⟩
  · -- every weight is positive, so no component may fall short
    obtain ⟨-, hc₁⟩ := hc
    obtain ⟨-, hf₁⟩ := hf
    obtain ⟨-, hs₁⟩ := hs
    obtain ⟨-, hp₁⟩ := hp
    obtain ⟨-, ha₁⟩ := ha
    constructor
    · intro h
      refine ⟨?_, ?_, ?_, ?_, ?_⟩ <;> linarith
    · rintro ⟨h₁, h₂, h₃, h₄, h₅⟩
      rw [htotal, h₁, h₂, h₃, h₄, h₅]
      norm_num
  · have hstrength : b.retrievalStrength ≤ 1 / 2 :=
      hb ▸ retrievalStrength_le_of_ne_dense hmode
    obtain ⟨-, hc₁⟩ := hc
    obtain ⟨-, hf₁⟩ := hf
    obtain ⟨-, hp₁⟩ := hp
    obtain ⟨-, ha₁⟩ := ha
    linarith
  · have hprecision : b.citationPrecision = 1 / 2 := by
      rw [← hb, computeConfidenceBreakdown]
      show citationPrecision chunks answer = 1 / 2
      rw [citationPrecision, if_neg (by simpa using hne), if_pos huncited]
    obtain ⟨-, hc₁⟩ := hc
    obtain ⟨-, hf₁⟩ := hf
    obtain ⟨-, hs₁⟩ := hs
    obtain ⟨-, ha₁⟩ := ha
    linarith

/-! ## What it does not depend on -/

section Reordered

variable {table : CaseTable} {chunks chunks' : List RetrievedChunk}

/-- The texts and the sources of the chunks, in whatever order and with whatever scores. -/
def SameTexts (chunks chunks' : List RetrievedChunk) : Prop :=
  (chunks.map fun c => (c.text, c.source)).Perm (chunks'.map fun c => (c.text, c.source))

theorem SameTexts.texts (h : SameTexts chunks chunks') :
    (chunks.map (·.text)).Perm (chunks'.map (·.text)) := by
  simpa [List.map_map, Function.comp_def] using h.map Prod.fst

theorem SameTexts.sources (h : SameTexts chunks chunks') :
    (chunks.map (·.source)).Perm (chunks'.map (·.source)) := by
  simpa [List.map_map, Function.comp_def] using h.map Prod.snd

theorem SameTexts.eq_nil_iff (h : SameTexts chunks chunks') : chunks = [] ↔ chunks' = [] := by
  have hlength := h.length_eq
  rw [List.length_map, List.length_map] at hlength
  rw [← List.length_eq_zero_iff, ← List.length_eq_zero_iff, hlength]

theorem SameTexts.faithfulness (h : SameTexts chunks chunks') (answer : String) :
    faithfulness table.lower chunks answer = faithfulness table.lower chunks' answer := by
  have hmem : ∀ word, word ∈ ClaimChecker.contentWords table.lower
      (" ".intercalate (chunks.map (·.text))).toList ↔
      word ∈ ClaimChecker.contentWords table.lower
        (" ".intercalate (chunks'.map (·.text))).toList := fun word => by
    rw [ClaimChecker.mem_contentWords_join, ClaimChecker.mem_contentWords_join]
    simp only [h.texts.mem_iff]
  unfold ConfidenceScorer.faithfulness
  generalize ClaimChecker.contentWords table.lower
    (" ".intercalate (chunks.map (·.text))).toList = words at hmem ⊢
  generalize ClaimChecker.contentWords table.lower
    (" ".intercalate (chunks'.map (·.text))).toList = words' at hmem ⊢
  have hnil : words = [] ↔ words' = [] := by
    rw [List.eq_nil_iff_forall_not_mem, List.eq_nil_iff_forall_not_mem]
    simp only [hmem]
  simp only [hnil, hmem]

theorem SameTexts.citationPrecision (h : SameTexts chunks chunks') (answer : String) :
    citationPrecision chunks answer = citationPrecision chunks' answer := by
  unfold ConfidenceScorer.citationPrecision
  simp only [List.map_eq_nil_iff, h.eq_nil_iff, h.sources.mem_iff]

theorem SameTexts.answerability (h : SameTexts chunks chunks') (answer : String) :
    answerability table.lower chunks answer = answerability table.lower chunks' answer := by
  unfold ConfidenceScorer.answerability
  simp only [h.eq_nil_iff]

/-- Coverage counts chunks and their sources. -/
theorem evidenceCoverage_congr {mode : String}
    (h : SameTexts (if mode = "dense" then chunks.filter (relevanceFloor ≤ ·.score) else chunks)
      (if mode = "dense" then chunks'.filter (relevanceFloor ≤ ·.score) else chunks')) :
    evidenceCoverage chunks mode = evidenceCoverage chunks' mode := by
  unfold evidenceCoverage
  generalize (if mode = "dense" then chunks.filter (relevanceFloor ≤ ·.score) else chunks) =
    supporting at h ⊢
  generalize (if mode = "dense" then chunks'.filter (relevanceFloor ≤ ·.score) else chunks') =
    supporting' at h ⊢
  have hlength : supporting.length = supporting'.length := by
    simpa using h.length_eq
  simp only [h.eq_nil_iff, hlength, h.sources.dedup.length_eq]

theorem retrievalStrength_congr {mode : String} (hmode : mode ≠ "dense")
    (h : chunks = [] ↔ chunks' = []) :
    retrievalStrength chunks mode = retrievalStrength chunks' mode := by
  cases chunks with
  | nil => rw [h.1 rfl]
  | cons first rest =>
    cases chunks' with
    | nil => cases h.2 rfl
    | cons first' rest' => rw [retrievalStrength, retrievalStrength, if_pos hmode, if_pos hmode]

/-- The order of the chunks does not matter where retrieval's own order is given. Outside of
dense retrieval neither does any score. -/
theorem reordered (table : CaseTable) (answer mode : String)
    {chunks chunks' ordered ordered' : List RetrievedChunk} :
    (chunks.Perm chunks' → ordered ≠ [] →
        computeConfidenceBreakdown table.lower chunks answer mode ordered =
          computeConfidenceBreakdown table.lower chunks' answer mode ordered) ∧
      (mode ≠ "dense" → SameTexts chunks chunks' → (ordered = [] ↔ ordered' = []) →
        computeConfidenceBreakdown table.lower chunks answer mode ordered =
          computeConfidenceBreakdown table.lower chunks' answer mode ordered') := by
  have hbreakdown : ∀ {ordered ordered'}, SameTexts chunks chunks' →
      evidenceCoverage chunks mode = evidenceCoverage chunks' mode →
      retrievalStrength (if ordered ≠ [] then ordered else chunks) mode =
        retrievalStrength (if ordered' ≠ [] then ordered' else chunks') mode →
      computeConfidenceBreakdown table.lower chunks answer mode ordered =
        computeConfidenceBreakdown table.lower chunks' answer mode ordered' := by
    intro ordered ordered' h hcoverage hstrength
    simp only [computeConfidenceBreakdown]
    rw [h.faithfulness, h.citationPrecision, h.answerability, hcoverage, hstrength]
  refine ⟨fun hperm hne => ?_, fun hmode h hordered => ?_⟩
  · refine hbreakdown (hperm.map _) (evidenceCoverage_congr ?_) ?_
    · split
      · exact (hperm.filter _).map _
      · exact hperm.map _
    · rw [if_pos hne, if_pos hne]
  · refine hbreakdown h (evidenceCoverage_congr ?_) (retrievalStrength_congr hmode ?_)
    · rw [if_neg hmode, if_neg hmode]
      exact h
    · by_cases hne : ordered = []
      · rw [if_neg (not_not.2 hne), if_neg (not_not.2 (hordered.1 hne))]
        exact h.eq_nil_iff
      · rw [if_pos hne, if_pos (fun h' => hne (hordered.2 h'))]
        exact hordered

/-- A dense retrieval, the reranker's order of it, and what a hybrid one scores it. -/
theorem reordered_two_chunks : ∃ first second : RetrievedChunk, first.score ≠ second.score ∧
    computeConfidenceBreakdown asciiTable.lower [first, second] "Fees are paid." "dense"
        [first, second] =
      computeConfidenceBreakdown asciiTable.lower [second, first] "Fees are paid." "dense"
        [first, second] ∧
    computeConfidenceBreakdown asciiTable.lower [first, second] "Fees are paid." "hybrid" [] =
      computeConfidenceBreakdown asciiTable.lower
        [{ second with score := 0 }, { first with score := 1 }] "Fees are paid." "hybrid" [] := by
  refine ⟨⟨"Fees are due.", "FEES.pdf", 9 / 10, none⟩, ⟨"They are paid.", "TERMS.pdf", 2 / 5, none⟩,
    by decide +kernel, ?_, ?_⟩
  · exact (@reordered asciiTable "Fees are paid." "dense" _ _ _ []).1 (.swap _ _ _) (by simp)
  · exact (reordered asciiTable "Fees are paid." "hybrid").2 (by decide) (.swap _ _ _) .rfl

end Reordered

end ConfidenceScorer

/-! ## What is served -/

namespace RAGService

variable (svc : RAGService)

/-- A response that was found in a cache, or composed from the stages of a request. -/
def Composed (response : RagChatResponse) : Prop :=
  response.cacheHit = true ∨ ∃ q stages, response = svc.respond q stages

theorem returns_answer (call : AnswerCall) : (svc.answer call).Returns svc.Composed := by
  refine Returns.bind (fun config _ => Returns.bind (fun q _ => Returns.bind (fun found _ => ?_)
    (returns_true _)) (returns_true _)) (returns_true _)
  obtain ⟨cached, original⟩ := found
  cases cached with
  | some response => exact returns_pure (Or.inl rfl)
  | none =>
    refine Returns.bind (fun gathered _ => ?_) (returns_true _)
    obtain ⟨gathered, original⟩ := gathered
    refine Returns.bind (fun stages _ => Returns.bind (fun _ _ => returns_pure ?_)
      (returns_true _)) (returns_true _)
    exact Or.inr ⟨q, stages, rfl⟩

end RAGService

namespace Serving

open ConfidenceScorer

variable {svc : RAGService} {s s' t : Serving} {lower : List Char → List Char}

/-- Every call in progress returns a response that was found or composed. -/
def Returning (svc : RAGService) (s : Serving) : Prop :=
  ∀ c x, s.calls c = some x → x.program.Returns svc.Composed

theorem returning_step {e : Event} (hs : s.Returning svc) (h : step svc s e = some s') :
    s'.Returning svc := by
  intro c' x' hx'
  rcases step_cases h with ⟨c, args, -, -, rfl⟩ |
    ⟨c, reply, landed, x, op, k, -, hx, hprogram, rfl⟩ | ⟨-, hcalls, -⟩
  · rcases mem_update hx' with ⟨-, rfl⟩ | hx'
    · exact svc.returns_answer args
    · exact hs c' x' hx'
  · rcases mem_update hx' with ⟨-, rfl⟩ | hx'
    · have hreturns := hs c x hx
      rw [hprogram] at hreturns
      exact hreturns _
    · exact hs c' x' hx'
  · exact hs c' x' (hcalls ▸ hx')

theorem isScore_respond (hconfidence : svc.confidence = computeConfidence lower) (q : RagRequest)
    (stages : RAGService.Stages) : IsScore (svc.respond q stages).confidence := by
  show IsScore (svc.confidence _ _ _ _)
  rw [hconfidence]
  exact (breakdown_bounds lower _ _ _ _).total

/-- Whatever a call returns, and wherever it was found, its confidence is a score. -/
theorem served_confidence (hconfidence : svc.confidence = computeConfidence lower)
    (hjson : ∀ response cached, svc.modelValidateJson (svc.modelDumpJson response) = .ok cached →
      cached.confidence = response.confidence)
    {es : List Event} (hrun : exec (step svc) init es = some t) {c : ℕ} {x : RagCall}
    {response : RagChatResponse} (hx : t.calls c = some x)
    (hreturned : x.program = .pure response) : IsScore response.confidence := by
  have hreturning : t.Returning svc :=
    invariant (fun _ _ _ hs hstep => returning_step hs hstep) (fun _ _ h => (by cases h)) hrun
  have hcomposed := hreturning c x hx
  rw [hreturned] at hcomposed
  rcases hcomposed with hhit | ⟨q, stages, rfl⟩
  · obtain ⟨-, e, w, q', stages, cached, -, -, -, -, hcached, rfl⟩ :=
      (sound_run hrun).exists_writer hx hreturned hhit
    have hsame := hjson _ _ hcached
    show IsScore cached.confidence
    rw [hsame]
    exact isScore_respond hconfidence q' stages
  · exact isScore_respond hconfidence q stages

end Serving

/-! ## Two calls at a desk that scores -/

/-- A confidence as a cached response tells it. -/
def confidenceJson (confidence : ℚ) : JsonText.Value :=
  .arr [.int confidence.num, .int confidence.den]

theorem confidenceJson_inj {x y : ℚ} (h : JsonText.dump true (confidenceJson x) =
    JsonText.dump true (confidenceJson y)) : x = y := by
  have hvalue : confidenceJson x = confidenceJson y := JsonText.dump_inj rfl rfl h
  injection hvalue with hitems
  injection hitems with hnum hrest
  injection hrest with hden
  injection hnum with hnum
  injection hden with hden
  exact Rat.ext hnum (by omega)

/-- A day on which the answer says what the chunk says. -/
def scoredDay : RagOracle :=
  deskDay (deskConfigIn .monitor) [feesChunk] [] "The fee is two percent [BNK-POL-001_FEES.pdf]."

/-- The desk with `compute_confidence`. -/
def scoringDesk : RAGService :=
  { desk with confidence := ConfidenceScorer.computeConfidence asciiTable.lower }

/-- The response it composes of the day. -/
def scoredResponse : Except Raised RagChatResponse :=
  (run scoredDay [] (scoringDesk.answer feesCall)).1

/-- The desk with a cache that knows the response by its confidence. -/
def scoredDesk : RAGService :=
  { scoringDesk with
    modelDumpJson := fun response =>
      String.ofList (JsonText.dump true (confidenceJson response.confidence))
    modelValidateJson := fun raw => do
      let response ← scoredResponse
      if raw = String.ofList (JsonText.dump true (confidenceJson response.confidence)) then
        .ok response
      else .error (.exception "ValidationError") }

/-- Two calls of the same question, the second of which is served what the first composed. -/
def scoredCalls : List Serving.Event :=
  .start 0 feesCall :: List.replicate 6 (.perform 0 (scoredDay []) false) ++
    .start 1 feesCall :: List.replicate 2 (.perform 1 (scoredDay []) false)

/-- Whether the second call returned a cached response, and its confidence. -/
def scoredOutcome : Option (Bool × ℚ) :=
  ((exec (Serving.step scoredDesk) .init scoredCalls).bind (·.calls 1)).bind fun x =>
    match x.program with
    | .pure response => some (response.cacheHit, response.confidence)
    | _ => none

theorem validated_scored (response cached : RagChatResponse)
    (h : scoredDesk.modelValidateJson (scoredDesk.modelDumpJson response) = .ok cached) :
    cached.confidence = response.confidence := by
  obtain ⟨composed, -, h⟩ := bind_eq_ok.1 h
  split at h
  · rename_i htext
    obtain rfl := Except.ok.inj h
    exact (confidenceJson_inj (String.ofList_injective htext)).symm
  · cases h

/-- The cached answer of the second call has the confidence the first composed. -/
theorem served_confidence_scored : ∃ t x response,
    exec (Serving.step scoredDesk) .init scoredCalls = some t ∧ t.calls 1 = some x ∧
      x.program = .pure response ∧ response.cacheHit = true ∧ response.confidence = 577 / 900 ∧
      ConfidenceScorer.IsScore response.confidence := by
  have houtcome : scoredOutcome = some (true, 577 / 900) := by decide +kernel
  obtain ⟨x, hx, houtcome⟩ := Option.bind_eq_some_iff.1 houtcome
  obtain ⟨t, ht, hx⟩ := Option.bind_eq_some_iff.1 hx
  split at houtcome
  · rename_i response hprogram
    obtain ⟨hhit, hscore⟩ := Prod.mk.inj (Option.some.inj houtcome)
    exact ⟨t, x, response, ht, hx, hprogram, hhit, hscore,
      Serving.served_confidence rfl validated_scored ht hx hprogram⟩
  · cases houtcome

end EnterpriseRag
