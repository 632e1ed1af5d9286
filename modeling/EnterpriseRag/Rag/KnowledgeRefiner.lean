import Mathlib.Data.Finset.Card
import Mathlib.Data.List.Sort
import EnterpriseRag.Library.Regex
import EnterpriseRag.Rag.RetrievalGrader

/-!
# The knowledge refiner

`ExtractiveKnowledgeRefiner` shows the LLM the sentences of the chunks that a grade approves
and takes back indices : of a document, and of sentences in it. `extract` is what both
`refine_local` and `refine_web` make of the reply. It keeps the source of each item beside it,
so `Drawn` and `refineLocal_extractive` can say which chunk an item comes from.

Nothing keeps the LLM from naming a document twice. `one_per_chunk_iff` is the price : the
items count different chunks just when the selections that select something do.
-/

namespace EnterpriseRag

/-- `_Selection`, after its validation. -/
structure Selection where
  documentIndex : ℕ
  sentenceIndices : List ℤ
  uniqueSentences : sentenceIndices.Nodup

/-- `_RefinementPayload`. -/
structure RefinementPayload where
  selections : List Selection

/-- `_SENTENCE_BOUNDARY`. -/
def sentenceBoundary : Regex :=
  .seq (.assert fun before _ => before.any (· ∈ ['.', '!', '?']))
    (.seq (.many isSpace 1) (.assert fun _ rest => rest.head?.any fun c =>
      ('A' ≤ c && c ≤ 'Z') || ('0' ≤ c && c ≤ '9') || c = '('))

def splitSentences (text : String) : List String :=
  let normalized := normalizeSpace text
  if normalized = "" then []
  else ((sentenceBoundary.split normalized.toList).map strip).filterMap fun part =>
    if part = [] then none else some (String.ofList part)

theorem ne_empty_of_mem_splitSentences {text sentence : String}
    (h : sentence ∈ splitSentences text) : sentence ≠ "" := by
  rw [splitSentences] at h
  split at h
  · exact nomatch h
  · obtain ⟨part, -, hpart⟩ := List.mem_filterMap.1 h
    split at hpart
    · exact nomatch hpart
    · rename_i hne
      obtain rfl := Option.some.inj hpart
      intro hempty
      exact hne (by simpa using congrArg String.toList hempty)

/-! ## From indices to text -/

/-- The indices of sentences among those the LLM gave, in order. -/
def validIndices (sentences : List String) (indices : List ℤ) : List ℕ :=
  ((indices.filter fun i : ℤ => 0 ≤ i && i < sentences.length).map Int.toNat).insertionSort (· ≤ ·)

/-- `_materialize`. -/
def materialize (sentences : List String) (indices : List ℤ) : String :=
  " ".intercalate ((validIndices sentences indices).filterMap (sentences[·]?))

/-- What a selection selects, beside the source it comes from. -/
def pick {α β : Type*} (documents : α → List String) (build : α → String → β) (sources : List α)
    (selection : Selection) : Option (α × β) :=
  match sources[selection.documentIndex]? with
  | none => none
  | some source =>
    let text := materialize (documents source) selection.sentenceIndices
    if text = "" then none else some (source, build source text)

/-- What the reply selects. -/
def extract {α β : Type*} (documents : α → List String) (build : α → String → β)
    (sources : List α) (selections : List Selection) : List (α × β) :=
  selections.filterMap (pick documents build sources)

variable {sentences : List String} {indices : List ℤ}

theorem mem_validIndices {i : ℕ} :
    i ∈ validIndices sentences indices ↔ (i : ℤ) ∈ indices ∧ i < sentences.length := by
  rw [validIndices, List.mem_insertionSort, List.mem_map]
  constructor
  · rintro ⟨z, hz, rfl⟩
    rw [List.mem_filter, Bool.and_eq_true, decide_eq_true_eq, decide_eq_true_eq] at hz
    obtain ⟨hmem, hnonneg, hlt⟩ := hz
    rw [Int.toNat_of_nonneg hnonneg]
    exact ⟨hmem, by omega⟩
  · rintro ⟨hmem, hlt⟩
    refine ⟨i, List.mem_filter.2 ⟨hmem, ?_⟩, Int.toNat_natCast i⟩
    rw [Bool.and_eq_true, decide_eq_true_eq, decide_eq_true_eq]
    omega

/-- The indices are in the order of the document, each of them once. -/
theorem pairwise_validIndices (hunique : indices.Nodup) :
    (validIndices sentences indices).Pairwise (· < ·) := by
  have hsorted : (validIndices sentences indices).Pairwise (· ≤ ·) :=
    List.pairwise_insertionSort _ _
  have hnodup : (validIndices sentences indices).Nodup := by
    rw [validIndices, (List.perm_insertionSort _ _).nodup_iff, List.nodup_map_iff_inj_on
      (hunique.filter _)]
    intro x hx y hy hsame
    have hx := (List.mem_filter.1 hx).2
    have hy := (List.mem_filter.1 hy).2
    rw [Bool.and_eq_true, decide_eq_true_eq] at hx hy
    omega
  exact (hsorted.and hnodup).imp fun h => lt_of_le_of_ne h.1 h.2

theorem intercalate_eq_empty_iff {separator : String} {parts : List String}
    (hparts : ∀ part ∈ parts, part ≠ "") : separator.intercalate parts = "" ↔ parts = [] := by
  cases parts with
  | nil => simp
  | cons part rest =>
    have hpart := hparts part List.mem_cons_self
    cases rest with
    | nil => simp [hpart]
    | cons next rest => simp [String.intercalate_cons_cons, hpart]

/-- Nothing is selected just when no index is one of a sentence. -/
theorem materialize_ne_empty_iff (hsentences : ∀ sentence ∈ sentences, sentence ≠ "") :
    materialize sentences indices ≠ "" ↔ ∃ i : ℕ, (i : ℤ) ∈ indices ∧ i < sentences.length := by
  have hparts : ∀ part ∈ (validIndices sentences indices).filterMap (sentences[·]?),
      part ≠ "" := by
    intro part hpart
    obtain ⟨i, -, hi⟩ := List.mem_filterMap.1 hpart
    exact hsentences part (List.mem_of_getElem? hi)
  rw [materialize, Ne, intercalate_eq_empty_iff hparts]
  constructor
  · intro hne
    obtain ⟨part, hpart⟩ := List.exists_mem_of_ne_nil _ hne
    obtain ⟨i, hi, -⟩ := List.mem_filterMap.1 hpart
    exact ⟨i, mem_validIndices.1 hi⟩
  · rintro ⟨i, hi⟩
    exact List.ne_nil_of_mem (List.mem_filterMap.2 ⟨i, mem_validIndices.2 hi,
      List.getElem?_eq_getElem hi.2⟩)

section Extract

variable {α β : Type*} {documents : α → List String} {build : α → String → β} {sources : List α}
  {selection : Selection}

theorem pick_eq_some {source : α} {item : β} :
    pick documents build sources selection = some (source, item) ↔
      sources[selection.documentIndex]? = some source ∧
        materialize (documents source) selection.sentenceIndices ≠ "" ∧
        item = build source (materialize (documents source) selection.sentenceIndices) := by
  rw [pick]
  cases sources[selection.documentIndex]? with
  | none => simp
  | some found =>
    dsimp only
    split
    · rename_i hempty
      constructor
      · exact fun h => nomatch h
      · rintro ⟨hsource, hne, -⟩
        obtain rfl := Option.some.inj hsource
        exact absurd hempty hne
    · rename_i hne
      rw [Option.some.injEq, Option.some.injEq, Prod.mk.injEq]
      constructor
      · rintro ⟨rfl, rfl⟩
        exact ⟨rfl, hne, rfl⟩
      · rintro ⟨rfl, -, rfl⟩
        exact ⟨rfl, rfl⟩

end Extract

/-! ## The refiner -/

/-- `ExtractiveKnowledgeRefiner` : its LLM is asked a question about documents. -/
structure ExtractiveKnowledgeRefiner where
  minRelevance : ℚ
  maxDocuments : ℕ
  maxSentences : ℕ
  generateStructured : String → List (List String) → Except Raised (RefinementPayload × ℤ)

namespace ExtractiveKnowledgeRefiner

variable (refiner : ExtractiveKnowledgeRefiner)

/-- The sentences of a text that the LLM is shown. -/
def sentencesOf (text : String) : List String :=
  (splitSentences text).take refiner.maxSentences

/-- `_select`. -/
def select (question : String) (documents : List (List String)) :
    Except Raised (RefinementPayload × ℤ) :=
  if documents = [] then .ok (⟨[]⟩, 0) else refiner.generateStructured question documents

/-- The grade approves the chunk. -/
def approves (item : ChunkGrade) : Bool :=
  item.supportsQuestion && refiner.minRelevance ≤ item.relevance

/-- The approved chunks, with their grades. -/
def relevant (chunks : List RetrievedChunk) (grade : RetrievalGrade) :
    Except Raised (List (ChunkGrade × RetrievedChunk)) := do
  let approved ← (grade.chunks.filter refiner.approves).mapM fun item =>
    match chunks[item.index]? with
    | some chunk => .ok (item, chunk)
    | none => .error (.exception "IndexError")
  return approved.take refiner.maxDocuments

/-- The piece of evidence that a text of the chunk is. -/
def localItem (chunk : RetrievedChunk) (text : String) : EvidenceChunk where
  text
  source := chunk.source
  pageNumber := chunk.pageNumber
  retrievalScore := chunk.score
  origin := .policy

/-- The items of `refine_local`, each beside the chunk it is drawn from. -/
def drawLocal (relevant : List (ChunkGrade × RetrievedChunk)) (selections : List Selection) :
    List ((ChunkGrade × RetrievedChunk) × EvidenceChunk) :=
  extract (refiner.sentencesOf ·.2.text) (localItem ·.2) relevant selections

def refineLocal (question : String) (chunks : List RetrievedChunk) (grade : RetrievalGrade) :
    Except Raised (List EvidenceChunk × ℤ) := do
  let relevant ← refiner.relevant chunks grade
  let (payload, tokens) ← refiner.select question (relevant.map (refiner.sentencesOf ·.2.text))
  return ((refiner.drawLocal relevant payload.selections).map Prod.snd, tokens)

/-- The piece of evidence that a text of the page is. -/
def webItem (source : WebEvidence) (text : String) : EvidenceChunk where
  text
  source := source.title
  pageNumber := none
  retrievalScore := source.score
  origin := .regulatoryWeb
  canonicalUrl := some source.canonicalUrl
  retrievedAtIso := some source.retrievedAtIso

def refineWeb (question : String) (results : List WebEvidence) :
    Except Raised (List EvidenceChunk × ℤ) := do
  let selected := results.take refiner.maxDocuments
  let (payload, tokens) ← refiner.select question (selected.map (refiner.sentencesOf ·.text))
  return ((extract (refiner.sentencesOf ·.text) webItem selected payload.selections).map Prod.snd,
    tokens)

variable {refiner} {question : String} {chunks : List RetrievedChunk} {grade : RetrievalGrade}
  {relevant : List (ChunkGrade × RetrievedChunk)}

/-- The refiner asks about chunks that the grade approves, each under its own index. -/
theorem mem_relevant (h : refiner.relevant chunks grade = .ok relevant)
    {item : ChunkGrade} {chunk : RetrievedChunk} (hmem : (item, chunk) ∈ relevant) :
    item ∈ grade.chunks ∧ refiner.approves item = true ∧ chunks[item.index]? = some chunk := by
  obtain ⟨approved, happroved, h⟩ := bind_eq_ok.1 h
  obtain rfl := Except.ok.inj h
  obtain ⟨i, hi, hget⟩ := List.getElem_of_mem (List.mem_of_mem_take hmem)
  have hall := mapM_eq_ok.1 happroved
  have hlt : i < (grade.chunks.filter refiner.approves).length := hall.length_eq ▸ hi
  have hone := List.Forall₂.get hall hlt hi
  have hfrom := List.mem_filter.1 (List.getElem_mem hlt)
  simp only [List.get_eq_getElem] at hone
  generalize (grade.chunks.filter refiner.approves)[i] = graded at hone hfrom
  cases hchunk : chunks[graded.index]? with
  | none =>
    rw [hchunk] at hone
    exact nomatch hone
  | some found =>
    rw [hchunk] at hone
    have hpair := (Except.ok.inj hone).trans hget
    obtain ⟨rfl, rfl⟩ := Prod.mk.inj hpair
    exact ⟨hfrom.1, hfrom.2, hchunk⟩

/-- With valid indices the refiner gets as far as the LLM. -/
theorem exists_relevant (h : ∀ item ∈ grade.chunks, item.index < chunks.length) :
    ∃ relevant, refiner.relevant chunks grade = .ok relevant := by
  have hall : ∀ items : List ChunkGrade, (∀ item ∈ items, item.index < chunks.length) →
      ∃ approved, items.mapM (fun item => match chunks[item.index]? with
        | some chunk => Except.ok (item, chunk)
        | none => .error (Raised.exception "IndexError")) = .ok approved := by
    intro items
    induction items with
    | nil => exact fun _ => ⟨[], rfl⟩
    | cons item items ih =>
      intro hitems
      rw [List.forall_mem_cons] at hitems
      obtain ⟨approved, happroved⟩ := ih hitems.2
      rw [List.mapM_cons, List.getElem?_eq_getElem hitems.1, happroved]
      exact ⟨_, rfl⟩
  obtain ⟨approved, happroved⟩ := hall (grade.chunks.filter refiner.approves) fun item hitem =>
    h item (List.mem_of_mem_filter hitem)
  exact ⟨_, bind_eq_ok.2 ⟨approved, happroved, rfl⟩⟩

/-- The item is made of some of the first sentences of the chunk, in order and each of them
once, and has the chunk's source, page and score. -/
def Drawn (refiner : ExtractiveKnowledgeRefiner) (chunk : RetrievedChunk) (item : EvidenceChunk) :
    Prop :=
  ∃ positions : List ℕ, positions ≠ [] ∧ positions.Pairwise (· < ·) ∧
    (∀ i ∈ positions, i < (refiner.sentencesOf chunk.text).length) ∧
    item = localItem chunk
      (" ".intercalate (positions.filterMap ((refiner.sentencesOf chunk.text)[·]?)))

theorem drawn_of_mem_drawLocal {source : ChunkGrade × RetrievedChunk} {item : EvidenceChunk}
    {selections : List Selection} (h : (source, item) ∈ refiner.drawLocal relevant selections) :
    source ∈ relevant ∧ refiner.Drawn source.2 item := by
  obtain ⟨selection, -, hpick⟩ := List.mem_filterMap.1 h
  obtain ⟨hsource, hne, rfl⟩ := pick_eq_some.1 hpick
  refine ⟨List.mem_of_getElem? hsource, validIndices (refiner.sentencesOf source.2.text)
    selection.sentenceIndices, ?_, pairwise_validIndices selection.uniqueSentences,
    fun i hi => (mem_validIndices.1 hi).2, rfl⟩
  intro hnone
  rw [materialize, hnone] at hne
  exact hne rfl

/-- With valid indices the refiner does not raise after the LLM replied, and each item is drawn
from one chunk that the grade approves. -/
theorem refineLocal_extractive (hvalid : ∀ item ∈ grade.chunks, item.index < chunks.length)
    (hreply : ∀ documents, ∃ reply, refiner.generateStructured question documents = .ok reply) :
    ∃ evidence usage, refiner.refineLocal question chunks grade = .ok (evidence, usage) ∧
      ∀ item ∈ evidence, ∃ graded ∈ grade.chunks, ∃ chunk, chunks[graded.index]? = some chunk ∧
        graded.supportsQuestion = true ∧ refiner.minRelevance ≤ graded.relevance ∧
        refiner.Drawn chunk item := by
  obtain ⟨relevant, hrelevant⟩ : ∃ relevant, refiner.relevant chunks grade = .ok relevant :=
    exists_relevant hvalid
  obtain ⟨⟨payload', usage⟩, hselect⟩ : ∃ reply, refiner.select question
      (relevant.map (refiner.sentencesOf ·.2.text)) = .ok reply := by
    rw [select]
    split
    · exact ⟨_, rfl⟩
    · exact hreply _
  refine ⟨(refiner.drawLocal relevant payload'.selections).map Prod.snd, usage,
    bind_eq_ok.2 ⟨relevant, hrelevant, bind_eq_ok.2 ⟨_, hselect, rfl⟩⟩, fun item hitem => ?_⟩
  obtain ⟨⟨⟨graded, chunk⟩, _⟩, hmem, rfl⟩ := List.mem_map.1 hitem
  obtain ⟨hsource, hdrawn⟩ := drawn_of_mem_drawLocal hmem
  obtain ⟨hgraded, happroves, hchunk⟩ := mem_relevant hrelevant hsource
  rw [approves, Bool.and_eq_true, decide_eq_true_eq] at happroves
  exact ⟨graded, hgraded, chunk, hchunk, happroves.1, happroves.2, hdrawn⟩

/-! ## What the items count -/

/-- The items come from different chunks, so as many items as are asked for are evidence from
as many chunks that the grade approves. -/
def CountsChunks (refiner : ExtractiveKnowledgeRefiner) (chunks : List RetrievedChunk)
    (grade : RetrievalGrade) (drawn : List ((ChunkGrade × RetrievedChunk) × EvidenceChunk)) :
    Prop :=
  (drawn.map (·.1.1.index)).Nodup ∧ ∀ minEvidence ≤ (drawn.map Prod.snd).length,
    ∃ supporting : Finset ℕ, minEvidence ≤ supporting.card ∧ ∀ i ∈ supporting, i < chunks.length ∧
      ∃ graded ∈ grade.chunks, graded.index = i ∧ refiner.approves graded = true

/-- The selection selects a sentence of the chunk with that index. -/
def Selects (refiner : ExtractiveKnowledgeRefiner)
    (relevant : List (ChunkGrade × RetrievedChunk)) (selection : Selection) (index : ℕ) : Prop :=
  ∃ source, relevant[selection.documentIndex]? = some source ∧ source.1.index = index ∧
    ∃ i : ℕ, (i : ℤ) ∈ selection.sentenceIndices ∧
      i < (refiner.sentencesOf source.2.text).length

theorem selects_iff {selection : Selection} {index : ℕ} :
    refiner.Selects relevant selection index ↔
      ∃ drawn, pick (refiner.sentencesOf ·.2.text) (localItem ·.2) relevant selection =
        some drawn ∧ drawn.1.1.index = index := by
  have hsentences : ∀ text, ∀ sentence ∈ refiner.sentencesOf text, sentence ≠ "" :=
    fun text sentence h => ne_empty_of_mem_splitSentences (List.mem_of_mem_take h)
  constructor
  · rintro ⟨source, hsource, rfl, hselects⟩
    exact ⟨⟨source, _⟩, pick_eq_some.2 ⟨hsource,
      (materialize_ne_empty_iff (hsentences _)).2 hselects, rfl⟩, rfl⟩
  · rintro ⟨⟨source, item⟩, hpick, rfl⟩
    obtain ⟨hsource, hne, -⟩ := pick_eq_some.1 hpick
    exact ⟨source, hsource, rfl, (materialize_ne_empty_iff (hsentences _)).1 hne⟩

theorem nodup_drawLocal_iff {selections : List Selection} :
    ((refiner.drawLocal relevant selections).map (·.1.1.index)).Nodup ↔
      selections.Pairwise fun s t =>
        ∀ index, refiner.Selects relevant s index → ¬refiner.Selects relevant t index := by
  rw [List.Nodup, List.pairwise_map, drawLocal, extract, List.pairwise_filterMap]
  constructor
  · refine fun h => h.imp fun hst index hs ht => ?_
    obtain ⟨drawn, hdrawn, rfl⟩ := selects_iff.1 hs
    obtain ⟨drawn', hdrawn', hsame⟩ := selects_iff.1 ht
    exact hst drawn hdrawn drawn' hdrawn' hsame.symm
  · refine fun h => h.imp fun hst drawn hdrawn drawn' hdrawn' hsame => ?_
    exact hst _ (selects_iff.2 ⟨drawn, hdrawn, rfl⟩) (selects_iff.2 ⟨drawn', hdrawn', hsame.symm⟩)

/-- The items of a reply count different chunks just when no two of its selections select
sentences of one chunk. -/
theorem one_per_chunk_iff {payload : RefinementPayload} {tokens : ℤ}
    (hrelevant : refiner.relevant chunks grade = .ok relevant)
    (hreply : refiner.select question (relevant.map (refiner.sentencesOf ·.2.text)) =
      .ok (payload, tokens)) :
    refiner.refineLocal question chunks grade =
        .ok ((refiner.drawLocal relevant payload.selections).map Prod.snd, tokens) ∧
      (refiner.CountsChunks chunks grade (refiner.drawLocal relevant payload.selections) ↔
        payload.selections.Pairwise fun s t =>
          ∀ index, refiner.Selects relevant s index → ¬refiner.Selects relevant t index) := by
  refine ⟨bind_eq_ok.2 ⟨relevant, hrelevant, bind_eq_ok.2 ⟨_, hreply, rfl⟩⟩, ?_⟩
  rw [← nodup_drawLocal_iff, CountsChunks]
  refine and_iff_left_of_imp fun hnodup minEvidence hmin => ?_
  refine ⟨((refiner.drawLocal relevant payload.selections).map (·.1.1.index)).toFinset, ?_,
    fun i hi => ?_⟩
  · rw [List.toFinset_card_of_nodup hnodup, List.length_map]
    rwa [List.length_map] at hmin
  · obtain ⟨⟨⟨graded, chunk⟩, item⟩, hmem, rfl⟩ := List.mem_map.1 (List.mem_toFinset.1 hi)
    obtain ⟨hgraded, happroves, hchunk⟩ := mem_relevant hrelevant (drawn_of_mem_drawLocal hmem).1
    exact ⟨(List.getElem?_eq_some_iff.1 hchunk).1, graded, hgraded, rfl, happroves⟩

/-! ## The desk's refiner -/

/-- A refiner whose LLM answers `selections` to whatever it is asked. -/
def answering (selections : List Selection) : ExtractiveKnowledgeRefiner where
  minRelevance := 1 / 2
  maxDocuments := 5
  maxSentences := 80
  generateStructured _ _ := .ok (⟨selections⟩, 10)

def approvedChunk : ChunkGrade :=
  ⟨0, 1, true, "directly_relevant"⟩

/-- One chunk, approved. -/
def approvedGrade : RetrievalGrade :=
  ⟨.ambiguous, 1 / 2, [approvedChunk], 10⟩

/-- Two sentences on fees. -/
def dueChunk : RetrievedChunk :=
  ⟨"The fee is two percent. It is due monthly.", "BNK-POL-001_FEES.pdf", 9 / 10, some 1⟩

/-- Sentences out of order, and indices of no sentence and of no document. -/
def strayIndices : List Selection :=
  [⟨0, [1, -1, 0, 7], by decide⟩, ⟨3, [0], by decide⟩]

theorem refineLocal_extractive_due :
    ∃ evidence usage, (answering strayIndices).refineLocal "Fees?" [dueChunk] approvedGrade =
        .ok (evidence, usage) ∧
      ∀ item ∈ evidence, ∃ graded ∈ approvedGrade.chunks, ∃ chunk,
        [dueChunk][graded.index]? = some chunk ∧ graded.supportsQuestion = true ∧
        1 / 2 ≤ graded.relevance ∧ (answering strayIndices).Drawn chunk item :=
  refineLocal_extractive (List.forall_mem_singleton.2 (by decide)) fun _ => ⟨_, rfl⟩

example : ((answering strayIndices).refineLocal "Fees?" [dueChunk] approvedGrade).toOption.map
    (·.1.map (·.text)) = some ["The fee is two percent. It is due monthly."] := by
  decide +kernel

/-- Two selections of the same document. -/
def sameDocument : List Selection :=
  [⟨0, [0], by decide⟩, ⟨0, [1], by decide⟩]

theorem relevant_due (selections : List Selection) :
    (answering selections).relevant [dueChunk] approvedGrade = .ok [(approvedChunk, dueChunk)] := by
  have hbar : (1 / 2 : ℚ) ≤ 1 := by decide +kernel
  have happroved : approvedGrade.chunks.filter (answering selections).approves = [approvedChunk] :=
    List.filter_cons_of_pos (decide_eq_true hbar)
  rw [relevant, happroved]
  rfl

theorem one_per_chunk_due : (answering strayIndices).CountsChunks [dueChunk] approvedGrade
    ((answering strayIndices).drawLocal [(approvedChunk, dueChunk)] strayIndices) := by
  have hreply : (answering strayIndices).select "Fees?"
      ([(approvedChunk, dueChunk)].map ((answering strayIndices).sentencesOf ·.2.text)) =
        .ok (⟨strayIndices⟩, 10) := rfl
  refine (one_per_chunk_iff (relevant_due strayIndices) hreply).2.2 ?_
  refine List.pairwise_pair.2 fun index _ ht => ?_
  obtain ⟨source, hsource, -⟩ := ht
  exact nomatch hsource

/-- One chunk counts as two. -/
theorem chunk_counted_twice :
    (answering sameDocument).refineLocal "Fees?" [dueChunk] approvedGrade =
        .ok (((answering sameDocument).drawLocal [(approvedChunk, dueChunk)] sameDocument).map
          Prod.snd, 10) ∧
      ¬(answering sameDocument).CountsChunks [dueChunk] approvedGrade
        ((answering sameDocument).drawLocal [(approvedChunk, dueChunk)] sameDocument) := by
  constructor
  · rw [refineLocal, relevant_due]
    rfl
  · intro h
    have hnodup := h.1
    revert hnodup
    decide +kernel

end ExtractiveKnowledgeRefiner

end EnterpriseRag
