import EnterpriseRag.Core.Text
import EnterpriseRag.Library.JsonText
import EnterpriseRag.Rag.Reflection

/-!
# What the language model is shown

The stages that call the language model write what they ask about into one JSON object, so
that no text of a user or a document can end the field it stands in. A `UserMessage` is what
such an object holds ; `text_inj` says that its text settles it, whatever the texts in it are.

The critic and the reviser show the evidence up to a number of characters (`cutEvidence`), and
the answer is written from the evidence in blocks (`buildEvidenceContext`), whose header is
JSON and whose body is not.
-/

namespace EnterpriseRag

open JsonText (Value)

def EvidenceOrigin.value : EvidenceOrigin → String
  | .policy => "policy"
  | .regulatoryWeb => "regulatory_web"

def SupportLevel.value : SupportLevel → String
  | .full => "full"
  | .partially => "partial"
  | .none => "none"

/-- `json.dumps` with `ensure_ascii=False`. -/
def dumps (payload : Value) : String :=
  String.ofList (JsonText.dump false payload)

def optionalInt : Option ℤ → Value
  | none => .null
  | some n => .int n

def optionalStr : Option String → Value
  | none => .null
  | some text => .str text

theorem optionalInt_inj {n n' : Option ℤ} (h : optionalInt n = optionalInt n') : n = n' := by
  cases n <;> cases n' <;> simp_all [optionalInt]

theorem optionalStr_inj {t t' : Option String} (h : optionalStr t = optionalStr t') : t = t' := by
  cases t <;> cases t' <;> simp_all [optionalStr]

/-! ## The messages -/

/-- A chunk as the grader is shown it. -/
@[ext]
structure ShownChunk where
  source : String
  pageNumber : Option ℤ
  text : String
  deriving DecidableEq, Repr

/-- A piece of evidence as the critic is shown it, and the reviser beside its URL. -/
@[ext]
structure ShownEvidence where
  source : String
  pageNumber : Option ℤ
  origin : EvidenceOrigin
  text : String
  deriving DecidableEq, Repr

/-- The payloads of the calls, by the fields they have. -/
inductive UserMessage
  | query (query : String)
  | question (question : String)
  | grade (question : String) (chunks : List ShownChunk)
  | select (question : String) (documents : List (List String))
  | critique (question : String) (evidence : List ShownEvidence) (answer : String)
  | revise (question : String) (evidence : List (ShownEvidence × Option String))
      (previousAnswer : String) (supportLevel : SupportLevel)
      (missingAspects unsupportedClaims : List String)
  deriving DecidableEq, Repr

def chunkEntry (index : ℕ) (chunk : ShownChunk) : Value :=
  .obj [("index", .int index), ("source", .str chunk.source),
    ("page_number", optionalInt chunk.pageNumber), ("text", .str chunk.text)]

def sentenceEntry (index : ℕ) (sentence : String) : Value :=
  .obj [("sentence_index", .int index), ("text", .str sentence)]

def documentEntry (index : ℕ) (sentences : List String) : Value :=
  .obj [("document_index", .int index), ("sentences", .arr (sentences.mapIdx sentenceEntry))]

def critiqueEntry (index : ℕ) (item : ShownEvidence) : Value :=
  .obj [("evidence_id", .int (index + 1)), ("source", .str item.source),
    ("page_number", optionalInt item.pageNumber), ("origin", .str item.origin.value),
    ("text", .str item.text)]

def reviseEntry (index : ℕ) (item : ShownEvidence × Option String) : Value :=
  .obj [("evidence_id", .int (index + 1)), ("source", .str item.1.source),
    ("page_number", optionalInt item.1.pageNumber), ("origin", .str item.1.origin.value),
    ("canonical_url", optionalStr item.2), ("text", .str item.1.text)]

namespace UserMessage

def payload : UserMessage → Value
  | query asked => .obj [("query", .str asked)]
  | question asked => .obj [("question", .str asked)]
  | grade asked chunks =>
    .obj [("question", .str asked), ("chunks", .arr (chunks.mapIdx chunkEntry))]
  | select asked documents =>
    .obj [("question", .str asked), ("documents", .arr (documents.mapIdx documentEntry))]
  | critique asked evidence answer =>
    .obj [("question", .str asked), ("evidence", .arr (evidence.mapIdx critiqueEntry)),
      ("answer", .str answer)]
  | revise asked evidence previousAnswer supportLevel missingAspects unsupportedClaims =>
    .obj [("question", .str asked), ("evidence", .arr (evidence.mapIdx reviseEntry)),
      ("previous_answer", .str previousAnswer),
      ("feedback", .obj [("support_level", .str supportLevel.value),
        ("missing_aspects", .arr (missingAspects.map .str)),
        ("unsupported_claims", .arr (unsupportedClaims.map .str))])]

/-- The text of the user message. -/
def text (m : UserMessage) : String :=
  dumps m.payload

end UserMessage

/-- `HydeQueryTransformer.transform` sends the query with its white space normalized. -/
def hydeMessage (query : String) : UserMessage :=
  .query (normalizeSpace query)

/-- `StructuredWebQueryFormulator.formulate`. -/
def formulateMessage (question : String) : UserMessage :=
  .question (normalizeSpace question)

/-- `StructuredIntentRouter.route`. -/
def routeMessage (question : String) : UserMessage :=
  .question question

/-- `StructuredLLMRetrievalGrader.grade`, of the chunks it selected. -/
def gradeMessage (question : String) (selected : List RetrievedChunk) : UserMessage :=
  .grade question (selected.map fun chunk => ⟨chunk.source, chunk.pageNumber, chunk.text⟩)

/-- `ExtractiveKnowledgeRefiner._select`. -/
def selectMessage (question : String) (documents : List (List String)) : UserMessage :=
  .select question documents

/-- The loop over the evidence of `critique` and `revise` : each item with what of its text is
shown, until `remaining` characters are. -/
def cutEvidence : ℕ → List EvidenceChunk → List (EvidenceChunk × String)
  | _, [] => []
  | remaining, item :: rest =>
    if remaining = 0 then []
    else
      let shown := item.text.toList.take remaining
      (item, String.ofList shown) :: cutEvidence (remaining - shown.length) rest

def shownEvidence (shown : EvidenceChunk × String) : ShownEvidence :=
  ⟨shown.1.source, shown.1.pageNumber, shown.1.origin, shown.2⟩

/-- `StructuredReflectionCritic.critique`. -/
def critiqueMessage (maxEvidenceChars : ℕ) (question : String) (evidence : List EvidenceChunk)
    (answer : String) : UserMessage :=
  .critique question ((cutEvidence maxEvidenceChars evidence).map shownEvidence) answer

/-- `StructuredGroundedAnswerReviser.revise`. -/
def reviseMessage (maxEvidenceChars : ℕ) (question : String) (evidence : List EvidenceChunk)
    (previousAnswer : String) (critique : ReflectionCritique) : UserMessage :=
  .revise question ((cutEvidence maxEvidenceChars evidence).map fun shown =>
      (shownEvidence shown, shown.1.canonicalUrl))
    previousAnswer critique.supportLevel critique.missingAspects critique.unsupportedClaims

/-! ## What a message settles -/

theorem EvidenceOrigin.value_inj {origin origin' : EvidenceOrigin}
    (h : origin.value = origin'.value) : origin = origin' := by
  cases origin <;> cases origin' <;> simp_all [EvidenceOrigin.value]

theorem SupportLevel.value_inj {level level' : SupportLevel} (h : level.value = level'.value) :
    level = level' := by
  cases level <;> cases level' <;> simp_all [SupportLevel.value]

/-- Entries that settle what they are of, at their index, settle the list. -/
theorem mapIdx_inj {α : Type} {entry : ℕ → α → Value}
    (hentry : ∀ i a a', entry i a = entry i a' → a = a') {l l' : List α}
    (h : l.mapIdx entry = l'.mapIdx entry) : l = l' := by
  have hlength : l.length = l'.length := by
    simpa only [List.length_mapIdx] using congrArg List.length h
  refine List.ext_getElem hlength fun i hi hi' => hentry i _ _ ?_
  have hget := congrArg (·[i]?) h
  simpa only [List.getElem?_mapIdx, List.getElem?_eq_getElem hi, List.getElem?_eq_getElem hi',
    Option.map_some, Option.some.injEq] using hget

theorem chunkEntry_inj (i : ℕ) (chunk chunk' : ShownChunk)
    (h : chunkEntry i chunk = chunkEntry i chunk') : chunk = chunk' := by
  simp only [chunkEntry, Value.obj.injEq, List.cons.injEq, Prod.mk.injEq, true_and,
    Value.str.injEq, and_true] at h
  rw [ShownChunk.ext_iff]
  exact ⟨h.1, optionalInt_inj h.2.1, h.2.2⟩

theorem sentenceEntry_inj (i : ℕ) (sentence sentence' : String)
    (h : sentenceEntry i sentence = sentenceEntry i sentence') : sentence = sentence' := by
  simpa [sentenceEntry] using h

theorem documentEntry_inj (i : ℕ) (sentences sentences' : List String)
    (h : documentEntry i sentences = documentEntry i sentences') : sentences = sentences' := by
  simp only [documentEntry, Value.obj.injEq, List.cons.injEq, Prod.mk.injEq, true_and,
    Value.arr.injEq, and_true] at h
  exact mapIdx_inj sentenceEntry_inj h

theorem critiqueEntry_inj (i : ℕ) (item item' : ShownEvidence)
    (h : critiqueEntry i item = critiqueEntry i item') : item = item' := by
  simp only [critiqueEntry, Value.obj.injEq, List.cons.injEq, Prod.mk.injEq, true_and,
    Value.str.injEq, and_true] at h
  rw [ShownEvidence.ext_iff]
  exact ⟨h.1, optionalInt_inj h.2.1, EvidenceOrigin.value_inj h.2.2.1, h.2.2.2⟩

theorem reviseEntry_inj (i : ℕ) (item item' : ShownEvidence × Option String)
    (h : reviseEntry i item = reviseEntry i item') : item = item' := by
  simp only [reviseEntry, Value.obj.injEq, List.cons.injEq, Prod.mk.injEq, true_and,
    Value.str.injEq, and_true] at h
  obtain ⟨hsource, hpage, horigin, hurl, htext⟩ := h
  have hitem : item.1 = item'.1 := by
    rw [ShownEvidence.ext_iff]
    exact ⟨hsource, optionalInt_inj hpage, EvidenceOrigin.value_inj horigin, htext⟩
  exact Prod.ext hitem (optionalStr_inj hurl)

theorem texts_inj {texts texts' : List String} (h : texts.map Value.str = texts'.map Value.str) :
    texts = texts' :=
  List.map_injective_iff.2 (fun _ _ h => Value.str.inj h) h

namespace UserMessage

theorem payload_inj {m m' : UserMessage} (h : m.payload = m'.payload) : m = m' := by
  cases m <;> cases m' <;>
    simp only [payload, Value.obj.injEq, List.cons.injEq, Prod.mk.injEq, Value.str.injEq,
      Value.arr.injEq, and_true, true_and, and_false, false_and, reduceCtorEq, String.reduceEq]
      at h
  case query.query => rw [h]
  case question.question => rw [h]
  case grade.grade => rw [h.1, mapIdx_inj chunkEntry_inj h.2]
  case select.select => rw [h.1, mapIdx_inj documentEntry_inj h.2]
  case critique.critique => rw [h.1, mapIdx_inj critiqueEntry_inj h.2.1, h.2.2]
  case revise.revise =>
    obtain ⟨hquestion, hevidence, hanswer, hlevel, hmissing, hclaims⟩ := h
    rw [hquestion, mapIdx_inj reviseEntry_inj hevidence, hanswer, SupportLevel.value_inj hlevel,
      texts_inj hmissing, texts_inj hclaims]

end UserMessage

/-! ## Payloads and their keys -/

theorem distinctItems_of_forall {items : List Value} (h : ∀ item ∈ items, item.distinct = true) :
    Value.distinctItems items = true := by
  induction items with
  | nil => rfl
  | cons item items ih =>
    rw [Value.distinctItems, decide_eq_true_eq]
    exact ⟨h item List.mem_cons_self, ih fun item hmem => h item (List.mem_cons_of_mem _ hmem)⟩

theorem distinctItems_mapIdx {α : Type} {entry : ℕ → α → Value}
    (hentry : ∀ i a, (entry i a).distinct = true) (l : List α) :
    Value.distinctItems (l.mapIdx entry) = true := by
  refine distinctItems_of_forall fun item hitem => ?_
  obtain ⟨i, hi, rfl⟩ := List.mem_mapIdx.1 hitem
  exact hentry i _

theorem distinctItems_texts (texts : List String) :
    Value.distinctItems (texts.map Value.str) = true := by
  refine distinctItems_of_forall fun item hitem => ?_
  obtain ⟨text, -, rfl⟩ := List.mem_map.1 hitem
  rfl

@[simp]
theorem distinct_optionalInt (n : Option ℤ) : (optionalInt n).distinct = true := by
  cases n <;> rfl

@[simp]
theorem distinct_optionalStr (text : Option String) : (optionalStr text).distinct = true := by
  cases text <;> rfl

theorem distinct_entries :
    (∀ i chunk, (chunkEntry i chunk).distinct = true) ∧
    (∀ i sentences, (documentEntry i sentences).distinct = true) ∧
    (∀ i item, (critiqueEntry i item).distinct = true) ∧
    ∀ i item, (reviseEntry i item).distinct = true := by
  have hsentence : ∀ i sentence, (sentenceEntry i sentence).distinct = true := fun i sentence => by
    simp [sentenceEntry, Value.distinct, Value.distinctFields, Dict.keys]
  refine ⟨fun i chunk => ?_, fun i sentences => ?_, fun i item => ?_, fun i item => ?_⟩
  · simp [chunkEntry, Value.distinct, Value.distinctFields, Dict.keys]
  · simp [documentEntry, Value.distinct, Value.distinctFields, Dict.keys,
      distinctItems_mapIdx hsentence]
  · simp [critiqueEntry, Value.distinct, Value.distinctFields, Dict.keys]
  · simp [reviseEntry, Value.distinct, Value.distinctFields, Dict.keys]

/-- No object of a payload has a key twice. -/
theorem distinct_payload (m : UserMessage) : m.payload.distinct = true := by
  obtain ⟨hchunk, hdocument, hcritique, hrevise⟩ := distinct_entries
  cases m with
  | query => simp [UserMessage.payload, Value.distinct, Value.distinctFields, Dict.keys]
  | question => simp [UserMessage.payload, Value.distinct, Value.distinctFields, Dict.keys]
  | grade => simp [UserMessage.payload, Value.distinct, Value.distinctFields, Dict.keys,
      distinctItems_mapIdx hchunk]
  | select => simp [UserMessage.payload, Value.distinct, Value.distinctFields, Dict.keys,
      distinctItems_mapIdx hdocument]
  | critique => simp [UserMessage.payload, Value.distinct, Value.distinctFields, Dict.keys,
      distinctItems_mapIdx hcritique]
  | revise => simp [UserMessage.payload, Value.distinct, Value.distinctFields, Dict.keys,
      distinctItems_mapIdx hrevise, distinctItems_texts]

/-- `json.loads` of a text. -/
def loads (text : String) : Option Value :=
  JsonText.loads text.toList

theorem loads_dumps {payload : Value} (h : payload.distinct = true) :
    loads (dumps payload) = some payload := by
  rw [loads, dumps, String.toList_ofList]
  exact JsonText.loads_dump h

/-- Whatever the texts in a message are, it is read as its payload, it holds no line break and
no other control character outside the escapes, and no other message has its text : what stands
in a field cannot end the field. -/
theorem message_settles (m : UserMessage) : loads m.text = some m.payload ∧
    (∀ c ∈ m.text.toList, 0x20 ≤ c.toNat) ∧ ∀ m', m'.text = m.text → m' = m := by
  refine ⟨loads_dumps (distinct_payload m), fun c hc => ?_, fun m' h => ?_⟩
  · rw [UserMessage.text, dumps, String.toList_ofList] at hc
    exact (JsonText.plain_dump m.payload c hc).1
  · have hread := loads_dumps (distinct_payload m')
    rw [show dumps m'.payload = dumps m.payload from h, loads_dumps (distinct_payload m)] at hread
    exact UserMessage.payload_inj (Option.some.inj hread).symm

/-! ## The evidence that is shown -/

/-- What is shown of the texts, one after the other, is the beginning of all of them. -/
theorem flatMap_cutEvidence (remaining : ℕ) (evidence : List EvidenceChunk) :
    (cutEvidence remaining evidence).flatMap (·.2.toList) =
      (evidence.flatMap (·.text.toList)).take remaining := by
  induction evidence generalizing remaining with
  | nil => simp [cutEvidence]
  | cons item rest ih =>
    rw [cutEvidence]
    split
    · rename_i h
      rw [h, List.take_zero]
      rfl
    · rw [List.flatMap_cons, List.flatMap_cons, String.toList_ofList, ih, List.take_append,
        List.length_take]
      congr 2
      omega

theorem map_fst_cutEvidence (remaining : ℕ) (evidence : List EvidenceChunk) :
    (cutEvidence remaining evidence).map (·.1) <+: evidence := by
  induction evidence generalizing remaining with
  | nil => exact List.nil_prefix
  | cons item rest ih =>
    rw [cutEvidence]
    split
    · exact List.nil_prefix
    · exact List.cons_prefix_cons.2 ⟨rfl, ih _⟩

theorem prefix_of_mem_cutEvidence {remaining : ℕ} {evidence : List EvidenceChunk}
    {shown : EvidenceChunk × String} (h : shown ∈ cutEvidence remaining evidence) :
    shown.2.toList <+: shown.1.text.toList := by
  induction evidence generalizing remaining with
  | nil => cases h
  | cons item rest ih =>
    rw [cutEvidence] at h
    split at h
    · cases h
    · rcases List.mem_cons.1 h with rfl | h
      · rw [String.toList_ofList]
        exact List.take_prefix _ _
      · exact ih h

/-- Where an item follows, the text before it is whole. -/
theorem whole_of_mem_dropLast {remaining : ℕ} {evidence : List EvidenceChunk}
    {shown : EvidenceChunk × String} (h : shown ∈ (cutEvidence remaining evidence).dropLast) :
    shown.2 = shown.1.text := by
  induction evidence generalizing remaining with
  | nil => cases h
  | cons item rest ih =>
    rw [cutEvidence] at h
    split at h
    · cases h
    dsimp only at h
    cases hrest : cutEvidence (remaining - (item.text.toList.take remaining).length) rest with
    | nil =>
      rw [hrest] at h
      cases h
    | cons next others =>
      rw [hrest, List.dropLast_cons_cons] at h
      rcases List.mem_cons.1 h with rfl | h
      · have hleft : remaining - (item.text.toList.take remaining).length ≠ 0 := fun hzero => by
          rw [hzero] at hrest
          cases rest <;> cases hrest
        rw [List.length_take] at hleft
        rw [List.take_of_length_le (by omega), String.ofList_toList]
      · exact ih (hrest ▸ h)

/-- Of the evidence the critic and the reviser are shown the first items, under their numbers,
and of their texts together just the first `maxEvidenceChars` characters : each text is cut at
its end, and only the last one. -/
theorem cutEvidence_shows (maxEvidenceChars : ℕ) (evidence : List EvidenceChunk) :
    (cutEvidence maxEvidenceChars evidence).map (·.1) <+: evidence ∧
    (cutEvidence maxEvidenceChars evidence).flatMap (·.2.toList) =
      (evidence.flatMap (·.text.toList)).take maxEvidenceChars ∧
    (∀ shown ∈ cutEvidence maxEvidenceChars evidence,
      shown.2.toList <+: shown.1.text.toList) ∧
    ∀ shown ∈ (cutEvidence maxEvidenceChars evidence).dropLast, shown.2 = shown.1.text :=
  ⟨map_fst_cutEvidence _ _, flatMap_cutEvidence _ _, fun _ => prefix_of_mem_cutEvidence,
    fun _ => whole_of_mem_dropLast⟩

/-! ## The evidence in blocks -/

/-- `json.dumps` with `ensure_ascii=True`, of the metadata of an item. -/
def blockMetadata (index : ℕ) (item : EvidenceChunk) : Value :=
  .obj [("evidence_id", .int (index + 1)), ("source", .str item.source),
    ("page_number", optionalInt item.pageNumber), ("origin", .str item.origin.value),
    ("canonical_url", optionalStr item.canonicalUrl),
    ("retrieved_at", optionalStr item.retrievedAtIso)]

def blockOpening : List Char :=
  "<evidence metadata=".toList

def blockClosing : List Char :=
  "</evidence>".toList

def blockHeader (index : ℕ) (item : EvidenceChunk) : List Char :=
  blockOpening ++ (JsonText.dump true (blockMetadata index item) ++ ['>'])

/-- What the loop of `_build_evidence_context` adds for an item. -/
def blockParts (index : ℕ) (item : EvidenceChunk) : List (List Char) :=
  [blockHeader index item, item.text.toList, blockClosing]

/-- `_build_evidence_context`. -/
def buildEvidenceContext (evidence : List EvidenceChunk) : String :=
  if evidence = [] then "No relevant context was found."
  else String.ofList (['\n'].intercalate (evidence.mapIdx blockParts).flatten)

/-- The lines of a text. -/
def textLines (text : List Char) : List (List Char) :=
  text.splitOn '\n'

/-- An item without its score, which is not shown. -/
def unscored (item : EvidenceChunk) : EvidenceChunk :=
  { item with retrievalScore := 0 }

theorem textLines_inj {text text' : List Char} (h : textLines text = textLines text') :
    text = text' := by
  have hjoin := congrArg (['\n'].intercalate ·) h
  simpa only [textLines, List.intercalate_splitOn] using hjoin

theorem textLines_eq_singleton {text : List Char} (h : '\n' ∉ text) : textLines text = [text] :=
  List.splitOn_eq_singleton h

/-- What stands before the first mark, and what follows it. -/
theorem append_mark_inj {mark : List Char} {l l' rest rest' : List (List Char)} (hl : mark ∉ l)
    (hl' : mark ∉ l') (h : l ++ mark :: rest = l' ++ mark :: rest') : l = l' ∧ rest = rest' := by
  induction l generalizing l' with
  | nil =>
    cases l' with
    | nil => exact ⟨rfl, (List.cons.inj h).2⟩
    | cons line l' => exact absurd ((List.cons.inj h).1 ▸ List.mem_cons_self) hl'
  | cons line l ih =>
    cases l' with
    | nil => exact absurd ((List.cons.inj h).1 ▸ List.mem_cons_self) hl
    | cons line' l' =>
      obtain ⟨rfl, htail⟩ := List.cons.inj h
      obtain ⟨rfl, hrest⟩ := ih (fun hmem => hl (List.mem_cons_of_mem _ hmem))
        (fun hmem => hl' (List.mem_cons_of_mem _ hmem)) htail
      exact ⟨rfl, hrest⟩

/-- Texts put on lines of their own keep their lines. -/
theorem textLines_intercalate {parts : List (List Char)} (hne : parts ≠ []) :
    textLines (['\n'].intercalate parts) = parts.flatMap textLines := by
  induction parts with
  | nil => exact absurd rfl hne
  | cons part rest ih =>
    cases rest with
    | nil => rw [List.intercalate_singleton, List.flatMap_singleton]
    | cons next others =>
      rw [List.intercalate_cons_cons, List.flatMap_cons, ← ih (List.cons_ne_nil _ _),
        List.append_assoc, List.singleton_append]
      exact List.splitOn_append_cons_self _ _

theorem distinct_blockMetadata (index : ℕ) (item : EvidenceChunk) :
    (blockMetadata index item).distinct = true := by
  simp [blockMetadata, Value.distinct, Value.distinctFields, Dict.keys]

/-- The header of a block is one line. -/
theorem textLines_blockHeader (index : ℕ) (item : EvidenceChunk) :
    textLines (blockHeader index item) = [blockHeader index item] := by
  refine textLines_eq_singleton fun h => ?_
  have hopening : '\n' ∉ blockOpening := by decide
  rw [blockHeader, List.mem_append, List.mem_append] at h
  rcases h with h | h | h
  · exact hopening h
  · have hplain := (JsonText.plain_dump (blockMetadata index item) '\n' h).1
    revert hplain
    decide
  · revert h
    decide

/-- The header settles all that it shows. -/
theorem blockHeader_inj {index : ℕ} {item item' : EvidenceChunk}
    (h : blockHeader index item = blockHeader index item') (htext : item.text = item'.text) :
    unscored item = unscored item' := by
  have hdump := List.append_inj_left' (List.append_cancel_left h) rfl
  have hmetadata := JsonText.dump_inj (distinct_blockMetadata _ _) (distinct_blockMetadata _ _)
    hdump
  simp only [blockMetadata, Value.obj.injEq, List.cons.injEq, Prod.mk.injEq, true_and,
    Value.str.injEq, and_true] at hmetadata
  obtain ⟨hsource, hpage, horigin, hurl, hretrieved⟩ := hmetadata
  cases item
  cases item'
  simp only [unscored, EvidenceChunk.mk.injEq, true_and]
  exact ⟨htext, hsource, optionalInt_inj hpage, EvidenceOrigin.value_inj horigin,
    optionalStr_inj hurl, optionalStr_inj hretrieved⟩

/-- No line of the text ends a block. -/
def KeepsBlock (item : EvidenceChunk) : Prop :=
  blockClosing ∉ textLines item.text.toList

/-- The lines of the blocks from the one with the number `index + 1` on. -/
def blockLines (index : ℕ) (evidence : List EvidenceChunk) : List (List Char) :=
  (evidence.mapIdx fun i item => blockParts (i + index) item).flatten.flatMap textLines

theorem blockLines_cons (index : ℕ) (item : EvidenceChunk) (rest : List EvidenceChunk) :
    blockLines index (item :: rest) = blockHeader index item ::
      (textLines item.text.toList ++ blockClosing :: blockLines (index + 1) rest) := by
  have hclosing : textLines blockClosing = [blockClosing] :=
    textLines_eq_singleton (by decide)
  have hindex : (fun i item => blockParts (i + 1 + index) item) =
      fun i item => blockParts (i + (index + 1)) item := by
    funext i item
    rw [Nat.add_assoc, Nat.add_comm 1]
  rw [blockLines, List.mapIdx_cons, List.flatten_cons, List.flatMap_append, blockParts,
    Nat.zero_add, List.flatMap_cons, List.flatMap_cons, List.flatMap_singleton,
    textLines_blockHeader, hclosing, hindex]
  simp only [List.append_assoc, List.cons_append, List.nil_append]
  rfl

theorem blockLines_inj {index : ℕ} {evidence evidence' : List EvidenceChunk}
    (hkeeps : ∀ item ∈ evidence, KeepsBlock item) (hkeeps' : ∀ item ∈ evidence', KeepsBlock item)
    (h : blockLines index evidence = blockLines index evidence') :
    evidence.map unscored = evidence'.map unscored := by
  induction evidence generalizing index evidence' with
  | nil =>
    cases evidence' with
    | nil => rfl
    | cons item' rest' =>
      rw [blockLines_cons] at h
      cases h
  | cons item rest ih =>
    cases evidence' with
    | nil =>
      rw [blockLines_cons] at h
      cases h
    | cons item' rest' =>
      rw [blockLines_cons, blockLines_cons] at h
      obtain ⟨hheader, hbody⟩ := List.cons.inj h
      obtain ⟨hlines, hrest⟩ := append_mark_inj (hkeeps item List.mem_cons_self)
        (hkeeps' item' List.mem_cons_self) hbody
      have htext : item.text = item'.text := String.toList_inj.1 (textLines_inj hlines)
      rw [List.map_cons, List.map_cons, blockHeader_inj hheader htext,
        ih (fun item hmem => hkeeps item (List.mem_cons_of_mem _ hmem))
          (fun item hmem => hkeeps' item (List.mem_cons_of_mem _ hmem)) hrest]

theorem textLines_buildEvidenceContext {evidence : List EvidenceChunk} (hne : evidence ≠ []) :
    textLines (buildEvidenceContext evidence).toList = blockLines 0 evidence := by
  have hparts : (evidence.mapIdx blockParts).flatten ≠ [] := by
    cases evidence with
    | nil => exact absurd rfl hne
    | cons item rest =>
      rw [List.mapIdx_cons]
      exact List.cons_ne_nil _ _
  rw [buildEvidenceContext, if_neg hne, String.toList_ofList, textLines_intercalate hparts]
  rfl

/-- A context of blocks does not read as the one of no evidence. -/
theorem buildEvidenceContext_ne {item : EvidenceChunk} {rest : List EvidenceChunk} :
    buildEvidenceContext (item :: rest) ≠ buildEvidenceContext [] := by
  intro h
  have hlines := textLines_buildEvidenceContext (List.cons_ne_nil item rest)
  rw [h, blockLines_cons] at hlines
  have hfirst := (List.cons.inj hlines).1
  cases hfirst

/-- An item whose text goes on with the end of its block and another block. -/
def forgedItem (index : ℕ) (item other : EvidenceChunk) : EvidenceChunk :=
  { item with text := String.ofList (['\n'].intercalate
      [item.text.toList, blockClosing, blockHeader (index + 1) other, other.text.toList]) }

theorem blockLines_forgedItem (evidence : List EvidenceChunk) (index : ℕ)
    (item other : EvidenceChunk) :
    blockLines index (evidence ++ [forgedItem (index + evidence.length) item other]) =
      blockLines index (evidence ++ [item, other]) := by
  have hclosing : textLines blockClosing = [blockClosing] :=
    textLines_eq_singleton (by decide)
  induction evidence generalizing index with
  | nil =>
    have htext : textLines (forgedItem index item other).text.toList =
        textLines item.text.toList ++ (blockClosing :: blockHeader (index + 1) other ::
          textLines other.text.toList) := by
      rw [forgedItem, String.toList_ofList, textLines_intercalate (List.cons_ne_nil _ _)]
      simp only [List.flatMap_cons, List.flatMap_nil, hclosing, textLines_blockHeader,
        List.append_nil, List.cons_append, List.nil_append]
    have hheader : blockHeader index (forgedItem index item other) = blockHeader index item :=
      rfl
    rw [List.nil_append, List.nil_append, List.length_nil, Nat.add_zero, blockLines_cons,
      blockLines_cons, blockLines_cons, htext, hheader]
    simp only [List.append_assoc, List.cons_append]
    rfl
  | cons first rest ih =>
    rw [List.cons_append, List.cons_append, blockLines_cons, blockLines_cons, List.length_cons,
      ← ih (index + 1), show index + (rest.length + 1) = index + 1 + rest.length by omega]

/-- Where no text holds the line that ends a block, the context the answer is written from
settles the evidence, but for its scores. A text that holds the line may go on with a block of
its own : no context of two items is told apart from that of one. -/
theorem context_settles : (∀ evidence evidence' : List EvidenceChunk,
      (∀ item ∈ evidence, KeepsBlock item) → (∀ item ∈ evidence', KeepsBlock item) →
      buildEvidenceContext evidence = buildEvidenceContext evidence' →
      evidence.map unscored = evidence'.map unscored) ∧
    ∀ (evidence : List EvidenceChunk) (item other : EvidenceChunk),
      buildEvidenceContext (evidence ++ [forgedItem evidence.length item other]) =
        buildEvidenceContext (evidence ++ [item, other]) := by
  refine ⟨fun evidence evidence' hkeeps hkeeps' h => ?_, fun evidence item other => ?_⟩
  · cases evidence with
    | nil =>
      cases evidence' with
      | nil => rfl
      | cons item' rest' => exact absurd h.symm buildEvidenceContext_ne
    | cons item rest =>
      cases evidence' with
      | nil => exact absurd h buildEvidenceContext_ne
      | cons item' rest' =>
        have hlines : blockLines 0 (item :: rest) = blockLines 0 (item' :: rest') := by
          rw [← textLines_buildEvidenceContext (List.cons_ne_nil _ _), h,
            textLines_buildEvidenceContext (List.cons_ne_nil _ _)]
        exact blockLines_inj hkeeps hkeeps' hlines
  · refine String.toList_inj.1 (textLines_inj ?_)
    rw [textLines_buildEvidenceContext (by simp), textLines_buildEvidenceContext (by simp)]
    have hlines := blockLines_forgedItem evidence 0 item other
    rwa [Nat.zero_add] at hlines

end EnterpriseRag
