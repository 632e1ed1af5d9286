import EnterpriseRag.Library.RegexSearch
import EnterpriseRag.Rag.Acceptance
import EnterpriseRag.Rag.Augmentation

/-!
# More evidence flags no more claims

`lower` is `str.lower` over the case table of the Unicode database, with the two forms of the
final sigma. A space is the border of what it looks at and of every run that `contentWords`
finds, so the words of the joined chunks are those of the chunks (`mem_contentWords_join`) and
only grow with them : `findUnsupportedClaims_sublist`.
-/

namespace EnterpriseRag

open Program

/-! ## Lower case -/

/-- The case table of the Unicode database. The space has no case. -/
structure CaseTable where
  toLower : Char → List Char
  isCased : Char → Bool
  isCaseIgnorable : Char → Bool
  toLower_space : toLower ' ' = [' ']
  isCased_space : isCased ' ' = false
  isCaseIgnorable_space : isCaseIgnorable ' ' = false

namespace CaseTable

variable (table : CaseTable)

/-- The next character that is not ignored has case. -/
def casedNext (context : List Char) : Bool :=
  (context.dropWhile table.isCaseIgnorable).head?.any table.isCased

/-- The characters before a sigma, the last of them first, and after it end a word there. -/
def finalSigma (before after : List Char) : Bool :=
  table.casedNext before && !table.casedNext after

def lowerFrom : List Char → List Char → List Char
  | _, [] => []
  | before, c :: after =>
    (if c = 'Σ' then [if table.finalSigma before after then 'ς' else 'σ'] else table.toLower c) ++
      lowerFrom (c :: before) after

/-- `str.lower`. -/
def lower (text : List Char) : List Char :=
  table.lowerFrom [] text

variable {table}

/-- A space hides what is behind it. -/
theorem casedNext_append_space {context rest : List Char} :
    table.casedNext (context ++ ' ' :: rest) = table.casedNext context := by
  induction context with
  | nil => simp [casedNext, table.isCaseIgnorable_space, table.isCased_space]
  | cons c context ih =>
    rw [casedNext, casedNext, List.cons_append, List.dropWhile_cons, List.dropWhile_cons]
    split
    · exact ih
    · rfl

theorem lowerFrom_before_space {rest : List Char} : ∀ before text : List Char,
    table.lowerFrom (before ++ ' ' :: rest) text = table.lowerFrom before text
  | _, [] => rfl
  | before, c :: text => by
    rw [lowerFrom, lowerFrom, finalSigma, finalSigma, casedNext_append_space, ← List.cons_append,
      lowerFrom_before_space (c :: before) text]

theorem lowerFrom_append_space {rest : List Char} : ∀ {before text : List Char},
    table.lowerFrom before (text ++ ' ' :: rest) =
      table.lowerFrom before text ++ ' ' :: table.lower rest
  | before, [] => by
    have hrest : table.lowerFrom (' ' :: before) rest = table.lower rest :=
      lowerFrom_before_space [] rest
    rw [List.nil_append, lowerFrom, lowerFrom, if_neg (by decide), table.toLower_space, hrest]
    rfl
  | before, c :: text => by
    rw [List.cons_append, lowerFrom, lowerFrom, finalSigma, finalSigma, casedNext_append_space,
      lowerFrom_append_space, List.append_assoc]

theorem lower_append_space (text rest : List Char) :
    table.lower (text ++ ' ' :: rest) = table.lower text ++ ' ' :: table.lower rest :=
  lowerFrom_append_space

end CaseTable

/-! ## The words of joined chunks -/

namespace ClaimChecker

variable {table : CaseTable}

theorem nil_notMem_matchesAt_many {p : Char → Bool} (before : Option Char) (cs : List Char) :
    [] ∉ (Regex.many p 1).matchesAt before cs := by
  rw [Regex.matchesAt_many]
  intro hnil
  exact absurd (Regex.length_of_mem_runs hnil) (by decide)

theorem mem_contentWords_append_space {text rest word : List Char} :
    word ∈ contentWords table.lower (text ++ ' ' :: rest) ↔
      word ∈ contentWords table.lower text ∨ word ∈ contentWords table.lower rest := by
  simp only [contentWords, List.mem_eraseDups, List.mem_filter]
  rw [CaseTable.lower_append_space,
    Regex.findAll_append_cons rfl nil_notMem_matchesAt_many (by decide), List.mem_append,
    or_and_right]

/-- The joined chunks have the words of the chunks. -/
theorem mem_contentWords_join {word : List Char} : ∀ {texts : List String},
    word ∈ contentWords table.lower (" ".intercalate texts).toList ↔
      ∃ text ∈ texts, word ∈ contentWords table.lower text.toList
  | [] => by
    have hempty : contentWords table.lower (" ".intercalate []).toList = [] := by
      rw [String.intercalate_nil]
      rfl
    rw [hempty]
    simp
  | [text] => by simp
  | text :: text' :: texts => by
    have hjoin : (" ".intercalate (text :: text' :: texts)).toList =
        text.toList ++ ' ' :: (" ".intercalate (text' :: texts)).toList := by
      rw [String.intercalate_cons_cons]
      simp
    rw [hjoin, mem_contentWords_append_space, mem_contentWords_join,
      List.exists_mem_cons_iff (fun t : String => word ∈ contentWords table.lower t.toList) text]

/-- A sentence without support has none from fewer words. -/
theorem isUnsupported_of_subset {isWord : Char → Bool} {lower : List Char → List Char}
    {words words' : List (List Char)} {sentence : List Char} (h : ∀ word ∈ words, word ∈ words')
    (hsentence : isUnsupported isWord lower words' sentence = true) :
    isUnsupported isWord lower words sentence = true := by
  rw [isUnsupported, Bool.and_eq_true, decide_eq_true_eq] at hsentence ⊢
  obtain ⟨hclaim, hfew⟩ := hsentence
  have hmono : (contentWords lower sentence).countP (· ∈ words) ≤
      (contentWords lower sentence).countP (· ∈ words') :=
    List.countP_mono_left fun word _ hword => decide_eq_true (h word (of_decide_eq_true hword))
  exact ⟨hclaim, by omega⟩

end ClaimChecker

/-- What is flagged against more texts is flagged against fewer. -/
theorem findUnsupportedClaims_sublist (isWord : Char → Bool) (table : CaseTable) (answer : String)
    {chunks chunks' : List RetrievedChunk}
    (h : ∀ chunk ∈ chunks, ∃ chunk' ∈ chunks', chunk'.text = chunk.text) :
    (findUnsupportedClaims isWord table.lower answer chunks').Sublist
      (findUnsupportedClaims isWord table.lower answer chunks) := by
  refine List.Sublist.map _ (List.monotone_filter_right _ fun sentence hsentence => ?_)
  refine ClaimChecker.isUnsupported_of_subset (fun word hword => ?_) hsentence
  obtain ⟨text, htext, hmem⟩ := ClaimChecker.mem_contentWords_join.1 hword
  obtain ⟨chunk, hchunk, rfl⟩ := List.mem_map.1 htext
  obtain ⟨chunk', hchunk', hsame⟩ := h chunk hchunk
  exact ClaimChecker.mem_contentWords_join.2
    ⟨chunk'.text, List.mem_map_of_mem hchunk', hsame ▸ hmem⟩

/-! ## In the reflection loop -/

namespace ReflectionEngine

variable {e : ReflectionEngine} {question : String} {deadline : ℚ} {maxRetrievals : ℕ}
  {augment : String → RagProgram (List EvidenceChunk)} {state state' : ReflectionState}
  {critique : ReflectionCritique} {action : ReflectionAction} {o : RagOracle}
  {h h' : List RagEvent}

/-- The evidence of a state fits under the cap, no piece twice. -/
structure FitsEvidence (e : ReflectionEngine) (evidence : List EvidenceChunk) : Prop where
  nodup : (evidence.map (evidenceKey e.casefold)).Nodup
  length_le : evidence.length ≤ e.maxEvidenceChunks

/-- A round that may retrieve more keeps the evidence that fits. -/
theorem prefix_of_retrieveMore (hfits : e.FitsEvidence state.evidence)
    (hrun : run o h (e.retrieveMore question deadline maxRetrievals augment state critique action) =
      (.ok (.inr state'), h')) : state.evidence <+: state'.evidence := by
  by_cases haction : action = .retrieveMore ∧ state.additionalRetrievals < maxRetrievals
  · obtain ⟨query, additional, h₁, h₂, -, hevidence⟩ :=
      dedupeEvidence_of_retrieveMore haction hrun
    by_cases hnil : state.evidence = []
    · rw [hnil]
      exact List.nil_prefix
    have hmax : 1 ≤ e.maxEvidenceChunks :=
      (Nat.succ_le_of_lt (List.length_pos_of_ne_nil hnil)).trans hfits.length_le
    have haugmented : Augmented e.casefold e.maxEvidenceChunks state.evidence additional _ :=
      augmented_dedupeEvidence hmax state.evidence additional
    have hkept := haugmented.kept
    rw [hevidence]
    rwa [List.firsts, List.firstsFrom_eq_self hfits.nodup fun _ _ => List.not_mem_nil,
      List.take_of_length_le hfits.length_le] at hkept
  · rw [retrieveMore, if_neg haction] at hrun
    obtain rfl : state = state' := Sum.inr.inj (Except.ok.inj (congrArg Prod.fst hrun))
    exact List.prefix_refl _

end ReflectionEngine

/-- A claim that is flagged against more chunks is flagged against fewer. In the loop of the
reflection, a round that retrieves more evidence blocks the answer for no new claim, if the
evidence before it fits. -/
theorem more_evidence_flags_no_more (isWord : Char → Bool) (table : CaseTable) (answer : String)
    (c d : List RetrievedChunk) (htexts : ∀ chunk ∈ c, ∃ chunk' ∈ d, chunk'.text = chunk.text) :
    (∀ sentence ∈ findUnsupportedClaims isWord table.lower answer d,
      sentence ∈ findUnsupportedClaims isWord table.lower answer c) ∧
    ∀ (e : ReflectionEngine) (question : String) (deadline : ℚ) (maxRetrievals : ℕ)
      (augment : String → RagProgram (List EvidenceChunk)) (state state' : ReflectionState)
      (critique : ReflectionCritique) (action : ReflectionAction) (o : RagOracle)
      (h h' : List RagEvent), e.findUnsupportedClaims = findUnsupportedClaims isWord table.lower →
      e.FitsEvidence state.evidence →
      run o h (e.retrieveMore question deadline maxRetrievals augment state critique action) =
        (.ok (.inr state'), h') →
      ∀ claim ∈ e.findUnsupportedClaims answer (ReflectionEngine.checkedChunks state'.evidence),
        claim ∈ e.findUnsupportedClaims answer (ReflectionEngine.checkedChunks state.evidence) := by
  constructor
  · exact (findUnsupportedClaims_sublist isWord table answer htexts).subset
  · intro e question deadline maxRetrievals augment state state' critique action o h h' hchecker
      hfits hrun
    rw [hchecker]
    refine (findUnsupportedClaims_sublist isWord table answer fun chunk hchunk => ?_).subset
    have hkept := ReflectionEngine.prefix_of_retrieveMore hfits hrun
    exact ⟨chunk, (hkept.map _).subset hchunk, rfl⟩

/-- The case table for ASCII text. -/
def asciiTable : CaseTable where
  toLower c := [c.toLower]
  isCased c := c.isAlpha
  isCaseIgnorable c := c.toNat ∈ [0x27, 0x2e, 0x3a, 0x5e, 0x5f, 0x60]
  toLower_space := by decide
  isCased_space := by decide
  isCaseIgnorable_space := by decide

/-- What the schedule and the fees do not say together the fees do not say. -/
theorem more_evidence_flags_no_more_fees :
    "You must never call." ∈ findUnsupportedClaims Char.isAlphanum asciiTable.lower
      "You must never call. Fees must be paid." [⟨"Fees are paid.", "FEES.pdf", 1, none⟩] := by
  have hflagged : "You must never call." ∈ findUnsupportedClaims Char.isAlphanum asciiTable.lower
      "You must never call. Fees must be paid." [⟨"Two percent.", "SCHEDULE.pdf", 1, none⟩,
        ⟨"Fees are paid.", "FEES.pdf", 1, none⟩] := by decide +kernel
  refine (more_evidence_flags_no_more Char.isAlphanum asciiTable _ _ _ ?_).1 _ hflagged
  simp

end EnterpriseRag
