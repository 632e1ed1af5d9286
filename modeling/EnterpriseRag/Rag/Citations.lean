import EnterpriseRag.Core.Text
import EnterpriseRag.Library.Regex
import EnterpriseRag.Rag.Evidence

/-!
# Citations

`find_fabricated_citations` looks at the bracketed texts of an answer. One that names
policy ids is fabricated if some id is in the source of no evidence chunk, one that names
none if it shares no text with a source or a URL, and either if it names a page that none
of the chunks it matches has. An answer with no evidence behind it is not checked.

`Cites` and `NamesPolicy` say what a citation and an id in it are without reference to a
matcher. `cited_policy_supplied` is what the check is for : when it finds nothing
fabricated, every policy an answer cites is one the evidence comes from.
-/

namespace EnterpriseRag

/-- `_CITATION_PATTERN`. -/
def citationPattern : Regex :=
  .seq (.char (· = '[')) (.seq (.many (!isBracket ·) 1) (.char (· = ']')))

def policyPrefix : List Char :=
  ['B', 'N', 'K', '-', 'P', 'O', 'L', '-']

/-- `_POLICY_ID_PATTERN`. -/
def policyIdPattern : Regex :=
  .seq (.literal (fun c d => d = c) policyPrefix) (.many isDecimal 1)

/-- `_PAGE_PATTERN`, which ignores case. -/
def pagePattern : Regex :=
  let letters := Regex.literal fun c d => d.toLower = c
  .seq (letters ['p']) (.seq (.opt (letters ['a', 'g', 'e'])) (.seq (.opt (.char (· = '.')))
    (.seq (.many isSpace 0) (.many isDecimal 1))))

def policyIds (text : List Char) : List (List Char) :=
  policyIdPattern.findAll text

/-- The id is in the source of the chunk. -/
def suppliesPolicy (id : List Char) (item : EvidenceChunk) : Bool :=
  id ∈ policyIds item.source.toList

/-- The bracket names a source or a URL, or part of one. -/
def namesSource (stripped : List Char) (available : String) : Bool :=
  available ≠ "" && (available.toList <:+: stripped || stripped <:+: available.toList)

/-- The chunks a bracket matches, unless it is fabricated. -/
def matchedItems (evidence : List EvidenceChunk) (stripped : List Char) :
    Option (List EvidenceChunk) :=
  let citedIds := policyIds stripped
  if citedIds ≠ [] then
    if citedIds.any fun id => evidence.all fun item => !suppliesPolicy id item then none
    else some (citedIds.flatMap fun id => evidence.filter (suppliesPolicy id))
  else
    let items := evidence.filter fun item =>
      namesSource stripped item.source || item.canonicalUrl.any (namesSource stripped)
    if items = [] then none else some items

/-- The longest text `int` converts. -/
def maxIntDigits : ℕ := 4300

/-- The bracket names a page that none of the chunks it matches has. -/
def pageFabricated (items : List EvidenceChunk) (stripped : List Char) : Except Raised Bool :=
  match (pagePattern.findAll stripped).head? with
  | none => .ok false
  | some page =>
    let digits := (page.reverse.takeWhile isDecimal).reverse
    if maxIntDigits < digits.length then .error (.exception "ValueError")
    else
      let knownPages := items.filterMap (·.pageNumber)
      .ok (knownPages ≠ [] && ((intOfDigits digits : ℤ) ∉ knownPages))

def bracketFabricated (evidence : List EvidenceChunk) (stripped : List Char) :
    Except Raised Bool :=
  match matchedItems evidence stripped with
  | none => .ok true
  | some items => pageFabricated items stripped

/-- The texts of the brackets of an answer. -/
def brackets (answer : String) : List (List Char) :=
  (citationPattern.findAll answer.toList).map fun u => u.tail.dropLast

/-- The fabricated ones among the brackets. An empty bracket is passed over. -/
def fabricatedAmong (evidence : List EvidenceChunk) :
    List (List Char) → Except Raised (List (List Char))
  | [] => .ok []
  | bracket :: rest =>
    let stripped := strip bracket
    if stripped = [] then fabricatedAmong evidence rest
    else do
      let fabricated ← bracketFabricated evidence stripped
      let others ← fabricatedAmong evidence rest
      return if fabricated then stripped :: others else others

/-- `find_fabricated_citations`. -/
def findFabricatedCitations (answer : String) (evidence : List EvidenceChunk) :
    Except Raised (List String) :=
  if evidence = [] then .ok []
  else do
    let fabricated ← fabricatedAmong evidence (brackets answer)
    return (fabricated.map String.ofList).eraseDups

/-- A page number that is too long is all that the check raises for. -/
theorem eq_of_fabricatedAmong {evidence : List EvidenceChunk} {e : Raised} :
    ∀ {contents : List (List Char)}, fabricatedAmong evidence contents = .error e →
      e = .exception "ValueError"
  | bracket :: rest, h => by
    rw [fabricatedAmong] at h
    split at h
    · exact eq_of_fabricatedAmong h
    rcases bind_eq_error.1 h with h | ⟨fabricated, -, h⟩
    · unfold bracketFabricated pageFabricated at h
      split at h
      · exact nomatch h
      · split at h
        · exact nomatch h
        · dsimp only at h
          split at h
          · exact (Except.error.inj h).symm
          · exact nomatch h
    · rcases bind_eq_error.1 h with h | ⟨others, -, h⟩
      · exact eq_of_fabricatedAmong h
      · exact nomatch h

theorem isException_of_findFabricatedCitations {answer : String} {evidence : List EvidenceChunk}
    {e : Raised} (h : findFabricatedCitations answer evidence = .error e) :
    e.isException = true := by
  unfold findFabricatedCitations at h
  split at h
  · exact nomatch h
  · rcases bind_eq_error.1 h with h | ⟨fabricated, -, h⟩
    · rw [eq_of_fabricatedAmong h]
      rfl
    · exact nomatch h

/-! ## What the brackets cite -/

/-- The text stands in brackets in the answer, and holds no bracket itself. -/
def Cites (answer : String) (content : List Char) : Prop :=
  ∃ pre post, answer.toList = pre ++ ('[' :: (content ++ [']']) ++ post) ∧ content ≠ [] ∧
    ∀ c ∈ content, isBracket c = false

/-- The id stands in the text, with all of its digits. -/
def NamesPolicy (text id : List Char) : Prop :=
  ∃ pre digits post, text = pre ++ (policyPrefix ++ digits ++ post) ∧
    id = policyPrefix ++ digits ∧ digits ≠ [] ∧ (∀ c ∈ digits, isDecimal c = true) ∧
    ∀ c ∈ post.head?, isDecimal c = false

/-- An id names itself. -/
theorem namesPolicy_self {digits : List Char} (hne : digits ≠ [])
    (h : digits.all isDecimal = true) :
    NamesPolicy (policyPrefix ++ digits) (policyPrefix ++ digits) :=
  ⟨[], digits, [], by simp, rfl, hne, List.all_eq_true.1 h, by simp⟩

theorem takeWhile_append_of_all {p : Char → Bool} {l post : List Char} (hl : ∀ c ∈ l, p c = true)
    (hpost : ∀ c ∈ post.head?, p c = false) : (l ++ post).takeWhile p = l := by
  rw [List.takeWhile_append_of_pos hl]
  cases post with
  | nil => simp
  | cons c post => simp [hpost c rfl]

/-- What the pattern of citations matches. -/
theorem exists_of_mem_citationPattern {before : Option Char} {cs u : List Char}
    (h : u ∈ citationPattern.matchesAt before cs) :
    ∃ content, u = '[' :: (content ++ [']']) ∧ content ≠ [] ∧
      ∀ c ∈ content, isBracket c = false := by
  obtain ⟨left, hleft, rest, hrest, rfl⟩ := Regex.mem_matchesAt_seq.1 h
  obtain ⟨content, hcontent, right, hright, rfl⟩ := Regex.mem_matchesAt_seq.1 hrest
  obtain ⟨c, rfl, hc⟩ := Regex.exists_of_mem_matchesAt_char hleft
  obtain ⟨d, rfl, hd⟩ := Regex.exists_of_mem_matchesAt_char hright
  obtain rfl := of_decide_eq_true hc
  obtain rfl := of_decide_eq_true hd
  refine ⟨content, rfl, ?_, fun e he => ?_⟩
  · have hlength := Regex.length_of_mem_runs hcontent
    exact List.ne_nil_of_length_pos hlength
  · have hclass := Regex.forall_mem_of_mem_runs (fun _ h => h) hcontent e he
    simpa using hclass

/-- What the pattern of policy ids matches. -/
theorem exists_of_mem_policyIdPattern {before : Option Char} {cs u : List Char}
    (h : u ∈ policyIdPattern.matchesAt before cs) :
    ∃ digits, u = policyPrefix ++ digits ∧ digits ≠ [] ∧ ∀ c ∈ digits, isDecimal c = true := by
  obtain ⟨v, hv, digits, hdigits, rfl⟩ := Regex.mem_matchesAt_seq.1 h
  obtain rfl := Regex.eq_of_mem_matchesAt_literal hv
  exact ⟨digits, rfl, List.ne_nil_of_length_pos (Regex.length_of_mem_runs hdigits),
    Regex.forall_mem_of_mem_runs (fun _ h => h) hdigits⟩

theorem mem_brackets_of_cites {answer : String} {content : List Char} (h : Cites answer content) :
    content ∈ brackets answer := by
  obtain ⟨pre, post, hanswer, hne, hcontent⟩ := h
  have hlongest : (content ++ ([']'] ++ post)).takeWhile (!isBracket ·) = content := by
    refine takeWhile_append_of_all (fun c hc => by simp [hcontent c hc]) fun c hc => ?_
    obtain rfl := Option.some.inj hc
    rfl
  have hlength : 1 ≤ content.length := List.length_pos_of_ne_nil hne
  have hhead : (citationPattern.matchesAt (Regex.lastOf none pre)
      ('[' :: (content ++ [']']) ++ post)).head? = some ('[' :: (content ++ [']'])) := by
    refine Regex.head?_matchesAt_seq (u := ['[']) rfl ?_
    refine Regex.head?_matchesAt_seq (u := content) (v := [']']) ?_ ?_
    · rw [List.cons_append, List.length_singleton, List.drop_succ_cons, List.drop_zero,
        List.append_assoc, Regex.matchesAt, Regex.head?_runs (by rwa [hlongest]), hlongest]
    · rw [List.cons_append, List.length_singleton, List.drop_succ_cons, List.drop_zero,
        List.append_assoc, List.drop_left]
      rfl
  have htail : ∀ before cs v, v ∈ citationPattern.matchesAt before cs → '[' ∉ v.tail := by
    intro before cs v hv
    obtain ⟨x, rfl, -, hx⟩ := exists_of_mem_citationPattern hv
    rw [List.tail_cons, List.mem_append]
    rintro (hmem | hmem)
    · exact absurd (hx _ hmem) (by decide)
    · exact absurd (List.mem_singleton.1 hmem) (by decide)
  have hfound := Regex.hit_mem_pieces hhead htail
  rw [← hanswer] at hfound
  refine List.mem_map.2 ⟨_, Regex.mem_findAll.2 hfound, ?_⟩
  simp

theorem mem_policyIds_of_namesPolicy {text id : List Char} (h : NamesPolicy text id) :
    id ∈ policyIds text := by
  obtain ⟨pre, digits, post, rfl, rfl, hne, hdigits, hpost⟩ := h
  have hlongest : (digits ++ post).takeWhile isDecimal = digits :=
    takeWhile_append_of_all hdigits hpost
  have hhead : (policyIdPattern.matchesAt (Regex.lastOf none pre)
      (policyPrefix ++ digits ++ post)).head? = some (policyPrefix ++ digits) := by
    refine Regex.head?_matchesAt_seq ?_ ?_
    · rw [List.append_assoc, Regex.matchesAt_literal_append]
      rfl
    · rw [List.append_assoc, List.drop_left, Regex.matchesAt_many, Regex.head?_runs, hlongest]
      rw [hlongest]
      exact List.length_pos_of_ne_nil hne
  have htail : ∀ before cs v, v ∈ policyIdPattern.matchesAt before cs → 'B' ∉ v.tail := by
    intro before cs v hv
    obtain ⟨x, rfl, -, hx⟩ := exists_of_mem_policyIdPattern hv
    rw [policyPrefix, List.cons_append, List.tail_cons, List.mem_append]
    rintro (hmem | hmem)
    · exact absurd hmem (by decide)
    · exact absurd (hx _ hmem) (by decide)
  exact Regex.mem_findAll.2 (Regex.hit_mem_pieces hhead htail)

theorem NamesPolicy.strip {text id : List Char} (h : NamesPolicy text id) :
    NamesPolicy (strip text) id := by
  obtain ⟨pre, digits, post, rfl, rfl, hne, hdigits, hpost⟩ := h
  have hid : policyPrefix ++ digits ≠ [] := by simp [policyPrefix]
  obtain ⟨pre', post', -, hprefixed, hstrip⟩ := exists_strip_append pre post hid
    (fun c hc => by
      obtain rfl := Option.some.inj hc
      decide)
    (fun c hc => by
      rw [List.getLast?_append_of_ne_nil _ hne] at hc
      exact isSpace_of_isDecimal (hdigits c (List.mem_of_getLast? hc)))
  refine ⟨pre', digits, post', hstrip, rfl, hne, hdigits, fun c hc => hpost c ?_⟩
  obtain ⟨rest, rfl⟩ := hprefixed
  obtain ⟨post'', rfl⟩ := List.head?_eq_some_iff.1 hc
  rfl

theorem NamesPolicy.ne_nil {text id : List Char} (h : NamesPolicy text id) : text ≠ [] := by
  obtain ⟨pre, digits, post, rfl, -⟩ := h
  simp [policyPrefix]

/-! ## What the check is for -/

theorem mem_of_fabricatedAmong {evidence : List EvidenceChunk} {bracket : List Char}
    (hne : EnterpriseRag.strip bracket ≠ [])
    (hfabricated : bracketFabricated evidence (EnterpriseRag.strip bracket) = .ok true) :
    ∀ {brackets fabricated : List (List Char)}, fabricatedAmong evidence brackets = .ok fabricated →
      bracket ∈ brackets → EnterpriseRag.strip bracket ∈ fabricated
  | [], _, _, h => by simp at h
  | other :: rest, fabricated, h, hmem => by
    rw [fabricatedAmong] at h
    split at h
    · rename_i hempty
      rcases List.mem_cons.1 hmem with rfl | hmem
      · exact absurd hempty hne
      · exact mem_of_fabricatedAmong hne hfabricated h hmem
    · obtain ⟨isFabricated, hother, h⟩ := bind_eq_ok.1 h
      obtain ⟨others, hothers, h⟩ := bind_eq_ok.1 h
      obtain rfl := Except.ok.inj h
      rcases List.mem_cons.1 hmem with rfl | hmem
      · obtain rfl := Except.ok.inj (hother.symm.trans hfabricated)
        simp
      · have ih := mem_of_fabricatedAmong hne hfabricated hothers hmem
        split
        · exact List.mem_cons_of_mem _ ih
        · exact ih

/-- A bracket with an id that no source has is fabricated. -/
theorem bracketFabricated_of_unsupplied {evidence : List EvidenceChunk} {stripped id : List Char}
    (hid : id ∈ policyIds stripped) (h : ∀ item ∈ evidence, suppliesPolicy id item = false) :
    bracketFabricated evidence stripped = .ok true := by
  have hcited : policyIds stripped ≠ [] := List.ne_nil_of_mem hid
  have hunsupplied : ((policyIds stripped).any fun id =>
      evidence.all fun item => !suppliesPolicy id item) = true :=
    List.any_eq_true.2 ⟨id, hid, List.all_eq_true.2 fun item hitem => by simp [h item hitem]⟩
  rw [bracketFabricated, matchedItems]
  simp only [if_pos hcited, if_pos hunsupplied]

/-- If nothing is fabricated, every policy the answer cites is in the source of some
evidence. -/
theorem cited_policy_supplied {answer : String} {evidence : List EvidenceChunk}
    {content id : List Char} (hne : evidence ≠ [])
    (h : findFabricatedCitations answer evidence = .ok []) (hcites : Cites answer content)
    (hnames : NamesPolicy content id) : ∃ item ∈ evidence, id <:+: item.source.toList := by
  have hid := mem_policyIds_of_namesPolicy hnames.strip
  rw [findFabricatedCitations, if_neg hne] at h
  obtain ⟨fabricated, hfabricated, h⟩ := bind_eq_ok.1 h
  have hnone : fabricated = [] := by
    have h := Except.ok.inj h
    cases fabricated with
    | nil => rfl
    | cons x xs => simp [List.eraseDups_cons] at h
  by_contra hnot
  have hunsupplied : ∀ item ∈ evidence, suppliesPolicy id item = false := by
    intro item hitem
    by_contra hsupplies
    rw [Bool.not_eq_false, suppliesPolicy, decide_eq_true_eq] at hsupplies
    exact hnot ⟨item, hitem, Regex.isInfix_of_mem_findAll hsupplies⟩
  have hmem := mem_of_fabricatedAmong hnames.strip.ne_nil
    (bracketFabricated_of_unsupplied hid hunsupplied) hfabricated (mem_brackets_of_cites hcites)
  rw [hnone] at hmem
  simp at hmem

end EnterpriseRag
