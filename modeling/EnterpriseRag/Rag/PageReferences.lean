import EnterpriseRag.Library.RegexSearch
import EnterpriseRag.Rag.Citations

/-!
# Page references

A citation may name several policies and several pages. `Attached` is what the text of a
bracket says : the word for a page and a number stand in it, and the policy is the last one
named before them. The check of citations reads the first number behind a `p` and looks for
it among the pages of all the policies of the bracket.

`pages_checked_iff` says when the two agree. A reference is `Missed` if the number the check
reads is a page of another policy or belongs to another reference, and a bracket is `Framed`
if the check reads a number that is no reference.
-/

namespace EnterpriseRag

/-! ## What the matchers find -/

theorem cites_iff {answer : String} {content : List Char} :
    content ∈ brackets answer ↔ Cites answer content := by
  refine ⟨fun h => ?_, mem_brackets_of_cites⟩
  obtain ⟨u, hu, rfl⟩ := List.mem_map.1 h
  obtain ⟨-, before, rest, hmatch⟩ := Regex.exists_of_hit_mem (Regex.mem_findAll.1 hu)
  obtain ⟨content, rfl, hne, hcontent⟩ := exists_of_mem_citationPattern hmatch
  obtain ⟨pre, post, hanswer⟩ := Regex.isInfix_of_mem_findAll hu
  refine ⟨pre, post, ?_, by simpa using hne, by simpa using hcontent⟩
  simpa using hanswer.symm

theorem nil_not_mem_policyIdPattern (before : Option Char) (cs : List Char) :
    [] ∉ policyIdPattern.matchesAt before cs := by
  intro h
  obtain ⟨digits, hnil, -⟩ := exists_of_mem_policyIdPattern h
  exact nomatch hnil

/-- The ids of a text are those that stand in it with all of their digits. -/
theorem mem_policyIds_iff {text id : List Char} : id ∈ policyIds text ↔ NamesPolicy text id := by
  refine ⟨fun h => ?_, mem_policyIds_of_namesPolicy⟩
  obtain ⟨front, back, hsplit⟩ := List.append_of_mem (Regex.mem_findAll.1 h)
  have hhead := Regex.head?_of_hit nil_not_mem_policyIdPattern hsplit
  have htext : text = front.flatMap Regex.Piece.text ++ (id ++ back.flatMap Regex.Piece.text) := by
    rw [← Regex.text_pieces policyIdPattern text, hsplit, List.flatMap_append, List.flatMap_cons]
    rfl
  generalize front.flatMap Regex.Piece.text = pre at hhead htext
  generalize back.flatMap Regex.Piece.text = post at hhead htext
  obtain ⟨digits, rfl, hne, hdigits⟩ := exists_of_mem_policyIdPattern (List.mem_of_head? hhead)
  refine ⟨pre, digits, post, htext, rfl, hne, hdigits, fun c hc => ?_⟩
  by_contra hdecimal
  -- otherwise the match would go on with that digit
  obtain ⟨post', rfl⟩ := List.head?_eq_some_iff.1 hc
  have hlongest : (policyIdPattern.matchesAt (Regex.lastOf none pre)
      (policyPrefix ++ digits ++ c :: post')).head? =
        some (policyPrefix ++ (digits ++ c :: post').takeWhile isDecimal) := by
    refine Regex.head?_matchesAt_seq ?_ ?_
    · rw [List.append_assoc, Regex.matchesAt_literal_append]
      rfl
    · rw [List.append_assoc, List.drop_left, Regex.matchesAt_many, Regex.head?_runs]
      rw [List.takeWhile_append_of_pos hdigits, List.length_append]
      exact Nat.le_add_right_of_le (List.length_pos_of_ne_nil hne)
  have hsame := List.append_cancel_left (Option.some.inj (hhead.symm.trans hlongest))
  have hlength := congrArg List.length hsame
  rw [List.takeWhile_append_of_pos hdigits, List.takeWhile_cons_of_pos (by simpa using hdecimal),
    List.length_append, List.length_cons] at hlength
  omega

/-- An id stays one of a text that goes on with something else than a digit. -/
theorem mem_policyIds_append {text tail id : List Char} (h : id ∈ policyIds text)
    (htail : ∀ c ∈ tail.head?, isDecimal c = false) : id ∈ policyIds (text ++ tail) := by
  rw [mem_policyIds_iff] at h ⊢
  obtain ⟨pre, digits, post, rfl, rfl, hne, hdigits, hpost⟩ := h
  refine ⟨pre, digits, post ++ tail, by simp, rfl, hne, hdigits, fun c hc => ?_⟩
  cases post with
  | nil => exact htail c hc
  | cons d post => exact hpost c hc

/-! ## The references of a bracket -/

/-- `p`, `p.` or `page`, in either case. -/
def IsPageWord (word : List Char) : Prop :=
  ∃ c rest, word = c :: rest ∧ c.toLower = 'p' ∧
    (rest = [] ∨ rest = ['.'] ∨ rest.map Char.toLower = ['a', 'g', 'e'])

/-- The bracket refers to the page `n` of the policy `id` : the word for a page and the number
stand in it, and `id` is the last id before them. -/
def Attached (isWord : Char → Bool) (bracket id : List Char) (n : ℕ) : Prop :=
  ∃ pre word gap digits post, bracket = pre ++ (word ++ (gap ++ (digits ++ post))) ∧
    IsPageWord word ∧ (∀ c ∈ pre.getLast?, isWord c = false) ∧ (∀ c ∈ gap, isSpace c = true) ∧
    digits ≠ [] ∧ (∀ c ∈ digits, isDecimal c = true) ∧ (∀ c ∈ post.head?, isDecimal c = false) ∧
    n = intOfDigits digits ∧ (policyIds pre).getLast? = some id

/-- The evidence has a chunk of the policy. -/
def SuppliesPolicy (evidence : List EvidenceChunk) (id : List Char) : Prop :=
  ∃ item ∈ evidence, suppliesPolicy id item = true

/-- The evidence has a chunk of the policy from that page. -/
def SuppliesPage (evidence : List EvidenceChunk) (id : List Char) (n : ℕ) : Prop :=
  ∃ item ∈ evidence, suppliesPolicy id item = true ∧ item.pageNumber = some n

/-- The page of some chunk of the policy is known. -/
def KnowsPages (evidence : List EvidenceChunk) (id : List Char) : Prop :=
  ∃ item ∈ evidence, suppliesPolicy id item = true ∧ item.pageNumber.isSome

/-- Fabricated pages are caught, and a bracket with nothing but supplied policies and pages is
not flagged. -/
def PagesChecked (isWord : Char → Bool) (evidence : List EvidenceChunk) (answer : String) : Prop :=
  ∃ flagged, findFabricatedCitations answer evidence = .ok flagged ∧
    ∀ content, Cites answer content →
      (∀ id n, Attached isWord (strip content) id n → KnowsPages evidence id →
        ¬SuppliesPage evidence id n → String.ofList (strip content) ∈ flagged) ∧
      (policyIds (strip content) ≠ [] →
        (∀ id ∈ policyIds (strip content), SuppliesPolicy evidence id) →
        (∀ id n, Attached isWord (strip content) id n → SuppliesPage evidence id n) →
          String.ofList (strip content) ∉ flagged)

/-! ## What the check reads -/

/-- The digits that the check reads : the first that follow a `p`. -/
def leadingDigits (bracket : List Char) : Option (List Char) :=
  (pagePattern.findAll bracket).head?.map fun page => (page.reverse.takeWhile isDecimal).reverse

/-- A policy of the bracket has a chunk from that page. -/
def PooledPage (evidence : List EvidenceChunk) (bracket : List Char) (n : ℕ) : Prop :=
  ∃ id ∈ policyIds bracket, SuppliesPage evidence id n

/-- A reference is wrong, and the check reads a page of one of the policies. -/
def Missed (isWord : Char → Bool) (evidence : List EvidenceChunk) (bracket : List Char) : Prop :=
  ∃ digits ∈ leadingDigits bracket, PooledPage evidence bracket (intOfDigits digits) ∧
    ∃ id n, Attached isWord bracket id n ∧ KnowsPages evidence id ∧ ¬SuppliesPage evidence id n

/-- Every reference is right, and the check reads a number that is none of them and no page of
the policies. -/
def Framed (isWord : Char → Bool) (evidence : List EvidenceChunk) (bracket : List Char) : Prop :=
  ∃ digits ∈ leadingDigits bracket, (∀ id, ¬Attached isWord bracket id (intOfDigits digits)) ∧
    ¬PooledPage evidence bracket (intOfDigits digits) ∧
    (∃ id ∈ policyIds bracket, KnowsPages evidence id) ∧
    ∀ id n, Attached isWord bracket id n → SuppliesPage evidence id n

/-- The number that the check reads, if it comes to that, is one that `int` converts. -/
def Convertible (evidence : List EvidenceChunk) (bracket : List Char) : Prop :=
  bracket ≠ [] → (matchedItems evidence bracket).isSome →
    ∀ digits ∈ leadingDigits bracket, digits.length ≤ maxIntDigits

variable {isWord : Char → Bool} {evidence : List EvidenceChunk} {bracket id : List Char} {n : ℕ}

theorem pageFabricated_eq {items : List EvidenceChunk} : pageFabricated items bracket =
    match leadingDigits bracket with
    | none => .ok false
    | some digits =>
      if maxIntDigits < digits.length then .error (.exception "ValueError")
      else .ok (items.filterMap (·.pageNumber) ≠ [] &&
        (intOfDigits digits : ℤ) ∉ items.filterMap (·.pageNumber)) := by
  rw [pageFabricated, leadingDigits]
  cases (pagePattern.findAll bracket).head? <;> rfl

theorem exists_bracketFabricated_iff (hne : bracket ≠ []) :
    (∃ flag, bracketFabricated evidence bracket = .ok flag) ↔ Convertible evidence bracket := by
  rw [bracketFabricated, Convertible]
  cases hitems : matchedItems evidence bracket with
  | none => simp
  | some items =>
    simp only [pageFabricated_eq, Option.isSome_some, forall_const, hne, ne_eq, not_false_eq_true]
    cases leadingDigits bracket with
    | none => simp
    | some digits =>
      simp only [Option.mem_some_iff, forall_eq']
      by_cases hlong : maxIntDigits < digits.length
      · simp [hlong, not_le.2 hlong]
      · simp [hlong, not_lt.1 hlong]

theorem matchedItems_of_supplied (hne : policyIds bracket ≠ [])
    (hsupplied : ∀ id ∈ policyIds bracket, SuppliesPolicy evidence id) :
    matchedItems evidence bracket =
      some ((policyIds bracket).flatMap fun id => evidence.filter (suppliesPolicy id)) := by
  have hall : ¬((policyIds bracket).any fun id =>
      evidence.all fun item => !suppliesPolicy id item) = true := by
    intro hany
    obtain ⟨id, hid, hnone⟩ := List.any_eq_true.1 hany
    obtain ⟨item, hitem, hsupplies⟩ := hsupplied id hid
    have hnot := List.all_eq_true.1 hnone item hitem
    rw [hsupplies] at hnot
    exact nomatch hnot
  rw [matchedItems]
  simp only [if_pos hne, if_neg hall]

theorem mem_pooled_iff {z : ℤ} :
    z ∈ ((policyIds bracket).flatMap fun id => evidence.filter (suppliesPolicy id)).filterMap
      (·.pageNumber) ↔
        ∃ id ∈ policyIds bracket, ∃ item ∈ evidence, suppliesPolicy id item = true ∧
          item.pageNumber = some z := by
  rw [List.mem_filterMap]
  constructor
  · rintro ⟨item, hitem, hpage⟩
    obtain ⟨id, hid, hitem⟩ := List.mem_flatMap.1 hitem
    obtain ⟨hitem, hsupplies⟩ := List.mem_filter.1 hitem
    exact ⟨id, hid, item, hitem, hsupplies, hpage⟩
  · rintro ⟨id, hid, item, hitem, hsupplies, hpage⟩
    exact ⟨item, List.mem_flatMap.2 ⟨id, hid, List.mem_filter.2 ⟨hitem, hsupplies⟩⟩, hpage⟩

theorem ne_nil_of_policyIds (hne : policyIds bracket ≠ []) : bracket ≠ [] := by
  rintro rfl
  exact hne rfl

/-- A bracket of supplied policies is flagged for the number that the check reads. -/
theorem bracketFabricated_eq_true_iff (hne : policyIds bracket ≠ [])
    (hsupplied : ∀ id ∈ policyIds bracket, SuppliesPolicy evidence id)
    (hconvertible : Convertible evidence bracket) (hbracket : bracket ≠ []) :
    bracketFabricated evidence bracket = .ok true ↔
      ∃ digits ∈ leadingDigits bracket, ¬PooledPage evidence bracket (intOfDigits digits) ∧
        ∃ id ∈ policyIds bracket, KnowsPages evidence id := by
  have hitems := matchedItems_of_supplied hne hsupplied
  have hlength := hconvertible hbracket (by rw [hitems]; rfl)
  rw [bracketFabricated, hitems]
  dsimp only
  rw [pageFabricated_eq]
  cases hdigits : leadingDigits bracket with
  | none => simp
  | some digits =>
    have hshort := not_lt.2 (hlength digits hdigits)
    have hknown : ((policyIds bracket).flatMap fun id =>
        evidence.filter (suppliesPolicy id)).filterMap (·.pageNumber) ≠ [] ↔
          ∃ id ∈ policyIds bracket, KnowsPages evidence id := by
      constructor
      · intro hne
        obtain ⟨z, hz⟩ := List.exists_mem_of_ne_nil _ hne
        obtain ⟨id, hid, item, hitem, hsupplies, hpage⟩ := mem_pooled_iff.1 hz
        exact ⟨id, hid, item, hitem, hsupplies, by rw [hpage]; rfl⟩
      · rintro ⟨id, hid, item, hitem, hsupplies, hpage⟩
        obtain ⟨z, hz⟩ := Option.isSome_iff_exists.1 hpage
        exact List.ne_nil_of_mem (mem_pooled_iff.2 ⟨id, hid, item, hitem, hsupplies, hz⟩)
    dsimp only
    rw [if_neg hshort, Except.ok.injEq, Bool.and_eq_true, decide_eq_true_eq, decide_eq_true_eq,
      hknown, mem_pooled_iff]
    constructor
    · rintro ⟨hknows, hpage⟩
      exact ⟨digits, rfl, hpage, hknows⟩
    · rintro ⟨_, hsame, hpage, hknows⟩
      obtain rfl := Option.some.inj hsame
      exact ⟨hknows, hpage⟩

/-! ## The list of the fabricated ones -/

theorem exists_fabricatedAmong_iff : ∀ {contents : List (List Char)},
    (∃ fabricated, fabricatedAmong evidence contents = .ok fabricated) ↔
      ∀ content ∈ contents, Convertible evidence (strip content)
  | [] => by simp [fabricatedAmong]
  | content :: rest => by
    rw [fabricatedAmong, List.forall_mem_cons]
    by_cases hempty : strip content = []
    · have hconvertible : Convertible evidence (strip content) := fun hne => absurd hempty hne
      rw [if_pos hempty, exists_fabricatedAmong_iff]
      exact ⟨fun h => ⟨hconvertible, h⟩, fun h => h.2⟩
    · rw [if_neg hempty, ← exists_bracketFabricated_iff hempty, ← exists_fabricatedAmong_iff]
      constructor
      · rintro ⟨fabricated, h⟩
        obtain ⟨flag, hflag, h⟩ := bind_eq_ok.1 h
        obtain ⟨others, hothers, -⟩ := bind_eq_ok.1 h
        exact ⟨⟨flag, hflag⟩, others, hothers⟩
      · rintro ⟨⟨flag, hflag⟩, others, hothers⟩
        exact ⟨_, bind_eq_ok.2 ⟨flag, hflag, bind_eq_ok.2 ⟨others, hothers, rfl⟩⟩⟩

theorem mem_fabricatedAmong_iff {s : List Char} :
    ∀ {contents fabricated : List (List Char)}, fabricatedAmong evidence contents = .ok fabricated →
      (s ∈ fabricated ↔ s ≠ [] ∧ bracketFabricated evidence s = .ok true ∧
        ∃ content ∈ contents, strip content = s)
  | [], _, h => by
    obtain rfl := Except.ok.inj h
    simp
  | content :: rest, fabricated, h => by
    rw [fabricatedAmong] at h
    split at h
    · rename_i hempty
      rw [mem_fabricatedAmong_iff h, List.exists_mem_cons_iff]
      constructor
      · rintro ⟨hne, htrue, hmem⟩
        exact ⟨hne, htrue, Or.inr hmem⟩
      · rintro ⟨hne, htrue, rfl | hmem⟩
        · exact absurd hempty hne
        · exact ⟨hne, htrue, hmem⟩
    · rename_i hne
      obtain ⟨flag, hflag, h⟩ := bind_eq_ok.1 h
      obtain ⟨others, hothers, h⟩ := bind_eq_ok.1 h
      obtain rfl := Except.ok.inj h
      have ih := mem_fabricatedAmong_iff (s := s) hothers
      rw [List.exists_mem_cons_iff]
      cases flag with
      | true =>
        rw [if_pos rfl, List.mem_cons, ih]
        constructor
        · rintro (rfl | ⟨hs, htrue, hmem⟩)
          · exact ⟨hne, hflag, Or.inl rfl⟩
          · exact ⟨hs, htrue, Or.inr hmem⟩
        · rintro ⟨hs, htrue, rfl | hmem⟩
          · exact Or.inl rfl
          · exact Or.inr ⟨hs, htrue, hmem⟩
      | false =>
        rw [if_neg Bool.false_ne_true, ih]
        constructor
        · rintro ⟨hs, htrue, hmem⟩
          exact ⟨hs, htrue, Or.inr hmem⟩
        · rintro ⟨hs, htrue, rfl | hmem⟩
          · cases hflag.symm.trans htrue
          · exact ⟨hs, htrue, hmem⟩

/-! ## A reference in the text -/

theorem isDecimal_of_toLower {c : Char} (h : c.toLower = 'p') : isDecimal c = false := by
  change dite (c.val ≥ 'A'.val ∧ c.val ≤ 'Z'.val) (fun hupper => Char.mk _ _) (fun _ => c) = 'p' at h
  split at h
  · have hcode : c.val + ('a'.val - 'A'.val) = 'P'.val + ('a'.val - 'A'.val) := congrArg Char.val h
    rw [Char.ext ((UInt32.add_left_inj _).1 hcode)]
    decide
  · rw [h]
    decide

/-- The policy of a reference is one of the bracket's. -/
theorem Attached.mem_policyIds (h : Attached isWord bracket id n) : id ∈ policyIds bracket := by
  obtain ⟨pre, word, gap, digits, post, rfl, hword, -, -, -, -, -, -, hid⟩ := h
  obtain ⟨c, rest, rfl, hc, -⟩ := hword
  refine mem_policyIds_append (List.mem_of_getLast? hid) fun d hd => ?_
  obtain rfl := Option.some.inj hd
  exact isDecimal_of_toLower hc

theorem nil_not_mem_pagePattern (before : Option Char) (cs : List Char) :
    [] ∉ pagePattern.matchesAt before cs := by
  intro h
  obtain ⟨rest, -, hfits⟩ := Regex.mem_matchesAt_iff.1 h
  exact absurd (Regex.least_le_length hfits) (by decide)

/-- Letters fit in either case. -/
theorem fits_letters : ∀ {lit word post : List Char} {before : Option Char},
    word.map Char.toLower = lit →
      (Regex.literal (fun c d => d.toLower = c) lit).Fits before word post
  | [], [], _, _, _ => rfl
  | c :: lit, d :: word, post, before, h => by
    obtain ⟨hc, htail⟩ := List.cons.inj h
    exact ⟨[d], word, rfl, ⟨d, rfl, decide_eq_true hc⟩, fits_letters htail⟩

/-- A word for a page fits in front of a number. -/
theorem fits_pagePattern {word number post : List Char} {before : Option Char}
    (hword : IsPageWord word)
    (h : ∀ before, (Regex.seq (.many isSpace 0) (.many isDecimal 1)).Fits before number post) :
    pagePattern.Fits before (word ++ number) post := by
  obtain ⟨c, rest, rfl, hc, hrest⟩ := hword
  refine ⟨[c], rest ++ number, rfl, fits_letters (congrArg (· :: []) hc), ?_⟩
  rcases hrest with rfl | rfl | hrest
  · exact ⟨[], number, rfl, Or.inr rfl, [], number, rfl, Or.inr rfl, h _⟩
  · exact ⟨[], '.' :: number, rfl, Or.inr rfl, ['.'], number, rfl, Or.inl ⟨'.', rfl, rfl⟩, h _⟩
  · refine ⟨rest, number, rfl, Or.inl ?_, [], number, rfl, Or.inr rfl, h _⟩
    exact fits_letters hrest

/-- Where there is a reference the check reads a number. -/
theorem Attached.exists_leadingDigits (h : Attached isWord bracket id n) :
    ∃ digits, digits ∈ leadingDigits bracket := by
  obtain ⟨pre, word, gap, digits, post, rfl, hword, -, hgap, hne, hdigits, -, -, -⟩ := h
  have hnumber : ∀ before, (Regex.seq (.many isSpace 0) (.many isDecimal 1)).Fits before
      (gap ++ digits) post := fun before =>
    ⟨gap, digits, rfl, ⟨Nat.zero_le _, hgap⟩, List.length_pos_of_ne_nil hne, hdigits⟩
  have hfits : pagePattern.Fits (Regex.lastOf none pre) (word ++ (gap ++ digits)) post :=
    fits_pagePattern hword hnumber
  have hsplit : pre ++ (word ++ (gap ++ (digits ++ post))) =
      pre ++ (word ++ (gap ++ digits) ++ post) := by simp
  obtain ⟨u, hu⟩ := (Regex.exists_hit_iff nil_not_mem_pagePattern).2
    ⟨pre, _, post, hsplit, Regex.mem_matchesAt_append.2 hfits⟩
  have hfound := Regex.mem_findAll.2 hu
  cases hall : pagePattern.findAll (pre ++ (word ++ (gap ++ (digits ++ post)))) with
  | nil =>
    rw [hall] at hfound
    exact nomatch hfound
  | cons page pages =>
    rw [leadingDigits, hall]
    exact ⟨_, rfl⟩

/-! ## When the pages are checked -/

theorem mem_flagged_iff {answer : String} {flagged : List String} {content : List Char}
    (h : findFabricatedCitations answer evidence = .ok flagged) (hevidence : evidence ≠ [])
    (hcites : Cites answer content) :
    String.ofList (strip content) ∈ flagged ↔
      strip content ≠ [] ∧ bracketFabricated evidence (strip content) = .ok true := by
  rw [findFabricatedCitations, if_neg hevidence] at h
  obtain ⟨fabricated, hfabricated, h⟩ := bind_eq_ok.1 h
  obtain rfl := Except.ok.inj h
  rw [List.mem_eraseDups, List.mem_map]
  constructor
  · rintro ⟨s, hs, hsame⟩
    rw [String.ofList_inj] at hsame
    obtain rfl := hsame
    obtain ⟨hne, htrue, -⟩ := (mem_fabricatedAmong_iff hfabricated).1 hs
    exact ⟨hne, htrue⟩
  · rintro ⟨hne, htrue⟩
    exact ⟨_, (mem_fabricatedAmong_iff hfabricated).2
      ⟨hne, htrue, content, cites_iff.2 hcites, rfl⟩, rfl⟩

theorem exists_flagged_iff {answer : String} (hevidence : evidence ≠ []) :
    (∃ flagged, findFabricatedCitations answer evidence = .ok flagged) ↔
      ∀ content, Cites answer content → Convertible evidence (strip content) := by
  simp only [← cites_iff, ← exists_fabricatedAmong_iff, findFabricatedCitations, if_neg hevidence]
  constructor
  · rintro ⟨flagged, h⟩
    obtain ⟨fabricated, hfabricated, -⟩ := bind_eq_ok.1 h
    exact ⟨fabricated, hfabricated⟩
  · rintro ⟨fabricated, hfabricated⟩
    exact ⟨_, bind_eq_ok.2 ⟨fabricated, hfabricated, rfl⟩⟩

/-- The check of an answer catches the fabricated pages and flags no right bracket just when
it can convert the numbers it reads, misses no reference and frames no bracket. -/
theorem pages_checked_iff (hevidence : evidence ≠ []) {answer : String} :
    PagesChecked isWord evidence answer ↔ ∀ content, Cites answer content →
      Convertible evidence (strip content) ∧
        ((∀ id ∈ policyIds (strip content), SuppliesPolicy evidence id) →
          ¬Missed isWord evidence (strip content) ∧ ¬Framed isWord evidence (strip content)) := by
  constructor
  · rintro ⟨flagged, hflagged, hchecked⟩ content hcites
    have hconvertible := (exists_flagged_iff hevidence).1 ⟨flagged, hflagged⟩ content hcites
    refine ⟨hconvertible, fun hsupplied => ?_⟩
    obtain ⟨hcaught, hspared⟩ := hchecked content hcites
    have hmem := mem_flagged_iff hflagged hevidence hcites
    have htrue (hne : policyIds (strip content) ≠ []) :=
      bracketFabricated_eq_true_iff hne hsupplied hconvertible (ne_nil_of_policyIds hne)
    constructor
    · rintro ⟨digits, hdigits, hpooled, id, n, hattached, hknows, hwrong⟩
      have hne := List.ne_nil_of_mem hattached.mem_policyIds
      obtain ⟨-, hflag⟩ := hmem.1 (hcaught id n hattached hknows hwrong)
      obtain ⟨digits', hdigits', hnot, -⟩ := (htrue hne).1 hflag
      obtain rfl := Option.mem_unique hdigits hdigits'
      exact hnot hpooled
    · rintro ⟨digits, hdigits, -, hnot, ⟨id, hid, hknows⟩, hright⟩
      have hne := List.ne_nil_of_mem hid
      exact hspared hne hsupplied hright (hmem.2 ⟨ne_nil_of_policyIds hne,
        (htrue hne).2 ⟨digits, hdigits, hnot, id, hid, hknows⟩⟩)
  · intro h
    obtain ⟨flagged, hflagged⟩ :=
      (exists_flagged_iff hevidence).2 fun content hcites => (h content hcites).1
    refine ⟨flagged, hflagged, fun content hcites => ?_⟩
    obtain ⟨hconvertible, hall⟩ := h content hcites
    have hmem := mem_flagged_iff hflagged hevidence hcites
    constructor
    · intro id n hattached hknows hwrong
      have hid := hattached.mem_policyIds
      have hbracket := ne_nil_of_policyIds (List.ne_nil_of_mem hid)
      by_cases hsupplied : ∀ id ∈ policyIds (strip content), SuppliesPolicy evidence id
      · obtain ⟨digits, hdigits⟩ := hattached.exists_leadingDigits
        refine hmem.2 ⟨hbracket, (bracketFabricated_eq_true_iff (List.ne_nil_of_mem hid) hsupplied
          hconvertible hbracket).2 ⟨digits, hdigits, fun hpooled => ?_, id, hid, hknows⟩⟩
        exact (hall hsupplied).1 ⟨digits, hdigits, hpooled, id, n, hattached, hknows, hwrong⟩
      · obtain ⟨other, hother⟩ := not_forall.1 hsupplied
        obtain ⟨hother, hunsupplied⟩ := Classical.not_imp.1 hother
        refine hmem.2 ⟨hbracket, bracketFabricated_of_unsupplied hother fun item hitem => ?_⟩
        rw [Bool.eq_false_iff]
        exact fun hsupplies => hunsupplied ⟨item, hitem, hsupplies⟩
    · intro hne hsupplied hright hflag
      obtain ⟨-, hflag⟩ := hmem.1 hflag
      obtain ⟨digits, hdigits, hnot, hknows⟩ := (bracketFabricated_eq_true_iff hne hsupplied
        hconvertible (ne_nil_of_policyIds hne)).1 hflag
      refine (hall hsupplied).2 ⟨digits, hdigits, fun id hattached => hnot ?_, hnot, hknows, hright⟩
      exact ⟨id, hattached.mem_policyIds, hright id _ hattached⟩

/-- The first page of the policy on fees. -/
def feesPage : EvidenceChunk where
  text := "The fee is 1%."
  source := "BNK-POL-001_FEES.pdf"
  pageNumber := some 1
  retrievalScore := 1
  origin := .policy

theorem pages_checked_fees :
    PagesChecked (fun c => c.isAlphanum || c = '_') [feesPage] "The fee is 1% [BNK-POL-001]." := by
  refine (pages_checked_iff (List.cons_ne_nil _ _)).2 fun content hcites => ?_
  have hbrackets : brackets "The fee is 1% [BNK-POL-001]." = ["BNK-POL-001".toList] := by
    decide +kernel
  have hnone : leadingDigits (strip "BNK-POL-001".toList) = none := by decide +kernel
  obtain rfl : content = "BNK-POL-001".toList := by
    have hmem := cites_iff.2 hcites
    rw [hbrackets] at hmem
    exact List.mem_singleton.1 hmem
  rw [Convertible, Missed, Framed, hnone]
  simp

/-- A page behind the first one is not checked. -/
theorem second_page_unchecked :
    ¬PagesChecked (fun c => c.isAlphanum || c = '_') [feesPage]
      "The fee is 1% [BNK-POL-001, p. 1, p. 999]." := by
  rintro ⟨flagged, hflagged, hchecked⟩
  have hnone : findFabricatedCitations "The fee is 1% [BNK-POL-001, p. 1, p. 999]." [feesPage] =
      .ok [] := by decide +kernel
  obtain rfl := Except.ok.inj (hnone.symm.trans hflagged)
  have hcites : Cites "The fee is 1% [BNK-POL-001, p. 1, p. 999]."
      "BNK-POL-001, p. 1, p. 999".toList := cites_iff.1 (by decide +kernel)
  refine absurd ((hchecked _ hcites).1 "BNK-POL-001".toList 999 ?_ ?_ ?_) List.not_mem_nil
  · have hbefore : "BNK-POL-001, p. 1, ".toList.getLast? = some ' ' := by decide +kernel
    have hdigits : ['9', '9', '9'].all isDecimal = true := by decide +kernel
    refine ⟨"BNK-POL-001, p. 1, ".toList, "p.".toList, [' '], ['9', '9', '9'], [],
      by decide +kernel, ⟨'p', ['.'], by decide +kernel⟩, fun c hc => ?_,
      List.forall_mem_singleton.2 (by decide), List.cons_ne_nil _ _, List.all_eq_true.1 hdigits,
      by simp, by decide +kernel, by decide +kernel⟩
    obtain rfl := Option.some.inj (hbefore.symm.trans hc)
    rfl
  · exact ⟨feesPage, List.mem_singleton_self _, by decide +kernel, rfl⟩
  · rintro ⟨item, hitem, -, hpage⟩
    obtain rfl := List.mem_singleton.1 hitem
    exact absurd hpage (by decide)

end EnterpriseRag
