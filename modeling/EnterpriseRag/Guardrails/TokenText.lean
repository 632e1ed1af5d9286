import EnterpriseRag.Guardrails.CleanText

/-!
# Tokens in a normal form

`Stands` says that a token has separators or the ends of the text on both sides. A token of
plain ASCII characters between spaces is still a token in the normal form
(`stands_normalForm`) : each step of the normalization keeps it and what stands beside it.
-/

namespace EnterpriseRag

/-- What the Unicode database has for ASCII characters : the normal form leaves ASCII text
alone and does not combine anything with a space. -/
structure UnicodeData.AsciiLaws (u : UnicodeData) : Prop where
  nfkc_ascii : ∀ text : List Char, (∀ c ∈ text, c.toNat < 128) → u.nfkc text = text
  nfkc_space : ∀ text rest : List Char,
    u.nfkc (text ++ ' ' :: rest) = u.nfkc text ++ ' ' :: u.nfkc rest
  isPrintable : ∀ c, ' ' ≤ c → c ≤ '~' → u.isPrintable c = true
  isWord_alphanum : ∀ c : Char, c.isAlphanum = true → u.isWord c = true
  isWord_blank : ∀ c ∈ [' ', '\n'], u.isWord c = false

/-- The token stands in the text, with separators or the ends of the text beside it. -/
def Stands (separators token text : List Char) : Prop :=
  ∃ pre post, text = pre ++ (token ++ post) ∧ (∀ c ∈ pre.getLast?, c ∈ separators) ∧
    ∀ c ∈ post.head?, c ∈ separators

namespace Stands

variable {separators separators' token text : List Char}

theorem refl (separators token : List Char) : Stands separators token token :=
  ⟨[], [], by simp, by simp, by simp⟩

theorem trans {part : List Char} (h : Stands separators part token)
    (h' : Stands separators' token text) : Stands (separators ++ separators') part text := by
  obtain ⟨pre, post, rfl, hpre, hpost⟩ := h
  obtain ⟨pre', post', rfl, hpre', hpost'⟩ := h'
  refine ⟨pre' ++ pre, post ++ post', by simp, fun c hc => ?_, fun c hc => ?_⟩
  · rcases List.eq_nil_or_concat' pre with rfl | ⟨front, d, rfl⟩
    · rw [List.append_nil] at hc
      exact List.mem_append_right _ (hpre' c hc)
    · rw [← List.append_assoc, List.getLast?_concat] at hc
      exact List.mem_append_left _ (hpre c (by rwa [List.getLast?_concat]))
  · cases post with
    | nil => exact List.mem_append_right _ (hpost' c hc)
    | cons d post => exact List.mem_append_left _ (hpost c hc)

/-- Dropping other characters keeps a token between spaces. -/
theorem filter {p : Char → Bool} (h : Stands [' '] token text) (htoken : ∀ c ∈ token, p c = true)
    (hspace : p ' ' = true) : Stands [' '] token (text.filter p) := by
  obtain ⟨pre, post, rfl, hpre, hpost⟩ := h
  refine ⟨pre.filter p, post.filter p, ?_, fun c hc => ?_, fun c hc => ?_⟩
  · rw [List.filter_append, List.filter_append, List.filter_eq_self.2 htoken]
  · rcases List.eq_nil_or_concat' pre with rfl | ⟨front, d, rfl⟩
    · exact nomatch hc
    · obtain rfl := List.mem_singleton.1 (hpre d (by rw [List.getLast?_concat]; rfl))
      rw [List.filter_append, List.filter_singleton, hspace, Bool.cond_true,
        List.getLast?_concat] at hc
      exact List.mem_singleton.2 (Option.some.inj hc).symm
  · cases post with
    | nil => exact nomatch hc
    | cons d post =>
      obtain rfl := List.mem_singleton.1 (hpost d rfl)
      rw [List.filter_cons_of_pos hspace] at hc
      exact List.mem_singleton.2 (Option.some.inj hc).symm

/-- A part of a joined text. -/
theorem intercalate (c : Char) (token : List Char) :
    ∀ (parts parts' : List (List Char)),
      Stands [c] token ([c].intercalate (parts ++ token :: parts'))
  | [], [] => by
    rw [List.nil_append, List.intercalate_singleton]
    exact refl _ _
  | [], part :: parts' => by
    rw [List.nil_append, List.intercalate_cons_cons, List.append_assoc]
    exact ⟨[], _, rfl, by simp, by simp⟩
  | part :: parts, parts' => by
    obtain ⟨pre, post, hjoin, hpre, hpost⟩ := intercalate c token parts parts'
    rw [List.cons_append, List.intercalate_cons_of_ne_nil (by simp), hjoin]
    refine ⟨part ++ [c] ++ pre, post, by simp, fun d hd => ?_, hpost⟩
    rcases List.eq_nil_or_concat' pre with rfl | ⟨front, e, rfl⟩
    · rw [List.append_nil, List.getLast?_concat] at hd
      exact List.mem_singleton.2 (Option.some.inj hd).symm
    · rw [← List.append_assoc, List.getLast?_concat] at hd
      exact hpre d (by rwa [List.getLast?_concat])

theorem strip (h : Stands separators token text) (hne : token ≠ [])
    (htoken : ∀ c ∈ token, isSpace c = false) : Stands separators token (strip text) := by
  obtain ⟨pre, post, rfl, hpre, hpost⟩ := h
  obtain ⟨pre', post', hsuffix, hprefixed, hstrip⟩ := exists_strip_append pre post hne
    (fun c hc => htoken c (List.mem_of_head? hc)) fun c hc => htoken c (List.mem_of_getLast? hc)
  rw [hstrip]
  refine ⟨pre', post', rfl, fun c hc => hpre c ?_, fun c hc => hpost c ?_⟩
  · obtain ⟨front, rfl⟩ := hsuffix
    rw [List.getLast?_append_of_ne_nil _ (by rintro rfl; exact nomatch hc)]
    exact hc
  · obtain ⟨back, rfl⟩ := hprefixed
    rw [List.head?_append_of_ne_nil _ (by rintro rfl; exact nomatch hc)]
    exact hc

/-! ## Lines and words -/

theorem exists_words (h : Stands [' '] token text) (hne : token ≠ [])
    (htoken : ∀ c ∈ token, isSpace c = false) :
    ∃ words words', splitWords text = words ++ token :: words' := by
  obtain ⟨pre, post, rfl, hpre, hpost⟩ := h
  -- the words behind the token, and those before it
  have hbehind : ∃ words, (token ++ post).splitOnP isSpace = token :: words := by
    cases post with
    | nil => exact ⟨[], by rw [List.append_nil, List.splitOnP_eq_singleton htoken]⟩
    | cons c post =>
      obtain rfl := List.mem_singleton.1 (hpost c rfl)
      exact ⟨_, List.splitOnP_append_cons_of_forall_mem htoken ' ' (by decide) post⟩
  obtain ⟨words', hwords'⟩ := hbehind
  have hbefore : ∃ words, (pre ++ (token ++ post)).splitOnP isSpace = words ++ token :: words' := by
    rcases List.eq_nil_or_concat' pre with rfl | ⟨front, c, rfl⟩
    · exact ⟨[], hwords'⟩
    · obtain rfl := List.mem_singleton.1 (hpre c (by rw [List.getLast?_concat]; rfl))
      refine ⟨front.splitOnP isSpace, ?_⟩
      rw [List.append_assoc, List.singleton_append,
        List.splitOnP_append_cons _ _ (show isSpace ' ' = true by decide), hwords']
  obtain ⟨words, hwords⟩ := hbefore
  refine ⟨words.filter (· ≠ []), words'.filter (· ≠ []), ?_⟩
  rw [splitWords, hwords, List.filter_append, List.filter_cons_of_pos (by simpa using hne)]

theorem splitLinesFrom_plain {afterReturn : Bool} {c : Char} {text : List Char}
    (hc : isLineBreak c = false) : splitLinesFrom afterReturn (c :: text) =
      match splitLinesFrom false text with
      | [] => [[c]]
      | line :: lines => (c :: line) :: lines := by
  have hsame : ¬(afterReturn && decide (c = '\n')) = true := by
    intro h
    obtain rfl : c = '\n' := by simpa using (Bool.and_eq_true_iff.1 h).2
    exact absurd hc (by decide)
  have hbreak : ¬isLineBreak c = true := by simp [hc]
  rw [splitLinesFrom]
  exact (if_neg hsame).trans (if_neg hbreak)

/-- A token at the front is on the first line. -/
theorem exists_first_line {post : List Char} (hpost : ∀ c ∈ post.head?, c ∈ [' ']) :
    ∀ {token : List Char} (afterReturn : Bool), token ≠ [] →
      (∀ c ∈ token, isLineBreak c = false) → ∃ back lines',
        splitLinesFrom afterReturn (token ++ post) = (token ++ back) :: lines' ∧
          ∀ c ∈ back.head?, c ∈ [' ']
  | [c], afterReturn, _, htoken => by
    rw [List.singleton_append, splitLinesFrom_plain (htoken c List.mem_cons_self)]
    cases post with
    | nil => exact ⟨[], [], rfl, by simp⟩
    | cons d post =>
      obtain rfl := List.mem_singleton.1 (hpost d rfl)
      rw [splitLinesFrom_plain (by decide)]
      cases splitLinesFrom false post with
      | nil => exact ⟨[' '], [], rfl, by simp⟩
      | cons line lines => exact ⟨' ' :: line, lines, rfl, by simp⟩
  | c :: d :: token, afterReturn, _, htoken => by
    obtain ⟨back, lines', hlines, hback⟩ := exists_first_line hpost false
      (List.cons_ne_nil d token) fun e he => htoken e (List.mem_cons_of_mem _ he)
    refine ⟨back, lines', ?_, hback⟩
    rw [List.cons_append, splitLinesFrom_plain (htoken c List.mem_cons_self), hlines]
    rfl

/-- A token between spaces is on one line. -/
theorem exists_line (hne : token ≠ []) (htoken : ∀ c ∈ token, isLineBreak c = false)
    {post : List Char} (hpost : ∀ c ∈ post.head?, c ∈ [' ']) :
    ∀ {pre : List Char} (afterReturn : Bool), (∀ c ∈ pre.getLast?, c ∈ [' ']) →
      ∃ lines front back lines', splitLinesFrom afterReturn (pre ++ (token ++ post)) =
          lines ++ (front ++ (token ++ back)) :: lines' ∧
        front.getLast? = pre.getLast? ∧ ∀ c ∈ back.head?, c ∈ [' ']
  | [], afterReturn, _ => by
    obtain ⟨back, lines', hlines, hback⟩ := exists_first_line hpost afterReturn hne htoken
    exact ⟨[], [], back, lines', hlines, rfl, hback⟩
  | [c], afterReturn, hpre => by
    obtain rfl := List.mem_singleton.1 (hpre c rfl)
    obtain ⟨back, lines', hlines, hback⟩ :=
      exists_first_line hpost false hne htoken
    refine ⟨[], [' '], back, lines', ?_, rfl, hback⟩
    rw [List.singleton_append, splitLinesFrom_plain (by decide), hlines]
    rfl
  | c :: d :: pre, afterReturn, hpre => by
    rw [List.getLast?_cons_cons] at hpre ⊢
    have ih : ∀ afterReturn, ∃ lines front back lines',
        splitLinesFrom afterReturn (d :: pre ++ (token ++ post)) =
            lines ++ (front ++ (token ++ back)) :: lines' ∧
          front.getLast? = (d :: pre).getLast? ∧ ∀ c ∈ back.head?, c ∈ [' '] :=
      fun afterReturn => exists_line hne htoken hpost afterReturn hpre
    rw [List.cons_append, splitLinesFrom]
    split
    · exact ih false
    split
    · obtain ⟨lines, front, back, lines', hlines, hfront, hback⟩ := ih (c = '\r')
      exact ⟨[] :: lines, front, back, lines', by rw [hlines]; rfl, hfront, hback⟩
    · obtain ⟨lines, front, back, lines', hlines, hfront, hback⟩ := ih false
      rw [hlines]
      cases lines with
      | nil =>
        refine ⟨[], c :: front, back, lines', rfl, ?_, hback⟩
        rw [List.getLast?_cons, hfront, List.getLast?_cons]
        rfl
      | cons line lines => exact ⟨(c :: line) :: lines, front, back, lines', rfl, hfront, hback⟩

end Stands

/-! ## The normal form -/

/-- Plain characters : no space, no control character and ASCII. -/
def IsPlain (token : List Char) : Prop :=
  ∀ c ∈ token, 0x21 ≤ c.toNat ∧ c.toNat ≤ 0x7e

section Plain

variable {token : List Char} {c : Char}

theorem IsPlain.not_space (h : IsPlain token) (hc : c ∈ token) : isSpace c = false := by
  have hrange := h c hc
  by_contra hspace
  have hcode := toNat_mem_of_isSpace (Bool.not_eq_false _ ▸ hspace)
  simp only [List.mem_cons, List.not_mem_nil, or_false] at hcode
  omega

theorem IsPlain.not_lineBreak (h : IsPlain token) (hc : c ∈ token) : isLineBreak c = false := by
  have hrange := h c hc
  rw [isLineBreak, decide_eq_false_iff_not]
  simp only [List.mem_cons, List.not_mem_nil, or_false]
  omega

theorem IsPlain.not_invisible (h : IsPlain token) (hc : c ∈ token) : isInvisible c = false := by
  have hrange := h c hc
  simp only [isInvisible, Bool.or_eq_false_iff, Bool.and_eq_false_iff, decide_eq_false_iff_not]
  omega

theorem IsPlain.not_control (h : IsPlain token) (hc : c ∈ token) :
    isStrippedControl c = false := by
  have hrange := h c hc
  simp only [isStrippedControl, Bool.or_eq_false_iff, Bool.and_eq_false_iff,
    decide_eq_false_iff_not]
  omega

variable {text : List Char} {u : UnicodeData}

theorem stands_nfkc (hu : u.AsciiLaws) (htoken : IsPlain token) (h : Stands [' '] token text) :
    Stands [' '] token (u.nfkc text) := by
  obtain ⟨pre, post, rfl, hpre, hpost⟩ := h
  have hself : u.nfkc token = token := hu.nfkc_ascii token fun c hc =>
    lt_of_le_of_lt (htoken c hc).2 (by decide)
  have hbehind : ∃ post', u.nfkc (token ++ post) = token ++ post' ∧
      ∀ c ∈ post'.head?, c ∈ [' '] := by
    cases post with
    | nil => exact ⟨[], by rw [List.append_nil, hself], by simp⟩
    | cons c post =>
      obtain rfl := List.mem_singleton.1 (hpost c rfl)
      exact ⟨' ' :: u.nfkc post, by rw [hu.nfkc_space, hself], by simp⟩
  obtain ⟨post', hpost', hseparated⟩ := hbehind
  rcases List.eq_nil_or_concat' pre with rfl | ⟨front, c, rfl⟩
  · exact ⟨[], post', hpost', by simp, hseparated⟩
  · obtain rfl := List.mem_singleton.1 (hpre c (by rw [List.getLast?_concat]; rfl))
    refine ⟨u.nfkc front ++ [' '], post', ?_, by simp, hseparated⟩
    rw [List.append_assoc, List.singleton_append, hu.nfkc_space, hpost', List.append_assoc]
    rfl

theorem stands_collapseWhitespace (hne : token ≠ []) (htoken : IsPlain token)
    (h : Stands [' '] token text) : Stands [' ', '\n'] token (collapseWhitespace text) := by
  obtain ⟨pre, post, rfl, hpre, hpost⟩ := h
  obtain ⟨lines, front, back, lines', hlines, hfront, hback⟩ :=
    Stands.exists_line hne (fun c hc => htoken.not_lineBreak hc) hpost false hpre
  have hline : Stands [' '] token (front ++ (token ++ back)) :=
    ⟨front, back, rfl, by rwa [hfront], hback⟩
  obtain ⟨words, words', hwords⟩ := hline.exists_words hne fun c hc => htoken.not_space hc
  have hjoined := Stands.intercalate ' ' token words words'
  rw [← hwords] at hjoined
  refine Stands.strip ?_ hne fun c hc => htoken.not_space hc
  rw [splitLines, hlines, List.map_append, List.map_cons]
  exact hjoined.trans (Stands.intercalate '\n' _ _ _)

/-- The normal form keeps a token between spaces. -/
theorem stands_normalForm (hu : u.AsciiLaws) (hne : token ≠ []) (htoken : IsPlain token)
    (h : Stands [' '] token text) :
    Stands [' ', '\n'] token (normalForm u (.ofList text)) := by
  rw [normalForm, String.toList_ofList]
  refine stands_collapseWhitespace hne htoken (Stands.filter (Stands.filter
    (stands_nfkc hu htoken h) (fun c hc => ?_) (by decide)) (fun c hc => ?_) (by decide))
  · simp [htoken.not_invisible hc]
  · simp [htoken.not_control hc]

end Plain

end EnterpriseRag
