import EnterpriseRag.Guardrails.Redaction
import Mathlib.Tactic.IntervalCases

/-!
# The way back from a redaction

`restore` puts the values of a vault back for their placeholders. A text that has no
placeholder of its own is restored exactly (`restore_tokenize`) : a search for placeholders
finds those of the marks and no other, each of them once.
-/

namespace EnterpriseRag

open Regex

/-- Any of the kinds in capitals. -/
def labelPattern : Regex :=
  let label := fun kind : SensitiveKind => literal (fun c d => d = c) kind.label
  alt (label .jwt) (alt (label .apiKey) (alt (label .email) (alt (label .phone)
    (alt (label .pan) (alt (label .aadhaar) (label .card))))))

/-- `\[REDACTED:KIND:[0-9a-f]{8}\]`. -/
def placeholderPattern : Regex :=
  seq (literal (fun c d => d = c) ['[', 'R', 'E', 'D', 'A', 'C', 'T', 'E', 'D', ':'])
    (seq labelPattern (seq (char (· = ':')) (seq (repeats (char isHexDigit) 8 0) (char (· = ']')))))

/-- The text with the values of the vault for the placeholders it knows. -/
def restore (vault : SensitiveValueVault) (text : List Char) : List Char :=
  (placeholderPattern.pieces text).flatMap fun
    | .plain c => [c]
    | .hit key => (vault.resolve key).getD key

theorem isBare_labelPattern : labelPattern.isBare = true := by
  simp [labelPattern, isBare, isBare_literal]

theorem isBare_placeholderPattern : placeholderPattern.isBare = true := by
  simp [placeholderPattern, isBare, isBare_labelPattern, isBare_literal,
    isBare_repeats (r := char isHexDigit) rfl]

theorem accepts_labelPattern {u : List Char} :
    labelPattern.Accepts u ↔ ∃ kind : SensitiveKind, u = kind.label := by
  constructor
  · rintro (h | h | h | h | h | h | h) <;> exact ⟨_, accepts_literal.1 h⟩
  · rintro ⟨kind, rfl⟩
    have hkind := accepts_literal.2 (Eq.refl kind.label)
    cases kind with
    | jwt => exact Or.inl hkind
    | apiKey => exact Or.inr (Or.inl hkind)
    | email => exact Or.inr (Or.inr (Or.inl hkind))
    | phone => exact Or.inr (Or.inr (Or.inr (Or.inl hkind)))
    | pan => exact Or.inr (Or.inr (Or.inr (Or.inr (Or.inl hkind))))
    | aadhaar => exact Or.inr (Or.inr (Or.inr (Or.inr (Or.inr (Or.inl hkind)))))
    | card => exact Or.inr (Or.inr (Or.inr (Or.inr (Or.inr (Or.inr hkind)))))

/-- The pattern matches the placeholders. -/
theorem accepts_placeholderPattern {key : List Char} :
    placeholderPattern.Accepts key ↔ IsPlaceholder key := by
  have hhex : (repeats (char isHexDigit) 8 0).isBare = true := isBare_repeats rfl
  have htail : (seq (repeats (char isHexDigit) 8 0) (char (· = ']'))).isBare = true := by
    rw [isBare, hhex]
    rfl
  have hcolon : (seq (char (· = ':'))
      (seq (repeats (char isHexDigit) 8 0) (char (· = ']')))).isBare = true := htail
  have hbehind : (seq labelPattern (seq (char (· = ':'))
      (seq (repeats (char isHexDigit) 8 0) (char (· = ']'))))).isBare = true := by
    rw [isBare, isBare_labelPattern, hcolon]
    rfl
  rw [placeholderPattern, accepts_seq (isBare_literal _ _) hbehind]
  simp only [accepts_seq isBare_labelPattern hcolon, accepts_seq (r := char _) rfl htail,
    accepts_seq hhex (s := char _) rfl, accepts_literal, accepts_labelPattern, accepts_repeats_char]
  constructor
  · rintro ⟨_, _, rfl, rfl, _, _, rfl, ⟨kind, rfl⟩, _, _, rfl, ⟨_, rfl, hc⟩, token, _, rfl,
      ⟨hleast, hmost, htoken⟩, _, rfl, hd⟩
    obtain rfl := of_decide_eq_true hc
    obtain rfl := of_decide_eq_true hd
    exact ⟨kind, token, by simp [placeholder, placeholderText], by omega, htoken⟩
  · rintro ⟨kind, token, rfl, hlength, htoken⟩
    exact ⟨_, kind.label ++ ':' :: (token ++ [']']), by simp [placeholder, placeholderText], rfl,
      kind.label, _, rfl, ⟨kind, rfl⟩, [':'], token ++ [']'], rfl, ⟨':', rfl, rfl⟩, token, [']'],
      rfl, ⟨by omega, by omega, htoken⟩, ']', rfl, rfl⟩

/-- A placeholder ends with its only closing bracket, and starts with its only opening one. -/
theorem IsPlaceholder.exists_inner {key : List Char} (h : IsPlaceholder key) :
    ∃ inner, key = '[' :: (inner ++ [']']) ∧ ∀ c ∈ inner, isBracket c = false := by
  obtain ⟨kind, token, rfl, -, hhex⟩ := h
  exact ⟨placeholderText kind token, rfl, fun c hc => (placeholderText_plain kind hhex c hc).1⟩

theorem IsPlaceholder.eq_of_prefix {key key' rest rest' : List Char} (h : IsPlaceholder key)
    (h' : IsPlaceholder key') (heq : key ++ rest = key' ++ rest') : key = key' := by
  obtain ⟨inner, rfl, hinner⟩ := h.exists_inner
  obtain ⟨inner', rfl, hinner'⟩ := h'.exists_inner
  -- both go as far as the first closing bracket
  have hupTo : ∀ l post : List Char, (∀ c ∈ l, isBracket c = false) →
      (l ++ ']' :: post).takeWhile (!isBracket ·) = l := by
    intro l post hl
    rw [List.takeWhile_append_of_pos fun c hc => by simp [hl c hc],
      List.takeWhile_cons_of_neg (by decide), List.append_nil]
  rw [List.cons_append, List.cons_append, List.append_assoc, List.append_assoc] at heq
  have htail := (List.cons.inj heq).2
  have hinners := congrArg (List.takeWhile (!isBracket ·)) htail
  rw [List.singleton_append, List.singleton_append, hupTo _ _ hinner, hupTo _ _ hinner'] at hinners
  rw [hinners]

/-! ## Searching for placeholders -/

/-- The pieces of a redacted text when it is searched for placeholders. -/
def placeholderPiece : Mark → Piece
  | .kept c => .plain c
  | .held key _ => .hit key

/-- A search finds the placeholders of the marks, where the source has none. -/
theorem piecesFrom_placeholderPattern : ∀ {marks : List Mark} {before : Option Char},
    Sealed marks → (∀ key, IsPlaceholder key → ¬key <:+: sourceOf marks) →
      placeholderPattern.piecesFrom before 0 (textOf marks) = marks.map placeholderPiece
  | [], _, _, _ => rfl
  | .held key value :: marks, before, hsealed, hfresh => by
    have hkey := hsealed key value List.mem_cons_self
    have hmem : key ∈ placeholderPattern.matchesAt before (key ++ textOf marks) :=
      mem_matchesAt_append.2
        ((fits_iff_accepts isBare_placeholderPattern).2 (accepts_placeholderPattern.2 hkey))
    have hhead : (placeholderPattern.matchesAt before (key ++ textOf marks)).head? = some key := by
      obtain ⟨x, hx⟩ := Option.isSome_iff_exists.1 (List.isSome_head?.2 (List.ne_nil_of_mem hmem))
      obtain ⟨rest, hrest, hfits⟩ := mem_matchesAt_iff.1 (List.mem_of_head? hx)
      have hplaceholder := accepts_placeholderPattern.1
        ((fits_iff_accepts isBare_placeholderPattern).1 hfits)
      rw [hx, hkey.eq_of_prefix hplaceholder hrest]
    have hne : key ≠ [] := by
      obtain ⟨inner, rfl, -⟩ := hkey.exists_inner
      exact List.cons_ne_nil _ _
    rw [textOf_cons, Mark.text, piecesFrom_hit hne hhead,
      piecesFrom_placeholderPattern hsealed.tail fun key hkey hinfixed =>
        hfresh key hkey (hinfixed.trans (List.suffix_append _ _).isInfix)]
    rfl
  | .kept c :: marks, before, hsealed, hfresh => by
    have hnone : ∀ x ∈ placeholderPattern.matchesAt before (c :: textOf marks), x = [] := by
      intro x hx
      exfalso
      obtain ⟨rest, hrest, hfits⟩ := mem_matchesAt_iff.1 hx
      have hplaceholder := accepts_placeholderPattern.1
        ((fits_iff_accepts isBare_placeholderPattern).1 hfits)
      obtain ⟨inner, rfl, hinner⟩ := hplaceholder.exists_inner
      obtain ⟨rfl, htail⟩ := List.cons.inj hrest
      have hopening : '[' ∉ inner ++ [']'] := by
        rw [List.mem_append]
        rintro (hmem | hmem)
        · exact absurd (hinner _ hmem) (by decide)
        · exact absurd hmem (by decide)
      obtain ⟨marks', rfl, -⟩ := exists_kept_prefix hopening hsealed.tail htail
      refine hfresh _ hplaceholder ⟨[], sourceOf marks', ?_⟩
      rw [sourceOf_cons, sourceOf_append, sourceOf_keptMarks, List.nil_append, List.cons_append]
      rfl
    rw [textOf_cons, Mark.text, List.singleton_append, piecesFrom_plain hnone,
      piecesFrom_placeholderPattern hsealed.tail fun key hkey hinfixed =>
        hfresh key hkey (hinfixed.trans (List.suffix_append _ _).isInfix)]
    rfl

/-- The values of the vault come back in their places. -/
theorem restore_textOf {vault : SensitiveValueVault} :
    ∀ {marks : List Mark}, (∀ key value, .held key value ∈ marks → vault.resolve key = some value) →
      ((marks.map placeholderPiece).flatMap fun
        | .plain c => [c]
        | .hit key => (vault.resolve key).getD key) = sourceOf marks
  | [], _ => rfl
  | .kept c :: marks, h => by
    have ih := restore_textOf fun key value hmem => h key value (List.mem_cons_of_mem _ hmem)
    rw [List.map_cons, List.flatMap_cons, ih]
    rfl
  | .held key value :: marks, h => by
    have ih := restore_textOf fun key value hmem => h key value (List.mem_cons_of_mem _ hmem)
    have hvalue := h key value List.mem_cons_self
    rw [List.map_cons, List.flatMap_cons, ih, placeholderPiece]
    dsimp only
    rw [hvalue]
    rfl

theorem findAll_textOf {marks : List Mark} (hsealed : Sealed marks)
    (hfresh : ∀ key, IsPlaceholder key → ¬key <:+: sourceOf marks) :
    placeholderPattern.findAll (textOf marks) = (holdings marks).map Prod.fst := by
  rw [findAll, pieces, piecesFrom_placeholderPattern hsealed hfresh]
  clear hsealed hfresh
  induction marks with
  | nil => rfl
  | cons mark marks ih =>
    cases mark with
    | kept c => exact ih
    | held key value => exact congrArg (key :: ·) ih

theorem mem_holdings {key value : List Char} {marks : List Mark} :
    (key, value) ∈ holdings marks ↔ .held key value ∈ marks := by
  rw [holdings, List.mem_flatMap]
  constructor
  · rintro ⟨mark, hmark, hentry⟩
    cases mark with
    | kept c => cases hentry
    | held key' value' =>
      obtain ⟨rfl, rfl⟩ := Prod.mk.inj (List.mem_singleton.1 hentry)
      exact hmark
  · exact fun h => ⟨_, h, List.mem_singleton_self _⟩

/-- Where no placeholder was handed out twice, each gives its value. -/
theorem SensitiveValueVault.resolve_of_mem {vault : SensitiveValueVault}
    (hnodup : (vault.map Prod.fst).Nodup) {key value : List Char} (h : (key, value) ∈ vault) :
    vault.resolve key = some value := by
  obtain ⟨l, l', hsplit⟩ := List.append_of_mem (List.mem_reverse.2 h)
  refine List.lookup_eq_some_iff.2 ⟨l, l', hsplit, ?_⟩
  rw [← List.nodup_reverse, ← List.map_reverse, hsplit, List.map_append, List.map_cons] at hnodup
  intro entry hentry
  have hne := (List.nodup_append.1 hnodup).2.2 entry.1 (List.mem_map_of_mem hentry) key
    List.mem_cons_self
  simpa using hne.symm

/-! ## Matches beside placeholders -/

variable {isWord : Char → Bool} {tokens : TokenSource} {kind : SensitiveKind}

/-- A match in a redacted text is text that was kept, wherever it is looked for. -/
theorem exists_kept_of_match {before : Option Char} {u b : List Char}
    (hu : u ∈ (kind.pattern isWord).matchesAt before (u ++ b)) :
    ∀ {marks : List Mark} {a : List Char}, Sealed marks → textOf marks = a ++ (u ++ b) →
      ∃ m m', marks = m ++ (keptMarks u ++ m') ∧ textOf m = a ∧ textOf m' = b := by
  have hopening : '[' ∉ u := by
    obtain ⟨rest', -, hfits⟩ := mem_matchesAt_iff.1 hu
    exact SensitiveKind.not_mem_of_accepts (SensitiveKind.fits_pattern.1 hfits).2.1 (by decide)
  intro marks
  induction marks with
  | nil =>
    intro a _ h
    obtain ⟨rfl, hub⟩ := List.append_eq_nil_iff.1 h.symm
    obtain ⟨rfl, rfl⟩ := List.append_eq_nil_iff.1 hub
    exact ⟨[], [], rfl, rfl, rfl⟩
  | cons mark marks ih =>
    intro a hsealed h
    match a, mark, hsealed, h with
    | [], mark, hsealed, h =>
      obtain ⟨m', hmarks, hb⟩ := exists_kept_prefix hopening hsealed h
      exact ⟨[], m', hmarks, rfl, hb⟩
    | d :: a, .kept c, hsealed, h =>
      obtain ⟨rfl, htail⟩ := List.cons.inj h
      obtain ⟨m, m', rfl, rfl, hb⟩ := ih hsealed.tail htail
      exact ⟨.kept c :: m, m', rfl, rfl, hb⟩
    | d :: a, .held key value, hsealed, h =>
      rw [textOf_cons, Mark.text] at h
      rcases List.append_eq_append_iff.1 h with ⟨a', ha, hrest⟩ | ⟨w, hkey, hrest⟩
      · obtain ⟨m, m', rfl, rfl, hb⟩ := ih hsealed.tail hrest
        exact ⟨.held key value :: m, m', rfl, ha.symm, hb⟩
      · cases w with
        | nil =>
          obtain ⟨m', rfl, hb⟩ := exists_kept_prefix hopening hsealed.tail hrest.symm
          exact ⟨[.held key value], m', rfl, by simpa [textOf, Mark.text] using hkey, hb⟩
        | cons e w =>
          rw [hrest] at hu
          have hnil := eq_nil_of_mem_placeholder (hsealed key value List.mem_cons_self) hkey
            (List.cons_ne_nil _ _) hu
          rw [hnil] at hu
          exact absurd hu (kind.nil_not_mem_matchesAt isWord _ _)

/-- Kept text has its origins. -/
theorem originsOf_kept (n : ℕ) (m m' : List Mark) (u : List Char) {i : ℕ} (hi : i < u.length) :
    (originsOf n (m ++ (keptMarks u ++ m')))[(textOf m).length + i]? =
      some (some (n + (sourceOf m).length + i)) := by
  rw [originsOf_append, originsOf_append, ← length_originsOf n m,
    List.getElem?_append_right (Nat.le_add_right _ _), Nat.add_sub_cancel_left,
    List.getElem?_append_left (by rwa [length_originsOf, textOf_keptMarks]), originsOf_keptMarks,
    List.getElem?_map, List.getElem?_range' hi]
  simp

/-! ## The round trip -/

/-- Resolving the placeholders gives the text back, no match of a later pass has a character of
a placeholder, and each placeholder of the output has one entry. -/
theorem restore_tokenize {text : String} (htokens : ∀ n, (tokens.next n).length = 8)
    (hdistinct : Set.InjOn tokens.next (Set.Iio (tokenize isWord tokens text).2.length))
    (hfresh : ∀ key, IsPlaceholder key → ¬key <:+: text.toList) :
    restore (tokenize isWord tokens text).2 (tokenize isWord tokens text).1.toList = text.toList ∧
    (∀ done kind rest, SensitiveKind.all = done ++ kind :: rest → ∀ a u b,
      (tokenizeKinds isWord tokens done (text.toList, [])).1 = a ++ (u ++ b) →
        u ∈ (kind.pattern isWord).matchesAt (lastOf none a) (u ++ b) → ∀ i < u.length,
          ∃ n, (originsAfter isWord tokens done text.toList)[a.length + i]? = some (some n)) ∧
    (placeholderPattern.findAll (tokenize isWord tokens text).1.toList).Perm
      ((tokenize isWord tokens text).2.map Prod.fst) ∧
    ((tokenize isWord tokens text).2.map Prod.fst).Nodup := by
  rw [tokenize_snd] at hdistinct ⊢
  rw [tokenize_fst, String.toList_ofList]
  have hinitial := marked_initial text.toList
  obtain ⟨marks, hmarked⟩ := exists_marked isWord htokens SensitiveKind.all hinitial
  have hnumbered := numbered_tokenizeKinds isWord htokens SensitiveKind.all hinitial
    fun i entry hentry => by simp at hentry
  have hnodup := hnumbered.nodup htokens hdistinct
  rw [← hmarked.source] at hfresh
  refine ⟨?_, ?_, ?_, hnodup⟩
  · rw [← hmarked.text, restore, pieces, piecesFrom_placeholderPattern hmarked.sealed hfresh]
    refine (restore_textOf fun key value hmem => ?_).trans hmarked.source
    exact SensitiveValueVault.resolve_of_mem hnodup (hmarked.vault.subset (mem_holdings.2 hmem))
  · rintro done kind rest - a u b hsplit hu i hi
    obtain ⟨before, hbefore⟩ := exists_marked isWord htokens done hinitial
    rw [← hbefore.text] at hsplit
    obtain ⟨m, m', rfl, rfl, -⟩ := exists_kept_of_match hu hbefore.sealed hsplit
    exact ⟨_, by rw [originsAfter, ← hbefore.origins, originsOf_kept 0 m m' u hi]⟩
  · rw [← hmarked.text, findAll_textOf hmarked.sealed hfresh]
    exact hmarked.vault.map Prod.fst

/-- The word characters among the ASCII ones. -/
def asciiWord (c : Char) : Bool :=
  isAlnumAscii c || c = '_'

/-- Tokens that count to two. -/
def twoTokens : TokenSource where
  next n := List.replicate 7 '0' ++ [if n = 0 then '0' else '1']
  hex n := by
    intro c hc
    rcases List.mem_append.1 hc with hc | hc
    · rw [(List.mem_replicate.1 hc).2]
      decide
    · rw [List.mem_singleton.1 hc]
      split <;> decide

theorem restore_tokenize_contacts :
    restore (tokenize asciiWord twoTokens "a@b.co, 9876543210").2
        (tokenize asciiWord twoTokens "a@b.co, 9876543210").1.toList =
      "a@b.co, 9876543210".toList := by
  have htwo : (tokenize asciiWord twoTokens "a@b.co, 9876543210").2.length = 2 := by
    decide +kernel
  refine (restore_tokenize (fun n => ?_) ?_ ?_).1
  · simp [twoTokens]
  · rw [htwo]
    intro i hi j hj hij
    have htoken : (if i = 0 then '0' else '1') = if j = 0 then '0' else '1' := by
      simpa [twoTokens] using hij
    rw [Set.mem_Iio] at hi hj
    interval_cases i <;> interval_cases j <;> simp_all
  · intro key hkey hinfixed
    obtain ⟨inner, rfl, -⟩ := hkey.exists_inner
    exact absurd (hinfixed.subset List.mem_cons_self) (by decide)

end EnterpriseRag
