import EnterpriseRag.Guardrails.NumberPatterns
import EnterpriseRag.Guardrails.Redaction
import EnterpriseRag.Library.RegexSearch

/-!
# What a pass leaves behind

A pass of `tokenize` puts brackets where its matches stood, and the assertions of the other
patterns see them. `Bared` says when a value stands clear after a pass : it is a run of
characters outside the matches (`settle`), and its assertions hold once the matches beside it
are brackets. No kind bares its own values (`not_bared_self`, `rejects_after_card`).
-/

namespace EnterpriseRag

open Regex (Piece lastOf)

/-! ## Between the matches -/

/-- The pieces of a search without the matches that do not count. -/
def settle (kind : SensitiveKind) (pieces : List Piece) : List Piece :=
  pieces.flatMap fun
    | .plain c => [.plain c]
    | .hit u => if kind.accepts u then [.hit u] else u.map .plain

/-- The character the pieces end with, a match being a placeholder. -/
def edgeBefore (pieces : List Piece) : Option Char :=
  pieces.getLast?.map fun
    | .plain c => c
    | .hit _ => ']'

/-- The character the pieces start with, a match being a placeholder. -/
def edgeAfter (pieces : List Piece) : Option Char :=
  pieces.head?.map fun
    | .plain c => c
    | .hit _ => '['

/-- A value stands between the matches of `kind`, and its assertions hold after the pass. -/
def SensitiveKind.Bared (isWord : Char → Bool) (value kind : SensitiveKind) (text : List Char) :
    Prop :=
  ∃ front v back,
    settle kind ((kind.pattern isWord).pieces text) = front ++ (v.map .plain ++ back) ∧
    value.core.Accepts v ∧ value.startsAt isWord (edgeBefore front) v = true ∧
    value.stopsAt isWord v.getLast? (edgeAfter back).toList = true

variable {isWord : Char → Bool} {tokens : TokenSource} {kind value : SensitiveKind}

theorem settle_hit (u : List Char) (pieces : List Piece) : settle kind (.hit u :: pieces) =
    (if kind.accepts u then [.hit u] else u.map .plain) ++ settle kind pieces :=
  rfl

theorem edgeBefore_cons (piece : Piece) (pieces : List Piece) :
    edgeBefore (piece :: pieces) = (edgeBefore pieces).or (edgeBefore [piece]) := by
  rw [edgeBefore, List.getLast?_cons, edgeBefore]
  cases pieces.getLast? <;> rfl

theorem accepts_of_mem_settle {pieces : List Piece} {u : List Char}
    (h : .hit u ∈ settle kind pieces) : kind.accepts u = true := by
  obtain ⟨piece, -, hpiece⟩ := List.mem_flatMap.1 h
  cases piece with
  | plain c => simp at hpiece
  | hit w =>
    dsimp only at hpiece
    split at hpiece
    · obtain rfl := Piece.hit.inj (List.mem_singleton.1 hpiece)
      assumption
    · simp at hpiece

/-- The matches that do not count are passed over. -/
theorem replaceHits_settle : ∀ (pieces : List Piece) (vault : SensitiveValueVault),
    replaceHits tokens kind (settle kind pieces) vault = replaceHits tokens kind pieces vault
  | [], _ => rfl
  | .plain c :: pieces, vault => by
    show replaceHits tokens kind (.plain c :: settle kind pieces) vault = _
    rw [replaceHits, replaceHits_settle pieces, replaceHits]
  | .hit u :: pieces, vault => by
    rw [settle_hit, replaceHits]
    split
    · rename_i haccepts
      rw [List.singleton_append, replaceHits, if_pos haccepts]
      dsimp only
      rw [replaceHits_settle pieces]
    · rw [replaceHits_plain, replaceHits_settle pieces]

theorem settle_of_accepts (hkind : ∀ u, kind.accepts u = true) :
    ∀ pieces : List Piece, settle kind pieces = pieces
  | [] => rfl
  | .plain c :: pieces => congrArg (Piece.plain c :: ·) (settle_of_accepts hkind pieces)
  | .hit u :: pieces => by
    rw [settle_hit, if_pos (hkind u), settle_of_accepts hkind pieces]
    rfl

/-! ## The text after a pass -/

/-- The replaced text starts as the pieces do. -/
theorem head?_replaceHits {pieces : List Piece} {vault : SensitiveValueVault}
    (hcounts : ∀ u, .hit u ∈ pieces → kind.accepts u = true) :
    (replaceHits tokens kind pieces vault).1.head? = edgeAfter pieces := by
  match pieces with
  | [] => rfl
  | .plain c :: pieces => rfl
  | .hit u :: pieces =>
    rw [replaceHits, if_pos (hcounts u List.mem_cons_self)]
    rfl

theorem getLast?_placeholder (kind : SensitiveKind) (token : List Char) :
    (placeholder kind token).getLast? = some ']' := by
  rw [placeholder, ← List.cons_append, List.getLast?_concat]

variable (tokens) in
/-- What stands between pieces stands between their replacements. -/
theorem exists_replaceHits {v : List Char} {back : List Piece} :
    ∀ {front : List Piece} (vault : SensitiveValueVault),
      (∀ u, .hit u ∈ front ++ (v.map .plain ++ back) → kind.accepts u = true) →
        ∃ a b, (replaceHits tokens kind (front ++ (v.map .plain ++ back)) vault).1 = a ++ (v ++ b) ∧
          a.getLast? = edgeBefore front ∧ b.head? = edgeAfter back
  | [], vault, hcounts => by
    refine ⟨[], (replaceHits tokens kind back vault).1, ?_, rfl, head?_replaceHits fun u hu => ?_⟩
    · rw [List.nil_append, replaceHits_plain]
      rfl
    · exact hcounts u (List.mem_append_right _ (List.mem_append_right _ hu))
  | .plain c :: front, vault, hcounts => by
    have hcounts' : ∀ u, .hit u ∈ front ++ (v.map .plain ++ back) → kind.accepts u = true :=
      fun u hu => hcounts u (List.mem_cons_of_mem _ hu)
    obtain ⟨a, b, htext, ha, hb⟩ := exists_replaceHits vault hcounts'
    refine ⟨c :: a, b, ?_, ?_, hb⟩
    · rw [List.cons_append, replaceHits]
      dsimp only
      rw [htext, List.cons_append]
    · rw [edgeBefore_cons, ← ha, List.getLast?_cons]
      cases a.getLast? <;> rfl
  | .hit u :: front, vault, hcounts => by
    have hcounts' : ∀ u, .hit u ∈ front ++ (v.map .plain ++ back) → kind.accepts u = true :=
      fun u hu => hcounts u (List.mem_cons_of_mem _ hu)
    obtain ⟨a, b, htext, ha, hb⟩ := exists_replaceHits
      (vault ++ [(placeholder kind (tokens.next vault.length), u)]) hcounts'
    refine ⟨placeholder kind (tokens.next vault.length) ++ a, b, ?_, ?_, hb⟩
    · rw [List.cons_append, replaceHits, if_pos (hcounts u List.mem_cons_self)]
      dsimp only
      rw [htext, List.append_assoc]
    · rw [edgeBefore_cons, ← ha, List.getLast?_append, getLast?_placeholder]
      rfl

/-- Text without an opening bracket at the front is that of plain pieces. -/
theorem exists_back {b : List Char} {vault : SensitiveValueVault} :
    ∀ {v : List Char} {pieces : List Piece}, '[' ∉ v →
      (∀ u, .hit u ∈ pieces → kind.accepts u = true) →
        (replaceHits tokens kind pieces vault).1 = v ++ b →
          ∃ back, pieces = v.map .plain ++ back ∧ b.head? = edgeAfter back
  | [], pieces, _, hcounts, htext => by
    have hhead : (replaceHits tokens kind pieces vault).1.head? = edgeAfter pieces :=
      head?_replaceHits hcounts
    rw [htext] at hhead
    exact ⟨pieces, rfl, hhead⟩
  | c :: v, [], _, _, htext => nomatch htext
  | c :: v, .plain d :: pieces, hopening, hcounts, htext => by
    rw [replaceHits] at htext
    obtain ⟨rfl, htail⟩ := List.cons.inj htext
    obtain ⟨back, rfl, hb⟩ := exists_back (fun hmem => hopening (List.mem_cons_of_mem _ hmem))
      (fun u hu => hcounts u (List.mem_cons_of_mem _ hu)) htail
    exact ⟨back, rfl, hb⟩
  | c :: v, .hit u :: pieces, hopening, hcounts, htext => by
    rw [replaceHits, if_pos (hcounts u List.mem_cons_self)] at htext
    obtain ⟨rfl, -⟩ := List.cons.inj htext
    exact absurd List.mem_cons_self hopening

/-- A value in the replaced text stands between the pieces. -/
theorem exists_gap (htokens : ∀ n, (tokens.next n).length = 8) {v b : List Char}
    (hv : value.core.Accepts v) :
    ∀ {pieces : List Piece} {vault : SensitiveValueVault} {a : List Char},
      (∀ u, .hit u ∈ pieces → kind.accepts u = true) →
        (replaceHits tokens kind pieces vault).1 = a ++ (v ++ b) →
          ∃ front back, pieces = front ++ (v.map .plain ++ back) ∧
            a.getLast? = edgeBefore front ∧ b.head? = edgeAfter back
  | pieces, vault, [], hcounts, htext => by
    obtain ⟨back, rfl, hb⟩ := exists_back (SensitiveKind.not_mem_of_accepts hv (by decide)) hcounts
      htext
    exact ⟨[], back, rfl, rfl, hb⟩
  | [], vault, c :: a, _, htext => nomatch htext
  | .plain d :: pieces, vault, c :: a, hcounts, htext => by
    rw [replaceHits] at htext
    obtain ⟨rfl, htail⟩ := List.cons.inj htext
    obtain ⟨front, back, rfl, ha, hb⟩ := exists_gap htokens hv
      (fun u hu => hcounts u (List.mem_cons_of_mem _ hu)) htail
    refine ⟨.plain d :: front, back, rfl, ?_, hb⟩
    rw [edgeBefore_cons, ← ha, List.getLast?_cons]
    cases a.getLast? <;> rfl
  | .hit u :: pieces, vault, c :: a, hcounts, htext => by
    have hcounts' : ∀ u, .hit u ∈ pieces → kind.accepts u = true := fun u hu =>
      hcounts u (List.mem_cons_of_mem _ hu)
    have hkey : IsPlaceholder (placeholder kind (tokens.next vault.length)) :=
      ⟨kind, _, rfl, htokens _, tokens.hex _⟩
    have hclose : ∀ a' front', a'.getLast? = edgeBefore front' →
        (placeholder kind (tokens.next vault.length) ++ a').getLast? =
          edgeBefore (.hit u :: front') := by
      intro a' front' ha'
      rw [edgeBefore_cons, ← ha', List.getLast?_append, getLast?_placeholder]
      rfl
    rw [replaceHits, if_pos (hcounts u List.mem_cons_self)] at htext
    dsimp only at htext
    rcases List.append_eq_append_iff.1 htext with ⟨a', ha, hrest⟩ | ⟨w, hkeys, hrest⟩
    · obtain ⟨front, back, rfl, ha', hb⟩ := exists_gap htokens hv hcounts' hrest
      exact ⟨.hit u :: front, back, rfl, by rw [ha]; exact hclose _ _ ha', hb⟩
    · cases w with
      | nil =>
        obtain ⟨front, back, rfl, ha', hb⟩ := exists_gap htokens hv (a := []) hcounts' hrest.symm
        refine ⟨.hit u :: front, back, rfl, ?_, hb⟩
        rw [List.append_nil] at hkeys
        rw [← hkeys, ← hclose [] front ha', List.append_nil]
      | cons e w =>
        exact absurd ⟨b, hrest⟩ (not_prefix_of_placeholder hkey hkeys (List.cons_ne_nil _ _) hv)

/-! ## What a pass bares -/

section Bares

variable {text : List Char} {vault : SensitiveValueVault}

theorem startsAt_append {v : List Char} (hv : v ≠ []) (before : Option Char) (rest : List Char) :
    value.startsAt isWord before (v ++ rest) = value.startsAt isWord before v := by
  rw [SensitiveKind.startsAt, SensitiveKind.startsAt, List.head?_append_of_ne_nil _ hv]

theorem stopsAt_toList (before : Option Char) (rest : List Char) :
    value.stopsAt isWord before rest.head?.toList = value.stopsAt isWord before rest := by
  cases rest <;> rfl

theorem lastOf_of_ne_nil {v : List Char} (hv : v ≠ []) (before : Option Char) :
    lastOf before v = v.getLast? := by
  rw [lastOf, List.getLast?_eq_some_getLast hv]
  rfl

theorem lastOf_none (u : List Char) : lastOf none u = u.getLast? :=
  Option.or_none

/-- Every match of the kind counts. -/
theorem accepts_of_ne_card (hkind : kind ≠ .card) (u : List Char) : kind.accepts u = true := by
  cases kind <;> first | rfl | exact absurd rfl hkind

theorem recognizes_iff (hvalue : value ≠ .card) : value.recognizes isWord text = true ↔
    ∃ x v y, text = x ++ (v ++ y) ∧ value.core.Accepts v ∧
      value.startsAt isWord x.getLast? v = true ∧ value.stopsAt isWord v.getLast? y = true := by
  have hany : value.recognizes isWord text = true ↔
      ∃ u, .hit u ∈ (value.pattern isWord).pieces text := by
    rw [SensitiveKind.recognizes, List.any_eq_true]
    refine exists_congr fun u => ?_
    rw [Regex.mem_findAll, accepts_of_ne_card hvalue]
    exact and_iff_left rfl
  rw [hany, Regex.exists_hit_iff (value.nil_not_mem_matchesAt isWord)]
  refine exists_congr fun x => exists_congr fun v => exists_congr fun y => and_congr_right fun _ => ?_
  rw [Regex.mem_matchesAt_append, SensitiveKind.fits_pattern, lastOf_none]
  constructor
  · rintro ⟨hstart, hv, hstop⟩
    have hne := SensitiveKind.ne_nil_of_accepts hv
    rw [startsAt_append hne] at hstart
    rw [lastOf_of_ne_nil hne] at hstop
    exact ⟨hv, hstart, hstop⟩
  · rintro ⟨hv, hstart, hstop⟩
    have hne := SensitiveKind.ne_nil_of_accepts hv
    rw [startsAt_append hne, lastOf_of_ne_nil hne]
    exact ⟨hstart, hv, hstop⟩

/-- A kind is recognized after a pass just when the pass bares a value of it. -/
theorem recognizes_pass_iff (htokens : ∀ n, (tokens.next n).length = 8) (hvalue : value ≠ .card) :
    value.recognizes isWord
        (replaceHits tokens kind ((kind.pattern isWord).pieces text) vault).1 = true ↔
      value.Bared isWord kind text := by
  have hcounts : ∀ u, .hit u ∈ settle kind ((kind.pattern isWord).pieces text) →
      kind.accepts u = true := fun u hu => accepts_of_mem_settle hu
  rw [← replaceHits_settle, recognizes_iff hvalue]
  constructor
  · rintro ⟨x, v, y, htext, hv, hstart, hstop⟩
    obtain ⟨front, back, hsplit, hx, hy⟩ := exists_gap htokens hv hcounts htext
    refine ⟨front, v, back, hsplit, hv, by rwa [← hx], ?_⟩
    rwa [← hy, stopsAt_toList]
  · rintro ⟨front, v, back, hsplit, hv, hstart, hstop⟩
    rw [hsplit] at hcounts ⊢
    obtain ⟨a, b, htext, ha, hb⟩ := exists_replaceHits tokens vault hcounts
    refine ⟨a, v, b, htext, hv, by rwa [ha], ?_⟩
    rwa [← hb, stopsAt_toList] at hstop

/-! ## A kind's own pass -/

/-- A match that is found stands between its assertions. -/
theorem fits_of_hit {front back : List Piece} {u : List Char}
    (h : (kind.pattern isWord).pieces text = front ++ .hit u :: back) :
    kind.startsAt isWord (front.flatMap Piece.text).getLast? u = true ∧ u ≠ [] ∧
      kind.stopsAt isWord u.getLast? (back.flatMap Piece.text) = true := by
  have hhead := Regex.head?_of_hit (kind.nil_not_mem_matchesAt isWord) h
  obtain ⟨hstart, hu, hstop⟩ := SensitiveKind.fits_pattern.1
    (Regex.mem_matchesAt_append.1 (List.mem_of_head? hhead))
  have hne := SensitiveKind.ne_nil_of_accepts hu
  rw [lastOf_none, startsAt_append hne] at hstart
  rw [lastOf_of_ne_nil hne] at hstop
  exact ⟨hstart, hne, hstop⟩

theorem text_plain (v : List Char) : (v.map Piece.plain).flatMap Piece.text = v := by
  induction v with
  | nil => rfl
  | cons c v ih => exact congrArg (c :: ·) ih

/-- No value of the kind stands between its matches as the text is before the pass. -/
theorem not_fits_of_plain {front back : List Piece} {v : List Char}
    (h : (kind.pattern isWord).pieces text = front ++ (v.map .plain ++ back))
    (hv : kind.core.Accepts v)
    (hstart : kind.startsAt isWord (front.flatMap Piece.text).getLast? v = true) :
    kind.stopsAt isWord v.getLast? (back.flatMap Piece.text) = false := by
  by_contra hstop
  rw [Bool.not_eq_false] at hstop
  have hne := SensitiveKind.ne_nil_of_accepts hv
  obtain ⟨c, u, rfl⟩ := List.exists_cons_of_ne_nil hne
  have hsplit : (kind.pattern isWord).pieces text =
      front ++ .plain c :: (u.map .plain ++ back) := h
  have hnone := Regex.matchesAt_of_plain (kind.nil_not_mem_matchesAt isWord) hsplit
  rw [List.flatMap_append, text_plain, lastOf_none] at hnone
  have hmem : c :: u ∈ (kind.pattern isWord).matchesAt (front.flatMap Piece.text).getLast?
      (c :: u ++ back.flatMap Piece.text) := by
    refine Regex.mem_matchesAt_append.2 (SensitiveKind.fits_pattern.2 ⟨?_, hv, ?_⟩)
    · rwa [startsAt_append hne]
    · rwa [lastOf_of_ne_nil hne]
  rw [List.cons_append, hnone] at hmem
  exact nomatch hmem

theorem edgeBefore_cases (front : List Piece) :
    edgeBefore front = (front.flatMap Piece.text).getLast? ∨ ∃ f u, front = f ++ [.hit u] := by
  rcases List.eq_nil_or_concat' front with rfl | ⟨f, piece, rfl⟩
  · exact Or.inl rfl
  · cases piece with
    | plain c => exact Or.inl (by simp [edgeBefore, Piece.text])
    | hit u => exact Or.inr ⟨f, u, rfl⟩

theorem edgeAfter_cases (back : List Piece) :
    edgeAfter back = (back.flatMap Piece.text).head? ∨ ∃ u b, back = .hit u :: b := by
  cases back with
  | nil => exact Or.inl rfl
  | cons piece b =>
    cases piece with
    | plain c => exact Or.inl rfl
    | hit u => exact Or.inr ⟨u, b, rfl⟩

/-- What stands behind a match stands behind its last character. -/
theorem stopsAt_of_hit {f back : List Piece} {u v : List Char}
    (h : (kind.pattern isWord).pieces text = f ++ [.hit u] ++ (v.map .plain ++ back))
    (hv : v ≠ []) :
    kind.stopsAt isWord ((f ++ [Piece.hit u]).flatMap Piece.text).getLast? v = true := by
  rw [List.append_assoc, List.singleton_append] at h
  obtain ⟨-, hne, hstop⟩ := fits_of_hit h
  rw [List.flatMap_append, List.flatMap_singleton, Piece.text, List.getLast?_append_of_ne_nil _ hne]
  rw [List.flatMap_append, text_plain, ← stopsAt_toList, List.head?_append_of_ne_nil _ hv,
    stopsAt_toList] at hstop
  exact hstop

/-- What stands before a match stands before its first character. -/
theorem startsAt_of_hit {front b : List Piece} {u v : List Char}
    (h : (kind.pattern isWord).pieces text = front ++ (v.map .plain ++ .hit u :: b))
    (hv : v ≠ []) : kind.startsAt isWord v.getLast? u = true ∧ u ≠ [] := by
  rw [← List.append_assoc] at h
  obtain ⟨hstart, hne, -⟩ := fits_of_hit h
  rw [List.flatMap_append, text_plain, List.getLast?_append_of_ne_nil _ hv] at hstart
  exact ⟨hstart, hne⟩

/-- Between words a match beside a value is a boundary before the pass as after it. -/
theorem not_bared_of_word (hnumeric : kind.isNumeric = false) :
    ¬kind.Bared isWord kind text := by
  have hcounts : ∀ u, kind.accepts u = true :=
    accepts_of_ne_card fun h => by rw [h] at hnumeric; exact nomatch hnumeric
  have hsame : kind.startsAt isWord = kind.stopsAt isWord := by
    funext before cs
    rw [SensitiveKind.startsAt, SensitiveKind.stopsAt, hnumeric]
    rfl
  rintro ⟨front, v, back, hsplit, hv, hstart, hstop⟩
  rw [settle_of_accepts hcounts] at hsplit
  have hne := SensitiveKind.ne_nil_of_accepts hv
  have hbefore : kind.startsAt isWord (front.flatMap Piece.text).getLast? v = true := by
    rcases edgeBefore_cases front with hedge | ⟨f, u, rfl⟩
    · rwa [← hedge]
    · rw [hsame]
      exact stopsAt_of_hit hsplit hne
  have hafter : kind.stopsAt isWord v.getLast? (back.flatMap Piece.text) = true := by
    rcases edgeAfter_cases back with hedge | ⟨u, b, rfl⟩
    · rwa [hedge, stopsAt_toList] at hstop
    · obtain ⟨hstart', hne'⟩ := startsAt_of_hit hsplit hne
      rwa [hsame, ← stopsAt_toList, ← List.head?_append_of_ne_nil _ hne', stopsAt_toList] at hstart'
  rw [not_fits_of_plain hsplit hv hbefore] at hafter
  exact nomatch hafter

/-- A phone or Aadhaar number ends with a digit, so it stands before no other. -/
theorem not_bared_of_digits (hnumeric : kind.isNumeric = true) (hkind : kind ≠ .card) :
    ¬kind.Bared isWord kind text := by
  have hstarts : ∀ before cs, kind.startsAt isWord before cs = !before.any isDecimal := by
    intro before cs
    rw [SensitiveKind.startsAt, hnumeric]
    rfl
  have hstops : ∀ before cs, kind.stopsAt isWord before cs = !cs.head?.any isDecimal := by
    intro before cs
    rw [SensitiveKind.stopsAt, hnumeric]
    rfl
  rintro ⟨front, v, back, hsplit, hv, hstart, hstop⟩
  rw [settle_of_accepts (accepts_of_ne_card hkind)] at hsplit
  have hne := SensitiveKind.ne_nil_of_accepts hv
  have hlast : v.getLast?.any isDecimal = true := by
    cases kind with
    | phone => exact getLast_of_accepts_phone hv
    | aadhaar => exact getLast_of_accepts_aadhaar hv
    | jwt | apiKey | email | pan => exact nomatch hnumeric
    | card => exact absurd rfl hkind
  have hafter : (!(back.flatMap Piece.text).head?.any isDecimal) = true := by
    rcases edgeAfter_cases back with hedge | ⟨u, b, rfl⟩
    · rwa [hstops, hedge, ← hstops none, stopsAt_toList, hstops] at hstop
    · obtain ⟨hstart', -⟩ := startsAt_of_hit hsplit hne
      rw [hstarts, hlast] at hstart'
      exact nomatch hstart'
  -- a value with a digit in front does not stand behind another either
  have hdigit : v.head?.any isDecimal = true ∨ ∃ w, v = '+' :: w ∧ kind.core.Accepts w := by
    cases kind with
    | phone =>
      rcases head_of_accepts_phone hv with hhead | ⟨w, rfl, hw, -⟩
      · exact Or.inl hhead
      · exact Or.inr ⟨w, rfl, hw⟩
    | aadhaar => exact Or.inl (head_of_accepts_aadhaar hv)
    | jwt | apiKey | email | pan => exact nomatch hnumeric
    | card => exact absurd rfl hkind
  rcases hdigit with hhead | ⟨w, rfl, hw⟩
  · have hbefore : kind.startsAt isWord (front.flatMap Piece.text).getLast? v = true := by
      rcases edgeBefore_cases front with hedge | ⟨f, u, rfl⟩
      · rwa [← hedge]
      · have hstop' := stopsAt_of_hit hsplit hne
        rw [hstops, hhead] at hstop'
        exact nomatch hstop'
    have hfalse := not_fits_of_plain hsplit hv hbefore
    rw [hstops, hafter] at hfalse
    exact nomatch hfalse
  · rw [List.map_cons, List.cons_append, List.append_cons] at hsplit
    have hfalse := not_fits_of_plain hsplit hw (by
      rw [hstarts, List.flatMap_append, List.flatMap_singleton, Piece.text, List.getLast?_concat]
      decide)
    rw [hstops, hafter] at hfalse
    exact nomatch hfalse

/-- No kind but cards bares its own values. -/
theorem not_bared_self (hkind : kind ≠ .card) : ¬kind.Bared isWord kind text := by
  cases hnumeric : kind.isNumeric with
  | false => exact not_bared_of_word hnumeric
  | true => exact not_bared_of_digits hnumeric hkind

end Bares

end EnterpriseRag
