import EnterpriseRag.Guardrails.SensitivePatterns
import Mathlib.Data.List.Nodup
import Mathlib.Data.List.Perm.Basic
import Mathlib.Data.Set.Function

/-!
# What a redaction keeps

`traceKinds` follows `tokenize` with the index in the source of every character that is
still there. Behind it a redacted text is a list of `Mark`s, characters that were kept and
placeholders with the values they stand for : its source and its text can be read off it.

A match of a pattern never reaches a placeholder (`exists_segments`), so a pass turns marks
into marks, and `Marked` carries from pass to pass : the source is the same, the vault holds
what the marks hold, and the trace says which characters are kept.
-/

namespace EnterpriseRag

open Regex (Piece lastOf)

/-! ## The trace -/

/-- The origins after the replacements of one pattern, `n` values being in the vault. -/
def traceHits (tokens : TokenSource) (kind : SensitiveKind) :
    List Piece → List (Option ℕ) → ℕ → List (Option ℕ)
  | [], _, _ => []
  | .plain _ :: rest, origins, n =>
    origins.take 1 ++ traceHits tokens kind rest (origins.drop 1) n
  | .hit u :: rest, origins, n =>
    if kind.accepts u then
      (placeholder kind (tokens.next n)).map (fun _ => none) ++
        traceHits tokens kind rest (origins.drop u.length) (n + 1)
    else origins.take u.length ++ traceHits tokens kind rest (origins.drop u.length) n

/-- The origins after `tokenizeKinds`. -/
def traceKinds (isWord : Char → Bool) (tokens : TokenSource) :
    List SensitiveKind → List Char × SensitiveValueVault → List (Option ℕ) → List (Option ℕ)
  | [], _, origins => origins
  | kind :: kinds, (text, vault), origins =>
    let pieces := (kind.pattern isWord).pieces text
    traceKinds isWord tokens kinds (replaceHits tokens kind pieces vault)
      (traceHits tokens kind pieces origins vault.length)

/-- For each character after the passes, where it stands in the source, if it is not part of a
placeholder. -/
def originsAfter (isWord : Char → Bool) (tokens : TokenSource) (kinds : List SensitiveKind)
    (text : List Char) : List (Option ℕ) :=
  traceKinds isWord tokens kinds (text, []) ((List.range text.length).map some)

/-! ## Marks -/

inductive Mark
  | kept (c : Char)
  | held (key value : List Char)
  deriving DecidableEq, Repr

namespace Mark

def source : Mark → List Char
  | kept c => [c]
  | held _ value => value

def text : Mark → List Char
  | kept c => [c]
  | held key _ => key

def entry : Mark → SensitiveValueVault
  | kept _ => []
  | held key value => [(key, value)]

/-- Where the characters of the text stand, the source of the mark starting at `n`. -/
def origins (n : ℕ) : Mark → List (Option ℕ)
  | kept _ => [some n]
  | held key _ => key.map fun _ => none

end Mark

def sourceOf (marks : List Mark) : List Char :=
  marks.flatMap Mark.source

def textOf (marks : List Mark) : List Char :=
  marks.flatMap Mark.text

def holdings (marks : List Mark) : SensitiveValueVault :=
  marks.flatMap Mark.entry

def originsOf : ℕ → List Mark → List (Option ℕ)
  | _, [] => []
  | n, mark :: marks => mark.origins n ++ originsOf (n + mark.source.length) marks

/-- The characters of a text, all kept. -/
def keptMarks (u : List Char) : List Mark :=
  u.map Mark.kept

/-- `[REDACTED:kind:token]` with a token of `secrets.token_hex(4)`. -/
def IsPlaceholder (key : List Char) : Prop :=
  ∃ kind token, key = placeholder kind token ∧ token.length = 8 ∧ ∀ c ∈ token, isHexDigit c = true

/-- What is held is held under placeholders. -/
def Sealed (marks : List Mark) : Prop :=
  ∀ key value, .held key value ∈ marks → IsPlaceholder key

@[simp] theorem sourceOf_cons (mark : Mark) (marks : List Mark) :
    sourceOf (mark :: marks) = mark.source ++ sourceOf marks :=
  rfl

@[simp] theorem textOf_cons (mark : Mark) (marks : List Mark) :
    textOf (mark :: marks) = mark.text ++ textOf marks :=
  rfl

@[simp] theorem holdings_cons (mark : Mark) (marks : List Mark) :
    holdings (mark :: marks) = mark.entry ++ holdings marks :=
  rfl

@[simp] theorem sourceOf_append (marks marks' : List Mark) :
    sourceOf (marks ++ marks') = sourceOf marks ++ sourceOf marks' :=
  List.flatMap_append

@[simp] theorem textOf_append (marks marks' : List Mark) :
    textOf (marks ++ marks') = textOf marks ++ textOf marks' :=
  List.flatMap_append

@[simp] theorem holdings_append (marks marks' : List Mark) :
    holdings (marks ++ marks') = holdings marks ++ holdings marks' :=
  List.flatMap_append

@[simp] theorem sourceOf_keptMarks (u : List Char) : sourceOf (keptMarks u) = u := by
  induction u with
  | nil => rfl
  | cons c u ih => simpa [keptMarks, sourceOf, Mark.source] using ih

@[simp] theorem textOf_keptMarks (u : List Char) : textOf (keptMarks u) = u := by
  induction u with
  | nil => rfl
  | cons c u ih => simpa [keptMarks, textOf, Mark.text] using ih

@[simp] theorem holdings_keptMarks (u : List Char) : holdings (keptMarks u) = [] := by
  simp [keptMarks, holdings, Mark.entry]

theorem originsOf_append : ∀ (n : ℕ) (marks marks' : List Mark),
    originsOf n (marks ++ marks') =
      originsOf n marks ++ originsOf (n + (sourceOf marks).length) marks'
  | _, [], _ => rfl
  | n, mark :: marks, marks' => by
    rw [List.cons_append, originsOf, originsOf_append, originsOf, sourceOf_cons, List.length_append,
      List.append_assoc, Nat.add_assoc]

theorem length_origins (n : ℕ) (mark : Mark) : (mark.origins n).length = mark.text.length := by
  cases mark <;> simp [Mark.origins, Mark.text]

/-- Every character of the text has an origin. -/
theorem length_originsOf : ∀ (n : ℕ) (marks : List Mark),
    (originsOf n marks).length = (textOf marks).length
  | _, [] => rfl
  | n, mark :: marks => by
    rw [originsOf, textOf_cons, List.length_append, List.length_append, length_origins,
      length_originsOf]

theorem Sealed.tail {mark : Mark} {marks : List Mark} (h : Sealed (mark :: marks)) :
    Sealed marks :=
  fun key value hmem => h key value (List.mem_cons_of_mem _ hmem)

theorem sealed_append {marks marks' : List Mark} :
    Sealed (marks ++ marks') ↔ Sealed marks ∧ Sealed marks' := by
  simp only [Sealed, List.mem_append, or_imp, forall_and]

theorem sealed_keptMarks (u : List Char) : Sealed (keptMarks u) := by
  rintro key value hmem
  obtain ⟨c, -, hc⟩ := List.mem_map.1 hmem
  exact nomatch hc

/-- Text without an opening bracket at the front is kept. -/
theorem exists_kept_prefix {u : List Char} (hu : '[' ∉ u) :
    ∀ {marks : List Mark} {rest : List Char}, Sealed marks → textOf marks = u ++ rest →
      ∃ marks', marks = keptMarks u ++ marks' ∧ textOf marks' = rest := by
  induction u with
  | nil => exact fun {marks _} _ h => ⟨marks, rfl, h⟩
  | cons c u ih =>
    intro marks rest hsealed h
    match marks, hsealed, h with
    | .kept d :: marks, hsealed, h =>
      obtain ⟨rfl, htail⟩ := List.cons.inj h
      obtain ⟨marks', rfl, hrest⟩ := ih (fun hmem => hu (List.mem_cons_of_mem _ hmem))
        hsealed.tail htail
      exact ⟨marks', rfl, hrest⟩
    | .held key value :: marks, hsealed, h =>
      obtain ⟨kind, token, rfl, -⟩ := hsealed key value List.mem_cons_self
      obtain ⟨rfl, -⟩ := List.cons.inj h
      exact absurd List.mem_cons_self hu

/-! ## Placeholders and patterns -/

/-- A part that avoids a character stands on one side of it. -/
theorem infix_of_not_mem {x a b : List Char} {c : Char} (hx : x <:+: a ++ c :: b) (hc : c ∉ x) :
    x <:+: a ∨ x <:+: b := by
  obtain ⟨pre, post, h⟩ := hx
  rw [List.append_assoc] at h
  rcases List.append_eq_append_iff.1 h with ⟨mid, rfl, hmid⟩ | ⟨mid, rfl, hmid⟩
  · rcases List.append_eq_append_iff.1 hmid with ⟨last, rfl, -⟩ | ⟨last, rfl, hlast⟩
    · exact Or.inl ⟨pre, last, by simp⟩
    · cases last with
      | nil => exact Or.inl ⟨pre, [], by simp⟩
      | cons d last =>
        obtain ⟨rfl, -⟩ := List.cons.inj hlast
        exact absurd (List.mem_append_right _ List.mem_cons_self) hc
  · cases mid with
    | nil =>
      cases x with
      | nil => exact Or.inl (List.nil_infix)
      | cons d x =>
        obtain ⟨rfl, -⟩ := List.cons.inj hmid
        exact absurd List.mem_cons_self hc
    | cons d mid =>
      obtain ⟨-, hmid⟩ := List.cons.inj hmid
      exact Or.inr ⟨mid, post, by rw [hmid, List.append_assoc]; rfl⟩

theorem length_label (kind : SensitiveKind) : kind.label.length ≤ 8 ∧ '.' ∉ kind.label := by
  cases kind <;> decide

/-- No value is part of what a placeholder holds. -/
theorem not_infix_of_accepts {kind kind' : SensitiveKind} {token x : List Char}
    (hlength : token.length = 8) (hhex : ∀ c ∈ token, isHexDigit c = true)
    (hx : kind.core.Accepts x) : ¬x <:+: '[' :: placeholderText kind' token := by
  intro hinfixed
  have havoid : ∀ c ∈ ['[', ']', ':'], c ∉ x := fun c hc => SensitiveKind.not_mem_of_accepts hx hc
  -- the value is in one of the three words
  have hword : ∃ word : List Char, x <:+: word ∧ word.length ≤ 8 ∧ '.' ∉ word := by
    rcases infix_of_not_mem (a := []) hinfixed (havoid '[' (by decide)) with h | h
    · exact ⟨[], h, by decide, by decide⟩
    rcases infix_of_not_mem (a := ['R', 'E', 'D', 'A', 'C', 'T', 'E', 'D']) (c := ':')
      (b := kind'.label ++ ':' :: token) h (havoid ':' (by decide)) with h | h
    · exact ⟨_, h, by decide, by decide⟩
    rcases infix_of_not_mem h (havoid ':' (by decide)) with h | h
    · exact ⟨_, h, length_label kind'⟩
    · refine ⟨token, h, hlength.le, fun hdot => ?_⟩
      exact absurd (hhex _ hdot) (by decide)
  obtain ⟨word, hpart, hshort, hdot⟩ := hword
  rcases SensitiveKind.long_or_dotted hx with hlong | hmem
  · exact absurd (hpart.length_le.trans hshort) (not_le.2 hlong)
  · exact hdot (hpart.subset hmem)

/-- No value starts in a placeholder. -/
theorem not_prefix_of_placeholder {kind : SensitiveKind} {key v w rest x : List Char}
    (hkey : IsPlaceholder key) (hsplit : key = v ++ w) (hw : w ≠ []) (hx : kind.core.Accepts x) :
    ¬x <+: w ++ rest := by
  rintro ⟨rest', hrest⟩
  obtain ⟨kind', token, rfl, hlength, hhex⟩ := hkey
  suffices hinfixed : x <:+: '[' :: placeholderText kind' token from
    not_infix_of_accepts hlength hhex hx hinfixed
  -- the closing bracket ends what the value could take of the placeholder
  obtain ⟨w', rfl⟩ : ∃ w', w = w' ++ [']'] := by
    have hlast := congrArg List.getLast? hsplit
    rw [placeholder, ← List.cons_append, List.getLast?_concat,
      List.getLast?_append_of_ne_nil _ hw] at hlast
    exact List.getLast?_eq_some_iff.1 hlast.symm
  have hinner : '[' :: placeholderText kind' token = v ++ w' := by
    rw [placeholder, ← List.cons_append, ← List.append_assoc] at hsplit
    exact (List.append_inj' hsplit rfl).1
  rw [hinner]
  refine List.IsPrefix.isInfix ?_ |>.trans (List.suffix_append v w').isInfix
  rw [List.append_assoc] at hrest
  rcases List.append_eq_append_iff.1 hrest.symm with ⟨mid, rfl, hmid⟩ | ⟨mid, rfl, -⟩
  · cases mid with
    | nil => simp
    | cons d mid =>
      obtain ⟨rfl, -⟩ := List.cons.inj hmid
      exact absurd (List.mem_append_right _ List.mem_cons_self)
        (SensitiveKind.not_mem_of_accepts hx (by decide))
  · exact List.prefix_append _ _

/-- No match starts in a placeholder. -/
theorem eq_nil_of_mem_placeholder {isWord : Char → Bool} {kind : SensitiveKind}
    {key v w rest x : List Char} {before : Option Char} (hkey : IsPlaceholder key)
    (hsplit : key = v ++ w) (hw : w ≠ [])
    (hx : x ∈ (kind.pattern isWord).matchesAt before (w ++ rest)) : x = [] := by
  obtain ⟨rest', hrest, hfits⟩ := Regex.mem_matchesAt_iff.1 hx
  have haccepts := (SensitiveKind.fits_pattern.1 hfits).2.1
  exact absurd ⟨rest', hrest.symm⟩ (not_prefix_of_placeholder hkey hsplit hw haccepts)

/-! ## A pass over marks -/

/-- A part of a text under a search : a character that is kept, a placeholder, or a match. -/
inductive Segment
  | keep (c : Char)
  | hole (key value : List Char)
  | found (u : List Char)

namespace Segment

def marks : Segment → List Mark
  | keep c => [.kept c]
  | hole key value => [.held key value]
  | found u => keptMarks u

def pieces : Segment → List Piece
  | keep c => [.plain c]
  | hole key _ => key.map .plain
  | found u => [.hit u]

end Segment

def marksOf (segments : List Segment) : List Mark :=
  segments.flatMap Segment.marks

def piecesOf (segments : List Segment) : List Piece :=
  segments.flatMap Segment.pieces

/-- The segments are what a search for the kind makes of them. -/
def Searched (isWord : Char → Bool) (kind : SensitiveKind) : Option Char → List Segment → Prop
  | _, [] => True
  | before, .keep c :: rest =>
    (kind.pattern isWord).matchesAt before (c :: textOf (marksOf rest)) = [] ∧
      Searched isWord kind (some c) rest
  | before, .hole key _ :: rest =>
    IsPlaceholder key ∧ Searched isWord kind (lastOf before key) rest
  | before, .found u :: rest =>
    ((kind.pattern isWord).matchesAt before (u ++ textOf (marksOf rest))).head? = some u ∧
      Searched isWord kind (lastOf before u) rest

theorem textOf_marksOf_cons (segment : Segment) (segments : List Segment) :
    textOf (marksOf (segment :: segments)) = textOf segment.marks ++ textOf (marksOf segments) := by
  rw [marksOf, List.flatMap_cons, textOf_append]
  rfl

/-- A search in a redacted text finds only text that was kept. -/
theorem exists_segments (isWord : Char → Bool) (kind : SensitiveKind) :
    ∀ {marks : List Mark} (before : Option Char), Sealed marks →
      ∃ segments, marksOf segments = marks ∧
        piecesOf segments = (kind.pattern isWord).piecesFrom before 0 (textOf marks) ∧
        Searched isWord kind before segments
  | [], _, _ => ⟨[], rfl, rfl, trivial⟩
  | .held key value :: marks, before, hsealed => by
    obtain ⟨segments, rfl, hpieces, hsearched⟩ :=
      exists_segments isWord kind (lastOf before key) hsealed.tail
    have hkey := hsealed key value List.mem_cons_self
    refine ⟨.hole key value :: segments, rfl, ?_, hkey, hsearched⟩
    rw [textOf_cons, Mark.text, Regex.piecesFrom_append fun v w before' hsplit hw x hx =>
      eq_nil_of_mem_placeholder hkey hsplit hw hx, ← hpieces]
    rfl
  | .kept c :: marks, before, hsealed => by
    rcases Regex.piecesFrom_cases (kind.nil_not_mem_matchesAt isWord) before c (textOf marks) with
      ⟨hnone, hplain⟩ | ⟨u, rest, hne, hsplit, hhead, hhit⟩
    · obtain ⟨segments, rfl, hpieces, hsearched⟩ :=
        exists_segments isWord kind (some c) hsealed.tail
      refine ⟨.keep c :: segments, rfl, ?_, hnone, hsearched⟩
      rw [textOf_cons, Mark.text, List.singleton_append, hplain, ← hpieces]
      rfl
    · obtain ⟨rest', -, hfits⟩ := Regex.mem_matchesAt_iff.1 (List.mem_of_head? hhead)
      have haccepts := (SensitiveKind.fits_pattern.1 hfits).2.1
      have hkept : textOf (.kept c :: marks) = u ++ rest := by
        rw [← hsplit]
        rfl
      obtain ⟨marks', hmarks, hrest⟩ := exists_kept_prefix
        (SensitiveKind.not_mem_of_accepts haccepts (by decide)) hsealed hkept
      have hshorter : marks'.length < (Mark.kept c :: marks).length := by
        rw [hmarks, List.length_append, keptMarks, List.length_map]
        have hpos := List.length_pos_of_ne_nil hne
        omega
      have hsealed' : Sealed marks' := by
        rw [hmarks] at hsealed
        exact (sealed_append.1 hsealed).2
      obtain ⟨segments, rfl, hpieces, hsearched⟩ :=
        exists_segments isWord kind (lastOf before u) hsealed'
      refine ⟨.found u :: segments, hmarks.symm, ?_, ?_, hsearched⟩
      · rw [textOf_cons, Mark.text, List.singleton_append, hhit, ← hrest, ← hpieces]
        rfl
      · rwa [hrest, ← hsplit]
termination_by marks => marks.length
decreasing_by all_goals first | exact hshorter | exact Nat.lt_succ_self _

variable {tokens : TokenSource} {kind : SensitiveKind}

/-- The marks after a pass, `n` values being in the vault before it. -/
def redact (tokens : TokenSource) (kind : SensitiveKind) : List Segment → ℕ → List Mark
  | [], _ => []
  | .keep c :: rest, n => .kept c :: redact tokens kind rest n
  | .hole key value :: rest, n => .held key value :: redact tokens kind rest n
  | .found u :: rest, n =>
    if kind.accepts u then
      .held (placeholder kind (tokens.next n)) u :: redact tokens kind rest (n + 1)
    else keptMarks u ++ redact tokens kind rest n

/-- What the pass puts into the vault. -/
def stored (tokens : TokenSource) (kind : SensitiveKind) :
    List Segment → ℕ → SensitiveValueVault
  | [], _ => []
  | .found u :: rest, n =>
    if kind.accepts u then
      (placeholder kind (tokens.next n), u) :: stored tokens kind rest (n + 1)
    else stored tokens kind rest n
  | _ :: rest, n => stored tokens kind rest n

theorem replaceHits_plain (key : List Char) (pieces : List Piece) (vault : SensitiveValueVault) :
    replaceHits tokens kind (key.map .plain ++ pieces) vault =
      (key ++ (replaceHits tokens kind pieces vault).1,
        (replaceHits tokens kind pieces vault).2) := by
  induction key with
  | nil => rfl
  | cons c key ih =>
    rw [List.map_cons, List.cons_append, replaceHits, ih]
    rfl

/-- The replacements are those on the marks. -/
theorem replaceHits_piecesOf : ∀ (segments : List Segment) (vault : SensitiveValueVault),
    replaceHits tokens kind (piecesOf segments) vault =
      (textOf (redact tokens kind segments vault.length),
        vault ++ stored tokens kind segments vault.length)
  | [], vault => by simp [piecesOf, replaceHits, redact, stored, textOf]
  | .keep c :: rest, vault => by
    show replaceHits tokens kind (.plain c :: piecesOf rest) vault = _
    rw [replaceHits, replaceHits_piecesOf rest vault]
    rfl
  | .hole key value :: rest, vault => by
    show replaceHits tokens kind (key.map .plain ++ piecesOf rest) vault = _
    rw [replaceHits_plain, replaceHits_piecesOf rest vault]
    rfl
  | .found u :: rest, vault => by
    show replaceHits tokens kind (.hit u :: piecesOf rest) vault = _
    rw [replaceHits, redact, stored]
    split
    · dsimp only
      rw [replaceHits_piecesOf rest, List.length_append, List.length_singleton, List.append_assoc]
      rfl
    · rw [replaceHits_piecesOf rest, textOf_append, textOf_keptMarks]

/-- A pass leaves the source alone. -/
theorem sourceOf_redact : ∀ (segments : List Segment) (n : ℕ),
    sourceOf (redact tokens kind segments n) = sourceOf (marksOf segments)
  | [], _ => rfl
  | .keep c :: rest, n => by
    show sourceOf (.kept c :: redact tokens kind rest n) = sourceOf (.kept c :: marksOf rest)
    rw [sourceOf_cons, sourceOf_cons, sourceOf_redact rest]
  | .hole key value :: rest, n => by
    show sourceOf (.held key value :: redact tokens kind rest n) =
      sourceOf (.held key value :: marksOf rest)
    rw [sourceOf_cons, sourceOf_cons, sourceOf_redact rest]
  | .found u :: rest, n => by
    show _ = sourceOf (keptMarks u ++ marksOf rest)
    rw [redact, sourceOf_append, sourceOf_keptMarks]
    split
    · rw [sourceOf_cons, sourceOf_redact rest]
      rfl
    · rw [sourceOf_append, sourceOf_keptMarks, sourceOf_redact rest]

/-- What the marks hold after a pass. -/
theorem holdings_redact : ∀ (segments : List Segment) (n : ℕ),
    (holdings (redact tokens kind segments n)).Perm
      (holdings (marksOf segments) ++ stored tokens kind segments n)
  | [], _ => List.Perm.refl _
  | .keep c :: rest, n => holdings_redact rest n
  | .hole key value :: rest, n => (holdings_redact rest n).cons (key, value)
  | .found u :: rest, n => by
    have hmarks : holdings (marksOf (.found u :: rest)) = holdings (marksOf rest) := by
      show holdings (keptMarks u ++ marksOf rest) = _
      rw [holdings_append, holdings_keptMarks, List.nil_append]
    rw [redact, stored, hmarks]
    split
    · exact ((holdings_redact rest (n + 1)).cons _).trans List.perm_middle.symm
    · rw [holdings_append, holdings_keptMarks, List.nil_append]
      exact holdings_redact rest n

theorem traceHits_plain (key : List Char) (pieces : List Piece) (origins : List (Option ℕ))
    (n : ℕ) (horigins : key.length ≤ origins.length) :
    traceHits tokens kind (key.map .plain ++ pieces) origins n =
      origins.take key.length ++ traceHits tokens kind pieces (origins.drop key.length) n := by
  induction key generalizing origins with
  | nil => rfl
  | cons c key ih =>
    rw [List.length_cons] at horigins
    rw [List.map_cons, List.cons_append, traceHits, ih _ (by rw [List.length_drop]; omega),
      List.drop_drop, List.length_cons, ← List.append_assoc, Nat.add_comm key.length 1,
      List.take_add]

/-- The trace follows the marks. -/
theorem traceHits_piecesOf : ∀ (segments : List Segment) (i n : ℕ),
    traceHits tokens kind (piecesOf segments) (originsOf i (marksOf segments)) n =
      originsOf i (redact tokens kind segments n)
  | [], _, _ => rfl
  | .keep c :: rest, i, n => by
    show traceHits tokens kind (.plain c :: piecesOf rest)
      (some i :: originsOf (i + 1) (marksOf rest)) n = _
    rw [traceHits, List.drop_succ_cons, List.drop_zero, traceHits_piecesOf rest]
    rfl
  | .hole key value :: rest, i, n => by
    have hlength : (key.map fun _ => (none : Option ℕ)).length = key.length := List.length_map _
    show traceHits tokens kind (key.map .plain ++ piecesOf rest)
      (key.map (fun _ => none) ++ originsOf (i + value.length) (marksOf rest)) n = _
    rw [traceHits_plain _ _ _ _ (by rw [List.length_append, hlength]; omega),
      List.take_left' hlength, List.drop_left' hlength, traceHits_piecesOf rest]
    rfl
  | .found u :: rest, i, n => by
    have hlength : (originsOf i (keptMarks u)).length = u.length := by
      rw [length_originsOf, textOf_keptMarks]
    show traceHits tokens kind (.hit u :: piecesOf rest)
      (originsOf i (keptMarks u ++ marksOf rest)) n = _
    rw [originsOf_append, sourceOf_keptMarks, traceHits, redact, List.take_left' hlength,
      List.drop_left' hlength, traceHits_piecesOf rest, traceHits_piecesOf rest]
    split
    · rfl
    · rw [originsOf_append, sourceOf_keptMarks]

theorem sealed_redact (htokens : ∀ n, (tokens.next n).length = 8) :
    ∀ {segments : List Segment} {n : ℕ}, Sealed (marksOf segments) →
      Sealed (redact tokens kind segments n)
  | [], _, _ => fun _ _ hmem => nomatch hmem
  | .keep c :: rest, n, h => by
    have htail : Sealed (marksOf rest) := Sealed.tail h
    have hrest : Sealed (redact tokens kind rest n) := sealed_redact htokens htail
    rintro key value hmem
    rcases List.mem_cons.1 hmem with heq | hmem
    · exact nomatch heq
    · exact hrest key value hmem
  | .hole key value :: rest, n, h => by
    have htail : Sealed (marksOf rest) := Sealed.tail h
    have hrest : Sealed (redact tokens kind rest n) := sealed_redact htokens htail
    rintro key' value' hmem
    rcases List.mem_cons.1 hmem with heq | hmem
    · exact h key' value' (List.mem_cons.2 (Or.inl heq))
    · exact hrest key' value' hmem
  | .found u :: rest, n, h => by
    have htail : Sealed (marksOf rest) := by
      have hboth : Sealed (keptMarks u ++ marksOf rest) := h
      exact (sealed_append.1 hboth).2
    rw [redact]
    split
    · rintro key value hmem
      rcases List.mem_cons.1 hmem with heq | hmem
      · obtain ⟨rfl, -⟩ := Mark.held.inj heq
        exact ⟨kind, _, rfl, htokens n, tokens.hex n⟩
      · exact sealed_redact htokens htail key value hmem
    · exact sealed_append.2 ⟨sealed_keptMarks u, sealed_redact htokens htail⟩

/-! ## The passes -/

/-- Marks that stand for the source, the text and the vault after some passes, and the trace of
them. -/
structure Marked (source : List Char) (state : List Char × SensitiveValueVault)
    (origins : List (Option ℕ)) (marks : List Mark) : Prop where
  source : sourceOf marks = source
  text : textOf marks = state.1
  vault : (holdings marks).Perm state.2
  origins : originsOf 0 marks = origins
  sealed : Sealed marks

theorem originsOf_keptMarks : ∀ (n : ℕ) (u : List Char),
    originsOf n (keptMarks u) = (List.range' n u.length).map some
  | _, [] => rfl
  | n, c :: u => by
    show some n :: originsOf (n + 1) (keptMarks u) = _
    rw [originsOf_keptMarks, List.length_cons, List.range'_succ, List.map_cons]

theorem marked_initial (text : List Char) :
    Marked text (text, []) ((List.range text.length).map some) (keptMarks text) where
  source := sourceOf_keptMarks text
  text := textOf_keptMarks text
  vault := by rw [holdings_keptMarks]
  origins := by rw [originsOf_keptMarks, List.range_eq_range']
  sealed := sealed_keptMarks text

variable {isWord : Char → Bool} {source : List Char} {state : List Char × SensitiveValueVault}
  {origins : List (Option ℕ)} {marks : List Mark}

variable (kind isWord) in
/-- A pass cuts the marks at its matches, and holds those that count. -/
theorem Marked.pass (h : Marked source state origins marks)
    (htokens : ∀ n, (tokens.next n).length = 8) :
    ∃ segments, marksOf segments = marks ∧
      piecesOf segments = (kind.pattern isWord).pieces state.1 ∧
      Searched isWord kind none segments ∧
      Marked source (replaceHits tokens kind ((kind.pattern isWord).pieces state.1) state.2)
        (traceHits tokens kind ((kind.pattern isWord).pieces state.1) origins state.2.length)
        (redact tokens kind segments state.2.length) := by
  obtain ⟨segments, hmarks, hpieces, hsearched⟩ :=
    exists_segments isWord kind none h.sealed
  rw [h.text] at hpieces
  refine ⟨segments, hmarks, hpieces, hsearched, ?_⟩
  subst hmarks
  rw [Regex.pieces, ← hpieces, replaceHits_piecesOf]
  exact
    { source := (sourceOf_redact segments _).trans h.source
      text := rfl
      vault := (holdings_redact segments _).trans (h.vault.append_right _)
      origins := by rw [← h.origins, traceHits_piecesOf]
      sealed := sealed_redact htokens h.sealed }

variable (isWord) in
/-- The passes keep the source. -/
theorem exists_marked (htokens : ∀ n, (tokens.next n).length = 8) :
    ∀ (kinds : List SensitiveKind) {state : List Char × SensitiveValueVault}
      {origins : List (Option ℕ)} {marks : List Mark}, Marked source state origins marks →
        ∃ marks', Marked source (tokenizeKinds isWord tokens kinds state)
          (traceKinds isWord tokens kinds state origins) marks'
  | [], _, _, marks, h => ⟨marks, h⟩
  | kind :: kinds, (text, vault), origins, marks, h => by
    obtain ⟨segments, -, -, -, hpass⟩ := h.pass kind isWord htokens
    rw [tokenizeKinds, traceKinds]
    exact exists_marked htokens kinds hpass

/-- A match of a pass is text that was kept. -/
theorem exists_found_of_hit {u : List Char} {post : List Piece} :
    ∀ {segments : List Segment} {pre : List Piece}, piecesOf segments = pre ++ .hit u :: post →
      ∃ s s', segments = s ++ .found u :: s' ∧ piecesOf s = pre ∧ piecesOf s' = post
  | [], pre, h => by simp [piecesOf] at h
  | .keep c :: segments, pre, h => by
    cases pre with
    | nil => exact nomatch (List.cons.inj h).1
    | cons piece pre =>
      obtain ⟨rfl, htail⟩ := List.cons.inj h
      obtain ⟨s, s', rfl, rfl, hpost⟩ : ∃ s s', segments = s ++ .found u :: s' ∧
          piecesOf s = pre ∧ piecesOf s' = post := exists_found_of_hit htail
      exact ⟨.keep c :: s, s', rfl, rfl, hpost⟩
  | .hole key value :: segments, pre, h => by
    have hsplit : key.map Piece.plain ++ piecesOf segments = pre ++ .hit u :: post := h
    rcases List.append_eq_append_iff.1 hsplit with ⟨mid, rfl, hmid⟩ | ⟨mid, hmid, hrest⟩
    · obtain ⟨s, s', rfl, rfl, hpost⟩ := exists_found_of_hit hmid
      exact ⟨.hole key value :: s, s', rfl, rfl, hpost⟩
    · cases mid with
      | nil =>
        rw [List.append_nil] at hmid
        have hfound : piecesOf segments = [] ++ .hit u :: post := hrest.symm
        obtain ⟨s, s', rfl, hs, hpost⟩ := exists_found_of_hit hfound
        refine ⟨.hole key value :: s, s', rfl, ?_, hpost⟩
        show key.map Piece.plain ++ piecesOf s = pre
        rw [hs, List.append_nil, hmid]
      | cons piece mid =>
        obtain ⟨rfl, -⟩ := List.cons.inj hrest
        have hmem : Piece.hit u ∈ key.map Piece.plain := by rw [hmid]; simp
        obtain ⟨c, -, hc⟩ := List.mem_map.1 hmem
        exact nomatch hc
  | .found v :: segments, pre, h => by
    cases pre with
    | nil =>
      obtain ⟨hv, htail⟩ := List.cons.inj h
      obtain rfl := Piece.hit.inj hv
      exact ⟨[], segments, rfl, rfl, htail⟩
    | cons piece pre =>
      obtain ⟨rfl, htail⟩ := List.cons.inj h
      obtain ⟨s, s', rfl, rfl, hpost⟩ : ∃ s s', segments = s ++ .found u :: s' ∧
          piecesOf s = pre ∧ piecesOf s' = post := exists_found_of_hit htail
      exact ⟨.found v :: s, s', rfl, rfl, hpost⟩

/-! ## The vault -/

/-- The values in the vault have the tokens in order. -/
def Numbered (tokens : TokenSource) (vault : SensitiveValueVault) : Prop :=
  ∀ i entry, vault[i]? = some entry → ∃ kind, entry.1 = placeholder kind (tokens.next i)

theorem numbered_stored (tokens : TokenSource) (kind : SensitiveKind) :
    ∀ (segments : List Segment) (n i : ℕ) (entry : List Char × List Char),
      (stored tokens kind segments n)[i]? = some entry →
        ∃ kind, entry.1 = placeholder kind (tokens.next (n + i))
  | [], _, _, _, h => by simp [stored] at h
  | .keep _ :: rest, n, i, entry, h => numbered_stored tokens kind rest n i entry h
  | .hole _ _ :: rest, n, i, entry, h => numbered_stored tokens kind rest n i entry h
  | .found u :: rest, n, i, entry, h => by
    rw [stored] at h
    split at h
    · cases i with
      | zero =>
        obtain rfl := Option.some.inj h
        exact ⟨kind, rfl⟩
      | succ i =>
        obtain ⟨kind', hentry⟩ := numbered_stored tokens kind rest (n + 1) i entry h
        exact ⟨kind', by rw [hentry, Nat.add_assoc, Nat.add_comm 1 i]⟩
    · exact numbered_stored tokens kind rest n i entry h

theorem Numbered.append {vault : SensitiveValueVault} (h : Numbered tokens vault)
    (segments : List Segment) :
    Numbered tokens (vault ++ stored tokens kind segments vault.length) := by
  intro i entry hentry
  by_cases hi : i < vault.length
  · rw [List.getElem?_append_left hi] at hentry
    exact h i entry hentry
  · have hle : vault.length ≤ i := not_lt.1 hi
    rw [List.getElem?_append_right hle] at hentry
    obtain ⟨kind', hkind⟩ := numbered_stored tokens kind segments _ _ entry hentry
    exact ⟨kind', by rw [hkind, Nat.add_sub_cancel' hle]⟩

variable (isWord) in
/-- The passes keep the vault numbered. -/
theorem numbered_tokenizeKinds (htokens : ∀ n, (tokens.next n).length = 8) :
    ∀ (kinds : List SensitiveKind) {state : List Char × SensitiveValueVault}
      {origins : List (Option ℕ)} {marks : List Mark}, Marked source state origins marks →
        Numbered tokens state.2 → Numbered tokens (tokenizeKinds isWord tokens kinds state).2
  | [], _, _, _, _, h => h
  | kind :: kinds, (text, vault), origins, marks, hmarked, h => by
    obtain ⟨segments, -, hpieces, -, hpass⟩ := hmarked.pass kind isWord htokens
    rw [tokenizeKinds]
    refine numbered_tokenizeKinds htokens kinds hpass ?_
    rw [← hpieces, replaceHits_piecesOf]
    exact h.append segments

theorem placeholder_inj {kind kind' : SensitiveKind} {token token' : List Char}
    (hlength : token.length = token'.length) (h : placeholder kind token = placeholder kind' token') :
    token = token' := by
  simp only [placeholder, placeholderText, List.append_cons _ ':' token,
    List.append_cons _ ':' token', ← List.cons_append] at h
  exact (List.append_inj' (List.append_inj' h rfl).1 hlength).2

/-- Different tokens make different placeholders. -/
theorem Numbered.nodup {vault : SensitiveValueVault} (h : Numbered tokens vault)
    (htokens : ∀ n, (tokens.next n).length = 8)
    (hdistinct : Set.InjOn tokens.next (Set.Iio vault.length)) :
    (vault.map Prod.fst).Nodup := by
  rw [List.nodup_iff_getElem?_ne_getElem?]
  intro i j hij hj heq
  rw [List.length_map] at hj
  rw [List.getElem?_map, List.getElem?_map, List.getElem?_eq_getElem hj,
    List.getElem?_eq_getElem (hij.trans hj)] at heq
  obtain ⟨kind, hi⟩ := h i _ (List.getElem?_eq_getElem (hij.trans hj))
  obtain ⟨kind', hj'⟩ := h j _ (List.getElem?_eq_getElem hj)
  have hsame : placeholder kind (tokens.next i) = placeholder kind' (tokens.next j) := by
    rw [← hi, ← hj']
    exact Option.some.inj heq
  have htoken := placeholder_inj ((htokens i).trans (htokens j).symm) hsame
  exact hij.ne (hdistinct (hij.trans hj) hj htoken)

end EnterpriseRag
