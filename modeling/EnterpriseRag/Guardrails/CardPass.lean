import EnterpriseRag.Guardrails.CleanPass

/-!
# The pass for cards

Card matches are checked after they are found, and one that fails stays in the text : the
search after the pass finds it again, at most with the separator behind it
(`head?_card_after`), and so no card. The order of the matches (`pairwise_matchesAt_card`)
leaves no other choice.
-/

namespace EnterpriseRag

open Regex (Piece lastOf)

variable {isWord : Char → Bool} {tokens : TokenSource} {kind : SensitiveKind}

/-! ## The text up to the next placeholder -/

/-- Up to the first placeholder a redacted text is the text before. A match that counts or
another placeholder stood there. -/
theorem exists_cut (tokens : TokenSource) : ∀ {segments : List Segment} {before : Option Char}
    (n : ℕ), Searched isWord kind before segments →
      ∃ x tail tail', textOf (marksOf segments) = x ++ tail ∧
        textOf (redact tokens kind segments n) = x ++ tail' ∧
        (tail = [] ∧ tail' = [] ∨ tail'.head? = some '[' ∧ (tail.head? = some '[' ∨
          ∃ u ∈ (kind.pattern isWord).matchesAt (lastOf before x) tail, kind.accepts u = true))
  | [], _, _, _ => ⟨[], [], [], rfl, rfl, Or.inl ⟨rfl, rfl⟩⟩
  | .keep c :: rest, before, n, ⟨_, hrest⟩ => by
    obtain ⟨x, tail, tail', htext, hredact, htail⟩ := exists_cut tokens n hrest
    refine ⟨c :: x, tail, tail', ?_, ?_, ?_⟩
    · rw [textOf_marksOf_cons, htext]
      rfl
    · rw [redact, textOf_cons, hredact]
      rfl
    · rwa [Regex.lastOf_cons]
  | .hole key value :: rest, before, n, ⟨hkey, _⟩ => by
    obtain ⟨kind', token, rfl, -⟩ := hkey
    exact ⟨[], _, _, rfl, rfl, Or.inr ⟨rfl, Or.inl rfl⟩⟩
  | .found u :: rest, before, n, ⟨hhead, hrest⟩ => by
    cases haccepts : kind.accepts u with
    | true =>
      refine ⟨[], _, _, rfl, rfl, Or.inr ⟨?_, Or.inr ⟨u, ?_, haccepts⟩⟩⟩
      · rw [redact, if_pos haccepts]
        rfl
      · show u ∈ (kind.pattern isWord).matchesAt before (textOf (keptMarks u ++ marksOf rest))
        rw [textOf_append, textOf_keptMarks]
        exact List.mem_of_head? hhead
    | false =>
      obtain ⟨x, tail, tail', htext, hredact, htail⟩ := exists_cut tokens n hrest
      refine ⟨u ++ x, tail, tail', ?_, ?_, ?_⟩
      · rw [textOf_marksOf_cons, htext, List.append_assoc]
        show textOf (keptMarks u) ++ _ = _
        rw [textOf_keptMarks]
      · rw [redact, haccepts, if_neg (by decide), textOf_append, textOf_keptMarks, hredact,
          List.append_assoc]
      · rwa [Regex.lastOf_append]

/-- What stands at the front without a bracket stood there, in front of the same character or
of a match that counts. -/
theorem exists_front {segments : List Segment} {before : Option Char} {n : ℕ} {v r' : List Char}
    (hsearched : Searched isWord kind before segments) (hopening : '[' ∉ v)
    (htext : textOf (redact tokens kind segments n) = v ++ r') :
    ∃ r, textOf (marksOf segments) = v ++ r ∧ (r'.head? = r.head? ∨ r'.head? = some '[' ∧
      ∃ u ∈ (kind.pattern isWord).matchesAt (lastOf before v) r, kind.accepts u = true) := by
  obtain ⟨x, tail, tail', hmarks, hredact, htail⟩ := exists_cut tokens n hsearched
  rw [hredact] at htext
  have hend : v = x → r' = tail' → ∃ r, textOf (marksOf segments) = v ++ r ∧
      (r'.head? = r.head? ∨ r'.head? = some '[' ∧
        ∃ u ∈ (kind.pattern isWord).matchesAt (lastOf before v) r, kind.accepts u = true) := by
    rintro rfl rfl
    refine ⟨tail, hmarks, ?_⟩
    rcases htail with ⟨rfl, rfl⟩ | ⟨hhead', hhead | hmatch⟩
    · exact Or.inl rfl
    · exact Or.inl (hhead'.trans hhead.symm)
    · exact Or.inr ⟨hhead', hmatch⟩
  rcases List.append_eq_append_iff.1 htext with ⟨a, rfl, ha⟩ | ⟨a, rfl, rfl⟩
  · cases a with
    | nil => exact hend (List.append_nil _) ha.symm
    | cons c a =>
      rcases htail with ⟨-, rfl⟩ | ⟨hhead', -⟩
      · exact nomatch ha
      · rw [ha] at hhead'
        obtain rfl := Option.some.inj hhead'
        exact absurd (List.mem_append_right _ List.mem_cons_self) hopening
  · cases a with
    | nil => exact hend (List.append_nil _).symm rfl
    | cons c a => exact ⟨c :: (a ++ tail), by rw [hmarks, List.append_assoc]; rfl, Or.inl rfl⟩

/-! ## Card matches after the pass -/

theorem mem_matchesAt_card {before : Option Char} {cs v : List Char} :
    v ∈ (SensitiveKind.card.pattern isWord).matchesAt before cs ↔
      ∃ rest, cs = v ++ rest ∧ before.any isDecimal = false ∧ (SensitiveKind.core .card).Accepts v ∧
        rest.head?.any isDecimal = false := by
  rw [Regex.mem_matchesAt_iff]
  refine exists_congr fun rest => and_congr_right fun _ => ?_
  rw [SensitiveKind.fits_pattern]
  constructor
  · rintro ⟨hstart, hv, hstop⟩
    rw [SensitiveKind.startsAt, SensitiveKind.isNumeric, if_pos rfl, Bool.not_eq_true'] at hstart
    rw [SensitiveKind.stopsAt, SensitiveKind.isNumeric, if_pos rfl, Bool.not_eq_true'] at hstop
    exact ⟨hstart, hv, hstop⟩
  · rintro ⟨hstart, hv, hstop⟩
    rw [SensitiveKind.startsAt, SensitiveKind.stopsAt, SensitiveKind.isNumeric, if_pos rfl,
      if_pos rfl, hstart, hstop]
    exact ⟨rfl, hv, rfl⟩

/-- A card match after the pass was one before, if need be without the separator at its end. -/
theorem mem_of_mem_after {segments : List Segment} {before : Option Char} {n : ℕ} {v : List Char}
    (hsearched : Searched isWord .card before segments)
    (hv : v ∈ (SensitiveKind.card.pattern isWord).matchesAt before
      (textOf (redact tokens .card segments n))) :
    v ∈ (SensitiveKind.card.pattern isWord).matchesAt before (textOf (marksOf segments)) ∨
      ∃ w s r, v = w ++ [s] ∧ isSeparator s = true ∧ w.getLast?.any isDecimal = true ∧
        w ∈ (SensitiveKind.card.pattern isWord).matchesAt before (textOf (marksOf segments)) ∧
        textOf (redact tokens .card segments n) = v ++ '[' :: r := by
  obtain ⟨r', htext, hbefore, haccepts, hstop⟩ := mem_matchesAt_card.1 hv
  obtain ⟨r, hr, hhead | ⟨hopening, u, hu, -⟩⟩ := exists_front hsearched
    (SensitiveKind.not_mem_of_accepts haccepts (by decide)) htext
  · refine Or.inl (mem_matchesAt_card.2 ⟨r, hr, hbefore, haccepts, ?_⟩)
    rwa [← hhead]
  · -- a match stood behind the value, so the value ends with a separator
    obtain ⟨-, -, hlast, -⟩ := mem_matchesAt_card.1 hu
    rw [lastOf_of_ne_nil (SensitiveKind.ne_nil_of_accepts haccepts)] at hlast
    rcases card_cases haccepts with hdigit | ⟨w, s, rfl, hs, hw, hdigit⟩
    · rw [hdigit] at hlast
      exact nomatch hlast
    · obtain ⟨r'', rfl⟩ := List.head?_eq_some_iff.1 hopening
      rw [List.getLast?_concat] at hlast
      refine Or.inr ⟨w, s, r'', rfl, hs, hdigit, mem_matchesAt_card.2 ⟨s :: r, ?_, hbefore, hw, ?_⟩,
        htext⟩
      · rw [hr, List.append_assoc]
        rfl
      · exact hlast

/-- Where no card match stood, none stands after the pass. -/
theorem matchesAt_card_keep {c : Char} {rest : List Segment} {before : Option Char} {n : ℕ}
    (hsearched : Searched isWord .card before (.keep c :: rest)) :
    (SensitiveKind.card.pattern isWord).matchesAt before
      (c :: textOf (redact tokens .card rest n)) = [] := by
  rw [List.eq_nil_iff_forall_not_mem]
  intro v hv
  have hnone : (SensitiveKind.card.pattern isWord).matchesAt before
      (textOf (marksOf (.keep c :: rest))) = [] := hsearched.1
  rcases mem_of_mem_after (n := n) hsearched hv with hmem | ⟨w, -, -, -, -, -, hmem, -⟩
  · rw [hnone] at hmem
    exact nomatch hmem
  · rw [hnone] at hmem
    exact nomatch hmem

theorem matchesAt_card_of_head {before : Option Char} {cs : List Char}
    (hhead : cs.head?.any isDecimal = false) :
    (SensitiveKind.card.pattern isWord).matchesAt before cs = [] := by
  rw [List.eq_nil_iff_forall_not_mem]
  intro v hv
  obtain ⟨rest, rfl, -, hv, -⟩ := mem_matchesAt_card.1 hv
  rw [List.head?_append_of_ne_nil _ (SensitiveKind.ne_nil_of_accepts hv),
    head_of_accepts_card hv] at hhead
  exact nomatch hhead

/-- Two filters that take each other's first element have the same one. -/
theorem head?_filter_unique {α : Type*} {p q : α → Bool} {a b : α} :
    ∀ {l : List α}, (l.filter p).head? = some a → (l.filter q).head? = some b → q a = true →
      p b = true → a = b
  | [], ha, _, _, _ => nomatch ha
  | c :: l, ha, hb, hqa, hpb => by
    cases hp : p c with
    | true =>
      rw [List.filter_cons_of_pos hp] at ha
      obtain rfl := Option.some.inj ha
      rw [List.filter_cons_of_pos hqa] at hb
      exact Option.some.inj hb
    | false =>
      rw [List.filter_cons_of_neg (by rw [hp]; decide)] at ha
      cases hq : q c with
      | true =>
        rw [List.filter_cons_of_pos hq] at hb
        obtain rfl := Option.some.inj hb
        rw [hp] at hpb
        exact nomatch hpb
      | false =>
        rw [List.filter_cons_of_neg (by rw [hq]; decide)] at hb
        exact head?_filter_unique ha hb hqa hpb

/-- The first element of a filter is not below another. -/
theorem rel_of_head?_filter {α : Type*} {R : α → α → Prop} (hrefl : ∀ a, R a a) {p : α → Bool}
    {a b : α} {l : List α} (hl : l.Pairwise R) (ha : (l.filter p).head? = some a)
    (hb : b ∈ l.filter p) : R a b := by
  obtain ⟨l', hl'⟩ := List.head?_eq_some_iff.1 ha
  have hpairwise := hl.filter p
  rw [hl'] at hb hpairwise
  rcases List.mem_cons.1 hb with rfl | hmem
  · exact hrefl b
  · exact (List.pairwise_cons.1 hpairwise).1 b hmem

theorem matchesAt_card {before : Option Char} (hbefore : before.any isDecimal = false)
    (cs : List Char) : (SensitiveKind.card.pattern isWord).matchesAt before cs =
      ((SensitiveKind.core .card).matchesAt before cs).filter fun v =>
        !(cs.drop v.length).head?.any isDecimal := by
  rw [SensitiveKind.matchesAt_pattern, SensitiveKind.startsAt, SensitiveKind.isNumeric,
    if_pos rfl, hbefore]
  rfl

theorem digitCount_pos {u : List Char} (hu : u.getLast?.any isDecimal = true) :
    0 < digitCount u := by
  cases hlast : u.getLast? with
  | none => rw [hlast] at hu; exact nomatch hu
  | some d =>
    rw [hlast] at hu
    refine List.length_pos_of_mem (List.mem_filter.2 ⟨List.mem_of_getLast? hlast, ?_⟩)
    rw [isSeparator_of_isDecimal hu]
    rfl

/-- A separator at the front is kept text. -/
theorem exists_keep_of_separator {segments : List Segment} {before : Option Char} {n : ℕ} {s : Char}
    {r : List Char} (hsearched : Searched isWord .card before segments)
    (hs : isSeparator s = true) (htext : textOf (redact tokens .card segments n) = s :: r) :
    ∃ rest, segments = .keep s :: rest := by
  have hopening : s ≠ '[' := by
    rintro rfl
    exact absurd hs (by decide)
  match segments, hsearched, htext with
  | .keep c :: rest, _, htext =>
    obtain ⟨rfl, -⟩ := List.cons.inj htext
    exact ⟨rest, rfl⟩
  | .hole key value :: rest, ⟨hkey, _⟩, htext =>
    obtain ⟨kind', token, rfl, -⟩ := hkey
    exact absurd (List.cons.inj htext).1.symm hopening
  | .found u :: rest, ⟨hhead, _⟩, htext =>
    rw [redact] at htext
    split at htext
    · exact absurd (List.cons.inj htext).1.symm hopening
    · obtain ⟨-, -, -, haccepts, -⟩ := mem_matchesAt_card.1 (List.mem_of_head? hhead)
      have hdigit := head_of_accepts_card haccepts
      rw [textOf_append, textOf_keptMarks] at htext
      cases u with
      | nil => cases hdigit
      | cons d u =>
        obtain ⟨rfl, -⟩ := List.cons.inj htext
        rw [isSeparator_of_isDecimal hdigit] at hs
        cases hs

variable (tokens) in
/-- A match that fails the check is found again, at most with the separator behind it. -/
theorem head?_card_after {u : List Char} {rest : List Segment} {before : Option Char} (n : ℕ)
    (hsearched : Searched isWord .card before (.found u :: rest)) (hrejected : isCard u = false) :
    ((SensitiveKind.card.pattern isWord).matchesAt before
        (u ++ textOf (redact tokens .card rest n))).head? = some u ∨
      ∃ s rest', rest = .keep s :: rest' ∧ isSeparator s = true ∧
        ((SensitiveKind.card.pattern isWord).matchesAt before
          (u ++ textOf (redact tokens .card rest n))).head? = some (u ++ [s]) := by
  have htext : textOf (marksOf (.found u :: rest)) = u ++ textOf (marksOf rest) := by
    rw [textOf_marksOf_cons]
    exact congrArg (· ++ _) (textOf_keptMarks u)
  have hredact : textOf (redact tokens .card (.found u :: rest) n) =
      u ++ textOf (redact tokens .card rest n) := by
    rw [redact, if_neg (by rw [SensitiveKind.accepts, hrejected]; decide), textOf_append,
      textOf_keptMarks]
  obtain ⟨hhead, hrest⟩ := id hsearched
  obtain ⟨r, hr, hbefore, haccepts, hstop⟩ := mem_matchesAt_card.1 (List.mem_of_head? hhead)
  obtain rfl := List.append_cancel_left hr
  -- it is a match after the pass as well
  have hmem : u ∈ (SensitiveKind.card.pattern isWord).matchesAt before
      (u ++ textOf (redact tokens .card rest n)) := by
    refine mem_matchesAt_card.2 ⟨_, rfl, hbefore, haccepts, ?_⟩
    have hsplit : textOf (redact tokens .card rest n) = [] ++ textOf (redact tokens .card rest n) :=
      rfl
    obtain ⟨r, hr, hsame | ⟨hopening, -⟩⟩ := exists_front hrest List.not_mem_nil hsplit
    · rw [List.nil_append] at hr
      rwa [hsame, ← hr]
    · rw [hopening]
      decide
  obtain ⟨z, hz⟩ := Option.isSome_iff_exists.1 (List.isSome_head?.2 (List.ne_nil_of_mem hmem))
  rcases mem_of_mem_after (n := n) hsearched (hredact ▸ List.mem_of_head? hz) with
    hsame | ⟨w, s, r, rfl, hs, hdigit, hw, hz'⟩
  · -- both texts prefer the same match
    left
    obtain ⟨x, tail, tail', hx, hx', htail⟩ := exists_cut tokens n hsearched
    have hstops : (SensitiveKind.core .card).Stops tail' := by
      intro c hc
      rcases htail with ⟨-, rfl⟩ | ⟨hopening, -⟩
      · cases hc
      · rw [hopening] at hc
        obtain rfl := Option.some.inj hc
        exact SensitiveKind.avoids_core (by decide)
    have hcut : (SensitiveKind.core .card).matchesAt before (x ++ tail') =
        ((SensitiveKind.core .card).matchesAt before (x ++ tail)).filter (·.length ≤ x.length) :=
      Regex.matchesAt_cut (SensitiveKind.isBare_core .card) before tail hstops
    rw [htext] at hx hsame
    rw [hredact] at hx'
    rw [matchesAt_card hbefore, hx', hcut, List.filter_filter, ← hx] at hz hmem
    rw [matchesAt_card hbefore] at hhead hsame
    have hzu := head?_filter_unique hz hhead (List.mem_filter.1 hsame).2 (List.mem_filter.1 hmem).2
    rw [matchesAt_card hbefore, hx', hcut, List.filter_filter, ← hx, hz, hzu]
  · -- a longer one would have more digits
    rw [htext] at hw
    rw [hredact] at hz'
    have hlonger : digitCount w ≤ digitCount u := by
      rw [matchesAt_card hbefore] at hhead hw
      exact rel_of_head?_filter (R := fun u v => digitCount v ≤ digitCount u) (fun _ => le_rfl)
        (pairwise_matchesAt_card _ _) hhead hw
    rcases List.append_eq_append_iff.1 hz' with ⟨y, hy, hrest'⟩ | ⟨y, hy, hrest'⟩
    · rcases List.eq_nil_or_concat' y with rfl | ⟨y, s', rfl⟩
      · left
        rw [hz, hy, List.append_nil]
      rw [← List.append_assoc] at hy
      obtain ⟨rfl, hs'⟩ := List.append_inj' hy rfl
      obtain rfl := List.singleton_inj.1 hs'
      have hnil : y = [] := by
        by_contra hne
        rw [List.getLast?_append_of_ne_nil _ hne] at hdigit
        rw [digitCount_append] at hlonger
        have hpos := digitCount_pos hdigit
        omega
      subst hnil
      rw [List.append_nil] at hz
      rw [List.nil_append, List.singleton_append] at hrest'
      obtain ⟨rest', rfl⟩ := exists_keep_of_separator hrest hs hrest'
      exact Or.inr ⟨s, rest', rfl, hs, hz⟩
    · cases y with
      | nil =>
        left
        rw [hz, hy, List.append_nil]
      | cons c y =>
        obtain ⟨rfl, -⟩ := List.cons.inj hrest'
        have hbracket : '[' ∈ u := by
          rw [hy]
          simp
        exact absurd hbracket (SensitiveKind.not_mem_of_accepts haccepts (by decide))

theorem isCard_concat {u : List Char} {s : Char} (hs : isSeparator s = true) :
    isCard (u ++ [s]) = isCard u := by
  have hdigits : (u ++ [s]).filter (!isSeparator ·) = u.filter (!isSeparator ·) := by
    rw [List.filter_append, List.filter_cons_of_neg (by rw [hs]; decide), List.filter_nil,
      List.append_nil]
  rw [isCard, isCard, hdigits]

/-- A search passes over a placeholder. -/
theorem hit_mem_placeholder {key : List Char} (hkey : IsPlaceholder key) {before : Option Char}
    {u rest : List Char} : .hit u ∈ (kind.pattern isWord).piecesFrom before 0 (key ++ rest) ↔
      .hit u ∈ (kind.pattern isWord).piecesFrom (some ']') 0 rest := by
  rw [Regex.piecesFrom_append fun v w before' hsplit hw x hx =>
    eq_nil_of_mem_placeholder hkey hsplit hw hx]
  obtain ⟨kind', token, rfl, -⟩ := hkey
  rw [lastOf, getLast?_placeholder, Option.some_or]
  simp

/-- The search after the pass finds no card. It stands where the search of the pass stood, but
that a placeholder may be before it where a match was. -/
theorem rejects_redact_card (htokens : ∀ n, (tokens.next n).length = 8) :
    ∀ {segments : List Segment} {before before' : Option Char} (n : ℕ),
      Searched isWord .card before segments →
        before' = before ∨ (textOf (marksOf segments)).head?.any isDecimal = false →
          ∀ u, .hit u ∈ (SensitiveKind.card.pattern isWord).piecesFrom before' 0
            (textOf (redact tokens .card segments n)) → isCard u = false
  | [], _, _, _, _, _, u, hu => by cases hu
  | .keep c :: rest, before, before', n, hsearched, hbefore, u, hu => by
    have hnone : (SensitiveKind.card.pattern isWord).matchesAt before'
        (c :: textOf (redact tokens .card rest n)) = [] := by
      rcases hbefore with rfl | hhead
      · exact matchesAt_card_keep hsearched
      · exact matchesAt_card_of_head hhead
    rw [redact, textOf_cons, Mark.text, List.singleton_append,
      Regex.piecesFrom_plain (by rw [hnone]; exact List.forall_mem_nil _)] at hu
    refine rejects_redact_card htokens n hsearched.2 (Or.inl rfl) u ?_
    simpa using hu
  | .hole key value :: rest, before, before', n, ⟨hkey, hrest⟩, _, u, hu => by
    have hlast : lastOf before key = some ']' := by
      obtain ⟨kind', token, rfl, -⟩ := hkey
      rw [lastOf, getLast?_placeholder]
      rfl
    rw [hlast] at hrest
    rw [redact, textOf_cons, Mark.text, hit_mem_placeholder hkey] at hu
    exact rejects_redact_card htokens n hrest (Or.inl rfl) u hu
  | .found v :: rest, before, before', n, hsearched, hbefore, u, hu => by
    obtain ⟨hhead, hrest⟩ := id hsearched
    obtain ⟨r, hr, -, haccepts, hstop⟩ := mem_matchesAt_card.1 (List.mem_of_head? hhead)
    obtain rfl := List.append_cancel_left hr
    have hne := SensitiveKind.ne_nil_of_accepts haccepts
    cases hcard : isCard v with
    | true =>
      have hkey : IsPlaceholder (placeholder .card (tokens.next n)) :=
        ⟨.card, _, rfl, htokens n, tokens.hex n⟩
      have hcounts : SensitiveKind.card.accepts v = true := hcard
      rw [redact, if_pos hcounts, textOf_cons, Mark.text, hit_mem_placeholder hkey] at hu
      exact rejects_redact_card htokens (n + 1) hrest (Or.inr hstop) u hu
    | false =>
      have hsame : before' = before := by
        refine hbefore.resolve_right fun hdigit => ?_
        have htext : textOf (marksOf (.found v :: rest)) = v ++ textOf (marksOf rest) := by
          rw [textOf_marksOf_cons]
          exact congrArg (· ++ _) (textOf_keptMarks v)
        rw [htext, List.head?_append_of_ne_nil _ hne, head_of_accepts_card haccepts] at hdigit
        cases hdigit
      subst hsame
      rw [redact, if_neg (by rw [SensitiveKind.accepts, hcard]; decide), textOf_append,
        textOf_keptMarks] at hu
      rcases head?_card_after tokens n hsearched hcard with
        hagain | ⟨s, rest', rfl, hs, hagain⟩
      · rw [Regex.piecesFrom_hit hne hagain] at hu
        rcases List.mem_cons.1 hu with heq | hmem
        · rw [Piece.hit.inj heq, hcard]
        · exact rejects_redact_card htokens n hrest (Or.inl rfl) u hmem
      · rw [redact, textOf_cons, Mark.text, ← List.append_assoc] at hu hagain
        rw [Regex.piecesFrom_hit (by simp) hagain] at hu
        rcases List.mem_cons.1 hu with heq | hmem
        · rw [Piece.hit.inj heq, isCard_concat hs, hcard]
        · refine rejects_redact_card htokens n hrest.2 (Or.inl ?_) u hmem
          rw [lastOf, List.getLast?_concat]
          rfl
termination_by segments => segments.length

end EnterpriseRag
