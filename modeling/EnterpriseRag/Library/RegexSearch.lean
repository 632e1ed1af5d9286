import EnterpriseRag.Library.RegexSemantics

/-!
# Where searches find

The preferred matches of repetitions, which take all they can, and `mem_findAll_of_head?` :
what a pattern prefers behind a character it avoids is found, because no match before it
goes past that character. A bare pattern finds on each side of it what it finds there alone
(`findAll_append_cons`). `piecesFrom_behind` restarts a search behind any of its pieces, so
each piece says what the pattern matches where it stands.
-/

namespace Regex

/-! ## Preferred matches -/

theorem head?_assert {q : Option Char → List Char → Bool} {before : Option Char} {cs : List Char}
    (h : q before cs = true) : ((assert q).matchesAt before cs).head? = some [] := by
  rw [matchesAt, if_pos h]
  rfl

/-- Up to `most` characters are taken, as many as there are. -/
theorem head?_upTo_char {p : Char → Bool} {rest : List Char} (hrest : ∀ c ∈ rest.head?, p c = false) :
    ∀ {most : ℕ} {before : Option Char} {u : List Char}, (∀ c ∈ u, p c = true) → u.length ≤ most →
      (((char p).upTo most).matchesAt before (u ++ rest)).head? = some u
  | 0, before, u, _, hmost => by
    obtain rfl := List.length_eq_zero_iff.1 (Nat.le_zero.1 hmost)
    rfl
  | most + 1, before, [], _, _ => by
    cases rest with
    | nil => rfl
    | cons c rest => simp [upTo, opt, matchesAt, hrest c rfl]
  | most + 1, before, c :: u, hu, hmost => by
    have ih : (((char p).upTo most).matchesAt (some c) (u ++ rest)).head? = some u :=
      head?_upTo_char hrest (fun d hd => hu d (List.mem_cons_of_mem _ hd)) (by simpa using hmost)
    have hc := hu c List.mem_cons_self
    have hone : (char p).matchesAt before (c :: (u ++ rest)) = [[c]] := by
      rw [matchesAt, if_pos hc]
    have hseq : ((seq (char p) ((char p).upTo most)).matchesAt before
        (c :: (u ++ rest))).head? = some ([c] ++ u) :=
      head?_matchesAt_seq (by rw [hone]; rfl) ih
    obtain ⟨us, hus⟩ := List.head?_eq_some_iff.1 hseq
    rw [upTo, opt, matchesAt, List.cons_append, hus]
    rfl

/-- Parts that are all taken, between `least` and `least + more` of them. -/
theorem head?_repeats {r : Regex} {rest : List Char} (hrest : ∀ before, r.matchesAt before rest = [])
    {P : List Char → Prop}
    (hpart : ∀ part, P part → ∀ before tail, (r.matchesAt before (part ++ tail)).head? = some part) :
    ∀ {least more : ℕ} {before : Option Char} {parts : List (List Char)}, (∀ part ∈ parts, P part) →
      least ≤ parts.length → parts.length ≤ least + more →
        ((repeats r least more).matchesAt before (parts.flatten ++ rest)).head? = some parts.flatten
  | 0, 0, before, parts, _, _, hmost => by
    obtain rfl := List.length_eq_zero_iff.1 (Nat.le_zero.1 hmost)
    rfl
  | 0, more + 1, before, [], _, _, _ => by
    have hseq : (seq r (r.upTo more)).matchesAt before rest = [] := by
      rw [matchesAt, hrest]
      rfl
    rw [repeats, upTo, opt, matchesAt, List.flatten_nil, List.nil_append, hseq]
    rfl
  | 0, more + 1, before, part :: parts, hparts, _, hmost => by
    have ih : ((repeats r 0 more).matchesAt (lastOf before part)
        (parts.flatten ++ rest)).head? = some parts.flatten :=
      head?_repeats hrest hpart (fun part h => hparts part (List.mem_cons_of_mem _ h))
        (Nat.zero_le _) (by rw [List.length_cons] at hmost; omega)
    have hseq : ((seq r (r.upTo more)).matchesAt before
        (part ++ (parts.flatten ++ rest))).head? = some (part ++ parts.flatten) :=
      head?_matchesAt_seq (hpart part (hparts part List.mem_cons_self) _ _) (by rwa [List.drop_left])
    obtain ⟨us, hus⟩ := List.head?_eq_some_iff.1 hseq
    rw [repeats, upTo, opt, matchesAt, List.flatten_cons, List.append_assoc, hus]
    rfl
  | least + 1, more, before, [], _, hleast, _ => absurd hleast (Nat.not_succ_le_zero _)
  | least + 1, more, before, part :: parts, hparts, hleast, hmost => by
    rw [List.length_cons] at hleast hmost
    have ih : ((repeats r least more).matchesAt (lastOf before part)
        (parts.flatten ++ rest)).head? = some parts.flatten :=
      head?_repeats hrest hpart (fun part h => hparts part (List.mem_cons_of_mem _ h)) (by omega)
        (by omega)
    rw [repeats, List.flatten_cons, List.append_assoc]
    exact head?_matchesAt_seq (hpart part (hparts part List.mem_cons_self) _ _) (by rwa [List.drop_left])

/-! ## Where the pieces stand -/

/-- Behind some of its pieces a search goes on as if it started there. -/
theorem piecesFrom_behind {r : Regex} (hr : ∀ before cs, [] ∉ r.matchesAt before cs)
    {back : List Piece} : ∀ {front : List Piece} {before : Option Char} {cs : List Char},
      r.piecesFrom before 0 cs = front ++ back →
        r.piecesFrom (lastOf before (front.flatMap Piece.text)) 0 (back.flatMap Piece.text) = back
  | [], before, cs, h => by
    rw [List.nil_append] at h
    rw [← h, text_piecesFrom]
    rfl
  | _ :: _, _, [], h => nomatch h
  | piece :: front, before, c :: cs, h => by
    rcases piecesFrom_cases hr before c cs with ⟨-, hplain⟩ | ⟨u, rest, -, -, -, hhit⟩
    · rw [hplain] at h
      obtain ⟨rfl, htail⟩ := List.cons.inj h
      have ih := piecesFrom_behind hr htail
      rwa [List.flatMap_cons, lastOf_append]
    · rw [hhit] at h
      obtain ⟨rfl, htail⟩ := List.cons.inj h
      have ih := piecesFrom_behind hr htail
      rwa [List.flatMap_cons, lastOf_append]

/-- Nothing matches at a character that is passed over. -/
theorem matchesAt_of_plain {r : Regex} (hr : ∀ before cs, [] ∉ r.matchesAt before cs)
    {front back : List Piece} {before : Option Char} {c : Char} {cs : List Char}
    (h : r.piecesFrom before 0 cs = front ++ .plain c :: back) :
    r.matchesAt (lastOf before (front.flatMap Piece.text)) (c :: back.flatMap Piece.text) = [] := by
  have hrest : r.piecesFrom (lastOf before (front.flatMap Piece.text)) 0
      (c :: back.flatMap Piece.text) = .plain c :: back := piecesFrom_behind hr h
  rcases piecesFrom_cases hr (lastOf before (front.flatMap Piece.text)) c
    (back.flatMap Piece.text) with ⟨hnone, -⟩ | ⟨u, rest, -, -, -, hhit⟩
  · exact hnone
  · rw [hrest] at hhit
    exact nomatch (List.cons.inj hhit).1

/-- A match that is found is the preferred one. -/
theorem head?_of_hit {r : Regex} (hr : ∀ before cs, [] ∉ r.matchesAt before cs)
    {front back : List Piece} {before : Option Char} {u cs : List Char}
    (h : r.piecesFrom before 0 cs = front ++ .hit u :: back) :
    (r.matchesAt (lastOf before (front.flatMap Piece.text))
      (u ++ back.flatMap Piece.text)).head? = some u := by
  have hrest : r.piecesFrom (lastOf before (front.flatMap Piece.text)) 0
      (u ++ back.flatMap Piece.text) = .hit u :: back := piecesFrom_behind hr h
  cases hcs : u ++ back.flatMap Piece.text with
  | nil => rw [hcs] at hrest; exact nomatch hrest
  | cons c cs =>
    rw [hcs] at hrest
    rcases piecesFrom_cases hr (lastOf before (front.flatMap Piece.text)) c cs with
      ⟨-, hplain⟩ | ⟨v, rest, -, -, hhead, hhit⟩
    · rw [hrest] at hplain
      exact nomatch (List.cons.inj hplain).1
    · rw [hrest] at hhit
      obtain rfl := Piece.hit.inj (List.cons.inj hhit).1
      exact hhead

theorem eq_map_plain : ∀ {pieces : List Piece}, (∀ u, .hit u ∉ pieces) →
    pieces = (pieces.flatMap Piece.text).map .plain
  | [], _ => rfl
  | .plain c :: pieces, h => by
    have ih := eq_map_plain fun u hu => h u (List.mem_cons_of_mem _ hu)
    exact congrArg (Piece.plain c :: ·) ih
  | .hit u :: _, h => absurd List.mem_cons_self (h u)

/-- A search finds something just when something matches somewhere. -/
theorem exists_hit_iff {r : Regex} (hr : ∀ before cs, [] ∉ r.matchesAt before cs)
    {text : List Char} : (∃ u, .hit u ∈ r.pieces text) ↔
      ∃ x u y, text = x ++ (u ++ y) ∧ u ∈ r.matchesAt (lastOf none x) (u ++ y) := by
  constructor
  · rintro ⟨u, hu⟩
    obtain ⟨front, back, hsplit⟩ := List.append_of_mem hu
    refine ⟨front.flatMap Piece.text, u, back.flatMap Piece.text, ?_,
      List.mem_of_head? (head?_of_hit hr hsplit)⟩
    rw [← text_pieces r text, hsplit, List.flatMap_append, List.flatMap_cons]
    rfl
  · rintro ⟨x, u, y, rfl, hu⟩
    by_contra hnone
    have hplain := eq_map_plain (not_exists.1 hnone)
    rw [text_pieces] at hplain
    cases u with
    | nil => exact hr _ _ hu
    | cons c u =>
      have hsplit : r.pieces (x ++ (c :: u ++ y)) =
          x.map .plain ++ .plain c :: (u ++ y).map .plain := by
        rw [hplain, List.map_append, List.cons_append, List.map_cons]
      have htext : ∀ l : List Char, (l.map Piece.plain).flatMap Piece.text = l := fun l => by
        induction l with
        | nil => rfl
        | cons d l ih => exact congrArg (d :: ·) ih
      have hnil := matchesAt_of_plain hr hsplit
      rw [htext, htext] at hnil
      rw [List.cons_append, hnil] at hu
      exact nomatch hu

/-! ## Behind a character that is avoided -/

theorem avoids_upTo {r : Regex} {c : Char} (hr : r.avoids c = true) :
    ∀ {most : ℕ}, (r.upTo most).avoids c = true
  | 0 => rfl
  | most + 1 => by simp [upTo, opt, avoids, hr, avoids_upTo hr]

theorem avoids_repeats {r : Regex} {c : Char} (hr : r.avoids c = true) :
    ∀ {least more : ℕ}, (repeats r least more).avoids c = true
  | 0, _ => avoids_upTo hr
  | least + 1, _ => by simp [repeats, avoids, hr, avoids_repeats hr]

/-- What a pattern prefers behind a character it avoids is found. -/
theorem mem_findAll_of_head? {r : Regex} {pre u post : List Char} (hne : u ≠ [])
    (hpre : ∀ d ∈ pre.getLast?, r.avoids d = true)
    (hhead : (r.matchesAt (lastOf none pre) (u ++ post)).head? = some u) :
    u ∈ r.findAll (pre ++ (u ++ post)) := by
  refine mem_findAll.2 (hit_mem_piecesFrom hne (Nat.zero_le _) hhead ?_)
  rintro p q rfl hq v hv
  -- a longer match would have the last character of `pre`
  by_contra hlong
  have hd := List.getLast?_eq_some_getLast hq
  have havoids := hpre (q.getLast hq) (by rw [List.getLast?_append_of_ne_nil _ hq]; exact hd)
  have hprefixed : q <+: v := List.prefix_of_prefix_length_le (List.prefix_append q _)
    (isPrefix_of_mem_matchesAt hv) (not_le.1 hlong).le
  exact not_mem_of_avoids havoids hv (hprefixed.subset (List.getLast_mem hq))

/-! ## On both sides of a character that is avoided -/

/-- A bare pattern matches in front of a character it avoids what it matches in front of
nothing. -/
theorem matchesAt_append_cons {r : Regex} (hr : r.isBare = true) {c : Char}
    (hc : r.avoids c = true) {before before' : Option Char} {x tail : List Char} :
    r.matchesAt before (x ++ c :: tail) = r.matchesAt before' x := by
  have hstops : r.Stops (c :: tail) := by
    rintro d ⟨⟩
    exact hc
  rw [matchesAt_cut hr before' [] hstops, List.append_nil, List.filter_eq_self]
  intro u hu
  exact decide_eq_true (isPrefix_of_mem_matchesAt hu).length_le

/-- The pieces on both sides of a character that is avoided. -/
theorem piecesFrom_append_cons {r : Regex} (hr : r.isBare = true)
    (hne : ∀ before cs, [] ∉ r.matchesAt before cs) {c : Char} (hc : r.avoids c = true) :
    ∀ (n : ℕ) {x tail : List Char} {before before' : Option Char}, x.length ≤ n →
      r.piecesFrom before 0 (x ++ c :: tail) =
        r.piecesFrom before' 0 x ++ .plain c :: r.piecesFrom (some c) 0 tail
  | n, [], tail, before, before', _ => by
    have hnone : r.matchesAt before ([] ++ c :: tail) = [] := by
      rw [matchesAt_append_cons hr hc, List.eq_nil_iff_forall_not_mem]
      intro u hu
      obtain rfl := List.prefix_nil.1 (isPrefix_of_mem_matchesAt hu)
      exact hne before' _ hu
    rw [List.nil_append] at hnone ⊢
    rw [piecesFrom_plain (by rw [hnone]; exact List.forall_mem_nil _)]
    rfl
  | n + 1, d :: x, tail, before, before', hn => by
    rcases piecesFrom_cases hne before' d x with ⟨hnone, hplain⟩ | ⟨u, rest, hu, hx, hhead, hhit⟩
    · have hnone' : r.matchesAt before (d :: x ++ c :: tail) = [] := by
        rw [matchesAt_append_cons hr hc, hnone]
      rw [List.cons_append] at hnone' ⊢
      rw [hplain, piecesFrom_plain (by rw [hnone']; exact List.forall_mem_nil _),
        piecesFrom_append_cons hr hne hc n (Nat.le_of_succ_le_succ hn)]
      rfl
    · have hhead' : (r.matchesAt before (u ++ (rest ++ c :: tail))).head? = some u := by
        rw [← List.append_assoc, ← hx, matchesAt_append_cons hr hc, hhead]
      have hshort : rest.length ≤ n := by
        have hlength := congrArg List.length hx
        rw [List.length_append] at hlength
        have := List.length_pos_of_ne_nil hu
        omega
      rw [hhit, hx, List.append_assoc, piecesFrom_hit hu hhead',
        piecesFrom_append_cons hr hne hc n hshort]
      rfl

/-- Where a bare pattern is searched for does not matter. -/
theorem piecesFrom_of_isBare {r : Regex} (hr : r.isBare = true) {before before' : Option Char} :
    ∀ {skip : ℕ} {cs : List Char}, r.piecesFrom before skip cs = r.piecesFrom before' skip cs
  | _, [] => by simp only [piecesFrom]
  | _ + 1, _ :: _ => by simp only [piecesFrom]
  | 0, c :: cs => by
    have hsame : r.matchesAt before (c :: cs) = r.matchesAt before' (c :: cs) := by
      have hstops : r.Stops [] := fun _ h => by cases h
      rw [← List.append_nil (c :: cs), matchesAt_cut hr before' [] hstops, List.append_nil,
        List.filter_eq_self]
      intro u hu
      exact decide_eq_true (isPrefix_of_mem_matchesAt hu).length_le
    rw [piecesFrom, piecesFrom, hsame]

/-- A search finds on each side of a character that is avoided what it finds there alone. -/
theorem findAll_append_cons {r : Regex} (hr : r.isBare = true)
    (hne : ∀ before cs, [] ∉ r.matchesAt before cs) {c : Char} (hc : r.avoids c = true)
    (x tail : List Char) : r.findAll (x ++ c :: tail) = r.findAll x ++ r.findAll tail := by
  have htail : r.piecesFrom (some c) 0 tail = r.pieces tail := piecesFrom_of_isBare hr
  rw [findAll, pieces, piecesFrom_append_cons hr hne hc x.length le_rfl, htail,
    List.filterMap_append, List.filterMap_cons]
  rfl

end Regex
