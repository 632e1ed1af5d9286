import Mathlib.Data.List.Basic
import Mathlib.Data.List.TakeWhile

/-!
# Backtracking regular expressions

Patterns over characters with the priorities of a backtracking matcher : `alt` tries its
left side first and `many` is greedy. `matchesAt` lists what a pattern can match at the
front of a text, the preferred match first. Assertions look at the character before and at
the text that follows, which is all that `\b` and the look-arounds of one character need.

`pieces` cuts a text from the left into the matches a search finds, one after the other
and never overlapping, and the characters between them. `findAll` and `sub` read it.
-/

/-- A pattern. -/
inductive Regex
  | empty
  | char (p : Char → Bool)
  | many (p : Char → Bool) (least : ℕ)
  | seq (r s : Regex)
  | alt (r s : Regex)
  | assert (q : Option Char → List Char → Bool)

namespace Regex

/-! ## Patterns -/

/-- `r?`. -/
def opt (r : Regex) : Regex :=
  alt r empty

/-- `r{0,most}`. -/
def upTo (r : Regex) : ℕ → Regex
  | 0 => empty
  | most + 1 => opt (seq r (upTo r most))

/-- `r{least,least + more}`. -/
def repeats (r : Regex) : ℕ → ℕ → Regex
  | 0, more => r.upTo more
  | least + 1, more => seq r (repeats r least more)

/-- The characters of `s`, each as `p` compares it. -/
def literal (p : Char → Char → Bool) : List Char → Regex
  | [] => empty
  | c :: cs => seq (char (p c)) (literal p cs)

/-- `(?<!p)`. -/
def notAfter (p : Char → Bool) : Regex :=
  assert fun before _ => !before.any p

/-- `(?!p)`. -/
def notBefore (p : Char → Bool) : Regex :=
  assert fun _ rest => !rest.head?.any p

/-- `\b`, for the word characters `w`. -/
def boundary (w : Char → Bool) : Regex :=
  assert fun before rest => before.any w != rest.head?.any w

/-! ## Matches -/

/-- The character before what follows `u`. -/
def lastOf (before : Option Char) (u : List Char) : Option Char :=
  u.getLast?.or before

/-- The runs of `p` at the front, longest first. -/
def runs (p : Char → Bool) (least : ℕ) : List Char → List (List Char)
  | [] => if least = 0 then [[]] else []
  | c :: cs =>
    (if p c then (runs p (least - 1) cs).map (c :: ·) else []) ++ if least = 0 then [[]] else []

/-- What a pattern can match at the front of a text, the preferred match first. -/
def matchesAt : Regex → Option Char → List Char → List (List Char)
  | empty, _, _ => [[]]
  | char _, _, [] => []
  | char p, _, c :: _ => if p c then [[c]] else []
  | many p least, _, cs => runs p least cs
  | seq r s, before, cs =>
    (r.matchesAt before cs).flatMap fun u =>
      (s.matchesAt (lastOf before u) (cs.drop u.length)).map (u ++ ·)
  | alt r s, before, cs => r.matchesAt before cs ++ s.matchesAt before cs
  | assert q, before, cs => if q before cs then [[]] else []

/-- A character outside the matches, or a match. -/
inductive Piece
  | plain (c : Char)
  | hit (u : List Char)
  deriving DecidableEq, Repr

/-- The text of a piece. -/
def Piece.text : Piece → List Char
  | plain c => [c]
  | hit u => u

/-- The pieces of a text, past the rest of a match of which `skip` characters are left. -/
def piecesFrom (r : Regex) : Option Char → ℕ → List Char → List Piece
  | _, _, [] => []
  | _, skip + 1, c :: cs => r.piecesFrom (some c) skip cs
  | before, 0, c :: cs =>
    match (r.matchesAt before (c :: cs)).head? with
    | some (d :: u) => .hit (d :: u) :: r.piecesFrom (some c) u.length cs
    | _ => .plain c :: r.piecesFrom (some c) 0 cs

def pieces (r : Regex) (text : List Char) : List Piece :=
  r.piecesFrom none 0 text

/-- `finditer`, the matched texts. -/
def findAll (r : Regex) (text : List Char) : List (List Char) :=
  (r.pieces text).filterMap fun
    | .plain _ => none
    | .hit u => some u

/-- `split` : the texts between the matches. -/
def split (r : Regex) (text : List Char) : List (List Char) :=
  (r.pieces text).foldr
    (fun piece parts => match piece, parts with
      | .plain c, part :: rest => (c :: part) :: rest
      | .plain c, [] => [[c]]
      | .hit _, parts => [] :: parts)
    [[]]

/-- `search` finds a match. -/
def found (r : Regex) (text : List Char) : Bool :=
  (r.findAll text) ≠ []

/-! ## What a match is -/

/-- Every match is a front part of the text. -/
theorem isPrefix_of_mem_runs {p : Char → Bool} :
    ∀ {least : ℕ} {cs u : List Char}, u ∈ runs p least cs → u <+: cs
  | _, [], u, h => by
    rw [runs] at h
    split at h
    · exact List.mem_singleton.1 h ▸ List.nil_prefix
    · simp at h
  | least, c :: cs, u, h => by
    rw [runs, List.mem_append] at h
    rcases h with h | h
    · split at h
      · obtain ⟨v, hv, rfl⟩ := List.mem_map.1 h
        exact List.cons_prefix_cons.2 ⟨rfl, isPrefix_of_mem_runs hv⟩
      · simp at h
    · split at h
      · rw [List.mem_singleton.1 h]
        exact List.nil_prefix
      · simp at h

theorem isPrefix_of_mem_matchesAt {r : Regex} :
    ∀ {before : Option Char} {cs u : List Char}, u ∈ r.matchesAt before cs → u <+: cs := by
  induction r with
  | empty =>
    intro before cs u h
    rw [matchesAt, List.mem_singleton] at h
    exact h ▸ List.nil_prefix
  | char p =>
    intro before cs u h
    cases cs with
    | nil => simp [matchesAt] at h
    | cons c cs =>
      rw [matchesAt] at h
      split at h
      · rw [List.mem_singleton.1 h]
        exact List.cons_prefix_cons.2 ⟨rfl, List.nil_prefix⟩
      · simp at h
  | many p least =>
    intro before cs u h
    exact isPrefix_of_mem_runs h
  | seq r s ihr ihs =>
    intro before cs u h
    rw [matchesAt, List.mem_flatMap] at h
    obtain ⟨v, hv, h⟩ := h
    obtain ⟨w, hw, rfl⟩ := List.mem_map.1 h
    obtain ⟨rest, rfl⟩ := ihr hv
    rw [List.drop_left] at hw
    exact List.prefix_append_right_inj v |>.2 (ihs hw)
  | alt r s ihr ihs =>
    intro before cs u h
    rw [matchesAt, List.mem_append] at h
    exact h.elim ihr ihs
  | assert q =>
    intro before cs u h
    rw [matchesAt] at h
    split at h
    · rw [List.mem_singleton.1 h]
      exact List.nil_prefix
    · simp at h

/-- A greedy run prefers the longest. -/
theorem head?_runs {p : Char → Bool} :
    ∀ {least : ℕ} {cs : List Char}, least ≤ (cs.takeWhile p).length →
      (runs p least cs).head? = some (cs.takeWhile p)
  | least, [], h => by
    obtain rfl := Nat.le_zero.1 h
    rfl
  | least, c :: cs, h => by
    rw [runs]
    by_cases hc : p c
    · rw [List.takeWhile_cons_of_pos hc] at h ⊢
      have ih : (runs p (least - 1) cs).head? = some (cs.takeWhile p) :=
        head?_runs (by rw [List.length_cons] at h; omega)
      rw [if_pos hc, List.head?_append, List.head?_map, ih]
      rfl
    · rw [List.takeWhile_cons_of_neg hc] at h ⊢
      obtain rfl := Nat.le_zero.1 h
      simp [hc]

theorem mem_matchesAt_seq {r s : Regex} {before : Option Char} {cs u : List Char} :
    u ∈ (seq r s).matchesAt before cs ↔ ∃ v ∈ r.matchesAt before cs,
      ∃ w ∈ s.matchesAt (lastOf before v) (cs.drop v.length), v ++ w = u := by
  simp [matchesAt]

theorem exists_of_mem_matchesAt_char {p : Char → Bool} {before : Option Char} {cs u : List Char}
    (h : u ∈ (char p).matchesAt before cs) : ∃ c, u = [c] ∧ p c = true := by
  cases cs with
  | nil => simp [matchesAt] at h
  | cons c cs =>
    rw [matchesAt] at h
    split at h
    · rename_i hc
      exact ⟨c, List.mem_singleton.1 h, hc⟩
    · simp at h

theorem head?_matchesAt_seq {r s : Regex} {before : Option Char} {cs u v : List Char}
    (hr : (r.matchesAt before cs).head? = some u)
    (hs : (s.matchesAt (lastOf before u) (cs.drop u.length)).head? = some v) :
    ((seq r s).matchesAt before cs).head? = some (u ++ v) := by
  obtain ⟨us, hus⟩ := List.head?_eq_some_iff.1 hr
  obtain ⟨vs, hvs⟩ := List.head?_eq_some_iff.1 hs
  rw [matchesAt, hus, List.flatMap_cons, hvs]
  rfl

/-- A literal matches itself. -/
theorem matchesAt_literal_append (lit : List Char) :
    ∀ (before : Option Char) (rest : List Char),
      (literal (fun c d => d = c) lit).matchesAt before (lit ++ rest) = [lit] := by
  induction lit with
  | nil => exact fun _ _ => rfl
  | cons c lit ih =>
    intro before rest
    rw [literal, matchesAt, List.cons_append, matchesAt]
    simp [ih]

@[simp] theorem matchesAt_many (p : Char → Bool) (least : ℕ) (before : Option Char)
    (cs : List Char) : (many p least).matchesAt before cs = runs p least cs :=
  rfl

theorem eq_of_mem_matchesAt_literal {lit : List Char} :
    ∀ {before : Option Char} {cs u : List Char},
      u ∈ (literal (fun c d => d = c) lit).matchesAt before cs → u = lit := by
  induction lit with
  | nil => exact fun h => List.mem_singleton.1 h
  | cons c lit ih =>
    intro before cs u h
    rw [literal, matchesAt, List.mem_flatMap] at h
    obtain ⟨v, hv, h⟩ := h
    obtain ⟨w, hw, rfl⟩ := List.mem_map.1 h
    cases cs with
    | nil => simp [matchesAt] at hv
    | cons d cs =>
      rw [matchesAt] at hv
      split at hv
      · rename_i hd
        rw [List.mem_singleton.1 hv, ih hw, of_decide_eq_true hd]
        rfl
      · simp at hv

theorem length_of_mem_runs {p : Char → Bool} :
    ∀ {least : ℕ} {cs u : List Char}, u ∈ runs p least cs → least ≤ u.length
  | least, [], u, h => by
    rw [runs] at h
    split at h
    · omega
    · simp at h
  | least, c :: cs, u, h => by
    rw [runs, List.mem_append] at h
    rcases h with h | h
    · split at h
      · obtain ⟨v, hv, rfl⟩ := List.mem_map.1 h
        have hlength := length_of_mem_runs hv
        rw [List.length_cons]
        omega
      · simp at h
    · split at h
      · omega
      · simp at h

/-- No part of the pattern matches the character. -/
def avoids (c : Char) : Regex → Bool
  | empty => true
  | char p => !p c
  | many p _ => !p c
  | seq r s => r.avoids c && s.avoids c
  | alt r s => r.avoids c && s.avoids c
  | assert _ => true

theorem forall_mem_of_mem_runs {p q : Char → Bool} (hpq : ∀ c, q c → p c) :
    ∀ {least : ℕ} {cs u : List Char}, u ∈ runs q least cs → ∀ c ∈ u, p c
  | _, [], u, h => by
    rw [runs] at h
    split at h
    · rw [List.mem_singleton.1 h]
      simp
    · simp at h
  | least, c :: cs, u, h => by
    rw [runs, List.mem_append] at h
    rcases h with h | h
    · split at h
      · rename_i hc
        obtain ⟨v, hv, rfl⟩ := List.mem_map.1 h
        exact List.forall_mem_cons.2 ⟨hpq c hc, forall_mem_of_mem_runs hpq hv⟩
      · simp at h
    · split at h
      · rw [List.mem_singleton.1 h]
        simp
      · simp at h

theorem not_mem_of_avoids {c : Char} {r : Regex} (hr : r.avoids c = true) :
    ∀ {before : Option Char} {cs u : List Char}, u ∈ r.matchesAt before cs → c ∉ u := by
  induction r with
  | empty =>
    intro before cs u h
    rw [matchesAt, List.mem_singleton] at h
    simp [h]
  | char p =>
    intro before cs u h hc
    obtain ⟨d, rfl, hd⟩ := exists_of_mem_matchesAt_char h
    obtain rfl := List.mem_singleton.1 hc
    simp [avoids, hd] at hr
  | many p least =>
    intro before cs u h hc
    have hp := forall_mem_of_mem_runs (fun _ h => h) h c hc
    simp [avoids, hp] at hr
  | seq r s ihr ihs =>
    intro before cs u h
    rw [avoids, Bool.and_eq_true] at hr
    obtain ⟨v, hv, w, hw, rfl⟩ := mem_matchesAt_seq.1 h
    rw [List.mem_append, not_or]
    exact ⟨ihr hr.1 hv, ihs hr.2 hw⟩
  | alt r s ihr ihs =>
    intro before cs u h
    rw [avoids, Bool.and_eq_true] at hr
    rw [matchesAt, List.mem_append] at h
    exact h.elim (ihr hr.1) (ihs hr.2)
  | assert q =>
    intro before cs u h
    rw [matchesAt] at h
    split at h
    · rw [List.mem_singleton.1 h]
      simp
    · simp at h

/-! ## What a search finds -/

/-- The pieces make up the text. -/
theorem text_piecesFrom {r : Regex} :
    ∀ {before : Option Char} {skip : ℕ} {cs : List Char},
      (r.piecesFrom before skip cs).flatMap Piece.text = cs.drop skip
  | _, _, [] => by simp [piecesFrom]
  | _, skip + 1, c :: cs => by
    rw [piecesFrom, text_piecesFrom, List.drop_succ_cons]
  | before, 0, c :: cs => by
    rw [piecesFrom]
    split
    · rename_i d u hu
      obtain ⟨rest, hrest⟩ := isPrefix_of_mem_matchesAt (List.mem_of_head? hu)
      rw [List.cons_append] at hrest
      obtain ⟨rfl, rfl⟩ := List.cons.inj hrest
      rw [List.flatMap_cons, text_piecesFrom, List.drop_left]
      rfl
    · rw [List.flatMap_cons, text_piecesFrom]
      rfl

theorem text_pieces (r : Regex) (text : List Char) : (r.pieces text).flatMap Piece.text = text :=
  text_piecesFrom

/-- What a search finds is matched somewhere. -/
theorem exists_of_hit_mem {r : Regex} :
    ∀ {before : Option Char} {skip : ℕ} {cs u : List Char},
      .hit u ∈ r.piecesFrom before skip cs →
        u ≠ [] ∧ ∃ before' rest, u ∈ r.matchesAt before' (u ++ rest)
  | _, _, [], u, h => by simp [piecesFrom] at h
  | _, skip + 1, c :: cs, u, h => by
    rw [piecesFrom] at h
    exact exists_of_hit_mem h
  | before, 0, c :: cs, u, h => by
    rw [piecesFrom] at h
    split at h
    · rename_i d v hv
      rcases List.mem_cons.1 h with h | h
      · obtain rfl := Piece.hit.inj h
        have hmem := List.mem_of_head? hv
        obtain ⟨rest, hrest⟩ := isPrefix_of_mem_matchesAt hmem
        refine ⟨by simp, before, rest, ?_⟩
        rw [hrest]
        exact hmem
      · exact exists_of_hit_mem h
    · rcases List.mem_cons.1 h with h | h
      · simp at h
      · exact exists_of_hit_mem h

theorem lastOf_cons (before : Option Char) (c : Char) (u : List Char) :
    lastOf before (c :: u) = lastOf (some c) u := by
  rw [lastOf, lastOf, List.getLast?_cons]
  cases u.getLast? <;> rfl

/-- A match that no match before it reaches into is found. -/
theorem hit_mem_piecesFrom {r : Regex} {u post : List Char} (hne : u ≠ []) :
    ∀ {pre : List Char} {before : Option Char} {skip : ℕ}, skip ≤ pre.length →
      (r.matchesAt (lastOf before pre) (u ++ post)).head? = some u →
      (∀ p q, pre = p ++ q → q ≠ [] →
        ∀ v ∈ r.matchesAt (lastOf before p) (q ++ (u ++ post)), v.length ≤ q.length) →
      .hit u ∈ r.piecesFrom before skip (pre ++ (u ++ post))
  | [], before, skip, hskip, hhead, _ => by
    obtain rfl := Nat.le_zero.1 hskip
    obtain ⟨c, cs, rfl⟩ := List.exists_cons_of_ne_nil hne
    rw [List.nil_append, List.cons_append, piecesFrom, ← List.cons_append]
    rw [show lastOf before [] = before from rfl] at hhead
    rw [hhead]
    exact List.mem_cons_self
  | c :: pre, before, skip, hskip, hhead, hover => by
    rw [lastOf_cons] at hhead
    have hover' : ∀ p q, pre = p ++ q → q ≠ [] →
        ∀ v ∈ r.matchesAt (lastOf (some c) p) (q ++ (u ++ post)), v.length ≤ q.length := by
      intro p q hpq hq v hv
      rw [← lastOf_cons before] at hv
      exact hover (c :: p) q (by rw [hpq, List.cons_append]) hq v hv
    have ih : ∀ {skip : ℕ}, skip ≤ pre.length →
        .hit u ∈ r.piecesFrom (some c) skip (pre ++ (u ++ post)) :=
      fun hskip => hit_mem_piecesFrom hne hskip hhead hover'
    rw [List.cons_append]
    cases skip with
    | succ skip =>
      rw [piecesFrom]
      exact ih (Nat.le_of_succ_le_succ hskip)
    | zero =>
      rw [piecesFrom]
      split
      · rename_i d v hv
        have hlength := hover [] (c :: pre) rfl (List.cons_ne_nil _ _) (d :: v)
          (List.mem_of_head? hv)
        exact List.mem_cons_of_mem _ (ih (Nat.le_of_succ_le_succ hlength))
      · exact List.mem_cons_of_mem _ (ih (Nat.zero_le _))

/-- A match is found if its first character is only ever the first one of a match. -/
theorem hit_mem_pieces {r : Regex} {c : Char} {u pre post : List Char}
    (hhead : (r.matchesAt (lastOf none pre) (c :: u ++ post)).head? = some (c :: u))
    (htail : ∀ before cs v, v ∈ r.matchesAt before cs → c ∉ v.tail) :
    .hit (c :: u) ∈ r.pieces (pre ++ (c :: u ++ post)) := by
  refine hit_mem_piecesFrom (List.cons_ne_nil _ _) (Nat.zero_le _) hhead ?_
  intro p q _ hq v hv
  by_contra hlength
  obtain ⟨d, q, rfl⟩ := List.exists_cons_of_ne_nil hq
  have hprefixed : v <+: d :: q ++ c :: (u ++ post) := isPrefix_of_mem_matchesAt hv
  obtain ⟨rest, rfl⟩ := List.prefix_of_prefix_length_le (List.prefix_append (d :: q) _) hprefixed
    (not_le.1 hlength).le
  have hrest := (List.prefix_append_right_inj _).1 hprefixed
  cases rest with
  | nil => simp at hlength
  | cons e rest =>
    obtain ⟨rfl, -⟩ := List.cons_prefix_cons.1 hrest
    exact htail _ _ _ hv (by simp)

theorem mem_findAll {r : Regex} {text u : List Char} :
    u ∈ r.findAll text ↔ .hit u ∈ r.pieces text := by
  rw [findAll, List.mem_filterMap]
  constructor
  · rintro ⟨piece, hpiece, h⟩
    cases piece with
    | plain c => simp at h
    | hit v =>
      obtain rfl := Option.some.inj h
      exact hpiece
  · intro h
    exact ⟨_, h, rfl⟩

/-- What a search finds is a part of the text. -/
theorem isInfix_of_mem_findAll {r : Regex} {text u : List Char} (h : u ∈ r.findAll text) :
    u <:+: text := by
  obtain ⟨p, q, hpq⟩ := List.append_of_mem (mem_findAll.1 h)
  refine ⟨p.flatMap Piece.text, q.flatMap Piece.text, ?_⟩
  rw [← text_pieces r text, hpq, List.flatMap_append, List.flatMap_cons, List.append_assoc]
  rfl

end Regex
