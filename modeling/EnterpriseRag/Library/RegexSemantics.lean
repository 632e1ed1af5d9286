import EnterpriseRag.Library.Regex

/-!
# What patterns match

`Fits` says what a pattern matches between the character before and the text after, without
reference to the matcher; `mem_matchesAt_iff` connects them. A pattern without assertions
(`Bare`) does not see its surroundings, and a text that it cannot get past a character of
is as good as cut there (`matchesAt_cut`). `least` is the length of its shortest match.
-/

namespace Regex

/-- `r` matches `u`, after `before` and in front of `rest`. -/
def Fits : Regex → Option Char → List Char → List Char → Prop
  | empty, _, u, _ => u = []
  | char p, _, u, _ => ∃ c, u = [c] ∧ p c = true
  | many p least, _, u, _ => least ≤ u.length ∧ ∀ c ∈ u, p c = true
  | seq r s, before, u, rest =>
    ∃ v w, u = v ++ w ∧ r.Fits before v (w ++ rest) ∧ s.Fits (lastOf before v) w rest
  | alt r s, before, u, rest => r.Fits before u rest ∨ s.Fits before u rest
  | assert q, before, u, rest => u = [] ∧ q before rest = true

theorem mem_runs_iff {p : Char → Bool} :
    ∀ {least : ℕ} {cs u : List Char},
      u ∈ runs p least cs ↔ u <+: cs ∧ least ≤ u.length ∧ ∀ c ∈ u, p c = true := by
  intro least cs u
  constructor
  · exact fun h => ⟨isPrefix_of_mem_runs h, length_of_mem_runs h,
      forall_mem_of_mem_runs (fun _ h => h) h⟩
  · rintro ⟨⟨rest, rfl⟩, hlength, hp⟩
    induction u generalizing least with
    | nil =>
      obtain rfl := Nat.le_zero.1 hlength
      cases rest <;> simp [runs]
    | cons c u ih =>
      rw [List.cons_append, runs, if_pos (hp c List.mem_cons_self), List.mem_append]
      rw [List.length_cons] at hlength
      exact Or.inl (List.mem_map.2 ⟨u, ih (by omega) fun d hd => hp d (List.mem_cons_of_mem _ hd),
        rfl⟩)

/-- The matcher finds what fits. -/
theorem mem_matchesAt_append {r : Regex} :
    ∀ {before : Option Char} {u rest : List Char},
      u ∈ r.matchesAt before (u ++ rest) ↔ r.Fits before u rest := by
  induction r with
  | empty => exact fun {_ u _} => List.mem_singleton
  | char p =>
    intro before u rest
    constructor
    · exact exists_of_mem_matchesAt_char
    · rintro ⟨c, rfl, hc⟩
      simp [matchesAt, hc]
  | many p least =>
    intro before u rest
    rw [matchesAt_many, mem_runs_iff]
    exact and_iff_right (List.prefix_append u rest)
  | seq r s ihr ihs =>
    intro before u rest
    rw [mem_matchesAt_seq]
    constructor
    · rintro ⟨v, hv, w, hw, rfl⟩
      rw [List.append_assoc] at hv hw
      rw [List.drop_left] at hw
      exact ⟨v, w, rfl, ihr.1 hv, ihs.1 hw⟩
    · rintro ⟨v, w, rfl, hv, hw⟩
      refine ⟨v, ?_, w, ?_, rfl⟩
      · rw [List.append_assoc]
        exact ihr.2 hv
      · rw [List.append_assoc, List.drop_left]
        exact ihs.2 hw
  | alt r s ihr ihs =>
    intro before u rest
    rw [matchesAt, List.mem_append, ihr, ihs]
    rfl
  | assert q =>
    intro before u rest
    rw [matchesAt]
    constructor
    · intro h
      split at h
      · rename_i hq
        obtain rfl := List.mem_singleton.1 h
        exact ⟨rfl, hq⟩
      · simp at h
    · rintro ⟨rfl, hq⟩
      rw [List.nil_append, if_pos hq]
      exact List.mem_singleton_self _

theorem mem_matchesAt_iff {r : Regex} {before : Option Char} {cs u : List Char} :
    u ∈ r.matchesAt before cs ↔ ∃ rest, cs = u ++ rest ∧ r.Fits before u rest := by
  constructor
  · intro h
    obtain ⟨rest, rfl⟩ := isPrefix_of_mem_matchesAt h
    exact ⟨rest, rfl, mem_matchesAt_append.1 h⟩
  · rintro ⟨rest, rfl, h⟩
    exact mem_matchesAt_append.2 h

/-- A sequence can be bracketed either way, and matches in the same order. -/
theorem matchesAt_seq_assoc (r s t : Regex) :
    (seq r (seq s t)).matchesAt = (seq (seq r s) t).matchesAt := by
  funext before cs
  simp only [matchesAt, List.flatMap_assoc, List.map_flatMap, List.flatMap_map]
  refine List.flatMap_congr fun v _ => List.flatMap_congr fun w _ => ?_
  have hlast : lastOf before (v ++ w) = lastOf (lastOf before v) w := by
    rw [lastOf, lastOf, lastOf, List.getLast?_append, Option.or_assoc]
  rw [hlast, List.drop_drop, List.length_append, List.map_map]
  refine List.map_congr_left fun x _ => ?_
  rw [Function.comp_apply, List.append_assoc]

theorem matchesAt_seq_congr {r s s' : Regex} (h : s.matchesAt = s'.matchesAt) :
    (seq r s).matchesAt = (seq r s').matchesAt := by
  funext before cs
  rw [matchesAt, matchesAt, h]

/-- A bare middle between two assertions. -/
theorem matchesAt_between {p q : Option Char → List Char → Bool} {r : Regex} {before : Option Char}
    {cs : List Char} : (seq (assert p) (seq r (assert q))).matchesAt before cs =
      if p before cs then
        (r.matchesAt before cs).filter fun u => q (lastOf before u) (cs.drop u.length)
      else [] := by
  have hmiddle : (seq r (assert q)).matchesAt before cs =
      (r.matchesAt before cs).filter fun u => q (lastOf before u) (cs.drop u.length) := by
    rw [matchesAt]
    induction r.matchesAt before cs with
    | nil => rfl
    | cons u us ih =>
      rw [List.flatMap_cons, ih, matchesAt, List.filter_cons]
      split <;> simp
  rw [matchesAt, matchesAt]
  split
  · rw [List.flatMap_singleton, List.length_nil, List.drop_zero, show lastOf before [] = before
      from rfl, hmiddle]
    simp
  · rfl

/-! ## Patterns without assertions -/

/-- The pattern has no assertion. -/
def isBare : Regex → Bool
  | seq r s => r.isBare && s.isBare
  | alt r s => r.isBare && s.isBare
  | assert _ => false
  | _ => true

/-- What a bare pattern matches does not depend on where. -/
theorem fits_of_isBare {r : Regex} (hr : r.isBare = true) :
    ∀ {before before' : Option Char} {u rest rest' : List Char},
      r.Fits before u rest → r.Fits before' u rest' := by
  induction r with
  | empty => exact fun h => h
  | char p => exact fun h => h
  | many p least => exact fun h => h
  | seq r s ihr ihs =>
    rw [isBare, Bool.and_eq_true] at hr
    rintro before before' u rest rest' ⟨v, w, rfl, hv, hw⟩
    exact ⟨v, w, rfl, ihr hr.1 hv, ihs hr.2 hw⟩
  | alt r s ihr ihs =>
    rw [isBare, Bool.and_eq_true] at hr
    exact fun h => h.imp (ihr hr.1) (ihs hr.2)
  | assert q => exact nomatch hr

/-- A bare pattern matches the text, wherever it stands. -/
def Accepts (r : Regex) (u : List Char) : Prop :=
  r.Fits none u []

theorem fits_iff_accepts {r : Regex} (hr : r.isBare = true) {before : Option Char}
    {u rest : List Char} : r.Fits before u rest ↔ r.Accepts u :=
  ⟨fits_of_isBare hr, fits_of_isBare hr⟩

theorem accepts_seq {r s : Regex} (hr : r.isBare = true) (hs : s.isBare = true) {u : List Char} :
    (seq r s).Accepts u ↔ ∃ v w, u = v ++ w ∧ r.Accepts v ∧ s.Accepts w := by
  constructor
  · rintro ⟨v, w, rfl, hv, hw⟩
    exact ⟨v, w, rfl, fits_of_isBare hr hv, fits_of_isBare hs hw⟩
  · rintro ⟨v, w, rfl, hv, hw⟩
    exact ⟨v, w, rfl, fits_of_isBare hr hv, fits_of_isBare hs hw⟩

/-- The text after the cut is empty or starts with a character that the pattern avoids. -/
def Stops (r : Regex) (tail : List Char) : Prop :=
  ∀ c ∈ tail.head?, r.avoids c = true

theorem runs_cut {p : Char → Bool} (tail : List Char) {tail' : List Char}
    (h : ∀ c ∈ tail'.head?, p c = false) :
    ∀ {least : ℕ} {x : List Char}, runs p least (x ++ tail') =
      (runs p least (x ++ tail)).filter (·.length ≤ x.length)
  | least, [] => by
    have hcut : ∀ cs : List Char, (∀ c ∈ cs.head?, p c = false) → runs p least cs =
        if least = 0 then [[]] else [] := by
      intro cs hcs
      cases cs with
      | nil => rfl
      | cons c cs => simp [runs, hcs c rfl]
    have hfiltered : ∀ cs : List Char, (runs p least cs).filter (·.length ≤ 0) =
        if least = 0 then [[]] else [] := by
      intro cs
      cases cs with
      | nil => by_cases hleast : least = 0 <;> simp [runs, hleast]
      | cons c cs =>
        rw [runs, List.filter_append]
        have hlong : (if p c then (runs p (least - 1) cs).map (c :: ·) else []).filter
            (·.length ≤ 0) = [] := by
          rw [List.filter_eq_nil_iff]
          intro u hu
          split at hu
          · obtain ⟨v, -, rfl⟩ := List.mem_map.1 hu
            simp
          · simp at hu
        rw [hlong]
        by_cases hleast : least = 0 <;> simp [hleast]
    rw [List.nil_append, List.nil_append, List.length_nil, hcut tail' h, hfiltered tail]
  | least, c :: x => by
    rw [List.cons_append, List.cons_append, runs, runs, List.filter_append, runs_cut tail h]
    congr 1
    · split
      · rw [List.filter_map]
        congr 1
        refine List.filter_congr fun u _ => ?_
        simp
      · rfl
    · split <;> simp

/-- Filtering before and after each element is taken further. -/
theorem flatMap_filter_eq {α β : Type*} {p : α → Bool} {q : β → Bool} {f g : α → List β} :
    ∀ {l : List α}, (∀ a ∈ l, p a = true → f a = (g a).filter q) →
      (∀ a ∈ l, p a = false → (g a).filter q = []) →
        (l.filter p).flatMap f = (l.flatMap g).filter q
  | [], _, _ => rfl
  | a :: l, hkept, hlost => by
    have ih := flatMap_filter_eq (l := l) (fun b hb => hkept b (List.mem_cons_of_mem _ hb))
      fun b hb => hlost b (List.mem_cons_of_mem _ hb)
    rw [List.flatMap_cons, List.filter_append, ← ih]
    cases ha : p a with
    | true => rw [List.filter_cons_of_pos ha, List.flatMap_cons, hkept a List.mem_cons_self ha]
    | false =>
      rw [List.filter_cons_of_neg (by simp [ha]), hlost a List.mem_cons_self ha, List.nil_append]

/-- What a bare pattern matches in a text cut before a character it avoids. -/
theorem matchesAt_cut {r : Regex} (hr : r.isBare = true) :
    ∀ (before : Option Char) (tail : List Char) {before' : Option Char} {x tail' : List Char},
      r.Stops tail' → r.matchesAt before' (x ++ tail') =
        (r.matchesAt before (x ++ tail)).filter (·.length ≤ x.length) := by
  induction r with
  | empty => intros; simp [matchesAt]
  | char p =>
    intro before tail before' x tail' hstops
    cases x with
    | nil =>
      rw [List.nil_append, List.nil_append]
      have hnone : (char p).matchesAt before' tail' = [] := by
        cases tail' with
        | nil => rfl
        | cons c tail' =>
          have hc := hstops c rfl
          rw [avoids, Bool.not_eq_true'] at hc
          simp [matchesAt, hc]
      rw [hnone, eq_comm, List.filter_eq_nil_iff]
      intro u hu
      obtain ⟨c, rfl, -⟩ := exists_of_mem_matchesAt_char hu
      simp
    | cons c x =>
      rw [List.cons_append, List.cons_append, matchesAt, matchesAt]
      split <;> simp
  | many p least =>
    intro before tail before' x tail' hstops
    refine runs_cut tail fun c hc => ?_
    simpa [avoids] using hstops c hc
  | seq r s ihr ihs =>
    intro before tail before' x tail' hstops
    rw [isBare, Bool.and_eq_true] at hr
    have hstopr : r.Stops tail' := fun c hc => by
      have h := hstops c hc
      rw [avoids, Bool.and_eq_true] at h
      exact h.1
    have hstops' : s.Stops tail' := fun c hc => by
      have h := hstops c hc
      rw [avoids, Bool.and_eq_true] at h
      exact h.2
    rw [matchesAt, matchesAt, ihr hr.1 before tail hstopr]
    refine flatMap_filter_eq (fun u hu hlength => ?_) fun u hu hlength => ?_
    · rw [decide_eq_true_eq] at hlength
      rw [List.drop_append_of_le_length hlength, List.drop_append_of_le_length hlength,
        ihs hr.2 (lastOf before u) tail hstops', List.filter_map]
      congr 1
      refine List.filter_congr fun w _ => ?_
      rw [Function.comp_apply, List.length_append, List.length_drop, decide_eq_decide]
      omega
    · rw [decide_eq_false_iff_not] at hlength
      rw [List.filter_eq_nil_iff]
      intro v hv
      obtain ⟨w, -, rfl⟩ := List.mem_map.1 hv
      rw [List.length_append, decide_eq_true_eq]
      omega
  | alt r s ihr ihs =>
    intro before tail before' x tail' hstops
    rw [isBare, Bool.and_eq_true] at hr
    rw [matchesAt, matchesAt, List.filter_append,
      ihr hr.1 before tail fun c hc => ?_,
      ihs hr.2 before tail fun c hc => ?_]
    · have h := hstops c hc
      rw [avoids, Bool.and_eq_true] at h
      exact h.2
    · have h := hstops c hc
      rw [avoids, Bool.and_eq_true] at h
      exact h.1
  | assert q => cases hr

/-! ## The shortest match -/

/-- The length of the shortest match. -/
def least : Regex → ℕ
  | empty => 0
  | char _ => 1
  | many _ least => least
  | seq r s => r.least + s.least
  | alt r s => min r.least s.least
  | assert _ => 0

theorem least_le_length {r : Regex} :
    ∀ {before : Option Char} {u rest : List Char}, r.Fits before u rest → r.least ≤ u.length := by
  induction r with
  | empty => exact fun _ => Nat.zero_le _
  | char p =>
    rintro before u rest ⟨c, rfl, -⟩
    exact le_rfl
  | many p least => exact fun h => h.1
  | seq r s ihr ihs =>
    rintro before u rest ⟨v, w, rfl, hv, hw⟩
    rw [least, List.length_append]
    exact Nat.add_le_add (ihr hv) (ihs hw)
  | alt r s ihr ihs =>
    rintro before u rest (h | h)
    · exact (Nat.min_le_left _ _).trans (ihr h)
    · exact (Nat.min_le_right _ _).trans (ihs h)
  | assert q => exact fun _ => Nat.zero_le _

/-! ## Repetitions -/

theorem isBare_upTo {r : Regex} (hr : r.isBare = true) :
    ∀ {most : ℕ}, (r.upTo most).isBare = true
  | 0 => rfl
  | most + 1 => by simp [upTo, opt, isBare, hr, isBare_upTo hr]

theorem isBare_repeats {r : Regex} (hr : r.isBare = true) :
    ∀ {least more : ℕ}, (r.repeats least more).isBare = true
  | 0, _ => isBare_upTo hr
  | least + 1, _ => by simp [repeats, isBare, hr, isBare_repeats hr]

/-- What `r{0,most}` matches. -/
theorem accepts_upTo {r : Regex} (hr : r.isBare = true) : ∀ {most : ℕ} {u : List Char},
    (r.upTo most).Accepts u ↔ ∃ parts : List (List Char), u = parts.flatten ∧
      (∀ part ∈ parts, r.Accepts part) ∧ parts.length ≤ most
  | 0, u => by
    constructor
    · rintro rfl
      exact ⟨[], rfl, List.forall_mem_nil _, le_rfl⟩
    · rintro ⟨parts, rfl, -, hmost⟩
      obtain rfl := List.length_eq_zero_iff.1 (Nat.le_zero.1 hmost)
      rfl
  | most + 1, u => by
    constructor
    · rintro (⟨v, w, rfl, hv, hw⟩ | rfl)
      · obtain ⟨parts, rfl, hparts, hmost⟩ :=
          (accepts_upTo hr).1 (fits_of_isBare (isBare_upTo hr) hw)
        exact ⟨v :: parts, rfl, List.forall_mem_cons.2 ⟨fits_of_isBare hr hv, hparts⟩,
          Nat.succ_le_succ hmost⟩
      · exact ⟨[], rfl, List.forall_mem_nil _, Nat.zero_le _⟩
    · rintro ⟨parts, rfl, hparts, hmost⟩
      cases parts with
      | nil => exact Or.inr rfl
      | cons v parts =>
        obtain ⟨hv, hparts⟩ := List.forall_mem_cons.1 hparts
        have hrest : (r.upTo most).Accepts parts.flatten :=
          (accepts_upTo hr).2 ⟨parts, rfl, hparts, Nat.le_of_succ_le_succ hmost⟩
        exact Or.inl ⟨v, parts.flatten, rfl, fits_of_isBare hr hv,
          fits_of_isBare (isBare_upTo hr) hrest⟩

/-- What `r{least,least + more}` matches. -/
theorem accepts_repeats {r : Regex} (hr : r.isBare = true) : ∀ {least more : ℕ} {u : List Char},
    (repeats r least more).Accepts u ↔ ∃ parts : List (List Char), u = parts.flatten ∧
      (∀ part ∈ parts, r.Accepts part) ∧ least ≤ parts.length ∧ parts.length ≤ least + more
  | 0, more, u => by
    rw [repeats, accepts_upTo hr, Nat.zero_add]
    simp only [Nat.zero_le, true_and]
  | least + 1, more, u => by
    constructor
    · rintro ⟨v, w, rfl, hv, hw⟩
      obtain ⟨parts, rfl, hparts, hleast, hmost⟩ :=
        (accepts_repeats hr).1 (fits_of_isBare (isBare_repeats hr) hw)
      refine ⟨v :: parts, rfl, List.forall_mem_cons.2 ⟨fits_of_isBare hr hv, hparts⟩, ?_, ?_⟩
      · exact Nat.succ_le_succ hleast
      · rw [List.length_cons]
        omega
    · rintro ⟨parts, rfl, hparts, hleast, hmost⟩
      cases parts with
      | nil => exact absurd hleast (Nat.not_succ_le_zero _)
      | cons v parts =>
        rw [List.length_cons] at hleast hmost
        obtain ⟨hv, hparts⟩ := List.forall_mem_cons.1 hparts
        have hrest : (repeats r least more).Accepts parts.flatten :=
          (accepts_repeats hr).2 ⟨parts, rfl, hparts, by omega, by omega⟩
        exact ⟨v, parts.flatten, rfl, fits_of_isBare hr hv,
          fits_of_isBare (isBare_repeats hr) hrest⟩

/-- What `p{0,most}` matches. -/
theorem accepts_upTo_char {p : Char → Bool} : ∀ {most : ℕ} {u : List Char},
    ((char p).upTo most).Accepts u ↔ u.length ≤ most ∧ ∀ c ∈ u, p c = true
  | 0, u => by
    constructor
    · rintro rfl
      exact ⟨le_rfl, List.forall_mem_nil _⟩
    · exact fun h => List.length_eq_zero_iff.1 (Nat.le_zero.1 h.1)
  | most + 1, u => by
    constructor
    · rintro (⟨_, w, rfl, ⟨c, rfl, hc⟩, hw⟩ | rfl)
      · obtain ⟨hlength, hp⟩ := accepts_upTo_char.1 (fits_of_isBare (isBare_upTo rfl) hw)
        exact ⟨by simpa using hlength, List.forall_mem_cons.2 ⟨hc, hp⟩⟩
      · exact ⟨Nat.zero_le _, List.forall_mem_nil _⟩
    · rintro ⟨hlength, hp⟩
      cases u with
      | nil => exact Or.inr rfl
      | cons c u =>
        obtain ⟨hc, hp⟩ := List.forall_mem_cons.1 hp
        have hrest : ((char p).upTo most).Accepts u :=
          accepts_upTo_char.2 ⟨by simpa using hlength, hp⟩
        exact Or.inl ⟨[c], u, rfl, ⟨c, rfl, hc⟩, fits_of_isBare (isBare_upTo rfl) hrest⟩

/-- What `p{least,least + more}` matches. -/
theorem accepts_repeats_char {p : Char → Bool} : ∀ {least more : ℕ} {u : List Char},
    (repeats (char p) least more).Accepts u ↔
      least ≤ u.length ∧ u.length ≤ least + more ∧ ∀ c ∈ u, p c = true
  | 0, more, u => by
    rw [repeats, accepts_upTo_char, Nat.zero_add]
    exact (and_iff_right (Nat.zero_le _)).symm
  | least + 1, more, u => by
    constructor
    · rintro ⟨_, w, rfl, ⟨c, rfl, hc⟩, hw⟩
      obtain ⟨hleast, hmost, hp⟩ :=
        accepts_repeats_char.1 (fits_of_isBare (isBare_repeats rfl) hw)
      rw [List.length_append, List.length_singleton]
      exact ⟨by omega, by omega, List.forall_mem_cons.2 ⟨hc, hp⟩⟩
    · rintro ⟨hleast, hmost, hp⟩
      cases u with
      | nil => exact absurd hleast (Nat.not_succ_le_zero _)
      | cons c u =>
        rw [List.length_cons] at hleast hmost
        obtain ⟨hc, hp⟩ := List.forall_mem_cons.1 hp
        have hrest : (repeats (char p) least more).Accepts u :=
          accepts_repeats_char.2 ⟨by omega, by omega, hp⟩
        exact ⟨[c], u, rfl, ⟨c, rfl, hc⟩, fits_of_isBare (isBare_repeats rfl) hrest⟩

theorem isBare_literal (p : Char → Char → Bool) :
    ∀ lit : List Char, (literal p lit).isBare = true
  | [] => rfl
  | _ :: lit => by simp [literal, isBare, isBare_literal p lit]

/-- A literal matches its text. -/
theorem accepts_literal {lit u : List Char} :
    (literal (fun c d => d = c) lit).Accepts u ↔ u = lit := by
  rw [Accepts, ← mem_matchesAt_append]
  constructor
  · exact eq_of_mem_matchesAt_literal
  · rintro rfl
    rw [matchesAt_literal_append]
    exact List.mem_singleton_self _

/-! ## Searches -/

theorem lastOf_append (before : Option Char) (u v : List Char) :
    lastOf before (u ++ v) = lastOf (lastOf before u) v := by
  rw [lastOf, lastOf, lastOf, List.getLast?_append, Option.or_assoc]

/-- The search goes on behind a match. -/
theorem piecesFrom_skip {r : Regex} {rest : List Char} :
    ∀ {before : Option Char} {u : List Char},
      r.piecesFrom before u.length (u ++ rest) = r.piecesFrom (lastOf before u) 0 rest
  | _, [] => rfl
  | before, c :: u => by
    rw [List.cons_append, List.length_cons, piecesFrom, piecesFrom_skip, lastOf_cons]

/-- A match that is preferred where the search stands is found. -/
theorem piecesFrom_hit {r : Regex} {before : Option Char} {u rest : List Char} (hne : u ≠ [])
    (h : (r.matchesAt before (u ++ rest)).head? = some u) :
    r.piecesFrom before 0 (u ++ rest) = .hit u :: r.piecesFrom (lastOf before u) 0 rest := by
  obtain ⟨c, u, rfl⟩ := List.exists_cons_of_ne_nil hne
  rw [List.cons_append] at h ⊢
  rw [piecesFrom, h, lastOf_cons, ← piecesFrom_skip]

/-- Where nothing matches the search goes on. -/
theorem piecesFrom_plain {r : Regex} {before : Option Char} {c : Char} {cs : List Char}
    (h : ∀ u ∈ r.matchesAt before (c :: cs), u = []) :
    r.piecesFrom before 0 (c :: cs) = .plain c :: r.piecesFrom (some c) 0 cs := by
  rw [piecesFrom]
  split
  · rename_i d u hu
    cases h _ (List.mem_of_head? hu)
  · rfl

/-- Text that no match starts in is passed over. -/
theorem piecesFrom_append {r : Regex} {rest : List Char} :
    ∀ {before : Option Char} {u : List Char},
      (∀ v w before', u = v ++ w → w ≠ [] → ∀ x ∈ r.matchesAt before' (w ++ rest), x = []) →
        r.piecesFrom before 0 (u ++ rest) =
          u.map .plain ++ r.piecesFrom (lastOf before u) 0 rest
  | _, [], _ => rfl
  | before, c :: u, h => by
    have hfirst : ∀ x ∈ r.matchesAt before (c :: (u ++ rest)), x = [] :=
      h [] (c :: u) before rfl (List.cons_ne_nil _ _)
    rw [List.cons_append, piecesFrom_plain hfirst,
      piecesFrom_append fun v w before' hu => h (c :: v) w before' (by rw [hu, List.cons_append]),
      lastOf_cons]
    rfl

/-- The first piece of a search : a character where nothing matches, or the preferred match. -/
theorem piecesFrom_cases {r : Regex} (hr : ∀ before cs, [] ∉ r.matchesAt before cs)
    (before : Option Char) (c : Char) (cs : List Char) :
    (r.matchesAt before (c :: cs) = [] ∧
      r.piecesFrom before 0 (c :: cs) = .plain c :: r.piecesFrom (some c) 0 cs) ∨
    ∃ u rest, u ≠ [] ∧ c :: cs = u ++ rest ∧
      (r.matchesAt before (c :: cs)).head? = some u ∧
      r.piecesFrom before 0 (c :: cs) = .hit u :: r.piecesFrom (lastOf before u) 0 rest := by
  cases hhead : (r.matchesAt before (c :: cs)).head? with
  | none =>
    have hnone := List.head?_eq_none_iff.1 hhead
    refine Or.inl ⟨hnone, piecesFrom_plain ?_⟩
    rw [hnone]
    exact List.forall_mem_nil _
  | some u =>
    have hmem := List.mem_of_head? hhead
    have hne : u ≠ [] := by
      rintro rfl
      exact hr before _ hmem
    obtain ⟨rest, hrest⟩ := isPrefix_of_mem_matchesAt hmem
    refine Or.inr ⟨u, rest, hne, hrest.symm, rfl, ?_⟩
    rw [← hrest] at hhead ⊢
    exact piecesFrom_hit hne hhead

end Regex
