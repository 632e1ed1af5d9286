import EnterpriseRag.Guardrails.SensitivePatterns

/-!
# The numbers

Phone, Aadhaar and card numbers : what they start and end with, and the order in which the
card pattern prefers its matches, those with more digits first (`pairwise_matchesAt_card`).
-/

namespace EnterpriseRag

open Regex

/-! ## Parts of a number -/

/-- A digit, and a separator if there is one. -/
def digitPart : Regex :=
  seq (char isDecimal) (opt (char isSeparator))

theorem isSeparator_of_isDecimal {c : Char} (h : isDecimal c = true) : isSeparator c = false := by
  rw [isSeparator, isSpace_of_isDecimal h, Bool.or_false, decide_eq_false_iff_not]
  rintro rfl
  exact absurd h (by decide)

theorem accepts_digitPart {u : List Char} : digitPart.Accepts u ↔
    ∃ d, isDecimal d = true ∧ (u = [d] ∨ ∃ s, isSeparator s = true ∧ u = [d, s]) := by
  constructor
  · rintro ⟨_, w, rfl, ⟨d, rfl, hd⟩, ⟨s, rfl, hs⟩ | rfl⟩
    · exact ⟨d, hd, Or.inr ⟨s, hs, rfl⟩⟩
    · exact ⟨d, hd, Or.inl rfl⟩
  · rintro ⟨d, hd, rfl | ⟨s, hs, rfl⟩⟩
    · exact ⟨[d], [], rfl, ⟨d, rfl, hd⟩, Or.inr rfl⟩
    · exact ⟨[d], [s], rfl, ⟨d, rfl, hd⟩, Or.inl ⟨s, rfl, hs⟩⟩

theorem accepts_card {u : List Char} : (SensitiveKind.core .card).Accepts u ↔
    ∃ parts : List (List Char), u = parts.flatten ∧ (∀ part ∈ parts, digitPart.Accepts part) ∧
      13 ≤ parts.length ∧ parts.length ≤ 19 :=
  accepts_repeats rfl

/-- A card match ends with a digit, or is one without the separator at its end. -/
theorem card_cases {u : List Char} (h : (SensitiveKind.core .card).Accepts u) :
    u.getLast?.any isDecimal = true ∨
      ∃ v s, u = v ++ [s] ∧ isSeparator s = true ∧ (SensitiveKind.core .card).Accepts v ∧
        v.getLast?.any isDecimal = true := by
  obtain ⟨parts, rfl, hall, hleast, hmost⟩ := accepts_card.1 h
  rcases List.eq_nil_or_concat' parts with rfl | ⟨front, last, rfl⟩
  · exact absurd hleast (by decide)
  rw [List.flatten_append, List.flatten_singleton]
  obtain ⟨d, hd, rfl | ⟨s, hs, rfl⟩⟩ := accepts_digitPart.1 (hall last (by simp))
  · exact Or.inl (by simpa using hd)
  · refine Or.inr ⟨front.flatten ++ [d], s, by simp, hs, ?_, by simpa using hd⟩
    refine accepts_card.2 ⟨front ++ [[d]], by simp, fun part hpart => ?_, ?_, ?_⟩
    · rcases List.mem_append.1 hpart with hpart | hpart
      · exact hall part (List.mem_append_left _ hpart)
      · rw [List.mem_singleton.1 hpart]
        exact accepts_digitPart.2 ⟨d, hd, Or.inl rfl⟩
    · simpa using hleast
    · simpa using hmost

/-! ## The ends of a number -/

theorem isDecimal_of_digit {c : Char} (hleast : '0' ≤ c) (hmost : c ≤ '9') : isDecimal c = true := by
  have hvalue : (decimalZeros.find? fun first => first ≤ c.toNat ∧ c.toNat < first + 10).isSome := by
    rw [List.find?_isSome]
    refine ⟨48, by decide, ?_⟩
    have hleast : 48 ≤ c.toNat := hleast
    have hmost : c.toNat ≤ 57 := hmost
    rw [decide_eq_true_eq]
    omega
  rwa [isDecimal, decimalValue, Option.isSome_map]

/-- Ten digits or more end with one. -/
theorem getLast_of_digits {most more : ℕ} {u : List Char}
    (h : (repeats (char isDecimal) (most + 1) more).Accepts u) (pre : List Char) :
    (pre ++ u).getLast?.any isDecimal = true := by
  obtain ⟨hleast, -, hdigits⟩ := accepts_repeats_char.1 h
  have hne : u ≠ [] := List.ne_nil_of_length_pos (by omega)
  rw [List.getLast?_append_of_ne_nil _ hne, List.getLast?_eq_some_getLast hne]
  exact hdigits _ (List.getLast_mem hne)

theorem head_of_digits {most more : ℕ} {u : List Char}
    (h : (repeats (char isDecimal) (most + 1) more).Accepts u) (post : List Char) :
    (u ++ post).head?.any isDecimal = true := by
  obtain ⟨hleast, -, hdigits⟩ := accepts_repeats_char.1 h
  cases u with
  | nil => exact absurd hleast (by simp)
  | cons d u => exact hdigits d List.mem_cons_self

theorem getLast_of_accepts_phone {u : List Char} (h : (SensitiveKind.core .phone).Accepts u) :
    u.getLast?.any isDecimal = true := by
  obtain ⟨v, w, rfl, -, hw⟩ := h
  exact getLast_of_digits (fits_of_isBare (isBare_repeats rfl) hw) v

theorem getLast_of_accepts_aadhaar {u : List Char} (h : (SensitiveKind.core .aadhaar).Accepts u) :
    u.getLast?.any isDecimal = true := by
  obtain ⟨v, w, rfl, -, hw⟩ := h
  exact getLast_of_digits (fits_of_isBare (isBare_repeats rfl) hw) v

theorem head_of_accepts_aadhaar {u : List Char} (h : (SensitiveKind.core .aadhaar).Accepts u) :
    u.head?.any isDecimal = true := by
  obtain ⟨_, w₁, rfl, ⟨_, w₂, rfl, ⟨_, w₃, rfl, ⟨v, w₄, rfl, hv, -⟩, -⟩, -⟩, -⟩ := h
  simp only [List.append_assoc]
  exact head_of_digits (fits_of_isBare (isBare_repeats rfl) hv) _

theorem head_of_accepts_card {u : List Char} (h : (SensitiveKind.core .card).Accepts u) :
    u.head?.any isDecimal = true := by
  obtain ⟨parts, rfl, hall, hleast, -⟩ := accepts_card.1 h
  cases parts with
  | nil => exact absurd hleast (by decide)
  | cons part parts =>
    obtain ⟨d, hd, rfl | ⟨s, -, rfl⟩⟩ := accepts_digitPart.1 (hall part List.mem_cons_self)
    · exact hd
    · exact hd

/-- A phone number starts with a digit, if need be without the `+`. -/
theorem head_of_accepts_phone {u : List Char} (h : (SensitiveKind.core .phone).Accepts u) :
    u.head?.any isDecimal = true ∨
      ∃ v, u = '+' :: v ∧ (SensitiveKind.core .phone).Accepts v ∧ v.head?.any isDecimal = true := by
  obtain ⟨_, digits, rfl, ⟨pre, _, rfl, hpre, d, rfl, hd⟩, hdigits⟩ := h
  have hnumber : ∀ pre : List Char, (opt (seq (opt (char (· = '+')))
      (seq (literal (fun c d => d = c) ['9', '1']) (opt (char isSeparator))))).Fits none pre [] →
        (SensitiveKind.core .phone).Accepts (pre ++ [d] ++ digits) := fun pre hpre =>
    ⟨pre ++ [d], digits, rfl, ⟨pre, [d], rfl, fits_of_isBare rfl hpre, d, rfl, hd⟩,
      fits_of_isBare (isBare_repeats rfl) hdigits⟩
  rcases hpre with ⟨plus, code, rfl, hplus, hcode⟩ | rfl
  · have hlead : (code ++ [d] ++ digits).head?.any isDecimal = true := by
      obtain ⟨_, sep, rfl, hlit, -⟩ := hcode
      rw [accepts_literal.1 (fits_of_isBare (isBare_literal _ _) hlit)]
      exact isDecimal_of_digit (by decide) (by decide)
    rcases hplus with ⟨_, rfl, hplus⟩ | rfl
    · obtain rfl := of_decide_eq_true hplus
      refine Or.inr ⟨code ++ [d] ++ digits, rfl, hnumber code ?_, hlead⟩
      exact Or.inl ⟨[], code, rfl, Or.inr rfl, fits_of_isBare rfl hcode⟩
    · exact Or.inl hlead
  · obtain ⟨hleast, hmost⟩ := of_decide_eq_true hd
    have hzero : '0' ≤ '6' := by decide
    exact Or.inl (isDecimal_of_digit (Char.le_trans hzero hleast) hmost)

/-! ## The order of the card matches -/

/-- The digits of a card match. -/
def digitCount (u : List Char) : ℕ :=
  (u.filter (!isSeparator ·)).length

theorem digitCount_append (u v : List Char) : digitCount (u ++ v) = digitCount u + digitCount v := by
  rw [digitCount, List.filter_append, List.length_append]
  rfl

theorem matchesAt_digitPart (before : Option Char) (cs : List Char) :
    digitPart.matchesAt before cs = [] ∨
      (∃ d rest, cs = d :: rest ∧ isDecimal d = true ∧ digitPart.matchesAt before cs = [[d]]) ∨
      ∃ d s rest, cs = d :: s :: rest ∧ isDecimal d = true ∧ isSeparator s = true ∧
        digitPart.matchesAt before cs = [[d, s], [d]] := by
  cases cs with
  | nil => exact Or.inl rfl
  | cons d rest =>
    cases hd : isDecimal d with
    | false => exact Or.inl (by simp [digitPart, matchesAt, hd])
    | true =>
      right
      cases rest with
      | nil => exact Or.inl ⟨d, [], rfl, hd, by simp [digitPart, opt, matchesAt, hd]⟩
      | cons s rest =>
        cases hs : isSeparator s with
        | false => exact Or.inl ⟨d, s :: rest, rfl, hd, by simp [digitPart, opt, matchesAt, hd, hs]⟩
        | true =>
          exact Or.inr ⟨d, s, rest, rfl, hd, hs, by simp [digitPart, opt, matchesAt, hd, hs]⟩

theorem matchesAt_digitPart_separator {s : Char} (hs : isSeparator s = true)
    (before : Option Char) (rest : List Char) : digitPart.matchesAt before (s :: rest) = [] := by
  have hdigit : isDecimal s = false := by
    by_contra hd
    rw [isSeparator_of_isDecimal (Bool.not_eq_false _ ▸ hd)] at hs
    exact nomatch hs
  simp [digitPart, matchesAt, hdigit]

/-- The matches have fewer and fewer digits, and none behind a separator. -/
def Descends (r : Regex) : Prop :=
  (∀ before cs, (r.matchesAt before cs).Pairwise fun u v => digitCount v ≤ digitCount u) ∧
    ∀ before s rest, isSeparator s = true → ∀ u ∈ r.matchesAt before (s :: rest), digitCount u = 0

theorem descends_seq {r : Regex} (h : Descends r) : Descends (seq digitPart r) := by
  have hshift : ∀ (v : List Char) (us : List (List Char)),
      us.Pairwise (fun u v => digitCount v ≤ digitCount u) →
        (us.map (v ++ ·)).Pairwise fun u v => digitCount v ≤ digitCount u := by
    intro v us hus
    rw [List.pairwise_map]
    refine hus.imp fun {a b} hab => ?_
    rw [digitCount_append, digitCount_append]
    exact Nat.add_le_add_left hab _
  refine ⟨fun before cs => ?_, fun before s rest hs u hu => ?_⟩
  · rcases matchesAt_digitPart before cs with hnone | ⟨d, rest, rfl, hd, hone⟩ |
      ⟨d, s, rest, rfl, hd, hs, htwo⟩
    · rw [matchesAt, hnone]
      exact List.Pairwise.nil
    · rw [matchesAt, hone, List.flatMap_singleton]
      exact hshift _ _ (h.1 _ _)
    · rw [matchesAt, htwo, List.flatMap_cons, List.flatMap_singleton, List.pairwise_append]
      refine ⟨hshift _ _ (h.1 _ _), hshift _ _ (h.1 _ _), fun u hu v hv => ?_⟩
      obtain ⟨u, -, rfl⟩ := List.mem_map.1 hu
      obtain ⟨w, hw, rfl⟩ := List.mem_map.1 hv
      have hzero : digitCount w = 0 := h.2 _ s rest hs w hw
      have hone : digitCount [d] = 1 := by
        simp [digitCount, isSeparator_of_isDecimal hd]
      have htwo : digitCount [d, s] = 1 := by
        simp [digitCount, isSeparator_of_isDecimal hd, hs]
      rw [digitCount_append, digitCount_append, hzero, hone, htwo]
      omega
  · rw [matchesAt, matchesAt_digitPart_separator hs] at hu
    cases hu

theorem descends_upTo : ∀ {most : ℕ}, Descends (digitPart.upTo most)
  | 0 => by
    refine ⟨fun before cs => List.pairwise_singleton _ _, fun before s rest _ u hu => ?_⟩
    obtain rfl := List.mem_singleton.1 hu
    rfl
  | most + 1 => by
    have hrest : Descends (digitPart.upTo most) := descends_upTo
    obtain ⟨hpairwise, hzero⟩ := descends_seq hrest
    refine ⟨fun before cs => ?_, fun before s rest hs u hu => ?_⟩
    · rw [upTo, opt, matchesAt, List.pairwise_append]
      refine ⟨hpairwise before cs, List.pairwise_singleton _ _, fun u _ v hv => ?_⟩
      obtain rfl := List.mem_singleton.1 hv
      exact Nat.zero_le _
    · rw [upTo, opt, matchesAt, List.mem_append] at hu
      rcases hu with hu | hu
      · exact hzero before s rest hs u hu
      · obtain rfl := List.mem_singleton.1 hu
        rfl

theorem descends_repeats : ∀ {least more : ℕ}, Descends (repeats digitPart least more)
  | 0, _ => descends_upTo
  | _ + 1, _ => descends_seq descends_repeats

/-- The card pattern prefers more digits. -/
theorem pairwise_matchesAt_card (before : Option Char) (cs : List Char) :
    ((SensitiveKind.core .card).matchesAt before cs).Pairwise
      fun u v => digitCount v ≤ digitCount u := by
  have hcard : Descends (repeats digitPart 13 6) := descends_repeats
  exact hcard.1 before cs

end EnterpriseRag
