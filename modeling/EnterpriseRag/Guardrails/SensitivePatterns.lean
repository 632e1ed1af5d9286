import EnterpriseRag.Guardrails.SensitiveData
import EnterpriseRag.Library.RegexSemantics

/-!
# The shape of the sensitive values

Every pattern is a `core` without assertions between two of the same sort : word boundaries,
or for the numbers (`isNumeric`) that no digit stands before and after. `fits_pattern` says
so, and the facts below are what the cores match : no bracket and no colon, at least nine
characters but for the ones with a dot or an at sign, and for the numbers what they start and
end with.
-/

namespace EnterpriseRag

open Regex

namespace SensitiveKind

/-- The pattern without its assertions. -/
def core : SensitiveKind → Regex
  | .jwt =>
    let segment := many (fun c => isAlnumAscii c || c = '_' || c = '-') 1
    seq (seq (seq (seq (seq (literal (fun c d => d = c) ['e', 'y', 'J']) segment)
      (char (· = '.'))) segment) (char (· = '.'))) segment
  | .apiKey =>
    let separator := char fun c => c = '-' || c = '_'
    let word := literal sameLetter
    seq (seq (seq (alt (word ['s', 'k']) (alt (word ['p', 'k']) (alt (word ['a', 'p', 'i'])
        (word ['k', 'e', 'y'])))) separator)
      (opt (seq (many isAlnumAnyCase 1) separator))) (many isAlnumAnyCase 16)
  | .email =>
    seq (seq (seq (seq (many (fun c => isAlnumAscii c || c ∈ ['.', '_', '%', '+', '-']) 1)
      (char (· = '@'))) (many (fun c => isAlnumAscii c || c = '.' || c = '-') 1))
        (char (· = '.'))) (many isLetterAscii 2)
  | .phone =>
    seq (seq (opt (seq (opt (char (· = '+'))) (seq (literal (fun c d => d = c) ['9', '1'])
        (opt (char isSeparator)))))
      (char fun c => '6' ≤ c ∧ c ≤ '9')) (repeats (char isDecimal) 9 0)
  | .pan =>
    seq (seq (repeats (char isUpperAscii) 5 0) (repeats (char isDigitAscii) 4 0))
      (char isUpperAscii)
  | .aadhaar =>
    let four := repeats (char isDecimal) 4 0
    seq (seq (seq (seq four (opt (char isSeparator))) four) (opt (char isSeparator))) four
  | .card => repeats (seq (char isDecimal) (opt (char isSeparator))) 13 6

/-- The pattern looks at the digits around it, not at the words. -/
def isNumeric : SensitiveKind → Bool
  | .phone | .aadhaar | .card => true
  | _ => false

/-- The assertion in front. -/
def startsAt (isWord : Char → Bool) (kind : SensitiveKind) (before : Option Char)
    (cs : List Char) : Bool :=
  if kind.isNumeric then !before.any isDecimal else before.any isWord != cs.head?.any isWord

/-- The assertion behind. -/
def stopsAt (isWord : Char → Bool) (kind : SensitiveKind) (before : Option Char)
    (cs : List Char) : Bool :=
  if kind.isNumeric then !cs.head?.any isDecimal else before.any isWord != cs.head?.any isWord

theorem isBare_core (kind : SensitiveKind) : kind.core.isBare = true := by
  cases kind <;> rfl

theorem matchesAt_eq (isWord : Char → Bool) (kind : SensitiveKind) :
    (kind.pattern isWord).matchesAt = (seq (assert (kind.startsAt isWord))
      (seq kind.core (assert (kind.stopsAt isWord)))).matchesAt := by
  cases kind <;> refine matchesAt_seq_congr ?_ <;> simp only [core, matchesAt_seq_assoc] <;> rfl

/-- The preferred match is the first of the core's that may stop where it does. -/
theorem matchesAt_pattern (isWord : Char → Bool) (kind : SensitiveKind) (before : Option Char)
    (cs : List Char) : (kind.pattern isWord).matchesAt before cs =
      if kind.startsAt isWord before cs then
        (kind.core.matchesAt before cs).filter fun u =>
          kind.stopsAt isWord (lastOf before u) (cs.drop u.length)
      else [] := by
  rw [matchesAt_eq, matchesAt_between]

/-- A value stands between its assertions. -/
theorem fits_pattern {isWord : Char → Bool} {kind : SensitiveKind} {before : Option Char}
    {u rest : List Char} : (kind.pattern isWord).Fits before u rest ↔
      kind.startsAt isWord before (u ++ rest) = true ∧ kind.core.Accepts u ∧
        kind.stopsAt isWord (lastOf before u) rest = true := by
  rw [← mem_matchesAt_append, matchesAt_pattern]
  by_cases hstart : kind.startsAt isWord before (u ++ rest) = true
  · rw [if_pos hstart, List.mem_filter, mem_matchesAt_append, fits_iff_accepts kind.isBare_core,
      List.drop_left]
    simp [hstart]
  · rw [if_neg hstart]
    simp [hstart]

/-! ## What the cores match -/

theorem avoids_core {kind : SensitiveKind} {c : Char} (hc : c ∈ ['[', ']', ':']) :
    kind.core.avoids c = true := by
  simp only [List.mem_cons, List.not_mem_nil, or_false] at hc
  rcases hc with rfl | rfl | rfl <;> cases kind <;> decide +kernel

theorem not_mem_of_accepts {kind : SensitiveKind} {u : List Char} (h : kind.core.Accepts u)
    {c : Char} (hc : c ∈ ['[', ']', ':']) : c ∉ u := by
  have hmem : u ∈ kind.core.matchesAt none (u ++ []) := mem_matchesAt_append.2 h
  exact not_mem_of_avoids (avoids_core hc) hmem

theorem least_core_pos (kind : SensitiveKind) : 0 < kind.core.least := by
  cases kind <;> decide

theorem ne_nil_of_accepts {kind : SensitiveKind} {u : List Char} (h : kind.core.Accepts u) :
    u ≠ [] :=
  List.ne_nil_of_length_pos (kind.least_core_pos.trans_le (least_le_length h))

/-- A value is longer than any part of a placeholder, or has a character that none of them
has. -/
theorem long_or_dotted {kind : SensitiveKind} {u : List Char} (h : kind.core.Accepts u) :
    8 < u.length ∨ '.' ∈ u := by
  cases kind with
  | jwt =>
    obtain ⟨_, _, rfl, ⟨_, _, rfl, -, c, rfl, hc⟩, -⟩ := h
    obtain rfl := of_decide_eq_true hc
    exact Or.inr (by simp)
  | email =>
    obtain ⟨_, _, rfl, ⟨_, _, rfl, -, c, rfl, hc⟩, -⟩ := h
    obtain rfl := of_decide_eq_true hc
    exact Or.inr (by simp)
  | apiKey | phone | pan | aadhaar | card =>
    have hleast := least_le_length h
    exact Or.inl (lt_of_lt_of_le (by decide) hleast)

theorem nil_not_mem_matchesAt (isWord : Char → Bool) (kind : SensitiveKind)
    (before : Option Char) (cs : List Char) : [] ∉ (kind.pattern isWord).matchesAt before cs := by
  intro h
  obtain ⟨rest, -, hfits⟩ := mem_matchesAt_iff.1 h
  exact ne_nil_of_accepts (fits_pattern.1 hfits).2.1 rfl

end SensitiveKind

end EnterpriseRag
