import Mathlib.Data.List.Infix

/-!
# Text

The string operations of the language the other modules use, on `String` where they are
about whole values and on lists of characters where a pattern is matched. `isDecimal` and
`isSpace` are the decimal digits and the white space of the Unicode database.
-/

namespace EnterpriseRag

/-- The zeros of the decimal digits, each the first of ten in a row. -/
def decimalZeros : List ℕ :=
  [0x30, 0x660, 0x6f0, 0x7c0, 0x966, 0x9e6, 0xa66, 0xae6, 0xb66, 0xbe6, 0xc66, 0xce6, 0xd66,
    0xde6, 0xe50, 0xed0, 0xf20, 0x1040, 0x1090, 0x17e0, 0x1810, 0x1946, 0x19d0, 0x1a80, 0x1a90,
    0x1b50, 0x1bb0, 0x1c40, 0x1c50, 0xa620, 0xa8d0, 0xa900, 0xa9d0, 0xa9f0, 0xaa50, 0xabf0,
    0xff10, 0x104a0, 0x10d30, 0x11066, 0x110f0, 0x11136, 0x111d0, 0x112f0, 0x11450, 0x114d0,
    0x11650, 0x116c0, 0x11730, 0x118e0, 0x11950, 0x11c50, 0x11d50, 0x11da0, 0x11f50, 0x16a60,
    0x16ac0, 0x16b50, 0x1d7ce, 0x1d7d8, 0x1d7e2, 0x1d7ec, 0x1d7f6, 0x1e140, 0x1e2f0, 0x1e4f0,
    0x1e950, 0x1fbf0]

/-- The value of a decimal digit. -/
def decimalValue (c : Char) : Option ℕ :=
  (decimalZeros.find? fun first => first ≤ c.toNat ∧ c.toNat < first + 10).map (c.toNat - ·)

/-- `\d`. -/
def isDecimal (c : Char) : Bool :=
  (decimalValue c).isSome

/-- `int` of a run of digits. -/
def intOfDigits (digits : List Char) : ℕ :=
  digits.foldl (fun n c => 10 * n + (decimalValue c).getD 0) 0

/-- `str.isspace` of a character, and `\s`. -/
def isSpace (c : Char) : Bool :=
  c.val ∈ [9, 10, 11, 12, 13, 28, 29, 30, 31, 32, 0x85, 0xa0, 0x1680, 0x2000, 0x2001, 0x2002,
    0x2003, 0x2004, 0x2005, 0x2006, 0x2007, 0x2008, 0x2009, 0x200a, 0x2028, 0x2029, 0x202f,
    0x205f, 0x3000]

def isBracket (c : Char) : Bool :=
  c = '[' || c = ']'

theorem decimalZeros_apart : ∀ first ∈ decimalZeros, 32 < first ∧
    (first + 10 ≤ 0x85 ∨ 0x660 ≤ first) ∧ (first + 10 ≤ 0x1680 ∨ 0x17e0 ≤ first) ∧
    (first + 10 ≤ 0x2000 ∨ 0xa620 ≤ first) := by
  decide

theorem toNat_mem_of_isSpace {c : Char} (h : isSpace c = true) :
    c.toNat ∈ [9, 10, 11, 12, 13, 28, 29, 30, 31, 32, 0x85, 0xa0, 0x1680, 0x2000, 0x2001, 0x2002,
      0x2003, 0x2004, 0x2005, 0x2006, 0x2007, 0x2008, 0x2009, 0x200a, 0x2028, 0x2029, 0x202f,
      0x205f, 0x3000] :=
  List.mem_map_of_mem (f := UInt32.toNat) (of_decide_eq_true h)

/-- No digit is white space. -/
theorem isSpace_of_isDecimal {c : Char} (h : isDecimal c = true) : isSpace c = false := by
  obtain ⟨v, hv⟩ := Option.isSome_iff_exists.1 h
  obtain ⟨first, hfirst, -⟩ := Option.map_eq_some_iff.1 hv
  have hrange := List.find?_some hfirst
  have hapart := decimalZeros_apart first (List.mem_of_find?_eq_some hfirst)
  simp only [decide_eq_true_eq] at hrange
  rw [isSpace, decide_eq_false_iff_not]
  intro hspace
  have hcode := toNat_mem_of_isSpace (decide_eq_true hspace)
  simp only [List.mem_cons, List.not_mem_nil, or_false] at hcode
  omega

/-- `str.split()` : the words between white space. -/
def splitWords (text : List Char) : List (List Char) :=
  (text.splitOnP isSpace).filter (· ≠ [])

/-- `" ".join(text.split())`. -/
def normalizeSpace (text : String) : String :=
  " ".intercalate ((splitWords text.toList).map String.ofList)

/-- `str.strip()`. -/
def strip (text : List Char) : List Char :=
  ((text.dropWhile isSpace).reverse.dropWhile isSpace).reverse

theorem exists_dropWhile_append {p : Char → Bool} (pre : List Char) {rest : List Char}
    (hrest : ∀ c ∈ rest.head?, p c = false) :
    ∃ pre', pre' <:+ pre ∧ (pre ++ rest).dropWhile p = pre' ++ rest := by
  rw [List.dropWhile_append]
  split
  · refine ⟨[], List.nil_suffix, ?_⟩
    cases rest with
    | nil => rfl
    | cons c rest => rw [List.dropWhile_cons_of_neg (by simp [hrest c rfl]), List.nil_append]
  · exact ⟨_, List.dropWhile_suffix p, rfl⟩

/-- What starts and ends with no white space stays whole. -/
theorem exists_strip_append (pre : List Char) {mid : List Char} (post : List Char) (hne : mid ≠ [])
    (hhead : ∀ c ∈ mid.head?, isSpace c = false) (hlast : ∀ c ∈ mid.getLast?, isSpace c = false) :
    ∃ pre' post', pre' <:+ pre ∧ post' <+: post ∧
      strip (pre ++ (mid ++ post)) = pre' ++ (mid ++ post') := by
  have hfirst : ∀ c ∈ (mid ++ post).head?, isSpace c = false := fun c hc =>
    hhead c (by rwa [List.head?_append_of_ne_nil _ hne] at hc)
  obtain ⟨pre', hpresuffix, hpre⟩ := exists_dropWhile_append pre hfirst
  have hend : ∀ c ∈ (mid.reverse ++ pre'.reverse).head?, isSpace c = false := fun c hc =>
    hlast c (by
      rwa [List.head?_append_of_ne_nil _ (by simpa using hne), List.head?_reverse] at hc)
  obtain ⟨post', hsuffix, hpost⟩ := exists_dropWhile_append post.reverse hend
  refine ⟨pre', post'.reverse, hpresuffix, ?_, ?_⟩
  · rw [← List.reverse_suffix, List.reverse_reverse]
    exact hsuffix
  · rw [strip, hpre, List.reverse_append, List.reverse_append, List.append_assoc, hpost]
    simp

/-- `part in text`. -/
def occursIn (part text : String) : Bool :=
  part.toList <:+: text.toList

end EnterpriseRag
