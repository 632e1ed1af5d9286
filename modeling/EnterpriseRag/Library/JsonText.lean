import EnterpriseRag.Library.Dict
import Mathlib.Tactic.Ring

/-!
# JSON as text

Values, the text they are written as and a reader of it. The writer keeps the characters of a
text or, with `ascii`, writes all but the printable ones of the first 128 as escapes ; the
reader takes every escape, white space between the tokens, and of a key written twice the last
value. Numbers are integers : the reader stops at a fraction or an exponent.

The text of a value whose keys are distinct is read back as that value, whatever follows it
(`readValue_dump`), so the text of a value ends where the value does.
-/

namespace JsonText

/-- A JSON value whose numbers are integers. -/
inductive Value
  | null
  | bool (b : Bool)
  | int (n : ℤ)
  | str (text : String)
  | arr (items : List Value)
  | obj (fields : List (String × Value))

/-! ## Characters and their escapes -/

/-- The characters with an escape of two characters, and the second of these. -/
def shortEscapes : List (Char × Char) :=
  [('\\', '\\'), ('"', '"'), ('\x08', 'b'), ('\x0c', 'f'), ('\n', 'n'), ('\r', 'r'), ('\t', 't')]

/-- What the second character of an escape stands for. A solidus may be escaped and never is. -/
def shortMeanings : List (Char × Char) :=
  [('"', '"'), ('\\', '\\'), ('/', '/'), ('b', '\x08'), ('f', '\x0c'), ('n', '\n'), ('r', '\r'),
    ('t', '\t')]

/-- The four hexadecimal digits of a unit of 16 bits. -/
def hexDigits (n : ℕ) : List Char :=
  [Nat.digitChar (n / 0x1000), Nat.digitChar (n / 0x100 % 0x10), Nat.digitChar (n / 0x10 % 0x10),
    Nat.digitChar (n % 0x10)]

def escapeUnit (n : ℕ) : List Char :=
  '\\' :: 'u' :: hexDigits n

/-- The escape of a code point, as a pair of surrogates where one unit does not hold it. -/
def escapePoint (n : ℕ) : List Char :=
  if n < 0x10000 then escapeUnit n
  else escapeUnit (0xd800 + (n - 0x10000) / 0x400) ++ escapeUnit (0xdc00 + (n - 0x10000) % 0x400)

def escapeChar (ascii : Bool) (c : Char) : List Char :=
  match shortEscapes.lookup c with
  | some letter => ['\\', letter]
  | none =>
    if c.toNat < 0x20 ∨ (ascii ∧ 0x7e < c.toNat) then escapePoint c.toNat else [c]

/-- A text in quotes. -/
def quote (ascii : Bool) (text : List Char) : List Char :=
  '"' :: (text.flatMap (escapeChar ascii) ++ ['"'])

def hexValue (c : Char) : Option ℕ :=
  if '0' ≤ c ∧ c ≤ '9' then some (c.toNat - 0x30)
  else if 'a' ≤ c ∧ c ≤ 'f' then some (c.toNat - 0x57)
  else if 'A' ≤ c ∧ c ≤ 'F' then some (c.toNat - 0x37)
  else none

def readUnit : List Char → Option (ℕ × List Char)
  | a :: b :: c :: d :: rest => do
    let a ← hexValue a
    let b ← hexValue b
    let c ← hexValue c
    let d ← hexValue d
    return (((a * 0x10 + b) * 0x10 + c) * 0x10 + d, rest)
  | _ => none

/-- The character of a code point. No character is a surrogate. -/
def charOf (n : ℕ) : Option Char :=
  if n.isValidChar then some (Char.ofNat n) else none

/-- What follows `\u`, with the low surrogate after a high one. -/
def readPoint (text : List Char) : Option (Char × List Char) := do
  let unit ← readUnit text
  if 0xd800 ≤ unit.1 ∧ unit.1 ≤ 0xdbff then
    match unit.2 with
    | '\\' :: 'u' :: rest => do
      let low ← readUnit rest
      if 0xdc00 ≤ low.1 ∧ low.1 ≤ 0xdfff then
        let c ← charOf (0x10000 + (unit.1 - 0xd800) * 0x400 + (low.1 - 0xdc00))
        return (c, low.2)
      else none
    | _ => none
  else do
    let c ← charOf unit.1
    return (c, unit.2)

/-- One character between quotes. A control character has to be escaped. -/
def readChar : List Char → Option (Char × List Char)
  | '\\' :: 'u' :: rest => readPoint rest
  | '\\' :: letter :: rest => (shortMeanings.lookup letter).map (·, rest)
  | c :: rest => if c = '\\' ∨ c.toNat < 0x20 then none else some (c, rest)
  | [] => none

/-- The text up to the closing quote, in `fuel` characters at most. -/
def readString : ℕ → List Char → Option (List Char × List Char)
  | 0, _ => none
  | fuel + 1, text =>
    if text.head? = some '"' then some ([], text.tail)
    else do
      let first ← readChar text
      let others ← readString fuel first.2
      return (first.1 :: others.1, others.2)

theorem hexValue_digitChar {d : ℕ} (h : d < 16) : hexValue (Nat.digitChar d) = some d := by
  have hall : ∀ d < 16, hexValue (Nat.digitChar d) = some d := by decide
  exact hall d h

theorem readUnit_hexDigits {n : ℕ} (h : n < 0x10000) (rest : List Char) :
    readUnit (hexDigits n ++ rest) = some (n, rest) := by
  show readUnit (_ :: _ :: _ :: _ :: rest) = _
  rw [readUnit, hexValue_digitChar (by omega), hexValue_digitChar (by omega),
    hexValue_digitChar (by omega), hexValue_digitChar (by omega)]
  show some (_, rest) = _
  congr 2
  omega

theorem charOf_toNat (c : Char) : charOf c.toNat = some c := by
  have hvalid : c.toNat.isValidChar := c.valid
  rw [charOf, if_pos hvalid, Char.ofNat_toNat]

/-- A code point outside the surrogates is read from its four digits. -/
theorem readPoint_unit {c : Char} (h : c.toNat < 0x10000) (rest : List Char) :
    readPoint (hexDigits c.toNat ++ rest) = some (c, rest) := by
  have hvalid : c.toNat < 0xd800 ∨ 0xdfff < c.toNat ∧ c.toNat < 0x110000 := c.valid
  have hsurrogate : ¬(0xd800 ≤ c.toNat ∧ c.toNat ≤ 0xdbff) := by omega
  rw [readPoint, readUnit_hexDigits h, Option.bind_eq_bind, Option.bind_some, if_neg hsurrogate,
    charOf_toNat]
  rfl

/-- The others are read from their two surrogates. -/
theorem readPoint_pair {c : Char} (h : 0x10000 ≤ c.toNat) (rest : List Char) :
    readPoint (hexDigits (0xd800 + (c.toNat - 0x10000) / 0x400) ++
      (escapeUnit (0xdc00 + (c.toNat - 0x10000) % 0x400) ++ rest)) = some (c, rest) := by
  have hvalid : c.toNat < 0xd800 ∨ 0xdfff < c.toNat ∧ c.toNat < 0x110000 := c.valid
  generalize hhigh : 0xd800 + (c.toNat - 0x10000) / 0x400 = high
  generalize hlow : 0xdc00 + (c.toNat - 0x10000) % 0x400 = low
  have hpoint : 0x10000 + (high - 0xd800) * 0x400 + (low - 0xdc00) = c.toNat := by omega
  rw [readPoint, readUnit_hexDigits (by omega), Option.bind_eq_bind, Option.bind_some,
    if_pos (by omega), escapeUnit, List.cons_append, List.cons_append]
  show (readUnit (hexDigits low ++ rest)).bind _ = _
  rw [readUnit_hexDigits (by omega), Option.bind_some, if_pos (by omega), hpoint, charOf_toNat]
  rfl

theorem readChar_escapePoint (c : Char) (rest : List Char) :
    readChar (escapePoint c.toNat ++ rest) = some (c, rest) := by
  rw [escapePoint]
  split
  · rename_i hsmall
    exact readPoint_unit hsmall rest
  · rename_i hlarge
    rw [List.append_assoc]
    exact readPoint_pair (by omega) rest

theorem shortMeanings_of_shortEscapes {c letter : Char}
    (h : shortEscapes.lookup c = some letter) :
    shortMeanings.lookup letter = some c ∧ letter ≠ 'u' := by
  have hall : ∀ entry ∈ shortEscapes,
      shortMeanings.lookup entry.2 = some entry.1 ∧ entry.2 ≠ 'u' := by decide
  exact hall (c, letter) (Dict.mem_of_lookup h)

theorem readChar_short {letter : Char} (h : letter ≠ 'u') (rest : List Char) :
    readChar ('\\' :: letter :: rest) = (shortMeanings.lookup letter).map (·, rest) := by
  rw [readChar]
  simpa using h

theorem readChar_plain {c : Char} (hescape : c ≠ '\\') (hcontrol : ¬c.toNat < 0x20)
    (rest : List Char) : readChar (c :: rest) = some (c, rest) := by
  rw [readChar.eq_def]
  split
  · rename_i heq
    exact absurd (List.cons.inj heq).1 hescape
  · rename_i heq
    exact absurd (List.cons.inj heq).1 hescape
  · rename_i heq
    obtain ⟨rfl, rfl⟩ := List.cons.inj heq
    rw [if_neg (not_or.2 ⟨hescape, hcontrol⟩)]
  · rename_i heq
    cases heq

/-- A character as it is written is read back. -/
theorem readChar_escapeChar (ascii : Bool) (c : Char) (rest : List Char) :
    readChar (escapeChar ascii c ++ rest) = some (c, rest) := by
  rw [escapeChar]
  cases hshort : shortEscapes.lookup c with
  | some letter =>
    obtain ⟨hmeaning, hletter⟩ := shortMeanings_of_shortEscapes hshort
    show readChar ('\\' :: letter :: rest) = _
    rw [readChar_short hletter, hmeaning]
    rfl
  | none =>
    dsimp only
    split
    · exact readChar_escapePoint c rest
    · rename_i hplain
      have hne : c ≠ '\\' := by
        rintro rfl
        cases hshort
      exact readChar_plain hne (fun h => hplain (Or.inl h)) rest

/-- What a character is written as never opens with a quote. -/
theorem head_escapeChar (ascii : Bool) (c : Char) (rest : List Char) :
    (escapeChar ascii c ++ rest).head? ≠ some '"' := by
  rw [escapeChar]
  cases hshort : shortEscapes.lookup c with
  | some letter =>
    show some '\\' ≠ some '"'
    decide
  | none =>
    dsimp only
    split
    · rw [escapePoint]
      split
      · show some '\\' ≠ some '"'
        decide
      · show some '\\' ≠ some '"'
        decide
    · rintro h
      obtain rfl : c = '"' := Option.some.inj h
      cases hshort

/-- A text in quotes is read back, whatever follows it. -/
theorem readString_quote (ascii : Bool) (text rest : List Char) {fuel : ℕ}
    (hfuel : text.length < fuel) :
    readString fuel (text.flatMap (escapeChar ascii) ++ '"' :: rest) = some (text, rest) := by
  induction text generalizing fuel with
  | nil =>
    obtain ⟨fuel, rfl⟩ := Nat.exists_eq_add_of_lt hfuel
    rfl
  | cons c text ih =>
    obtain ⟨fuel, rfl⟩ : ∃ n, fuel = n + 1 := ⟨fuel - 1, by omega⟩
    rw [List.length_cons] at hfuel
    rw [List.flatMap_cons, List.append_assoc, readString, if_neg (head_escapeChar ascii c _),
      readChar_escapeChar]
    show (readString fuel _).bind _ = _
    rw [ih (by omega)]
    rfl

/-! ## Integers -/

def intText : ℤ → List Char
  | .ofNat n => Nat.toDigits 10 n
  | .negSucc n => '-' :: Nat.toDigits 10 (n + 1)

/-- A run of digits, with no zero before others, and no fraction or exponent after it. -/
def readNat (text : List Char) : Option (ℕ × List Char) :=
  let digits := text.takeWhile Char.isDigit
  let rest := text.dropWhile Char.isDigit
  if digits = [] ∨ (digits.head? = some '0' ∧ digits ≠ ['0']) ∨
    rest.head? ∈ [some '.', some 'e', some 'E'] then none
  else some (Nat.ofDigitChars 10 digits 0, rest)

def readInt (text : List Char) : Option (ℤ × List Char) :=
  if text.head? = some '-' then (readNat text.tail).map fun read => (-(read.1 : ℤ), read.2)
  else (readNat text).map fun read => ((read.1 : ℤ), read.2)

/-- What may follow a number. -/
def EndsNumber (rest : List Char) : Prop :=
  ∀ c ∈ rest.head?, c.isDigit = false ∧ c ≠ '.' ∧ c ≠ 'e' ∧ c ≠ 'E'

theorem toDigits_isDigit (n : ℕ) : ∀ c ∈ Nat.toDigits 10 n, c.isDigit = true :=
  fun _ hc => Nat.isDigit_of_mem_toDigits (by decide) (by decide) hc

/-- A number of more than one digit does not begin with a zero. -/
theorem head_toDigits {n : ℕ} (h : 0 < n) : (Nat.toDigits 10 n).head? ≠ some '0' := by
  have hdigit : ∀ d < 10, 0 < d → Nat.digitChar d ≠ '0' := by decide
  induction n using Nat.strong_induction_on with
  | _ n ih =>
    rw [Nat.toDigits_eq_if (by decide)]
    split
    · rename_i hlt
      intro heq
      exact hdigit n hlt h (Option.some.inj heq)
    · rw [List.head?_append_of_ne_nil _ Nat.toDigits_ne_nil]
      exact ih (n / 10) (by omega) (by omega)

theorem readNat_toDigits (n : ℕ) {rest : List Char} (hrest : EndsNumber rest) :
    readNat (Nat.toDigits 10 n ++ rest) = some (n, rest) := by
  have hstop : rest.takeWhile Char.isDigit = [] ∧ rest.dropWhile Char.isDigit = rest := by
    cases rest with
    | nil => exact ⟨rfl, rfl⟩
    | cons c rest =>
      have hc : c.isDigit ≠ true := by simp [(hrest c rfl).1]
      exact ⟨List.takeWhile_cons_of_neg hc, List.dropWhile_cons_of_neg hc⟩
  have htake : (Nat.toDigits 10 n ++ rest).takeWhile Char.isDigit = Nat.toDigits 10 n := by
    rw [List.takeWhile_append_of_pos (toDigits_isDigit n), hstop.1, List.append_nil]
  have hdrop : (Nat.toDigits 10 n ++ rest).dropWhile Char.isDigit = rest := by
    rw [List.dropWhile_append_of_pos (toDigits_isDigit n), hstop.2]
  have hzero : ¬((Nat.toDigits 10 n).head? = some '0' ∧ Nat.toDigits 10 n ≠ ['0']) := by
    rintro ⟨hhead, hne⟩
    rcases Nat.eq_zero_or_pos n with rfl | hpos
    · exact hne rfl
    · exact head_toDigits hpos hhead
  have hnext : rest.head? ∉ [some '.', some 'e', some 'E'] := by
    intro hmem
    simp only [List.mem_cons, List.not_mem_nil, or_false] at hmem
    rcases hmem with h | h | h
    · exact (hrest _ h).2.1 rfl
    · exact (hrest _ h).2.2.1 rfl
    · exact (hrest _ h).2.2.2 rfl
  have hnumber : ¬(Nat.toDigits 10 n = [] ∨
      ((Nat.toDigits 10 n).head? = some '0' ∧ Nat.toDigits 10 n ≠ ['0']) ∨
      rest.head? ∈ [some '.', some 'e', some 'E']) := by
    simp only [not_or]
    exact ⟨Nat.toDigits_ne_nil, hzero, hnext⟩
  rw [readNat, htake, hdrop, if_neg hnumber, Nat.ofDigitChars_ten_toDigits]

theorem readInt_intText (n : ℤ) {rest : List Char} (hrest : EndsNumber rest) :
    readInt (intText n ++ rest) = some (n, rest) := by
  cases n with
  | ofNat n =>
    have hsign : (Nat.toDigits 10 n ++ rest).head? ≠ some '-' := by
      rw [List.head?_append_of_ne_nil _ Nat.toDigits_ne_nil]
      intro h
      have hdigit := toDigits_isDigit n '-' (List.mem_of_mem_head? h)
      revert hdigit
      decide
    rw [intText, readInt, if_neg hsign, readNat_toDigits n hrest]
    rfl
  | negSucc n =>
    rw [intText, readInt]
    show (readNat (Nat.toDigits 10 (n + 1) ++ rest)).map _ = _
    rw [readNat_toDigits (n + 1) hrest]
    rfl

/-! ## Values -/

namespace Value

mutual

/-- No object of the value has a key twice. -/
def distinct : Value → Bool
  | .arr items => distinctItems items
  | .obj fields => (Dict.keys fields).Nodup ∧ distinctFields fields
  | _ => true

def distinctItems : List Value → Bool
  | [] => true
  | item :: items => distinct item ∧ distinctItems items

def distinctFields : List (String × Value) → Bool
  | [] => true
  | field :: fields => distinct field.2 ∧ distinctFields fields

end

end Value

section Writer

variable (ascii : Bool)

mutual

/-- The text of a value. -/
def dump : Value → List Char
  | .null => ['n', 'u', 'l', 'l']
  | .bool true => ['t', 'r', 'u', 'e']
  | .bool false => ['f', 'a', 'l', 's', 'e']
  | .int n => intText n
  | .str text => quote ascii text.toList
  | .arr [] => ['[', ']']
  | .arr (item :: items) => '[' :: (dump item ++ dumpItems items)
  | .obj [] => ['{', '}']
  | .obj (field :: fields) =>
    '{' :: (quote ascii field.1.toList ++ (':' :: ' ' :: (dump field.2 ++ dumpFields fields)))

/-- The items after the first, and the bracket. -/
def dumpItems : List Value → List Char
  | [] => [']']
  | item :: items => ',' :: ' ' :: (dump item ++ dumpItems items)

/-- The fields after the first, and the brace. -/
def dumpFields : List (String × Value) → List Char
  | [] => ['}']
  | field :: fields =>
    ',' :: ' ' :: (quote ascii field.1.toList ++
      (':' :: ' ' :: (dump field.2 ++ dumpFields fields)))

end

end Writer

/-- What follows the white space between tokens. -/
def skip (text : List Char) : List Char :=
  text.dropWhile (· ∈ [' ', '\t', '\n', '\r'])

/-- One of the three names, or an integer. -/
def readLiteral (text : List Char) : Option (Value × List Char) :=
  if ['n', 'u', 'l', 'l'].isPrefixOf text then some (.null, text.drop 4)
  else if ['t', 'r', 'u', 'e'].isPrefixOf text then some (.bool true, text.drop 4)
  else if ['f', 'a', 'l', 's', 'e'].isPrefixOf text then some (.bool false, text.drop 5)
  else (readInt text).map fun read => (.int read.1, read.2)

/-- A dictionary of the fields in the order they are read. -/
def ofFields (fields : List (String × Value)) : Value :=
  .obj (fields.foldl (fun entries field => Dict.set entries field.1 field.2) [])

mutual

/-- A value at the front of the text, and what follows it. -/
def readValue : ℕ → List Char → Option (Value × List Char)
  | 0, _ => none
  | fuel + 1, text =>
    if text.head? = some '"' then
      (readString text.length text.tail).map fun read => (.str (String.ofList read.1), read.2)
    else if text.head? = some '{' then
      if (skip text.tail).head? = some '}' then some (.obj [], (skip text.tail).tail)
      else (readFields fuel (skip text.tail)).map fun read => (ofFields read.1, read.2)
    else if text.head? = some '[' then
      if (skip text.tail).head? = some ']' then some (.arr [], (skip text.tail).tail)
      else (readItems fuel (skip text.tail)).map fun read => (.arr read.1, read.2)
    else readLiteral text

/-- Items with commas between them, and the bracket. -/
def readItems : ℕ → List Char → Option (List Value × List Char)
  | 0, _ => none
  | fuel + 1, text => do
    let item ← readValue fuel text
    let next := skip item.2
    if next.head? = some ']' then return ([item.1], next.tail)
    else if next.head? = some ',' then
      let items ← readItems fuel (skip next.tail)
      return (item.1 :: items.1, items.2)
    else none

/-- Fields with commas between them, and the brace. -/
def readFields : ℕ → List Char → Option (List (String × Value) × List Char)
  | 0, _ => none
  | fuel + 1, text =>
    if text.head? = some '"' then do
      let key ← readString text.length text.tail
      if (skip key.2).head? = some ':' then
        let value ← readValue fuel (skip (skip key.2).tail)
        let next := skip value.2
        if next.head? = some '}' then return ([(String.ofList key.1, value.1)], next.tail)
        else if next.head? = some ',' then
          let fields ← readFields fuel (skip next.tail)
          return ((String.ofList key.1, value.1) :: fields.1, fields.2)
        else none
      else none
    else none

end

/-- A text that is a value and nothing else. -/
def loads (text : List Char) : Option Value := do
  let read ← readValue (text.length + 1) (skip text)
  if skip read.2 = [] then return read.1 else none

/-! ## The round trip -/

/-- What may stand before a value of the text. -/
def whiteSpace : List Char :=
  [' ', '\t', '\n', '\r']

theorem skip_cons {c : Char} (h : c ∉ whiteSpace) (rest : List Char) :
    skip (c :: rest) = c :: rest :=
  List.dropWhile_cons_of_neg (by simpa [whiteSpace] using h)

theorem skip_space (rest : List Char) : skip (' ' :: rest) = skip rest :=
  rfl

theorem forall_of_all {p : Char → Prop} [DecidablePred p] {cs : List Char}
    (h : cs.all (fun c => decide (p c)) = true) : ∀ c ∈ cs, p c := by
  intro c hc
  exact of_decide_eq_true (List.all_eq_true.1 h c hc)

theorem isDigit_cases {c : Char} (h : c.isDigit = true) :
    c ∉ whiteSpace ∧ c ∉ ['"', '{', '[', ']', '}', 'n', 't', 'f'] := by
  have hall : ∀ c ∈ whiteSpace ++ ['"', '{', '[', ']', '}', 'n', 't', 'f'],
      c.isDigit = false := forall_of_all (by decide)
  refine ⟨fun hc => ?_, fun hc => ?_⟩
  · rw [hall c (List.mem_append_left _ hc)] at h
    cases h
  · rw [hall c (List.mem_append_right _ hc)] at h
    cases h

/-- An integer opens with a sign or a digit. -/
theorem intText_head (n : ℤ) : ∃ c text, intText n = c :: text ∧ c ∉ whiteSpace ∧
    c ∉ ['"', '{', '[', ']', '}', 'n', 't', 'f'] := by
  cases n with
  | ofNat n =>
    obtain ⟨c, text, hdigits⟩ := List.exists_cons_of_ne_nil (Nat.toDigits_ne_nil (n := n) (b := 10))
    have hc := isDigit_cases (toDigits_isDigit n c (by rw [hdigits]; exact List.mem_cons_self))
    exact ⟨c, text, hdigits, hc⟩
  | negSucc n => exact ⟨'-', _, rfl, by decide, by decide⟩

/-- No value opens with white space or a closing bracket. -/
theorem dump_head (ascii : Bool) (v : Value) : ∃ c text, dump ascii v = c :: text ∧
    c ∉ whiteSpace ∧ c ≠ ']' ∧ c ≠ '}' := by
  cases v with
  | null => exact ⟨'n', _, rfl, by decide⟩
  | bool b => cases b <;> exact ⟨_, _, rfl, by decide⟩
  | int n =>
    obtain ⟨c, text, htext, hspace, hc⟩ := intText_head n
    simp only [List.mem_cons, List.not_mem_nil, or_false, not_or] at hc
    exact ⟨c, text, htext, hspace, hc.2.2.2.1, hc.2.2.2.2.1⟩
  | str text => exact ⟨'"', _, rfl, by decide⟩
  | arr items => cases items <;> exact ⟨'[', _, rfl, by decide⟩
  | obj fields => cases fields <;> exact ⟨'{', _, rfl, by decide⟩

theorem skip_dump (ascii : Bool) (v : Value) (rest : List Char) :
    skip (dump ascii v ++ rest) = dump ascii v ++ rest := by
  obtain ⟨c, text, htext, hspace, -⟩ := dump_head ascii v
  rw [htext, List.cons_append, skip_cons hspace]

theorem readLiteral_intText (n : ℤ) {rest : List Char} (hrest : EndsNumber rest) :
    readLiteral (intText n ++ rest) = some (.int n, rest) := by
  obtain ⟨c, text, htext, -, hc⟩ := intText_head n
  have hne : ∀ first word, first ∈ ['n', 't', 'f'] →
      (first :: word).isPrefixOf (intText n ++ rest) = false := by
    intro first word hfirst
    rw [htext, List.cons_append, List.isPrefixOf_cons_cons]
    have hdiffer : (first == c) = false := beq_eq_false_iff_ne.2 fun heq =>
      hc (heq ▸ List.mem_append_right ['"', '{', '[', ']', '}'] hfirst)
    rw [hdiffer, Bool.false_and]
  rw [readLiteral, hne _ _ (by decide), hne _ _ (by decide), hne _ _ (by decide),
    readInt_intText n hrest]
  rfl

theorem quote_length (ascii : Bool) (text : List Char) :
    text.length < (quote ascii text).length := by
  have hle : text.length ≤ (text.flatMap (escapeChar ascii)).length := by
    induction text with
    | nil => exact Nat.le_refl 0
    | cons c text ih =>
      have hpos : 0 < (escapeChar ascii c).length := by
        rw [escapeChar]
        cases shortEscapes.lookup c with
        | some letter => exact Nat.zero_lt_two
        | none =>
          dsimp only
          split
          · rw [escapePoint]
            split <;> simp [escapeUnit]
          · exact Nat.zero_lt_one
      rw [List.flatMap_cons, List.length_append, List.length_cons]
      omega
  rw [quote, List.length_cons, List.length_append]
  omega

/-- A text in quotes, read with the fuel that the reader gives. -/
theorem readString_tail (ascii : Bool) (text : String) (rest : List Char) :
    readString (quote ascii text.toList ++ rest).length (quote ascii text.toList ++ rest).tail =
      some (text.toList, rest) := by
  have hlen := quote_length ascii text.toList
  have hfuel : text.toList.length < (quote ascii text.toList ++ rest).length := by
    rw [List.length_append]
    omega
  rw [← readString_quote ascii text.toList rest hfuel, quote, List.cons_append, List.tail_cons,
    List.append_assoc]
  rfl

theorem foldl_set (entries fields : List (String × Value))
    (h : (Dict.keys (entries ++ fields)).Nodup) :
    fields.foldl (fun entries field => Dict.set entries field.1 field.2) entries =
      entries ++ fields := by
  induction fields generalizing entries with
  | nil => rw [List.foldl_nil, List.append_nil]
  | cons field fields ih =>
    have hnew : field.1 ∉ Dict.keys entries := fun hmem => by
      rw [Dict.keys, List.map_append, List.map_cons] at h
      exact (List.nodup_append.1 h).2.2 field.1 hmem field.1 List.mem_cons_self rfl
    rw [List.foldl_cons, Dict.set, if_neg hnew, ih _ (by rwa [List.append_assoc]),
      List.append_assoc]
    rfl

/-- Fields whose keys are distinct are the dictionary of them. -/
theorem ofFields_of_nodup {fields : List (String × Value)} (h : (Dict.keys fields).Nodup) :
    ofFields fields = .obj fields := by
  rw [ofFields, foldl_set [] fields h]
  rfl

/-- The text of the value is read back, whatever follows it that does not go on with a number. -/
def Readable (ascii : Bool) (v : Value) : Prop :=
  ∀ fuel rest, (dump ascii v).length < fuel → EndsNumber rest →
    readValue fuel (dump ascii v ++ rest) = some (v, rest)

section RoundTrip

variable {ascii : Bool}

theorem endsNumber_cons {c : Char} {rest : List Char} (h : c ∈ [',', ']', '}']) :
    EndsNumber (c :: rest) := by
  have hall : ∀ c ∈ [',', ']', '}'], c.isDigit = false ∧ c ≠ '.' ∧ c ≠ 'e' ∧ c ≠ 'E' :=
    forall_of_all (by decide)
  intro d hd
  obtain rfl := Option.some.inj hd
  exact hall c h

theorem endsNumber_items (items : List Value) (rest : List Char) :
    EndsNumber (dumpItems ascii items ++ rest) := by
  cases items with
  | nil => exact endsNumber_cons (by decide)
  | cons item items => exact endsNumber_cons (by decide)

theorem endsNumber_fields (fields : List (String × Value)) (rest : List Char) :
    EndsNumber (dumpFields ascii fields ++ rest) := by
  cases fields with
  | nil => exact endsNumber_cons (by decide)
  | cons field fields => exact endsNumber_cons (by decide)

theorem readable_int (n : ℤ) : Readable ascii (.int n) := by
  intro fuel rest hfuel hrest
  obtain ⟨fuel, rfl⟩ : ∃ k, fuel = k + 1 := ⟨fuel - 1, by omega⟩
  obtain ⟨c, text, htext, -, hc⟩ := intText_head n
  have hhead : (dump ascii (.int n) ++ rest).head? = some c := by
    rw [dump, htext]
    rfl
  have hne : ∀ first ∈ ['"', '{', '['],
      (dump ascii (.int n) ++ rest).head? ≠ some first := by
    intro first hfirst heq
    rw [hhead] at heq
    exact hc (Option.some.inj heq ▸ List.mem_append_left [']', '}', 'n', 't', 'f'] hfirst)
  rw [readValue, if_neg (hne _ (by decide)), if_neg (hne _ (by decide)),
    if_neg (hne _ (by decide)), dump, readLiteral_intText n hrest]

theorem readable_str (text : String) : Readable ascii (.str text) := by
  intro fuel rest hfuel _
  obtain ⟨fuel, rfl⟩ : ∃ k, fuel = k + 1 := ⟨fuel - 1, by omega⟩
  have hhead : (quote ascii text.toList ++ rest).head? = some '"' := rfl
  rw [readValue, dump, if_pos hhead, readString_tail ascii text rest, Option.map_some,
    String.ofList_toList]

/-- The items of an array, after the bracket. -/
theorem readItems_dump {items : List Value} (hitems : ∀ item ∈ items, Readable ascii item) :
    ∀ {item : Value}, Readable ascii item → ∀ (fuel : ℕ) (rest : List Char),
      (dump ascii item ++ dumpItems ascii items).length < fuel →
      readItems fuel (dump ascii item ++ (dumpItems ascii items ++ rest)) =
        some (item :: items, rest) := by
  induction items with
  | nil =>
    intro item hitem fuel rest hfuel
    obtain ⟨fuel, rfl⟩ : ∃ k, fuel = k + 1 := ⟨fuel - 1, by omega⟩
    rw [List.length_append, dumpItems, List.length_singleton] at hfuel
    rw [readItems, hitem fuel _ (by omega) (endsNumber_items [] rest)]
    rfl
  | cons next items ih =>
    intro item hitem fuel rest hfuel
    obtain ⟨fuel, rfl⟩ : ∃ k, fuel = k + 1 := ⟨fuel - 1, by omega⟩
    rw [List.length_append, dumpItems, List.length_cons, List.length_cons] at hfuel
    have htail := ih (fun item hmem => hitems item (List.mem_cons_of_mem _ hmem))
      (hitems next List.mem_cons_self) fuel rest (by omega)
    rw [readItems, hitem fuel _ (by omega) (endsNumber_items (next :: items) rest)]
    show (readItems fuel (skip (' ' :: (dump ascii next ++ dumpItems ascii items ++ rest)))).bind
      _ = _
    rw [skip_space, List.append_assoc, skip_dump, htail]
    rfl

/-- The text of a field. -/
def dumpField (ascii : Bool) (field : String × Value) : List Char :=
  quote ascii field.1.toList ++ (':' :: ' ' :: dump ascii field.2)

/-- The fields of an object, after the brace. -/
theorem readFields_dump {fields : List (String × Value)}
    (hfields : ∀ field ∈ fields, Readable ascii field.2) :
    ∀ {field : String × Value}, Readable ascii field.2 → ∀ (fuel : ℕ) (rest : List Char),
      (dumpField ascii field ++ dumpFields ascii fields).length < fuel →
      readFields fuel (dumpField ascii field ++ (dumpFields ascii fields ++ rest)) =
        some (field :: fields, rest) := by
  have hone : ∀ {field : String × Value} {fields : List (String × Value)} {fuel : ℕ}
      {rest : List Char}, Readable ascii field.2 →
      (dumpField ascii field ++ dumpFields ascii fields).length < fuel + 1 →
      readValue fuel (skip (skip (':' :: ' ' ::
        (dump ascii field.2 ++ (dumpFields ascii fields ++ rest)))).tail) =
        some (field.2, dumpFields ascii fields ++ rest) := by
    intro field fields fuel rest hfield hfuel
    rw [List.length_append, dumpField, List.length_append, List.length_cons,
      List.length_cons] at hfuel
    rw [skip_cons (by decide), List.tail_cons, skip_space, skip_dump,
      hfield fuel _ (by omega) (endsNumber_fields fields rest)]
  have htext : ∀ (field : String × Value) (rest : List Char),
      dumpField ascii field ++ rest =
        quote ascii field.1.toList ++ (':' :: ' ' :: (dump ascii field.2 ++ rest)) :=
    fun field rest => by rw [dumpField, List.append_assoc]; rfl
  have hhead : ∀ (text rest : List Char), (quote ascii text ++ rest).head? = some '"' :=
    fun _ _ => rfl
  induction fields with
  | nil =>
    intro field hfield fuel rest hfuel
    obtain ⟨fuel, rfl⟩ : ∃ k, fuel = k + 1 := ⟨fuel - 1, by omega⟩
    rw [htext, readFields, if_pos (hhead _ _), readString_tail ascii field.1]
    show (readValue fuel (skip (skip (':' :: ' ' ::
      (dump ascii field.2 ++ (dumpFields ascii [] ++ rest)))).tail)).bind _ = _
    rw [hone hfield hfuel, Option.bind_some, String.ofList_toList]
    rfl
  | cons next fields ih =>
    intro field hfield fuel rest hfuel
    obtain ⟨fuel, rfl⟩ : ∃ k, fuel = k + 1 := ⟨fuel - 1, by omega⟩
    have htail := ih (fun field hmem => hfields field (List.mem_cons_of_mem _ hmem))
      (hfields next List.mem_cons_self) fuel rest (by
        rw [List.length_append, dumpFields, List.length_cons, List.length_cons,
          List.length_append] at hfuel
        rw [List.length_append, dumpField, List.length_append]
        simp only [List.length_append, List.length_cons] at hfuel ⊢
        omega)
    rw [htext, readFields, if_pos (hhead _ _), readString_tail ascii field.1]
    show (readValue fuel (skip (skip (':' :: ' ' ::
      (dump ascii field.2 ++ (dumpFields ascii (next :: fields) ++ rest)))).tail)).bind _ = _
    rw [hone hfield hfuel, Option.bind_some, String.ofList_toList]
    have hnext : quote ascii next.1.toList ++
        (':' :: ' ' :: (dump ascii next.2 ++ dumpFields ascii fields)) ++ rest =
          dumpField ascii next ++ (dumpFields ascii fields ++ rest) := by
      simp only [dumpField, List.append_assoc, List.cons_append]
    have hopen : skip (dumpField ascii next ++ (dumpFields ascii fields ++ rest)) =
        dumpField ascii next ++ (dumpFields ascii fields ++ rest) := skip_cons (by decide) _
    show (readFields fuel (skip (' ' :: (quote ascii next.1.toList ++
      (':' :: ' ' :: (dump ascii next.2 ++ dumpFields ascii fields)) ++ rest)))).bind _ = _
    rw [skip_space, hnext, hopen, htail]
    rfl

theorem readable_arr {items : List Value} (hitems : ∀ item ∈ items, Readable ascii item) :
    Readable ascii (.arr items) := by
  intro fuel rest hfuel _
  obtain ⟨fuel, rfl⟩ : ∃ k, fuel = k + 1 := ⟨fuel - 1, by omega⟩
  cases items with
  | nil => rfl
  | cons item items =>
    rw [dump, List.length_cons] at hfuel
    have hrest := readItems_dump (fun item hmem => hitems item (List.mem_cons_of_mem _ hmem))
      (hitems item List.mem_cons_self) fuel rest (by omega)
    obtain ⟨c, text, htext, -, hc, -⟩ := dump_head ascii item
    have hopen : (skip (dump ascii item ++ (dumpItems ascii items ++ rest))).head? ≠
        some ']' := by
      rw [skip_dump, htext]
      exact fun h => hc (Option.some.inj h)
    rw [dump, List.cons_append, List.append_assoc, readValue, List.head?_cons,
      if_neg (by decide), if_neg (by decide), if_pos rfl, List.tail_cons, if_neg hopen, skip_dump,
      hrest]
    rfl

theorem readable_obj {fields : List (String × Value)} (hkeys : (Dict.keys fields).Nodup)
    (hfields : ∀ field ∈ fields, Readable ascii field.2) : Readable ascii (.obj fields) := by
  intro fuel rest hfuel _
  obtain ⟨fuel, rfl⟩ : ∃ k, fuel = k + 1 := ⟨fuel - 1, by omega⟩
  cases fields with
  | nil => rfl
  | cons field fields =>
    have hbody : quote ascii field.1.toList ++
        (':' :: ' ' :: (dump ascii field.2 ++ dumpFields ascii fields)) =
          dumpField ascii field ++ dumpFields ascii fields := by
      simp only [dumpField, List.append_assoc, List.cons_append]
    rw [dump, hbody, List.length_cons] at hfuel
    have hrest := readFields_dump (fun field hmem => hfields field (List.mem_cons_of_mem _ hmem))
      (hfields field List.mem_cons_self) fuel rest (by omega)
    have hopen : skip (dumpField ascii field ++ (dumpFields ascii fields ++ rest)) =
        dumpField ascii field ++ (dumpFields ascii fields ++ rest) := skip_cons (by decide) _
    have hhead : (dumpField ascii field ++ (dumpFields ascii fields ++ rest)).head? ≠
        some '}' := by
      show some '"' ≠ some '}'
      decide
    rw [dump, hbody, List.cons_append, List.append_assoc, readValue, List.head?_cons,
      if_neg (by decide), if_pos rfl, List.tail_cons, hopen, if_neg hhead, hrest]
    exact congrArg (fun v => some (v, rest)) (ofFields_of_nodup hkeys)

mutual

/-- The text of a value whose keys are distinct is read back as the value. -/
theorem readable : ∀ v : Value, v.distinct = true → Readable ascii v
  | .null, _ => fun fuel rest hfuel _ => by
    obtain ⟨fuel, rfl⟩ : ∃ k, fuel = k + 1 := ⟨fuel - 1, by omega⟩
    rfl
  | .bool true, _ => fun fuel rest hfuel _ => by
    obtain ⟨fuel, rfl⟩ : ∃ k, fuel = k + 1 := ⟨fuel - 1, by omega⟩
    rfl
  | .bool false, _ => fun fuel rest hfuel _ => by
    obtain ⟨fuel, rfl⟩ : ∃ k, fuel = k + 1 := ⟨fuel - 1, by omega⟩
    rfl
  | .int n, _ => readable_int n
  | .str text, _ => readable_str text
  | .arr items, h => readable_arr (readable_items items h)
  | .obj fields, h => by
    rw [Value.distinct, decide_eq_true_eq] at h
    exact readable_obj h.1 (readable_fields fields h.2)

theorem readable_items : ∀ items : List Value, Value.distinctItems items = true →
    ∀ item ∈ items, Readable ascii item
  | [], _ => fun item hitem => absurd hitem List.not_mem_nil
  | first :: items, h => fun item hitem => by
    rw [Value.distinctItems, decide_eq_true_eq] at h
    rcases List.mem_cons.1 hitem with heq | hitem
    · exact heq ▸ readable first h.1
    · exact readable_items items h.2 item hitem

theorem readable_fields : ∀ fields : List (String × Value),
    Value.distinctFields fields = true → ∀ field ∈ fields, Readable ascii field.2
  | [], _ => fun field hfield => absurd hfield List.not_mem_nil
  | first :: fields, h => fun field hfield => by
    rw [Value.distinctFields, decide_eq_true_eq] at h
    rcases List.mem_cons.1 hfield with heq | hfield
    · exact heq ▸ readable first.2 h.1
    · exact readable_fields fields h.2 field hfield

end

end RoundTrip

theorem readValue_dump {ascii : Bool} {v : Value} (h : v.distinct = true) {rest : List Char}
    (hrest : EndsNumber rest) {fuel : ℕ} (hfuel : (dump ascii v).length < fuel) :
    readValue fuel (dump ascii v ++ rest) = some (v, rest) :=
  readable v h fuel rest hfuel hrest

theorem loads_dump {ascii : Bool} {v : Value} (h : v.distinct = true) :
    loads (dump ascii v) = some v := by
  have hend : EndsNumber [] := fun c hc => absurd hc (by simp)
  have hskip : skip (dump ascii v) = dump ascii v := by
    have hskip := skip_dump ascii v []
    rwa [List.append_nil] at hskip
  have hread := readValue_dump h hend (Nat.lt_succ_self (dump ascii v).length)
  rw [List.append_nil] at hread
  rw [loads, hskip, hread]
  rfl

/-- The text of a value settles it. -/
theorem dump_inj {ascii : Bool} {v w : Value} (hv : v.distinct = true) (hw : w.distinct = true)
    (h : dump ascii v = dump ascii w) : v = w := by
  have hread : loads (dump ascii v) = some v := loads_dump hv
  rw [h, loads_dump hw] at hread
  exact (Option.some.inj hread).symm

/-! ## The characters of the text -/

/-- No control character, and with `ascii` a printable character of the first 128. -/
def Plain (ascii : Bool) (text : List Char) : Prop :=
  ∀ c ∈ text, 0x20 ≤ c.toNat ∧ (ascii = true → c.toNat ≤ 0x7e)

section Characters

variable {ascii : Bool} {l l' : List Char}

@[simp]
theorem plain_nil : Plain ascii [] :=
  fun _ hc => absurd hc List.not_mem_nil

@[simp]
theorem plain_cons {c : Char} :
    Plain ascii (c :: l) ↔ (0x20 ≤ c.toNat ∧ (ascii = true → c.toNat ≤ 0x7e)) ∧ Plain ascii l :=
  List.forall_mem_cons

@[simp]
theorem plain_append : Plain ascii (l ++ l') ↔ Plain ascii l ∧ Plain ascii l' :=
  List.forall_mem_append

theorem plain_escapeUnit {n : ℕ} (h : n < 0x10000) : Plain ascii (escapeUnit n) := by
  have hdigit : ∀ d < 16, 0x20 ≤ (Nat.digitChar d).toNat ∧ (Nat.digitChar d).toNat ≤ 0x7e := by
    decide
  have hplain : ∀ d < 16, 0x20 ≤ (Nat.digitChar d).toNat ∧
      (ascii = true → (Nat.digitChar d).toNat ≤ 0x7e) :=
    fun d hd => ⟨(hdigit d hd).1, fun _ => (hdigit d hd).2⟩
  simp only [escapeUnit, hexDigits, plain_cons, plain_nil, and_true]
  exact ⟨⟨by decide, fun _ => by decide⟩, ⟨by decide, fun _ => by decide⟩,
    hplain _ (by omega), hplain _ (by omega), hplain _ (by omega), hplain _ (by omega)⟩

theorem plain_escapeChar (c : Char) : Plain ascii (escapeChar ascii c) := by
  have hvalid : c.toNat < 0xd800 ∨ 0xdfff < c.toNat ∧ c.toNat < 0x110000 := c.valid
  rw [escapeChar]
  cases hshort : shortEscapes.lookup c with
  | some letter =>
    have hall : ∀ entry ∈ shortEscapes, 0x20 ≤ entry.2.toNat ∧ entry.2.toNat ≤ 0x7e := by decide
    have hletter := hall (c, letter) (Dict.mem_of_lookup hshort)
    simp only [plain_cons, plain_nil, and_true]
    exact ⟨⟨by decide, fun _ => by decide⟩, hletter.1, fun _ => hletter.2⟩
  | none =>
    dsimp only
    split
    · rw [escapePoint]
      split
      · exact plain_escapeUnit (by omega)
      · exact plain_append.2 ⟨plain_escapeUnit (by omega), plain_escapeUnit (by omega)⟩
    · rename_i hplain
      rw [plain_cons]
      refine ⟨⟨by omega, fun hascii => ?_⟩, plain_nil⟩
      by_contra hlarge
      exact hplain (Or.inr ⟨hascii, by omega⟩)

theorem plain_quote (text : List Char) : Plain ascii (quote ascii text) := by
  have hbody : Plain ascii (text.flatMap (escapeChar ascii)) := fun c hc => by
    obtain ⟨d, -, hd⟩ := List.mem_flatMap.1 hc
    exact plain_escapeChar d c hd
  rw [quote, plain_cons, plain_append, plain_cons]
  exact ⟨⟨by decide, fun _ => by decide⟩, hbody, ⟨by decide, fun _ => by decide⟩, plain_nil⟩

theorem plain_intText (n : ℤ) : Plain ascii (intText n) := by
  have hdigits : ∀ n : ℕ, Plain ascii (Nat.toDigits 10 n) := fun n c hc => by
    have hdigit := toDigits_isDigit n c hc
    have hrange : 48 ≤ c.toNat ∧ c.toNat ≤ 57 := by
      rw [Char.isDigit, Bool.and_eq_true, decide_eq_true_eq, decide_eq_true_eq] at hdigit
      exact ⟨UInt32.le_iff_toNat_le.1 hdigit.1, UInt32.le_iff_toNat_le.1 hdigit.2⟩
    exact ⟨by omega, fun _ => by omega⟩
  cases n with
  | ofNat n => exact hdigits n
  | negSucc n => exact plain_cons.2 ⟨⟨by decide, fun _ => by decide⟩, hdigits (n + 1)⟩

/-- A character of the marks around the values. -/
theorem plain_mark {c : Char} (h : c ∈ ['[', ']', '\x7b', '\x7d', ',', ':', ' ']) :
    0x20 ≤ c.toNat ∧ (ascii = true → c.toNat ≤ 0x7e) := by
  have hall : ∀ c ∈ ['[', ']', '\x7b', '\x7d', ',', ':', ' '],
      0x20 ≤ c.toNat ∧ c.toNat ≤ 0x7e := forall_of_all (by decide)
  exact ⟨(hall c h).1, fun _ => (hall c h).2⟩

mutual

theorem plain_dump : ∀ v : Value, Plain ascii (dump ascii v)
  | .null => fun c hc => by
    have hall : ∀ c ∈ ['n', 'u', 'l', 'l'], 0x20 ≤ c.toNat ∧ c.toNat ≤ 0x7e :=
      forall_of_all (by decide)
    exact ⟨(hall c hc).1, fun _ => (hall c hc).2⟩
  | .bool true => fun c hc => by
    have hall : ∀ c ∈ ['t', 'r', 'u', 'e'], 0x20 ≤ c.toNat ∧ c.toNat ≤ 0x7e :=
      forall_of_all (by decide)
    exact ⟨(hall c hc).1, fun _ => (hall c hc).2⟩
  | .bool false => fun c hc => by
    have hall : ∀ c ∈ ['f', 'a', 'l', 's', 'e'], 0x20 ≤ c.toNat ∧ c.toNat ≤ 0x7e :=
      forall_of_all (by decide)
    exact ⟨(hall c hc).1, fun _ => (hall c hc).2⟩
  | .int n => plain_intText n
  | .str text => plain_quote text.toList
  | .arr [] => by
    rw [dump, plain_cons, plain_cons]
    exact ⟨plain_mark (by decide), plain_mark (by decide), plain_nil⟩
  | .arr (item :: items) => by
    rw [dump, plain_cons, plain_append]
    exact ⟨plain_mark (by decide), plain_dump item, plain_dumpItems items⟩
  | .obj [] => by
    rw [dump, plain_cons, plain_cons]
    exact ⟨plain_mark (by decide), plain_mark (by decide), plain_nil⟩
  | .obj (field :: fields) => by
    rw [dump, plain_cons, plain_append, plain_cons, plain_cons, plain_append]
    exact ⟨plain_mark (by decide), plain_quote _, plain_mark (by decide), plain_mark (by decide),
      plain_dump field.2, plain_dumpFields fields⟩

theorem plain_dumpItems : ∀ items : List Value, Plain ascii (dumpItems ascii items)
  | [] => by
    rw [dumpItems, plain_cons]
    exact ⟨plain_mark (by decide), plain_nil⟩
  | item :: items => by
    rw [dumpItems, plain_cons, plain_cons, plain_append]
    exact ⟨plain_mark (by decide), plain_mark (by decide), plain_dump item,
      plain_dumpItems items⟩

theorem plain_dumpFields : ∀ fields : List (String × Value),
    Plain ascii (dumpFields ascii fields)
  | [] => by
    rw [dumpFields, plain_cons]
    exact ⟨plain_mark (by decide), plain_nil⟩
  | field :: fields => by
    rw [dumpFields, plain_cons, plain_cons, plain_append, plain_cons, plain_cons, plain_append]
    exact ⟨plain_mark (by decide), plain_mark (by decide), plain_quote _,
      plain_mark (by decide), plain_mark (by decide), plain_dump field.2,
      plain_dumpFields fields⟩

end

end Characters

end JsonText
