import EnterpriseRag.Core.Text
import EnterpriseRag.Guardrails.Policy
import EnterpriseRag.Library.Regex

/-!
# Sensitive data

The deterministic patterns for credentials and personal data, the scanner that reports
them and `tokenize`, which puts a placeholder for each match and keeps the raw value in a
vault. The word characters of `\b` are those of the Unicode database, a parameter here,
and the random part of a placeholder comes from a `TokenSource`.

`Redacts` says what a pass of `tokenize` does to a text : it keeps characters, and puts
bracketed placeholders for runs that hold no bracket.
-/

namespace EnterpriseRag

inductive SensitiveKind
  | jwt
  | apiKey
  | email
  | phone
  | pan
  | aadhaar
  | card
  deriving DecidableEq, Repr

/-- `kind.upper()`. -/
def SensitiveKind.label : SensitiveKind → List Char
  | .jwt => ['J', 'W', 'T']
  | .apiKey => ['A', 'P', 'I', '_', 'K', 'E', 'Y']
  | .email => ['E', 'M', 'A', 'I', 'L']
  | .phone => ['P', 'H', 'O', 'N', 'E']
  | .pan => ['P', 'A', 'N']
  | .aadhaar => ['A', 'A', 'D', 'H', 'A', 'A', 'R']
  | .card => ['C', 'A', 'R', 'D']

/-! ## Patterns -/

def isUpperAscii (c : Char) : Bool :=
  'A' ≤ c ∧ c ≤ 'Z'

def isLetterAscii (c : Char) : Bool :=
  isUpperAscii c || ('a' ≤ c ∧ c ≤ 'z')

def isDigitAscii (c : Char) : Bool :=
  '0' ≤ c ∧ c ≤ '9'

def isAlnumAscii (c : Char) : Bool :=
  isLetterAscii c || isDigitAscii c

/-- The characters a pattern that ignores case takes for the ASCII letter. -/
def sameLetter (letter c : Char) : Bool :=
  c.toLower = letter || (letter = 's' && c.toNat = 0x17f) || (letter = 'k' && c.toNat = 0x212a) ||
    (letter = 'i' && (c.toNat = 0x130 || c.toNat = 0x131))

/-- `[A-Za-z0-9]` in a pattern that ignores case. -/
def isAlnumAnyCase (c : Char) : Bool :=
  isAlnumAscii c || c.toNat = 0x17f || c.toNat = 0x212a || c.toNat = 0x130 || c.toNat = 0x131

/-- `[-\s]`. -/
def isSeparator (c : Char) : Bool :=
  c = '-' || isSpace c

namespace SensitiveKind

open Regex

/-- The pattern of a kind, one part after another. -/
def pattern (isWord : Char → Bool) : SensitiveKind → Regex
  | .jwt =>
    let segment := many (fun c => isAlnumAscii c || c = '_' || c = '-') 1
    seq (boundary isWord) (seq (literal (fun c d => d = c) ['e', 'y', 'J'])
      (seq segment (seq (char (· = '.')) (seq segment (seq (char (· = '.'))
        (seq segment (boundary isWord)))))))
  | .apiKey =>
    let separator := char fun c => c = '-' || c = '_'
    let word := literal sameLetter
    seq (boundary isWord)
      (seq (alt (word ['s', 'k']) (alt (word ['p', 'k']) (alt (word ['a', 'p', 'i'])
          (word ['k', 'e', 'y']))))
        (seq separator (seq (opt (seq (many isAlnumAnyCase 1) separator))
          (seq (many isAlnumAnyCase 16) (boundary isWord)))))
  | .email =>
    seq (boundary isWord)
      (seq (many (fun c => isAlnumAscii c || c ∈ ['.', '_', '%', '+', '-']) 1)
        (seq (char (· = '@')) (seq (many (fun c => isAlnumAscii c || c = '.' || c = '-') 1)
          (seq (char (· = '.')) (seq (many isLetterAscii 2) (boundary isWord))))))
  | .phone =>
    seq (notAfter isDecimal)
      (seq (opt (seq (opt (char (· = '+'))) (seq (literal (fun c d => d = c) ['9', '1'])
          (opt (char isSeparator)))))
        (seq (char fun c => '6' ≤ c ∧ c ≤ '9') (seq (repeats (char isDecimal) 9 0)
          (notBefore isDecimal))))
  | .pan =>
    seq (boundary isWord) (seq (repeats (char isUpperAscii) 5 0)
      (seq (repeats (char isDigitAscii) 4 0) (seq (char isUpperAscii) (boundary isWord))))
  | .aadhaar =>
    let four := repeats (char isDecimal) 4 0
    seq (notAfter isDecimal) (seq four (seq (opt (char isSeparator)) (seq four
      (seq (opt (char isSeparator)) (seq four (notBefore isDecimal))))))
  | .card =>
    seq (notAfter isDecimal)
      (seq (repeats (seq (char isDecimal) (opt (char isSeparator))) 13 6) (notBefore isDecimal))

/-- The kinds in the order `tokenize` takes them. -/
def all : List SensitiveKind :=
  [.jwt, .apiKey, .email, .phone, .pan, .aadhaar, .card]

end SensitiveKind

/-- `_luhn_valid`. -/
def luhnValid (digits : List Char) : Bool :=
  let value := fun (index : ℕ) (c : Char) =>
    let digit := (decimalValue c).getD 0
    if index % 2 = 1 then (if 9 < digit * 2 then digit * 2 - 9 else digit * 2) else digit
  (digits.reverse.mapIdx value).sum % 10 = 0

/-- A match of the card pattern that is one. -/
def isCard (text : List Char) : Bool :=
  let digits := text.filter (!isSeparator ·)
  (13 ≤ digits.length ∧ digits.length ≤ 19) && luhnValid digits

/-- A match that counts. -/
def SensitiveKind.accepts : SensitiveKind → List Char → Bool
  | .card, text => isCard text
  | _, _ => true

/-! ## The scanner -/

/-- `RegexSensitiveDataScanner.scan`. -/
def scanSensitive (isWord : Char → Bool) (text : String) : List ScanFinding :=
  let has := fun kind : SensitiveKind =>
    ((kind.pattern isWord).findAll text.toList).any kind.accepts
  let finding := fun category score detail =>
    ScanFinding.mk category score "deterministic.regex_sensitive_data" (some detail)
  (if has .jwt || has .apiKey then [finding .secrets 1 "credential_shaped_token"] else []) ++
    (if has .email || has .phone then [finding .pii (8 / 10) "contact_identifier"] else []) ++
    (if has .pan || has .aadhaar then [finding .pii (95 / 100) "government_id"] else []) ++
    (if has .card then [finding .pii (9 / 10) "card_number"] else [])

/-! ## The vault -/

def isHexDigit (c : Char) : Bool :=
  ('0' ≤ c ∧ c ≤ '9') || ('a' ≤ c ∧ c ≤ 'f')

/-- `secrets.token_hex`, the `n`-th value it makes. -/
structure TokenSource where
  next : ℕ → List Char
  hex : ∀ n, ∀ c ∈ next n, isHexDigit c = true

theorem isHexDigit_of_mem_zeros : ∀ _ : ℕ, ∀ c ∈ List.replicate 8 '0', isHexDigit c = true := by
  rintro - c hc
  rw [List.eq_of_mem_replicate hc]
  decide

/-- The placeholders handed out with the values they stand for, oldest first. -/
abbrev SensitiveValueVault := List (List Char × List Char)

/-- What a placeholder holds between its brackets : `REDACTED:`, the kind and the token. -/
def placeholderText (kind : SensitiveKind) (token : List Char) : List Char :=
  ['R', 'E', 'D', 'A', 'C', 'T', 'E', 'D', ':'] ++ kind.label ++ ':' :: token

/-- `store`. -/
def placeholder (kind : SensitiveKind) (token : List Char) : List Char :=
  '[' :: (placeholderText kind token ++ [']'])

/-- `resolve` : of two values under one placeholder the later counts. -/
def SensitiveValueVault.resolve (vault : SensitiveValueVault) (key : List Char) :
    Option (List Char) :=
  vault.reverse.lookup key

/-- The replacements of one pattern's matches, from the left. -/
def replaceHits (tokens : TokenSource) (kind : SensitiveKind) :
    List Regex.Piece → SensitiveValueVault → List Char × SensitiveValueVault
  | [], vault => ([], vault)
  | .plain c :: rest, vault =>
    let (text, vault') := replaceHits tokens kind rest vault
    (c :: text, vault')
  | .hit u :: rest, vault =>
    if kind.accepts u then
      let key := placeholder kind (tokens.next vault.length)
      let (text, vault') := replaceHits tokens kind rest (vault ++ [(key, u)])
      (key ++ text, vault')
    else
      let (text, vault') := replaceHits tokens kind rest vault
      (u ++ text, vault')

/-- `tokenize`, over the kinds given. -/
def tokenizeKinds (isWord : Char → Bool) (tokens : TokenSource) :
    List SensitiveKind → List Char × SensitiveValueVault → List Char × SensitiveValueVault
  | [], state => state
  | kind :: kinds, (text, vault) =>
    tokenizeKinds isWord tokens kinds
      (replaceHits tokens kind ((kind.pattern isWord).pieces text) vault)

/-- `tokenize` with an empty vault : the text, and the vault afterwards. -/
def tokenize (isWord : Char → Bool) (tokens : TokenSource) (text : String) :
    String × SensitiveValueVault :=
  let (text', vault) := tokenizeKinds isWord tokens SensitiveKind.all (text.toList, [])
  (String.ofList text', vault)

theorem tokenize_fst (isWord : Char → Bool) (tokens : TokenSource) (text : String) :
    (tokenize isWord tokens text).1 =
      String.ofList (tokenizeKinds isWord tokens SensitiveKind.all (text.toList, [])).1 := by
  unfold tokenize
  generalize tokenizeKinds isWord tokens SensitiveKind.all (text.toList, []) = state
  rfl

theorem tokenize_snd (isWord : Char → Bool) (tokens : TokenSource) (text : String) :
    (tokenize isWord tokens text).2 =
      (tokenizeKinds isWord tokens SensitiveKind.all (text.toList, [])).2 := by
  unfold tokenize
  generalize tokenizeKinds isWord tokens SensitiveKind.all (text.toList, []) = state
  rfl

theorem tokenizeKinds_append {isWord : Char → Bool} {tokens : TokenSource}
    (state : List Char × SensitiveValueVault) :
    ∀ kinds kinds' : List SensitiveKind, tokenizeKinds isWord tokens (kinds ++ kinds') state =
      tokenizeKinds isWord tokens kinds' (tokenizeKinds isWord tokens kinds state)
  | [], _ => rfl
  | kind :: kinds, kinds' => by
    obtain ⟨text, vault⟩ := state
    rw [List.cons_append, tokenizeKinds, tokenizeKinds, tokenizeKinds_append _ kinds kinds']

theorem tokenizeKinds_concat {isWord : Char → Bool} {tokens : TokenSource}
    (state : List Char × SensitiveValueVault) (kinds : List SensitiveKind) (kind : SensitiveKind) :
    tokenizeKinds isWord tokens (kinds ++ [kind]) state =
      replaceHits tokens kind
        ((kind.pattern isWord).pieces (tokenizeKinds isWord tokens kinds state).1)
        (tokenizeKinds isWord tokens kinds state).2 := by
  rw [tokenizeKinds_append]
  rfl

/-! ## What tokenizing does to a text -/

/-- Characters are kept, and bracketed placeholders put for runs without a bracket. A
placeholder holds no bracket inside, and no letter `B`. -/
inductive Redacts : List Char → List Char → Prop
  | nil : Redacts [] []
  | keep {t t'} (c) (h : Redacts t t') : Redacts (c :: t) (c :: t')
  | replace {t t'} (u inner) (hu : ∀ c ∈ u, isBracket c = false)
      (hinner : ∀ c ∈ inner, isBracket c = false ∧ c ≠ 'B') (h : Redacts t t') :
    Redacts (u ++ t) ('[' :: (inner ++ ']' :: t'))

theorem Redacts.keep_append {t t' : List Char} (h : Redacts t t') :
    ∀ u : List Char, Redacts (u ++ t) (u ++ t')
  | [] => h
  | c :: u => .keep c (h.keep_append u)

/-- Text up to its first closing bracket is kept. -/
theorem Redacts.exists_closing {t t' : List Char} (h : Redacts t t') :
    ∀ {content post : List Char}, t' = content ++ ']' :: post →
      (∀ c ∈ content, isBracket c = false) → ∃ post', t = content ++ ']' :: post' := by
  induction h with
  | nil => intro content post ht; simp at ht
  | keep c h ih =>
    intro content post ht hcontent
    cases content with
    | nil =>
      obtain rfl := (List.cons.inj ht).1
      exact ⟨_, rfl⟩
    | cons d content =>
      obtain ⟨rfl, htail⟩ := List.cons.inj ht
      obtain ⟨post', rfl⟩ := ih htail fun e he => hcontent e (List.mem_cons_of_mem _ he)
      exact ⟨post', rfl⟩
  | replace u inner hu hinner h ih =>
    intro content post ht hcontent
    cases content with
    | nil => exact absurd (List.cons.inj ht).1 (by decide)
    | cons d content =>
      obtain rfl := (List.cons.inj ht).1
      exact absurd (hcontent _ List.mem_cons_self) (by decide)

/-- What stands in brackets after a redaction stood there before, or is a placeholder. -/
theorem Redacts.exists_bracketed {t t' : List Char} (h : Redacts t t') {content : List Char}
    (hcontent : ∀ c ∈ content, isBracket c = false) :
    ∀ {pre post : List Char}, t' = pre ++ '[' :: (content ++ ']' :: post) →
      (∃ pre' post', t = pre' ++ '[' :: (content ++ ']' :: post')) ∨ 'B' ∉ content := by
  induction h with
  | nil => intro pre post ht; simp at ht
  | keep c h ih =>
    intro pre post ht
    cases pre with
    | nil =>
      obtain ⟨rfl, htail⟩ := List.cons.inj ht
      obtain ⟨post', rfl⟩ := h.exists_closing htail hcontent
      exact Or.inl ⟨[], post', rfl⟩
    | cons d pre =>
      obtain ⟨rfl, htail⟩ := List.cons.inj ht
      rcases ih htail with ⟨pre', post', rfl⟩ | hplain
      · exact Or.inl ⟨c :: pre', post', rfl⟩
      · exact Or.inr hplain
  | @replace t₁ t₁' u inner hu hinner h ih =>
    intro pre post ht
    have hclosing : ∀ l : List Char, (∀ c ∈ l, isBracket c = false) → ']' ∉ l := fun l hl hmem =>
      absurd (hl _ hmem) (by decide)
    cases pre with
    | nil =>
      refine Or.inr fun hB => ?_
      obtain ⟨-, ht⟩ := List.cons.inj ht
      rcases List.append_eq_append_iff.1 ht with ⟨rest, rfl, hrest⟩ | ⟨rest, rfl, hrest⟩
      · cases rest with
        | nil => exact (hinner _ (by simpa using hB)).2 rfl
        | cons d rest =>
          obtain rfl := (List.cons.inj hrest).1
          exact hclosing _ hcontent (by simp)
      · exact (hinner _ (List.mem_append_left _ hB)).2 rfl
    | cons d pre =>
      obtain ⟨-, ht⟩ := List.cons.inj ht
      have hafter : ∃ pre', t₁' = pre' ++ '[' :: (content ++ ']' :: post) := by
        rcases List.append_eq_append_iff.1 ht with ⟨rest, rfl, hrest⟩ | ⟨rest, hrest, hlast⟩
        · cases rest with
          | nil => exact absurd (List.cons.inj hrest).1 (by decide)
          | cons e rest => exact ⟨rest, (List.cons.inj hrest).2⟩
        · cases rest with
          | nil => exact absurd (List.cons.inj hlast).1 (by decide)
          | cons e rest =>
            obtain rfl := (List.cons.inj hlast).1
            have hmem : '[' ∈ inner := by rw [hrest]; simp
            exact absurd (hinner _ hmem).1 (by decide)
      obtain ⟨pre', rfl⟩ := hafter
      rcases ih rfl with ⟨pre'', post', rfl⟩ | hplain
      · exact Or.inl ⟨u ++ pre'', post', by simp⟩
      · exact Or.inr hplain

theorem isBracket_of_isHexDigit {c : Char} (h : isHexDigit c = true) :
    isBracket c = false ∧ c ≠ 'B' := by
  constructor
  · by_contra hc
    rw [Bool.not_eq_false, isBracket, Bool.or_eq_true, decide_eq_true_eq, decide_eq_true_eq] at hc
    rcases hc with rfl | rfl <;> exact absurd h (by decide)
  · rintro rfl
    exact absurd h (by decide)

theorem placeholderText_plain (kind : SensitiveKind) {token : List Char}
    (hhex : ∀ c ∈ token, isHexDigit c = true) :
    ∀ c ∈ placeholderText kind token, isBracket c = false ∧ c ≠ 'B' := by
  have hlabel : ∀ c ∈ ['R', 'E', 'D', 'A', 'C', 'T', 'E', 'D', ':'] ++ kind.label ++ [':'],
      isBracket c = false ∧ c ≠ 'B' := by
    rw [← List.forall_iff_forall_mem]
    cases kind <;> decide
  intro c hc
  rw [placeholderText, List.append_cons, List.mem_append] at hc
  rcases hc with hc | hc
  · exact hlabel c hc
  · exact isBracket_of_isHexDigit (hhex c hc)

theorem SensitiveKind.avoids_of_isBracket (isWord : Char → Bool) (kind : SensitiveKind) {c : Char}
    (hc : isBracket c = true) : (kind.pattern isWord).avoids c = true := by
  have hsame : (kind.pattern isWord).avoids c = (kind.pattern fun _ => false).avoids c := by
    cases kind <;> rfl
  rw [hsame]
  rw [isBracket, Bool.or_eq_true, decide_eq_true_eq, decide_eq_true_eq] at hc
  rcases hc with rfl | rfl <;> cases kind <;> decide +kernel

theorem redacts_replaceHits {tokens : TokenSource} {kind : SensitiveKind} :
    ∀ {pieces : List Regex.Piece} {vault : SensitiveValueVault},
      (∀ u, .hit u ∈ pieces → ∀ c ∈ u, isBracket c = false) →
      Redacts (pieces.flatMap Regex.Piece.text) (replaceHits tokens kind pieces vault).1
  | [], _, _ => .nil
  | .plain c :: rest, vault, h =>
    .keep c (redacts_replaceHits fun u hu => h u (List.mem_cons_of_mem _ hu))
  | .hit u :: rest, vault, h => by
    have ih : ∀ vault, Redacts (rest.flatMap Regex.Piece.text)
        (replaceHits tokens kind rest vault).1 := fun _ =>
      redacts_replaceHits fun u hu => h u (List.mem_cons_of_mem _ hu)
    rw [List.flatMap_cons, replaceHits]
    show Redacts (u ++ _) _
    split
    · have hreplaced := Redacts.replace u _ (h u List.mem_cons_self)
        (placeholderText_plain kind (tokens.hex vault.length))
        (ih (vault ++ [(placeholder kind (tokens.next vault.length), u)]))
      simpa [placeholder] using hreplaced
    · exact (ih vault).keep_append u

theorem redacts_pieces (isWord : Char → Bool) (tokens : TokenSource) (kind : SensitiveKind)
    (text : List Char) (vault : SensitiveValueVault) :
    Redacts text (replaceHits tokens kind ((kind.pattern isWord).pieces text) vault).1 := by
  have hplain : ∀ u, .hit u ∈ (kind.pattern isWord).pieces text →
      ∀ c ∈ u, isBracket c = false := by
    intro u hu c hc
    obtain ⟨-, before, rest, hmatch⟩ := Regex.exists_of_hit_mem hu
    by_contra hbracket
    rw [Bool.not_eq_false] at hbracket
    exact Regex.not_mem_of_avoids (kind.avoids_of_isBracket isWord hbracket) hmatch hc
  have h : Redacts (((kind.pattern isWord).pieces text).flatMap Regex.Piece.text)
    (replaceHits tokens kind ((kind.pattern isWord).pieces text) vault).1 :=
    redacts_replaceHits hplain
  rwa [Regex.text_pieces] at h

/-- What every pass keeps, `tokenize` keeps. -/
theorem tokenizeKinds_induction {isWord : Char → Bool} {tokens : TokenSource}
    {I : List Char → Prop} (hstep : ∀ t t', Redacts t t' → I t → I t') :
    ∀ {kinds : List SensitiveKind} {state : List Char × SensitiveValueVault}, I state.1 →
      I (tokenizeKinds isWord tokens kinds state).1
  | [], _, h => h
  | kind :: kinds, (text, vault), h => by
    have hpass := redacts_pieces isWord tokens kind text vault
    rw [tokenizeKinds]
    exact tokenizeKinds_induction hstep (hstep text _ hpass h)

/-! ## What the vault holds -/

/-- A pass without a match that counts changes nothing. One with such a match stores it. -/
theorem replaceHits_cases (tokens : TokenSource) (kind : SensitiveKind) :
    ∀ (pieces : List Regex.Piece) (vault : SensitiveValueVault),
      replaceHits tokens kind pieces vault = (pieces.flatMap Regex.Piece.text, vault) ∨
      ∃ u, .hit u ∈ pieces ∧ ∃ entry ∈ (replaceHits tokens kind pieces vault).2, entry.2 = u
  | [], _ => Or.inl rfl
  | .plain c :: rest, vault => by
    rcases replaceHits_cases tokens kind rest vault with hsame | ⟨u, hu, hentry⟩
    · left
      rw [replaceHits, hsame]
      rfl
    · exact Or.inr ⟨u, List.mem_cons_of_mem _ hu, hentry⟩
  | .hit u :: rest, vault => by
    rw [replaceHits]
    split
    · right
      rcases replaceHits_cases tokens kind rest
          (vault ++ [(placeholder kind (tokens.next vault.length), u)]) with
        hsame | ⟨u', hu', hentry⟩
      · refine ⟨u, List.mem_cons_self, (placeholder kind (tokens.next vault.length), u), ?_, rfl⟩
        dsimp only
        rw [hsame]
        simp
      · exact ⟨u', List.mem_cons_of_mem _ hu', hentry⟩
    · rcases replaceHits_cases tokens kind rest vault with hsame | ⟨u', hu', hentry⟩
      · left
        rw [hsame]
        rfl
      · exact Or.inr ⟨u', List.mem_cons_of_mem _ hu', hentry⟩

theorem prefix_replaceHits {tokens : TokenSource} {kind : SensitiveKind} :
    ∀ (pieces : List Regex.Piece) (vault : SensitiveValueVault),
      vault <+: (replaceHits tokens kind pieces vault).2
  | [], _ => List.prefix_rfl
  | .plain _ :: rest, vault => prefix_replaceHits rest vault
  | .hit u :: rest, vault => by
    rw [replaceHits]
    split
    · exact (List.prefix_append _ _).trans (prefix_replaceHits rest _)
    · exact prefix_replaceHits rest vault

theorem prefix_tokenizeKinds {isWord : Char → Bool} {tokens : TokenSource} :
    ∀ (kinds : List SensitiveKind) (state : List Char × SensitiveValueVault),
      state.2 <+: (tokenizeKinds isWord tokens kinds state).2
  | [], _ => List.prefix_rfl
  | _ :: kinds, (_, _) => (prefix_replaceHits _ _).trans (prefix_tokenizeKinds kinds _)

/-- The first value stored stands in the text. -/
theorem exists_infix_of_tokenizeKinds {isWord : Char → Bool} {tokens : TokenSource}
    {text : List Char} :
    ∀ {kinds : List SensitiveKind}, (tokenizeKinds isWord tokens kinds (text, [])).2 ≠ [] →
      ∃ entry ∈ (tokenizeKinds isWord tokens kinds (text, [])).2, entry.2 <:+: text
  | [], h => absurd rfl h
  | kind :: kinds, h => by
    rw [tokenizeKinds] at h ⊢
    rcases replaceHits_cases tokens kind ((kind.pattern isWord).pieces text) [] with
      hsame | ⟨u, hu, entry, hentry, rfl⟩
    · rw [hsame, Regex.text_pieces] at h ⊢
      exact exists_infix_of_tokenizeKinds h
    · refine ⟨entry, (prefix_tokenizeKinds kinds _).subset hentry, ?_⟩
      exact Regex.isInfix_of_mem_findAll (List.mem_filterMap.2 ⟨_, hu, rfl⟩)

/-! ## Texts that stay as they are -/

/-- The scanner recognizes a value of the kind in the text. -/
def SensitiveKind.recognizes (isWord : Char → Bool) (kind : SensitiveKind) (text : List Char) :
    Bool :=
  ((kind.pattern isWord).findAll text).any kind.accepts

/-- The scanner has no finding where no kind is recognized. -/
theorem scanSensitive_eq_nil {isWord : Char → Bool} {text : String} :
    scanSensitive isWord text = [] ↔
      ∀ kind : SensitiveKind, kind.recognizes isWord text.toList = false := by
  have hif : ∀ (b : Bool) (f : ScanFinding), (if b = true then [f] else []) = [] ↔ b = false := by
    intro b f
    cases b <;> simp
  unfold scanSensitive
  simp only [List.append_eq_nil_iff, hif, Bool.or_eq_false_iff]
  constructor
  · rintro ⟨⟨⟨⟨hjwt, hkey⟩, hemail, hphone⟩, hpan, haadhaar⟩, hcard⟩ kind
    cases kind <;> assumption
  · exact fun h => ⟨⟨⟨⟨h .jwt, h .apiKey⟩, h .email, h .phone⟩, h .pan, h .aadhaar⟩, h .card⟩

/-- Each value stored is one bracket more. -/
theorem count_replaceHits {tokens : TokenSource} {kind : SensitiveKind} :
    ∀ {pieces : List Regex.Piece} {vault : SensitiveValueVault}, (∀ u, .hit u ∈ pieces → '[' ∉ u) →
      (replaceHits tokens kind pieces vault).1.count '[' + vault.length =
        (pieces.flatMap Regex.Piece.text).count '[' +
          (replaceHits tokens kind pieces vault).2.length
  | [], vault, _ => rfl
  | .plain c :: rest, vault, h => by
    have ih : (replaceHits tokens kind rest vault).1.count '[' + vault.length =
        (rest.flatMap Regex.Piece.text).count '[' +
          (replaceHits tokens kind rest vault).2.length :=
      count_replaceHits fun u hu => h u (List.mem_cons_of_mem _ hu)
    rw [replaceHits, List.flatMap_cons]
    show (c :: (replaceHits tokens kind rest vault).1).count '[' + vault.length =
      (c :: rest.flatMap Regex.Piece.text).count '[' + (replaceHits tokens kind rest vault).2.length
    rw [List.count_cons, List.count_cons]
    omega
  | .hit u :: rest, vault, h => by
    have ih : ∀ vault, (replaceHits tokens kind rest vault).1.count '[' + vault.length =
        (rest.flatMap Regex.Piece.text).count '[' +
          (replaceHits tokens kind rest vault).2.length := fun vault =>
      count_replaceHits fun u hu => h u (List.mem_cons_of_mem _ hu)
    have hu : (u ++ rest.flatMap Regex.Piece.text).count '[' =
        (rest.flatMap Regex.Piece.text).count '[' := by
      rw [List.count_append, List.count_eq_zero_of_not_mem (h u List.mem_cons_self), Nat.zero_add]
    rw [replaceHits, List.flatMap_cons]
    show _ = (u ++ _).count '[' + _
    rw [hu]
    split
    · have hinner : '[' ∉ placeholderText kind (tokens.next vault.length) ++ [']'] := by
        rw [List.mem_append]
        rintro (hmem | hmem)
        · exact absurd (placeholderText_plain kind (tokens.hex _) _ hmem).1 (by decide)
        · exact absurd hmem (by decide)
      have hkey : (placeholder kind (tokens.next vault.length)).count '[' = 1 := by
        rw [placeholder, List.count_cons_self, List.count_eq_zero_of_not_mem hinner]
      have hrest := ih (vault ++ [(placeholder kind (tokens.next vault.length), u)])
      rw [List.length_append, List.length_singleton] at hrest
      dsimp only
      rw [List.count_append, hkey]
      omega
    · have hrest := ih vault
      have hsame := List.count_eq_zero_of_not_mem (h u List.mem_cons_self)
      dsimp only
      rw [List.count_append, hsame]
      omega

theorem replaceHits_of_rejects {tokens : TokenSource} {kind : SensitiveKind} :
    ∀ {pieces : List Regex.Piece} {vault : SensitiveValueVault},
      (∀ u, .hit u ∈ pieces → kind.accepts u = false) →
        replaceHits tokens kind pieces vault = (pieces.flatMap Regex.Piece.text, vault)
  | [], _, _ => rfl
  | .plain c :: rest, vault, h => by
    rw [replaceHits, replaceHits_of_rejects fun u hu => h u (List.mem_cons_of_mem _ hu)]
    rfl
  | .hit u :: rest, vault, h => by
    rw [replaceHits, if_neg (by rw [h u List.mem_cons_self]; decide),
      replaceHits_of_rejects fun u hu => h u (List.mem_cons_of_mem _ hu)]
    rfl

/-- A match that counts is stored. -/
theorem length_lt_replaceHits {tokens : TokenSource} {kind : SensitiveKind} {u : List Char}
    (haccepts : kind.accepts u = true) :
    ∀ {pieces : List Regex.Piece} {vault : SensitiveValueVault}, .hit u ∈ pieces →
      vault.length < (replaceHits tokens kind pieces vault).2.length
  | .plain c :: rest, vault, h => by
    rw [replaceHits]
    exact length_lt_replaceHits haccepts (by simpa using h)
  | .hit v :: rest, vault, h => by
    rw [replaceHits]
    split
    · have hprefixed : vault ++ [(placeholder kind (tokens.next vault.length), v)] <+:
          (replaceHits tokens kind rest
            (vault ++ [(placeholder kind (tokens.next vault.length), v)])).2 :=
        prefix_replaceHits rest _
      have hlength := hprefixed.length_le
      rw [List.length_append, List.length_singleton] at hlength
      exact hlength
    · rename_i hrejects
      rcases List.mem_cons.1 h with heq | hmem
      · obtain rfl := Regex.Piece.hit.inj heq
        exact absurd haccepts hrejects
      · exact length_lt_replaceHits haccepts hmem

section Stays

variable {isWord : Char → Bool} {tokens : TokenSource} {kind : SensitiveKind} {text : List Char}
  {vault : SensitiveValueVault}

variable (isWord tokens kind text vault) in
theorem count_pass : (replaceHits tokens kind ((kind.pattern isWord).pieces text) vault).1.count
      '[' + vault.length =
    text.count '[' +
      (replaceHits tokens kind ((kind.pattern isWord).pieces text) vault).2.length := by
  have hplain : ∀ u, .hit u ∈ (kind.pattern isWord).pieces text → '[' ∉ u := by
    intro u hu
    obtain ⟨-, before, rest, hmatch⟩ := Regex.exists_of_hit_mem hu
    exact Regex.not_mem_of_avoids (kind.avoids_of_isBracket isWord (by decide)) hmatch
  have hcount : (replaceHits tokens kind ((kind.pattern isWord).pieces text) vault).1.count '[' +
      vault.length = (((kind.pattern isWord).pieces text).flatMap Regex.Piece.text).count '[' +
        (replaceHits tokens kind ((kind.pattern isWord).pieces text) vault).2.length :=
    count_replaceHits hplain
  rwa [Regex.text_pieces] at hcount

/-- A pass of a kind that is not recognized changes nothing. -/
theorem pass_of_not_recognizes (h : kind.recognizes isWord text = false) :
    replaceHits tokens kind ((kind.pattern isWord).pieces text) vault = (text, vault) := by
  rw [replaceHits_of_rejects, Regex.text_pieces]
  intro u hu
  have hnone := List.any_eq_false.1 h u (Regex.mem_findAll.2 hu)
  simpa using hnone

theorem length_lt_pass (h : kind.recognizes isWord text = true) :
    vault.length < (replaceHits tokens kind ((kind.pattern isWord).pieces text) vault).2.length := by
  obtain ⟨u, hu, haccepts⟩ := List.any_eq_true.1 h
  exact length_lt_replaceHits haccepts (Regex.mem_findAll.1 hu)

variable (isWord tokens) in
theorem count_tokenizeKinds : ∀ (kinds : List SensitiveKind)
    (state : List Char × SensitiveValueVault),
      (tokenizeKinds isWord tokens kinds state).1.count '[' + state.2.length =
        state.1.count '[' + (tokenizeKinds isWord tokens kinds state).2.length
  | [], _ => rfl
  | kind :: kinds, (text, vault) => by
    have hpass := count_pass isWord tokens kind text vault
    have hrest := count_tokenizeKinds kinds
      (replaceHits tokens kind ((kind.pattern isWord).pieces text) vault)
    rw [tokenizeKinds]
    dsimp only
    omega

/-- The passes leave a text alone just when they recognize nothing in it. -/
theorem tokenizeKinds_eq_self : ∀ {kinds : List SensitiveKind} {vault : SensitiveValueVault},
    (tokenizeKinds isWord tokens kinds (text, vault)).1 = text ↔
      ∀ kind ∈ kinds, kind.recognizes isWord text = false
  | [], _ => by simp [tokenizeKinds]
  | kind :: kinds, vault => by
    rw [tokenizeKinds, List.forall_mem_cons]
    cases h : kind.recognizes isWord text with
    | false =>
      rw [pass_of_not_recognizes h, tokenizeKinds_eq_self]
      exact (and_iff_right rfl).symm
    | true =>
      refine iff_of_false (fun hsame => ?_) fun hnone => nomatch hnone.1
      -- the brackets tell
      have hmore : vault.length <
          (replaceHits tokens kind ((kind.pattern isWord).pieces text) vault).2.length :=
        length_lt_pass h
      have hpass := count_pass isWord tokens kind text vault
      have hrest := count_tokenizeKinds isWord tokens kinds
        (replaceHits tokens kind ((kind.pattern isWord).pieces text) vault)
      have hprefixed : _ <+: (tokenizeKinds isWord tokens kinds
          (replaceHits tokens kind ((kind.pattern isWord).pieces text) vault)).2 :=
        prefix_tokenizeKinds kinds _
      have hlength := hprefixed.length_le
      rw [hsame] at hrest
      omega

end Stays

theorem mem_allKinds (kind : SensitiveKind) : kind ∈ SensitiveKind.all := by
  cases kind <;> decide

/-- `tokenize` leaves a text alone just when the scanner finds nothing in it. -/
theorem tokenize_eq_self {isWord : Char → Bool} {tokens : TokenSource} {text : String} :
    (tokenize isWord tokens text).1 = text ↔ scanSensitive isWord text = [] := by
  rw [tokenize_fst, scanSensitive_eq_nil, ← String.toList_inj, String.toList_ofList,
    tokenizeKinds_eq_self]
  exact ⟨fun h kind => h kind (mem_allKinds kind), fun h kind _ => h kind⟩

end EnterpriseRag
