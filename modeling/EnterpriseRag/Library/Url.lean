import Mathlib.Data.List.TakeWhile

/-!
# Splitting URLs

`urlsplit` takes a URL apart into five components and `urlunsplit` puts them together. The
texts of a URL are read by `Rules` : what Unicode makes of them and which hosts may stand in
brackets. Whether there is user information, and what the host is, depends on the network
location alone.

`urlsplit_urlunsplit` : the components that a split of a URL with a network location gave
(`proper_of_urlsplit`) are found again, whatever scheme they are put together under.
-/

namespace Url

/-- What is asked of the text of a URL. -/
structure Rules where
  nfkc : List Char → List Char
  lower : List Char → List Char
  /-- The host may stand in brackets. -/
  bracketedHost : List Char → Bool
  /-- A scheme whose URLs have a network location. -/
  usesNetloc : List Char → Bool

structure SplitResult where
  scheme : List Char
  netloc : List Char
  path : List Char
  query : List Char
  fragment : List Char
  deriving DecidableEq, Repr

/-! ## The parts of a text -/

/-- The text before the first `c` and the text behind it. -/
def cut (c : Char) (text : List Char) : List Char × List Char :=
  (text.takeWhile (· ≠ c), (text.dropWhile (· ≠ c)).tail)

/-- The text behind the last `c`, or all of it. -/
def afterLast (c : Char) (text : List Char) : List Char :=
  (text.reverse.takeWhile (· ≠ c)).reverse

/-- The text before the last `c`. -/
def beforeLast (c : Char) (text : List Char) : List Char :=
  (text.reverse.dropWhile (· ≠ c)).tail.reverse

/-! ## The network location -/

namespace SplitResult

/-- `username` : of the text before the last `@`, if there is one. -/
def username (p : SplitResult) : Option (List Char) :=
  if '@' ∈ p.netloc then some (cut ':' (beforeLast '@' p.netloc)).1 else none

def password (p : SplitResult) : Option (List Char) :=
  let userinfo := beforeLast '@' p.netloc
  if '@' ∈ p.netloc ∧ ':' ∈ userinfo then some (cut ':' userinfo).2 else none

/-- `hostname`, in lower case up to its zone. -/
def hostname (r : Rules) (p : SplitResult) : Option (List Char) :=
  let hostinfo := afterLast '@' p.netloc
  let host := if '[' ∈ hostinfo then (cut ']' (cut '[' hostinfo).2).1 else (cut ':' hostinfo).1
  if host = [] then none
  else some (r.lower (host.takeWhile (· ≠ '%')) ++ host.dropWhile (· ≠ '%'))

end SplitResult

/-! ## Splitting -/

variable (r : Rules)

/-- A control character or the blank. -/
def isControlOrSpace (c : Char) : Bool :=
  c.toNat ≤ 0x20

/-- A character that is taken out of every URL. -/
def isUnsafe (c : Char) : Bool :=
  c = '\t' || c = '\r' || c = '\n'

/-- A character that ends a network location. -/
def isDelimiter (c : Char) : Bool :=
  c = '/' || c = '?' || c = '#'

def isSchemeChar (c : Char) : Bool :=
  c.isAlphanum || c = '+' || c = '-' || c = '.'

/-- The scheme and what follows it. -/
def splitScheme (url : List Char) : List Char × List Char :=
  let scheme := url.takeWhile (· ≠ ':')
  if ':' ∈ url ∧ scheme.head?.any Char.isAlpha ∧ scheme.all isSchemeChar then
    (scheme.map Char.toLower, (url.dropWhile (· ≠ ':')).tail)
  else ([], url)

/-- The brackets of a network location are in pairs, with a host that may stand in them. -/
def bracketsMatch (netloc : List Char) : Bool :=
  ('[' ∈ netloc) = (']' ∈ netloc) &&
    ('[' ∉ netloc || r.bracketedHost (cut ']' (cut '[' netloc).2).1)

/-- `_checknetloc` : no delimiter comes of the characters of a network location. -/
def checkNetloc (netloc : List Char) : Bool :=
  let n := netloc.filter fun c => c ∉ ['@', ':', '#', '?']
  netloc.all (·.toNat < 128) || r.nfkc n = n ||
    (r.nfkc n).all fun c => c ∉ ['/', '?', '#', '@', ':']

/-- The network location and what follows it. -/
def splitNetloc : List Char → Option (List Char × List Char)
  | '/' :: '/' :: rest =>
    let netloc := rest.takeWhile (!isDelimiter ·)
    if bracketsMatch r netloc then some (netloc, rest.dropWhile (!isDelimiter ·)) else none
  | url => some ([], url)

/-- `urlsplit`. Nothing is returned where it raises. -/
def urlsplit (url : List Char) : Option SplitResult := do
  let url := (url.dropWhile isControlOrSpace).filter (!isUnsafe ·)
  let (scheme, url) := splitScheme url
  let (netloc, url) ← splitNetloc r url
  let (url, fragment) := cut '#' url
  let (path, query) := cut '?' url
  if checkNetloc r netloc then some ⟨scheme, netloc, path, query, fragment⟩ else none

/-- `urlunsplit`. -/
def urlunsplit (p : SplitResult) : List Char :=
  let hasNetloc := p.netloc ≠ [] ∨ p.scheme ≠ [] ∧ r.usesNetloc p.scheme ∧ p.path.take 2 ≠ ['/', '/']
  let path := if p.path ≠ [] ∧ p.path.head? ≠ some '/' then '/' :: p.path else p.path
  let url := if hasNetloc then '/' :: '/' :: (p.netloc ++ path) else p.path
  let url := if p.scheme = [] then url else p.scheme ++ ':' :: url
  let url := if p.query = [] then url else url ++ '?' :: p.query
  if p.fragment = [] then url else url ++ '#' :: p.fragment

/-! ## Proper components -/

/-- Components that stand in a URL as they are. -/
structure SplitResult.Proper (p : SplitResult) : Prop where
  netloc : p.netloc ≠ [] ∧ (∀ c ∈ p.netloc, isDelimiter c = false ∧ isUnsafe c = false)
  brackets : bracketsMatch r p.netloc = true
  check : checkNetloc r p.netloc = true
  path : (∀ c ∈ p.path.head?, c = '/') ∧ ∀ c ∈ p.path, c ≠ '?' ∧ c ≠ '#' ∧ isUnsafe c = false
  query : ∀ c ∈ p.query, c ≠ '#' ∧ isUnsafe c = false
  fragment : ∀ c ∈ p.fragment, isUnsafe c = false

/-- A scheme as it is written. -/
structure IsScheme (scheme : List Char) : Prop where
  head : scheme.head?.any Char.isAlpha = true
  chars : scheme.all isSchemeChar = true
  lower : scheme.map Char.toLower = scheme

/-- The text behind its separator, if there is any. -/
def behind (c : Char) (text : List Char) : List Char :=
  if text = [] then [] else c :: text

theorem takeWhile_append_of_stop {p : Char → Bool} {l m : List Char} (hl : ∀ c ∈ l, p c = true)
    (hrest : ∀ c ∈ m.head?, p c = false) :
    (l ++ m).takeWhile p = l ∧ (l ++ m).dropWhile p = m := by
  rw [List.takeWhile_append_of_pos hl, List.dropWhile_append_of_pos hl]
  cases m with
  | nil => simp
  | cons c m => simp [hrest c rfl]

theorem cut_append_behind {c : Char} {l text : List Char} (hl : ∀ d ∈ l, d ≠ c) :
    cut c (l ++ behind c text) = (l, text) := by
  have hstop := takeWhile_append_of_stop (p := (· ≠ c)) (l := l) (m := behind c text)
    (fun d hd => by simpa using hl d hd) fun d hd => by
      rw [behind] at hd
      split at hd
      · exact nomatch hd
      · obtain rfl := Option.some.inj hd
        simp
  rw [cut, hstop.1, hstop.2, behind]
  split
  · rename_i hempty
    rw [hempty]
    rfl
  · rfl

theorem splitScheme_append {scheme rest : List Char} (h : IsScheme scheme) :
    splitScheme (scheme ++ ':' :: rest) = (scheme, rest) := by
  have hcolon : ∀ c ∈ scheme, decide (c ≠ ':') = true := by
    intro c hc
    have hchar := List.all_eq_true.1 h.chars c hc
    rw [decide_eq_true_eq]
    rintro rfl
    exact absurd hchar (by decide)
  obtain ⟨htake, hdrop⟩ := takeWhile_append_of_stop (m := ':' :: rest) hcolon (by simp)
  rw [splitScheme, htake, hdrop, if_pos ⟨by simp, h.head, h.chars⟩, h.lower]
  rfl

variable {r}

theorem splitNetloc_append {netloc rest : List Char}
    (hnetloc : ∀ c ∈ netloc, isDelimiter c = false) (hbrackets : bracketsMatch r netloc = true)
    (hrest : ∀ c ∈ rest.head?, isDelimiter c = true) :
    splitNetloc r ('/' :: '/' :: (netloc ++ rest)) = some (netloc, rest) := by
  obtain ⟨htake, hdrop⟩ := takeWhile_append_of_stop (p := (!isDelimiter ·)) (l := netloc)
    (m := rest) (fun c hc => by simp [hnetloc c hc]) fun c hc => by simp [hrest c hc]
  rw [splitNetloc, htake, hdrop]
  exact if_pos hbrackets

theorem urlunsplit_eq {p : SplitResult} (hscheme : p.scheme ≠ []) (hp : p.Proper r) :
    urlunsplit r p = p.scheme ++ ':' :: '/' :: '/' ::
      (p.netloc ++ (p.path ++ behind '?' p.query ++ behind '#' p.fragment)) := by
  have hpath : ¬(p.path ≠ [] ∧ p.path.head? ≠ some '/') := by
    rintro ⟨hne, hhead⟩
    obtain ⟨c, rest, hsplit⟩ := List.exists_cons_of_ne_nil hne
    rw [hsplit] at hhead
    exact hhead (congrArg some (hp.path.1 c (by rw [hsplit]; rfl)))
  rw [urlunsplit, if_neg hpath, if_pos (Or.inl hp.netloc.1), if_neg hscheme, behind, behind]
  by_cases hquery : p.query = []
  · by_cases hfragment : p.fragment = []
    · simp [hquery, hfragment]
    · simp [hquery, hfragment]
  · by_cases hfragment : p.fragment = []
    · simp [hquery, hfragment]
    · simp [hquery, hfragment]

theorem eq_of_mem_head?_behind {c d : Char} {text : List Char}
    (h : (behind c text).head? = some d) : d = c := by
  rw [behind] at h
  split at h
  · exact nomatch h
  · exact (Option.some.inj h).symm

theorem isUnsafe_of_mem_behind {c d : Char} {text : List Char} (hc : isUnsafe c = false)
    (htext : ∀ d ∈ text, isUnsafe d = false) (h : d ∈ behind c text) : isUnsafe d = false := by
  rw [behind] at h
  split at h
  · exact nomatch h
  · rcases List.mem_cons.1 h with rfl | h
    · exact hc
    · exact htext d h

theorem isUnsafe_of_isSchemeChar {c : Char} (h : isSchemeChar c = true) : isUnsafe c = false := by
  rw [Bool.eq_false_iff]
  intro hunsafe
  simp only [isUnsafe, Bool.or_eq_true, decide_eq_true_eq] at hunsafe
  rcases hunsafe with (rfl | rfl) | rfl <;> exact absurd h (by decide)

theorem not_isControlOrSpace_of_isAlpha {c : Char} (h : c.isAlpha = true) :
    isControlOrSpace c = false := by
  change (decide (c.val ≥ 65 ∧ c.val ≤ 90) ||
    decide (c.val ≥ 97) && decide (c.val ≤ 122)) = true at h
  simp only [Bool.or_eq_true, Bool.and_eq_true, decide_eq_true_eq, UInt32.le_iff_toNat_le,
    ge_iff_le] at h
  change (65 ≤ c.toNat ∧ c.toNat ≤ 90) ∨ 97 ≤ c.toNat ∧ c.toNat ≤ 122 at h
  rw [isControlOrSpace, decide_eq_false_iff_not]
  omega

/-- Proper components are found again. -/
theorem urlsplit_urlunsplit {p : SplitResult} (hscheme : IsScheme p.scheme) (hp : p.Proper r) :
    urlsplit r (urlunsplit r p) = some p := by
  obtain ⟨first, others, hsplit⟩ : ∃ first others, p.scheme = first :: others := by
    cases hall : p.scheme with
    | nil =>
      have hhead := hscheme.head
      rw [hall] at hhead
      exact nomatch hhead
    | cons first others => exact ⟨first, others, rfl⟩
  have hwhole := urlunsplit_eq (by rw [hsplit]; exact List.cons_ne_nil _ _) hp
  have hsafe : ∀ c ∈ urlunsplit r p, (!isUnsafe c) = true := by
    intro c hc
    rw [Bool.not_eq_true']
    rw [hwhole] at hc
    simp only [List.mem_append, List.mem_cons] at hc
    rcases hc with hc | rfl | rfl | rfl | hc | (hc | hc) | hc
    · exact isUnsafe_of_isSchemeChar (List.all_eq_true.1 hscheme.chars c hc)
    · rfl
    · rfl
    · rfl
    · exact (hp.netloc.2 c hc).2
    · exact (hp.path.2 c hc).2.2
    · exact isUnsafe_of_mem_behind rfl (fun d hd => (hp.query d hd).2) hc
    · exact isUnsafe_of_mem_behind rfl hp.fragment hc
  have hfirst : isControlOrSpace first = false := by
    have hhead := hscheme.head
    rw [hsplit] at hhead
    exact not_isControlOrSpace_of_isAlpha hhead
  have hclean : ((urlunsplit r p).dropWhile isControlOrSpace).filter (!isUnsafe ·) =
      urlunsplit r p := by
    have hdrop : (urlunsplit r p).dropWhile isControlOrSpace = urlunsplit r p := by
      rw [hwhole, hsplit, List.cons_append, List.dropWhile_cons_of_neg (by simp [hfirst])]
    rw [hdrop, List.filter_eq_self.2 hsafe]
  have hrest : ∀ c ∈ (p.path ++ behind '?' p.query ++ behind '#' p.fragment).head?,
      isDelimiter c = true := by
    intro c hc
    rw [List.head?_append, List.head?_append, Option.mem_def, Option.or_eq_some_iff,
      Option.or_eq_some_iff] at hc
    rcases hc with (hc | ⟨-, hc⟩) | ⟨-, hc⟩
    · rw [hp.path.1 c hc]
      rfl
    · rw [eq_of_mem_head?_behind hc]
      rfl
    · rw [eq_of_mem_head?_behind hc]
      rfl
  have hquestion : ∀ c ∈ p.path ++ behind '?' p.query, c ≠ '#' := by
    intro c hc
    rcases List.mem_append.1 hc with hc | hc
    · exact (hp.path.2 c hc).2.1
    · rw [behind] at hc
      split at hc
      · exact nomatch hc
      · rcases List.mem_cons.1 hc with rfl | hc
        · decide
        · exact (hp.query c hc).1
  rw [urlsplit]
  dsimp only
  rw [hclean, hwhole, splitScheme_append hscheme]
  dsimp only
  rw [splitNetloc_append (fun c hc => (hp.netloc.2 c hc).1) hp.brackets hrest,
    Option.bind_eq_bind, Option.bind_some]
  dsimp only
  rw [cut_append_behind hquestion]
  dsimp only
  rw [cut_append_behind fun c hc => (hp.path.2 c hc).1, if_pos hp.check]

/-! ## The components of a split -/

theorem mem_of_mem_cut_fst {c d : Char} {text : List Char} (h : d ∈ (cut c text).1) :
    d ∈ text ∧ d ≠ c := by
  have htake : d ∈ text.takeWhile (· ≠ c) := h
  exact ⟨(List.takeWhile_prefix _).subset htake, by simpa using List.mem_takeWhile_imp htake⟩

/-- The first character of a part is that of the text. -/
theorem mem_head?_of_cut_fst {c d : Char} {text : List Char} (h : d ∈ (cut c text).1.head?) :
    d ∈ text.head? ∧ d ≠ c := by
  refine ⟨?_, (mem_of_mem_cut_fst (List.mem_of_mem_head? h)).2⟩
  cases text with
  | nil => exact h
  | cons e text =>
    rw [cut, List.takeWhile_cons] at h
    dsimp only at h
    split at h
    · exact h
    · exact nomatch h

theorem mem_of_mem_cut_snd {c d : Char} {text : List Char} (h : d ∈ (cut c text).2) : d ∈ text :=
  (List.dropWhile_suffix _).subset (List.mem_of_mem_tail h)

theorem mem_of_mem_splitScheme {c : Char} {url : List Char} (h : c ∈ (splitScheme url).2) :
    c ∈ url := by
  rw [splitScheme] at h
  split at h
  · exact mem_of_mem_cut_snd (c := ':') h
  · exact h

theorem of_mem_head?_dropWhile {p : Char → Bool} {text : List Char} {c : Char}
    (h : c ∈ (text.dropWhile p).head?) : p c = false := by
  have hhead := List.head?_dropWhile_not p text
  rw [Option.mem_def.1 h] at hhead
  simpa using hhead

/-- The components of a URL with a network location are proper. -/
theorem proper_of_urlsplit {url : List Char} {p : SplitResult} (h : urlsplit r url = some p)
    (hnetloc : p.netloc ≠ []) : p.Proper r := by
  rw [urlsplit] at h
  dsimp only at h
  have hsafe : ∀ c ∈ (splitScheme ((url.dropWhile isControlOrSpace).filter (!isUnsafe ·))).2,
      isUnsafe c = false := by
    intro c hc
    simpa using (List.mem_filter.1 (mem_of_mem_splitScheme hc)).2
  obtain ⟨⟨netloc, rest⟩, hsplit, h⟩ := Option.bind_eq_some_iff.1 h
  dsimp only at h
  split at h
  · rename_i hcheck
    obtain rfl := Option.some.inj h
    generalize (splitScheme ((url.dropWhile isControlOrSpace).filter (!isUnsafe ·))).2 = text
      at hsafe hsplit
    rw [splitNetloc.eq_def] at hsplit
    split at hsplit
    · rename_i text
      dsimp only at hsplit
      split at hsplit
      · rename_i hbrackets
        obtain ⟨rfl, rfl⟩ := Prod.mk.inj (Option.some.inj hsplit)
        have hin : ∀ c ∈ text, isUnsafe c = false := fun c hc =>
          hsafe c (List.mem_cons_of_mem _ (List.mem_cons_of_mem _ hc))
        have hrest : ∀ c ∈ text.dropWhile (!isDelimiter ·), isUnsafe c = false := fun c hc =>
          hin c ((List.dropWhile_suffix _).subset hc)
        refine ⟨⟨hnetloc, fun c hc => ⟨by simpa using List.mem_takeWhile_imp hc,
          hin c ((List.takeWhile_prefix _).subset hc)⟩⟩, hbrackets, hcheck, ⟨fun c hc => ?_,
          fun c hc => ?_⟩, fun c hc => ?_, fun c hc => hrest c (mem_of_mem_cut_snd hc)⟩
        · -- of the delimiters only `/` starts a path
          obtain ⟨hc, hquestion⟩ := mem_head?_of_cut_fst hc
          obtain ⟨hc, hhash⟩ := mem_head?_of_cut_fst hc
          have hdelimiter := of_mem_head?_dropWhile hc
          simpa [isDelimiter, hquestion, hhash] using hdelimiter
        · obtain ⟨hc, hquestion⟩ := mem_of_mem_cut_fst hc
          obtain ⟨hc, hhash⟩ := mem_of_mem_cut_fst hc
          exact ⟨hquestion, hhash, hrest c hc⟩
        · obtain ⟨hc, hhash⟩ := mem_of_mem_cut_fst (mem_of_mem_cut_snd hc)
          exact ⟨hhash, hrest c hc⟩
      · exact nomatch hsplit
    · obtain ⟨rfl, rfl⟩ := Prod.mk.inj (Option.some.inj hsplit)
      exact absurd rfl hnetloc
  · exact nomatch h

end Url
