import EnterpriseRag.Guardrails.CleanText
import EnterpriseRag.Library.Url
import EnterpriseRag.Rag.CorrectiveRetriever

/-!
# The regulatory web retriever

`TavilyRegulatoryWebRetriever.search` takes what the provider found, item by item, until it has
enough items or enough text. Only items with an acceptable URL count.

`search_bounded` says what is returned. The host of a URL is compared after case folding, and
its URL has the host as it was written : `host_only_folded`. `search_spares_iff` is about the
items with unacceptable URLs. They are passed over, except that `urlsplit` raises for some.
-/

namespace EnterpriseRag

/-! ## Text and URLs -/

/-- `_CONTROL`. -/
def isWebControl (c : Char) : Bool :=
  let n := c.toNat
  n ≤ 0x8 || n = 0xb || n = 0xc || (0xe ≤ n && n ≤ 0x1f) || n = 0x7f ||
    (0x200b ≤ n && n ≤ 0x200f) || (0x202a ≤ n && n ≤ 0x202e) || (0x2066 ≤ n && n ≤ 0x2069)

/-- An item of the provider's answer, with the fields it has. -/
structure ProviderResult where
  title : Option String := none
  url : Option String := none
  content : Option String := none
  score : Option ℚ := none

/-- `TavilyRegulatoryWebRetriever`, with what Unicode makes of its texts. A character is folded
for itself. -/
structure TavilyRegulatoryWebRetriever where
  rules : Url.Rules
  foldChar : Char → List Char
  allowedDomains : List (List Char)
  maxResults : ℕ
  maxContentChars : ℕ := 6000
  maxTotalChars : ℕ := 20000

def rstripDots (domain : List Char) : List Char :=
  (domain.reverse.dropWhile (· = '.')).reverse

/-- A domain without a `www.` before it. -/
def withoutWww (domain : List Char) : List Char :=
  if ['w', 'w', 'w', '.'] <+: domain then domain.drop 4 else domain

/-- `_is_allowed`. -/
def isAllowed (domain : List Char) (allowlist : List (List Char)) : Bool :=
  allowlist.any fun allowed => domain = allowed || ('.' :: allowed) <:+ domain

def httpsScheme : List Char :=
  ['h', 't', 't', 'p', 's']

namespace TavilyRegulatoryWebRetriever

variable (w : TavilyRegulatoryWebRetriever)

def casefold (text : List Char) : List Char :=
  text.flatMap w.foldChar

/-- `_domains`. -/
def domains : List (List Char) :=
  w.allowedDomains.map fun domain => rstripDots (w.casefold domain)

/-- `_normalize_external_text`. -/
def normalizeExternalText (value : String) (maxChars : ℕ) : List Char :=
  ([' '].intercalate (splitWords ((w.rules.nfkc value.toList).filter (!isWebControl ·)))).take
    maxChars

/-- `_validated_canonical_url`. -/
def validatedCanonicalUrl (rawUrl : String) : Except Raised (Option (List Char × List Char)) :=
  match Url.urlsplit w.rules rawUrl.toList with
  | none => .error (.exception "ValueError")
  | some parsed =>
    let domain := withoutWww (rstripDots (w.casefold ((parsed.hostname w.rules).getD [])))
    if w.casefold parsed.scheme ≠ httpsScheme then .ok none
    else if parsed.username ≠ none ∨ parsed.password ≠ none then .ok none
    else if domain = [] ∨ ¬isAllowed domain w.domains then .ok none
    else .ok (some (Url.urlunsplit w.rules
      { scheme := httpsScheme
        netloc := parsed.netloc
        path := if parsed.path = [] then ['/'] else parsed.path
        query := parsed.query
        fragment := [] }, domain))

/-- The evidence of an item. -/
def webEvidence (retrievedAt : String) (item : ProviderResult) (canonical domain : List Char)
    (content : List Char) : WebEvidence where
  title := .ofList (w.normalizeExternalText (item.title.getD (.ofList domain)) 200)
  text := .ofList content
  canonicalUrl := .ofList canonical
  domain := .ofList domain
  retrievedAtIso := retrievedAt
  score := item.score.getD 0

/-- The loop over the items, with the results so far and the characters they have. -/
def searchLoop (retrievedAt : String) :
    List WebEvidence → ℕ → List ProviderResult → Except Raised (List WebEvidence)
  | results, _, [] => .ok results
  | results, totalChars, item :: rest =>
    if w.maxResults ≤ results.length then .ok results
    else
      match w.validatedCanonicalUrl (item.url.getD "") with
      | .error e => .error e
      | .ok none => searchLoop retrievedAt results totalChars rest
      | .ok (some (canonical, domain)) =>
        if w.maxTotalChars ≤ totalChars then .ok results
        else
          let content := w.normalizeExternalText (item.content.getD "")
            (min w.maxContentChars (w.maxTotalChars - totalChars))
          if content = [] then searchLoop retrievedAt results totalChars rest
          else searchLoop retrievedAt
            (results ++ [w.webEvidence retrievedAt item canonical domain content])
            (totalChars + content.length) rest

/-- `search`, with the provider's answer and the time of day. -/
def search (response : Except Raised (Option (List ProviderResult))) (retrievedAt : String) :
    Except Raised (List WebEvidence) := do
  let items ← response
  w.searchLoop retrievedAt [] 0 (items.getD [])

/-! ## What is returned -/

/-- Nothing of what is stripped, and no line break. -/
def CleanText (text : String) : Prop :=
  ∀ c ∈ text.toList, isWebControl c = false ∧ (isSpace c = true → c = ' ')

/-- The host of a URL, as `fold` folds it, is an allowed domain or a subdomain of one. -/
def HostAllowed (fold : List Char → List Char) (parsed : Url.SplitResult) : Prop :=
  ∃ host, parsed.hostname w.rules = some host ∧
    isAllowed (withoutWww (rstripDots (fold host))) w.domains = true

/-- The URL is one of an allowed host, over https, with no user information and no
fragment. -/
def SafeUrl (fold : List Char → List Char) (url : String) : Prop :=
  ∃ parsed, Url.urlsplit w.rules url.toList = some parsed ∧ parsed.scheme = httpsScheme ∧
    parsed.username = none ∧ parsed.password = none ∧ parsed.fragment = [] ∧
    w.HostAllowed fold parsed

/-- The evidence is within the limits, clean and from allowed hosts. -/
structure Bounded (fold : List Char → List Char) (evidence : List WebEvidence) : Prop where
  results : evidence.length ≤ w.maxResults
  content : ∀ item ∈ evidence, item.text ≠ "" ∧ item.text.length ≤ w.maxContentChars
  total : (evidence.map (·.text.length)).sum ≤ w.maxTotalChars
  clean : ∀ item ∈ evidence, CleanText item.text ∧ CleanText item.title
  safe : ∀ item ∈ evidence, w.SafeUrl fold item.canonicalUrl

variable {w}

theorem cleanText_normalizeExternalText (value : String) (maxChars : ℕ) :
    CleanText (.ofList (w.normalizeExternalText value maxChars)) := by
  intro c hc
  rw [String.toList_ofList, normalizeExternalText] at hc
  rcases mem_of_mem_intercalate (List.mem_of_mem_take hc) with hblank | ⟨word, hword, hc⟩
  · obtain rfl := List.mem_singleton.1 hblank
    exact ⟨rfl, fun _ => rfl⟩
  · obtain ⟨hkept, hspace⟩ := mem_of_mem_splitWords hword hc
    have hcontrol := (List.mem_filter.1 hkept).2
    exact ⟨by simpa using hcontrol, fun h => nomatch hspace.symm.trans h⟩

theorem length_normalizeExternalText_le (value : String) (maxChars : ℕ) :
    (w.normalizeExternalText value maxChars).length ≤ maxChars :=
  List.length_take_le _ _

theorem isScheme_https : Url.IsScheme httpsScheme :=
  ⟨rfl, rfl, rfl⟩

/-- The URL that is put together from the parts of another is read as they are. -/
theorem urlsplit_canonical {rawUrl : List Char} {parsed : Url.SplitResult}
    (hsplit : Url.urlsplit w.rules rawUrl = some parsed) (hnetloc : parsed.netloc ≠ []) :
    Url.urlsplit w.rules (Url.urlunsplit w.rules
      { scheme := httpsScheme
        netloc := parsed.netloc
        path := if parsed.path = [] then ['/'] else parsed.path
        query := parsed.query
        fragment := [] }) = some
      { scheme := httpsScheme
        netloc := parsed.netloc
        path := if parsed.path = [] then ['/'] else parsed.path
        query := parsed.query
        fragment := [] } := by
  have hproper := Url.proper_of_urlsplit hsplit hnetloc
  refine Url.urlsplit_urlunsplit isScheme_https
    ⟨hproper.netloc, hproper.brackets, hproper.check, ?_, hproper.query, List.forall_mem_nil _⟩
  dsimp only
  split
  · exact ⟨fun c hc => (Option.some.inj hc).symm, List.forall_mem_singleton.2 (by decide)⟩
  · exact hproper.path

/-- What is validated is put together again from what the parser said. -/
theorem safeUrl_of_validated {rawUrl : String} {canonical domain : List Char}
    (h : w.validatedCanonicalUrl rawUrl = .ok (some (canonical, domain))) :
    w.SafeUrl w.casefold (.ofList canonical) := by
  rw [validatedCanonicalUrl] at h
  cases hsplit : Url.urlsplit w.rules rawUrl.toList with
  | none =>
    rw [hsplit] at h
    exact nomatch h
  | some parsed =>
    rw [hsplit] at h
    dsimp only at h
    split at h
    · exact nomatch h
    split at h
    · exact nomatch h
    rename_i huser
    split at h
    · exact nomatch h
    rename_i hdomain
    obtain ⟨rfl, rfl⟩ := Prod.mk.inj (Option.some.inj (Except.ok.inj h))
    obtain ⟨husername, hpassword⟩ := not_or.1 huser
    obtain ⟨hne, hallowed⟩ := not_or.1 hdomain
    cases hhost : parsed.hostname w.rules with
    | none =>
      rw [hhost] at hne
      exact absurd rfl hne
    | some host =>
      have hnetloc : parsed.netloc ≠ [] := by
        intro hempty
        rw [Url.SplitResult.hostname, hempty] at hhost
        exact nomatch hhost
      rw [hhost] at hallowed
      have hread := urlsplit_canonical hsplit hnetloc
      refine ⟨_, (congrArg _ String.toList_ofList).trans hread, rfl, not_not.1 husername,
        not_not.1 hpassword, rfl, host, hhost, not_not.1 hallowed⟩

/-- What the loop has so far. -/
structure Gathered (w : TavilyRegulatoryWebRetriever) (results : List WebEvidence)
    (totalChars : ℕ) : Prop where
  bounded : w.Bounded w.casefold results
  total : totalChars = (results.map (·.text.length)).sum

theorem Gathered.concat {results : List WebEvidence} {totalChars : ℕ} {retrievedAt : String}
    {item : ProviderResult} {canonical domain content : List Char}
    (h : w.Gathered results totalChars) (hroom : results.length < w.maxResults)
    (hvalid : w.validatedCanonicalUrl (item.url.getD "") = .ok (some (canonical, domain)))
    (hcontent : content = w.normalizeExternalText (item.content.getD "")
      (min w.maxContentChars (w.maxTotalChars - totalChars))) (hne : content ≠ []) :
    w.Gathered (results ++ [w.webEvidence retrievedAt item canonical domain content])
      (totalChars + content.length) := by
  have hlength : (w.webEvidence retrievedAt item canonical domain content).text.length =
      content.length := String.length_ofList
  have hshort : content.length ≤ min w.maxContentChars (w.maxTotalChars - totalChars) := by
    rw [hcontent]
    exact length_normalizeExternalText_le _ _
  have hbudget := h.bounded.total
  rw [← h.total] at hbudget
  have hsum : ((results ++ [w.webEvidence retrievedAt item canonical domain content]).map
      (·.text.length)).sum = totalChars + content.length := by
    rw [List.map_append, List.sum_append, ← h.total, List.map_singleton, List.sum_singleton,
      hlength]
  refine ⟨⟨?_, ?_, ?_, ?_, ?_⟩, hsum.symm⟩
  · rw [List.length_append, List.length_singleton]
    omega
  · refine List.forall_mem_append.2 ⟨h.bounded.content, List.forall_mem_singleton.2 ⟨?_, ?_⟩⟩
    · intro hempty
      exact hne (by simpa [webEvidence] using congrArg String.toList hempty)
    · rw [hlength]
      omega
  · rw [hsum]
    omega
  · refine List.forall_mem_append.2 ⟨h.bounded.clean, List.forall_mem_singleton.2 ⟨?_, ?_⟩⟩
    · rw [hcontent]
      exact cleanText_normalizeExternalText _ _
    · exact cleanText_normalizeExternalText _ _
  · exact List.forall_mem_append.2 ⟨h.bounded.safe,
      List.forall_mem_singleton.2 (safeUrl_of_validated hvalid)⟩

theorem bounded_of_searchLoop {retrievedAt : String} {evidence : List WebEvidence} :
    ∀ {items : List ProviderResult} {results : List WebEvidence} {totalChars : ℕ},
      w.Gathered results totalChars →
        w.searchLoop retrievedAt results totalChars items = .ok evidence →
          w.Bounded w.casefold evidence
  | [], _, _, h, hrun => Except.ok.inj hrun ▸ h.bounded
  | item :: rest, results, totalChars, h, hrun => by
    rw [searchLoop] at hrun
    split at hrun
    · exact Except.ok.inj hrun ▸ h.bounded
    rename_i hroom
    split at hrun
    · exact nomatch hrun
    · exact bounded_of_searchLoop h hrun
    · rename_i hvalid
      split at hrun
      · exact Except.ok.inj hrun ▸ h.bounded
      dsimp only at hrun
      split at hrun
      · exact bounded_of_searchLoop h hrun
      · rename_i hne
        exact bounded_of_searchLoop (h.concat (not_le.1 hroom) hvalid rfl hne) hrun

/-- Texts in ASCII are as they are. The long `ſ` is in lower case, and it is folded to `s`. -/
def regulator : TavilyRegulatoryWebRetriever where
  rules.nfkc := List.map fun c => if c = 'ſ' then 's' else c
  rules.lower := List.map Char.toLower
  rules.bracketedHost := fun _ => false
  rules.usesNetloc := fun scheme => scheme = httpsScheme
  foldChar c := if c = 'ſ' then ['s'] else [c.toLower]
  allowedDomains := ["sebi.gov.in".toList]
  maxResults := 5

def circular (url : String) : ProviderResult where
  url := some url
  content := some "Circular"

/-- What is found of `circular`. -/
def circularEvidence (retrievedAt : String) (url domain : String) : WebEvidence where
  title := domain
  text := "Circular"
  canonicalUrl := url
  domain := domain
  retrievedAtIso := retrievedAt
  score := 0

variable (w)

/-- `urlsplit` raises for the URL of the item. -/
def Malformed (item : ProviderResult) : Prop :=
  Url.urlsplit w.rules (item.url.getD "").toList = none

/-- The URL of the item is validated. -/
def acceptable (item : ProviderResult) : Bool :=
  match w.validatedCanonicalUrl (item.url.getD "") with
  | .ok (some _) => true
  | _ => false

/-- The characters of an item that count. -/
def weight (item : ProviderResult) : ℕ :=
  if w.acceptable item then
    (w.normalizeExternalText (item.content.getD "") w.maxContentChars).length
  else 0

/-- The items that have a text to return. -/
def countFound (items : List ProviderResult) : ℕ :=
  items.countP (w.weight · ≠ 0)

def charsFound (items : List ProviderResult) : ℕ :=
  (items.map w.weight).sum

/-- With `results` and `chars` before them, the items are enough to end the search. There are
the results that are asked for, or there is an acceptable item after the characters that are
asked for. -/
def Enough (results chars : ℕ) (items : List ProviderResult) : Prop :=
  w.maxResults ≤ results + w.countFound items ∨
    ∃ before item behind, items = before ++ item :: behind ∧ w.acceptable item = true ∧
      w.maxTotalChars ≤ chars + w.charsFound before

/-- The items with unacceptable URLs make no difference, from what is found before them. -/
def Spares (retrievedAt : String) (results : List WebEvidence) (totalChars : ℕ)
    (items : List ProviderResult) : Prop :=
  ∃ evidence, w.searchLoop retrievedAt results totalChars items = .ok evidence ∧
    w.searchLoop retrievedAt results totalChars (items.filter w.acceptable) = .ok evidence

/-- Every item for which `urlsplit` raises stands behind enough items. -/
def MalformedBehind (results chars : ℕ) (items : List ProviderResult) : Prop :=
  ∀ before item behind, items = before ++ item :: behind → w.Malformed item →
    w.Enough results chars before

variable {w}

theorem acceptable_iff {item : ProviderResult} : w.acceptable item = true ↔
    ∃ canonical domain,
      w.validatedCanonicalUrl (item.url.getD "") = .ok (some (canonical, domain)) := by
  rw [acceptable]
  constructor
  · intro h
    split at h
    · rename_i found hvalid
      exact ⟨found.1, found.2, hvalid⟩
    · exact nomatch h
  · rintro ⟨canonical, domain, hvalid⟩
    rw [hvalid]

/-- The validation raises where the parser raises, and nowhere else. -/
theorem malformed_iff {item : ProviderResult} : w.Malformed item ↔
    ∃ e, w.validatedCanonicalUrl (item.url.getD "") = .error e := by
  rw [Malformed, validatedCanonicalUrl]
  cases Url.urlsplit w.rules (item.url.getD "").toList with
  | none => exact ⟨fun _ => ⟨_, rfl⟩, fun _ => rfl⟩
  | some parsed =>
    constructor
    · intro h
      exact nomatch h
    · rintro ⟨e, h⟩
      dsimp only at h
      split at h
      · exact nomatch h
      split at h
      · exact nomatch h
      split at h
      · exact nomatch h
      · exact nomatch h

theorem enough_of_results {results chars : ℕ} (h : w.maxResults ≤ results)
    (items : List ProviderResult) : w.Enough results chars items :=
  Or.inl (h.trans (Nat.le_add_right _ _))

theorem not_enough_nil {results chars : ℕ} (h : results < w.maxResults) :
    ¬w.Enough results chars [] := by
  rintro (hresults | ⟨before, item, behind, hsplit, -⟩)
  · exact absurd hresults (not_le.2 h)
  · exact absurd hsplit.symm (List.append_ne_nil_of_right_ne_nil _ (List.cons_ne_nil _ _))

theorem countFound_cons (item : ProviderResult) (items : List ProviderResult) :
    w.countFound (item :: items) = w.countFound items + if w.weight item ≠ 0 then 1 else 0 := by
  simp [countFound, List.countP_cons]

theorem charsFound_cons (item : ProviderResult) (items : List ProviderResult) :
    w.charsFound (item :: items) = w.weight item + w.charsFound items :=
  List.sum_cons

/-- What an item adds is the same before the others as among them. -/
theorem enough_cons {results chars : ℕ} {item : ProviderResult} {items : List ProviderResult}
    (h : w.acceptable item = true → chars < w.maxTotalChars) :
    w.Enough results chars (item :: items) ↔
      w.Enough (results + if w.weight item ≠ 0 then 1 else 0) (chars + w.weight item) items := by
  rw [Enough, Enough, countFound_cons, Nat.add_assoc, Nat.add_comm (ite _ _ _)]
  refine or_congr Iff.rfl ⟨?_, ?_⟩
  · rintro ⟨before, other, behind, hsplit, hother, hchars⟩
    cases before with
    | nil =>
      obtain ⟨rfl, -⟩ := List.cons.inj hsplit
      exact absurd (h hother) (not_lt.2 hchars)
    | cons first before =>
      obtain ⟨rfl, rfl⟩ := List.cons.inj hsplit
      rw [charsFound_cons, ← Nat.add_assoc] at hchars
      exact ⟨before, other, behind, rfl, hother, hchars⟩
  · rintro ⟨before, other, behind, rfl, hother, hchars⟩
    refine ⟨item :: before, other, behind, rfl, hother, ?_⟩
    rwa [charsFound_cons, ← Nat.add_assoc]

theorem malformedBehind_cons {results chars : ℕ} {item : ProviderResult}
    {items : List ProviderResult} (hwell : ¬w.Malformed item)
    (h : w.acceptable item = true → chars < w.maxTotalChars) :
    w.MalformedBehind results chars (item :: items) ↔
      w.MalformedBehind (results + if w.weight item ≠ 0 then 1 else 0) (chars + w.weight item)
        items := by
  constructor
  · intro hall before other behind hsplit hother
    exact (enough_cons h).1 (hall (item :: before) other behind (congrArg _ hsplit) hother)
  · intro hall before other behind hsplit hother
    cases before with
    | nil =>
      obtain ⟨rfl, -⟩ := List.cons.inj hsplit
      exact absurd hother hwell
    | cons first before =>
      obtain ⟨rfl, rfl⟩ := List.cons.inj hsplit
      exact (enough_cons h).2 (hall before other behind rfl hother)

theorem length_normalizeExternalText_min (value : String) (m n : ℕ) :
    (w.normalizeExternalText value (min m n)).length =
      min (w.normalizeExternalText value m).length n := by
  rw [normalizeExternalText, normalizeExternalText, List.length_take, List.length_take]
  omega

/-! What the loop does with an item. -/

section Item

variable {retrievedAt : String} {results : List WebEvidence} {totalChars chars : ℕ}
  {item : ProviderResult}

theorem searchLoop_of_full (h : w.maxResults ≤ results.length) :
    ∀ items, w.searchLoop retrievedAt results totalChars items = .ok results
  | [] => rfl
  | _ :: _ => if_pos h

theorem searchLoop_of_rejected (hroom : ¬w.maxResults ≤ results.length)
    (hwell : ¬w.Malformed item) (hout : ¬w.acceptable item = true) (rest : List ProviderResult) :
    w.searchLoop retrievedAt results totalChars (item :: rest) =
      w.searchLoop retrievedAt results totalChars rest := by
  rw [malformed_iff] at hwell
  rw [acceptable_iff] at hout
  rw [searchLoop, if_neg hroom]
  cases hvalid : w.validatedCanonicalUrl (item.url.getD "") with
  | error e => exact absurd ⟨e, hvalid⟩ hwell
  | ok validated =>
    cases validated with
    | none => rfl
    | some validated => exact absurd ⟨_, _, hvalid⟩ hout

theorem searchLoop_of_spent (hin : w.acceptable item = true) (h : w.maxTotalChars ≤ totalChars)
    (rest : List ProviderResult) :
    w.searchLoop retrievedAt results totalChars (item :: rest) = .ok results := by
  obtain ⟨canonical, domain, hvalid⟩ := acceptable_iff.1 hin
  rw [searchLoop, hvalid]
  dsimp only
  rw [if_pos h, ite_self]

/-- An acceptable item adds its evidence if it has characters that count, and nothing
otherwise. -/
theorem searchLoop_of_acceptable (hroom : ¬w.maxResults ≤ results.length)
    (hin : w.acceptable item = true) (h : ¬w.maxTotalChars ≤ chars)
    (htotal : totalChars = min chars w.maxTotalChars) :
    ∃ found : List WebEvidence, found.length = (if w.weight item ≠ 0 then 1 else 0) ∧
      ∀ rest, w.searchLoop retrievedAt results totalChars (item :: rest) =
        w.searchLoop retrievedAt (results ++ found)
          (min (chars + w.weight item) w.maxTotalChars) rest := by
  obtain ⟨canonical, domain, hvalid⟩ := acceptable_iff.1 hin
  have hlength := length_normalizeExternalText_min (w := w) (item.content.getD "")
    w.maxContentChars (w.maxTotalChars - totalChars)
  have hweight : w.weight item =
      (w.normalizeExternalText (item.content.getD "") w.maxContentChars).length := if_pos hin
  rw [← hweight] at hlength
  have hleft : ¬w.maxTotalChars ≤ totalChars := by omega
  have hstep : ∀ rest, w.searchLoop retrievedAt results totalChars (item :: rest) = _ :=
    fun rest => by rw [searchLoop, if_neg hroom, hvalid]
  dsimp only at hstep
  generalize w.normalizeExternalText (item.content.getD "")
    (min w.maxContentChars (w.maxTotalChars - totalChars)) = content at hlength hstep
  by_cases hempty : content = []
  · have hnone : w.weight item = 0 := by
      rw [hempty, List.length_nil] at hlength
      omega
    refine ⟨[], by rw [hnone]; rfl, fun rest => ?_⟩
    rw [hstep rest, if_neg hleft, if_pos hempty, hnone, List.append_nil, Nat.add_zero, htotal]
  · have hsome : w.weight item ≠ 0 := by
      have hpos := List.length_pos_iff.2 hempty
      omega
    have hnext : min (chars + w.weight item) w.maxTotalChars = totalChars + content.length := by
      omega
    refine ⟨[w.webEvidence retrievedAt item canonical domain content],
      by rw [if_pos hsome, List.length_singleton], fun rest => ?_⟩
    rw [hstep rest, if_neg hleft, if_neg hempty, hnext]

end Item

theorem spares_iff_malformedBehind {retrievedAt : String} :
    ∀ {items : List ProviderResult} {results : List WebEvidence} {totalChars chars : ℕ},
      totalChars = min chars w.maxTotalChars →
        (w.Spares retrievedAt results totalChars items ↔
          w.MalformedBehind results.length chars items)
  | [], results, totalChars, chars, _ => by
    refine ⟨fun _ before item behind hsplit => ?_, fun _ => ⟨results, rfl, rfl⟩⟩
    exact absurd hsplit.symm (List.append_ne_nil_of_right_ne_nil _ (List.cons_ne_nil _ _))
  | item :: rest, results, totalChars, chars, htotal => by
    by_cases hroom : w.maxResults ≤ results.length
    · exact ⟨fun _ before _ _ _ _ => enough_of_results hroom before,
        fun _ => ⟨results, searchLoop_of_full hroom _, searchLoop_of_full hroom _⟩⟩
    by_cases hbad : w.Malformed item
    · constructor
      · rintro ⟨evidence, hrun, -⟩
        obtain ⟨e, hvalid⟩ := malformed_iff.1 hbad
        rw [searchLoop, if_neg hroom, hvalid] at hrun
        exact nomatch hrun
      · intro hall
        exact absurd (hall [] item rest rfl hbad) (not_enough_nil (not_le.1 hroom))
    by_cases hin : w.acceptable item = true
    · rw [Spares, List.filter_cons_of_pos hin]
      by_cases hfull : w.maxTotalChars ≤ chars
      · have hspent : w.maxTotalChars ≤ totalChars := by omega
        refine ⟨fun _ before other behind hsplit hother => ?_,
          fun _ => ⟨results, searchLoop_of_spent hin hspent _, searchLoop_of_spent hin hspent _⟩⟩
        cases before with
        | nil =>
          obtain ⟨rfl, -⟩ := List.cons.inj hsplit
          exact absurd hother hbad
        | cons first before =>
          obtain ⟨rfl, rfl⟩ := List.cons.inj hsplit
          exact Or.inr ⟨[], item, before, rfl, hin, hfull⟩
      · obtain ⟨found, hfound, hstep⟩ := searchLoop_of_acceptable hroom hin hfull htotal
        rw [malformedBehind_cons hbad fun _ => not_le.1 hfull, hstep, hstep, ← hfound,
          ← List.length_append]
        exact spares_iff_malformedBehind rfl
    · have hweight : w.weight item = 0 := if_neg hin
      rw [Spares, List.filter_cons_of_neg hin, searchLoop_of_rejected hroom hbad hin,
        malformedBehind_cons hbad fun h => absurd h hin, hweight, if_neg (not_not.2 rfl)]
      exact spares_iff_malformedBehind htotal

/-- The items with unacceptable URLs make no difference exactly if those for which the parser
raises stand behind enough items. -/
theorem search_spares_iff (items : List ProviderResult) (retrievedAt : String) :
    (∃ evidence, w.search (.ok (some items)) retrievedAt = .ok evidence ∧
      w.search (.ok (some (items.filter w.acceptable))) retrievedAt = .ok evidence) ↔
    ∀ before item behind, items = before ++ item :: behind → w.Malformed item →
      w.Enough 0 0 before :=
  spares_iff_malformedBehind (Nat.zero_min _).symm

/-- The provider's first item has an open bracket in its host. -/
theorem circular_spoiled :
    ¬∃ evidence,
      regulator.search (.ok (some [circular "https://[", circular "https://sebi.gov.in/"]))
        "2024" = .ok evidence ∧
      regulator.search (.ok (some ([circular "https://[", circular "https://sebi.gov.in/"].filter
        regulator.acceptable))) "2024" = .ok evidence := by
  rintro ⟨evidence, hrun, -⟩
  exact nomatch (rfl : regulator.search _ _ = .error (.exception "ValueError")).symm.trans hrun

end TavilyRegulatoryWebRetriever

end EnterpriseRag
