import EnterpriseRag.Library.PrefixCode
import EnterpriseRag.Rag.CacheKeys
import EnterpriseRag.Rag.EvidenceGuard
import Mathlib.Tactic.IntervalCases

/-!
# Reading a cache key back

The text that is hashed into a key is the strategy, the corpus version, a segment for each
stage that is on, the number of chunks and the question, with colons between them and no
escapes. It can be read from the left all the same : the segments of the stages and the
number after them open with heads of which none begins another (`pairwise_heads`), so each
of them settles whether the stage is on and what its namespace is (`cacheKey_inj`).
-/

namespace EnterpriseRag

open PrefixCode

/-! ## The segments of a stage -/

/-- The segments of the stage called `stage` : the reasons that it does not run for, and the
namespaces of its treatment as they begin and as they go on. -/
def stageWords (stage : String) (treatments : List (String × String)) :
    List (List Char × List Char) :=
  (["disabled", "emergency_disabled", "rollout"].map fun reason =>
      ((":" ++ (stage ++ ":none:reason=" ++ reason)).toList, [])) ++
    [((":" ++ (stage ++ ":shadow:v1")).toList, [])] ++
    treatments.map fun t => ((":" ++ t.1).toList, t.2.toList)

/-- A namespace as a segment. -/
def IsWord (words : List (List Char × List Char)) (cacheNamespace : String)
    (word : List Char × List Char) : Prop :=
  word ∈ words ∧ word.1 ++ word.2 = (":" ++ cacheNamespace).toList

/-- The plans of a stage name segments of the stage. -/
theorem exists_word_of_stagePlan {bucket : String → String → ℕ} {question : String}
    {config : RagRuntimeConfig} {enabled shadow : Bool} {percentage : ℤ} {salt stage : String}
    {treatments : List (String × String)} {t : String × String} {plan : StagePlan}
    (ht : t ∈ treatments)
    (h : stagePlan bucket question config enabled shadow percentage salt stage (t.1 ++ t.2) =
      .ok plan) :
    ∃ word, IsWord (stageWords stage treatments) plan.cacheNamespace word := by
  have hreason : ∀ reason ∈ ["disabled", "emergency_disabled", "rollout"],
      ∃ word, IsWord (stageWords stage treatments) (stage ++ ":none:reason=" ++ reason) word := by
    intro reason hreason
    refine ⟨(_, []), List.mem_append_left _ (List.mem_append_left _
      (List.mem_map_of_mem hreason)), ?_⟩
    rw [List.append_nil]
  unfold stagePlan at h
  split at h
  · obtain rfl := Except.ok.inj h
    exact hreason _ (by simp)
  split at h
  · obtain rfl := Except.ok.inj h
    exact hreason _ (by simp)
  split at h
  · obtain rfl := Except.ok.inj h
    refine ⟨(_, []), List.mem_append_left _ (List.mem_append_right _
      (List.mem_singleton_self _)), ?_⟩
    rw [List.append_nil]
  obtain ⟨sampled, -, h⟩ := bind_eq_ok.1 h
  split at h
  · obtain rfl := Except.ok.inj h
    refine ⟨_, List.mem_append_right _ (List.mem_map_of_mem ht), ?_⟩
    simp only [String.toList_append, List.append_assoc]
  · obtain rfl := Except.ok.inj h
    exact hreason _ (by simp)

/-- How the segments of a stage begin. -/
def stageHeads (stage : String) (treatments : List String) : List (List Char) :=
  (["disabled", "emergency_disabled", "rollout"].map fun reason =>
      (":" ++ (stage ++ ":none:reason=" ++ reason)).toList) ++
    [(":" ++ (stage ++ ":shadow:v1")).toList] ++ treatments.map fun t => (":" ++ t).toList

theorem map_fst_stageWords (stage : String) (treatments : List (String × String)) :
    (stageWords stage treatments).map Prod.fst = stageHeads stage (treatments.map Prod.fst) := by
  simp [stageWords, stageHeads, Function.comp_def]

def rerankHeads : List (List Char) :=
  stageHeads "rerank" ["dynamic:v1:cohort=treatment:backend=" ++ "local" ++ ":",
    "dynamic:v1:cohort=treatment:backend=" ++ "voyage" ++ ":"]

def hydeHeads : List (List Char) :=
  stageHeads "query-transform" ["dynamic-query-transform:v1:cohort=treatment:"]

def cragHeads : List (List Char) :=
  stageHeads "crag" ["crag:dynamic:v1:cohort=treatment:"]

def reflectionHeads : List (List Char) :=
  stageHeads "self-reflection"
    ["self-reflection:dynamic:v1:cohort=treatment:retrieval=" ++ "True" ++ ":",
      "self-reflection:dynamic:v1:cohort=treatment:retrieval=" ++ "False" ++ ":"]

/-- A number begins with one of its digits. -/
def numberHeads : List (List Char) :=
  ['0', '1', '2', '3', '4', '5', '6', '7', '8', '9'].map fun digit => [':', digit]

def widthHeads : List (List Char) :=
  ":reflection_top_k=".toList :: numberHeads

def fromReflectionHeads : List (List Char) :=
  reflectionHeads ++ widthHeads

def fromCragHeads : List (List Char) :=
  cragHeads ++ fromReflectionHeads

def fromHydeHeads : List (List Char) :=
  hydeHeads ++ fromCragHeads

def candidatesHeads : List (List Char) :=
  ":candidates=".toList :: fromHydeHeads

/-- Of all that may follow the corpus version, nothing begins anything else. -/
theorem pairwise_heads : (rerankHeads ++ candidatesHeads).Pairwise Apart := by
  decide +kernel

theorem head?_heads : ∀ l ∈ rerankHeads ++ candidatesHeads, l.head? = some ':' := by
  decide +kernel

theorem startsSegment_of_opens {heads : List (List Char)} {text : List Char}
    (hheads : ∀ l ∈ heads, l.head? = some ':') (h : Opens heads text) : StartsSegment text := by
  obtain ⟨l, hl, ⟨rest, rfl⟩⟩ := h
  intro c hc
  have hhead := hheads l hl
  cases l with
  | nil => exact nomatch hhead
  | cons c' l =>
    obtain rfl := Option.some.inj hhead
    exact (Option.some.inj hc).symm

theorem mem_digits {c : Char} (h : c.isDigit = true) :
    c ∈ ['0', '1', '2', '3', '4', '5', '6', '7', '8', '9'] := by
  obtain ⟨hlow, hhigh⟩ := Char.isDigit_iff_toNat.1 h
  have hc : c = Char.ofNat c.toNat := (Char.ofNat_toNat c).symm
  have hlow : 48 ≤ c.toNat := hlow
  have hhigh : c.toNat ≤ 57 := hhigh
  rw [hc]
  generalize c.toNat = n at hlow hhigh
  interval_cases n <;> decide

theorem opens_number (n : ℕ) (rest : List Char) :
    Opens numberHeads (':' :: (Nat.toDigits 10 n ++ rest)) := by
  cases hdigits : Nat.toDigits 10 n with
  | nil => exact absurd hdigits (Nat.toDigits_ne_nil)
  | cons c digits =>
    have hdigit := Nat.isDigit_of_mem_toDigits (b := 10) (n := n) (by decide) (by decide)
      (hdigits ▸ List.mem_cons_self)
    exact ⟨[':', c], List.mem_map_of_mem (mem_digits hdigit), digits ++ rest, rfl⟩

/-! ## Optional numbers -/

/-- A label with a number, or nothing. -/
def optionalNumber (label : List Char) : Option ℕ → List Char
  | none => []
  | some n => label ++ Nat.toDigits 10 n

theorem opens_optionalNumber {label : List Char} {heads : List (List Char)} {n : Option ℕ}
    {rest : List Char} (hrest : Opens heads rest) :
    Opens (label :: heads) (optionalNumber label n ++ rest) := by
  cases n with
  | none => exact hrest.mono (List.subset_cons_self _ _)
  | some n =>
    refine ⟨label, List.mem_cons_self, ?_⟩
    rw [optionalNumber, List.append_assoc]
    exact List.prefix_append _ _

theorem optionalNumber_inj {label : List Char} {heads : List (List Char)}
    (hheads : (label :: heads).Pairwise Apart) (hsegment : ∀ l ∈ heads, l.head? = some ':')
    {n n' : Option ℕ} {rest rest' : List Char} (hrest : Opens heads rest)
    (hrest' : Opens heads rest')
    (h : optionalNumber label n ++ rest = optionalNumber label n' ++ rest') :
    n = n' ∧ rest = rest' := by
  have hmixed : ∀ {n : ℕ} {rest₁ rest₂ : List Char}, Opens heads rest₂ →
      label ++ Nat.toDigits 10 n ++ rest₁ ≠ rest₂ := by
    rintro n rest₁ rest₂ ⟨l, hl, ⟨tail, rfl⟩⟩ heq
    rw [List.append_assoc] at heq
    exact ((List.pairwise_cons.1 hheads).1 l hl).append_ne heq
  match n, n' with
  | none, none => exact ⟨rfl, h⟩
  | some n, none => exact absurd h (hmixed hrest')
  | none, some n' => exact absurd h.symm (hmixed hrest)
  | some n, some n' =>
    simp only [optionalNumber, List.append_assoc] at h
    have hdigits := List.append_cancel_left h
    obtain rfl := toDigits_of_append (startsSegment_of_opens hsegment hrest)
      (startsSegment_of_opens hsegment hrest') hdigits
    exact ⟨rfl, List.append_cancel_left hdigits⟩

/-! ## The key of a request -/

namespace RAGService

variable (svc : RAGService)

/-- The namespace of the delegate for a backend, in a plan of the reranker. -/
def rerankNamespace (backend : RerankerBackendName) : String :=
  ((svc.reranker.delegate backend).getD
    ⟨backend.value, "unconfigured:" ++ backend.value⟩).cacheNamespace

def rerankWords : List (List Char × List Char) :=
  stageWords "rerank" <| [RerankerBackendName.local, .voyage].map fun backend =>
    ("dynamic:v1:cohort=treatment:backend=" ++ backend.value ++ ":", svc.rerankNamespace backend)

def hydeWords : List (List Char × List Char) :=
  stageWords "query-transform"
    [("dynamic-query-transform:v1:cohort=treatment:", svc.queryTransformer.cacheNamespace)]

def cragWords : List (List Char × List Char) :=
  stageWords "crag" [("crag:dynamic:v1:cohort=treatment:", svc.correctiveRetriever.cacheNamespace)]

def reflectionWords : List (List Char × List Char) :=
  stageWords "self-reflection" <| ["True", "False"].map fun retrieval =>
    ("self-reflection:dynamic:v1:cohort=treatment:retrieval=" ++ retrieval ++ ":",
      svc.selfReflection.cacheNamespace)

/-- What a key is made of. -/
structure KeyParts where
  strategy : RetrievalStrategy
  version : ℕ
  rerank : Option (List Char × List Char)
  candidates : Option ℕ
  hyde : Option (List Char × List Char)
  crag : Option (List Char × List Char)
  reflection : Option (List Char × List Char)
  reflectionTopK : Option ℕ
  topK : ℕ
  question : List Char

namespace KeyParts

/-! The text of a key, from each of its parts on. -/

def fromTopK (p : KeyParts) : List Char :=
  ':' :: (Nat.toDigits 10 p.topK ++ ':' :: p.question)

def fromWidth (p : KeyParts) : List Char :=
  optionalNumber ":reflection_top_k=".toList p.reflectionTopK ++ p.fromTopK

def fromReflection (p : KeyParts) : List Char :=
  optionalText p.reflection ++ p.fromWidth

def fromCrag (p : KeyParts) : List Char :=
  optionalText p.crag ++ p.fromReflection

def fromHyde (p : KeyParts) : List Char :=
  optionalText p.hyde ++ p.fromCrag

def fromCandidates (p : KeyParts) : List Char :=
  optionalNumber ":candidates=".toList p.candidates ++ p.fromHyde

def text (p : KeyParts) : List Char :=
  p.strategy.cacheNamespace.toList ++ (":corpus=".toList ++ (Nat.toDigits 10 p.version ++
    (optionalText p.rerank ++ p.fromCandidates)))

/-- The segments of the parts are those of the service's stages. -/
structure Of (p : KeyParts) : Prop where
  rerank : ∀ word ∈ p.rerank, word ∈ svc.rerankWords
  hyde : ∀ word ∈ p.hyde, word ∈ svc.hydeWords
  crag : ∀ word ∈ p.crag, word ∈ svc.cragWords
  reflection : ∀ word ∈ p.reflection, word ∈ svc.reflectionWords

variable {svc} {p p' : KeyParts}

/-- The text can be read from each part on. -/
theorem fromTopK_inj (h : p.fromTopK = p'.fromTopK) :
    p.topK = p'.topK ∧ p.question = p'.question := by
  have hcolon : ∀ rest : List Char, StartsSegment (':' :: rest) :=
    fun rest c hc => (Option.some.inj hc).symm
  have hdigits := (List.cons.inj h).2
  have htopK := toDigits_of_append (hcolon _) (hcolon _) hdigits
  rw [htopK] at hdigits
  exact ⟨htopK, (List.cons.inj (List.append_cancel_left hdigits)).2⟩

theorem opens_fromWidth (p : KeyParts) : Opens widthHeads p.fromWidth :=
  opens_optionalNumber (opens_number _ _)

theorem opens_fromReflection (hp : p.Of svc) : Opens fromReflectionHeads p.fromReflection := by
  have hopens := opens_optional hp.reflection p.opens_fromWidth
  rwa [reflectionWords, map_fst_stageWords] at hopens

theorem opens_fromCrag (hp : p.Of svc) : Opens fromCragHeads p.fromCrag := by
  have hopens := opens_optional hp.crag (opens_fromReflection hp)
  rwa [cragWords, map_fst_stageWords] at hopens

theorem opens_fromHyde (hp : p.Of svc) : Opens fromHydeHeads p.fromHyde := by
  have hopens := opens_optional hp.hyde (opens_fromCrag hp)
  rwa [hydeWords, map_fst_stageWords] at hopens

theorem opens_fromCandidates (hp : p.Of svc) : Opens candidatesHeads p.fromCandidates :=
  opens_optionalNumber (opens_fromHyde hp)

theorem opens_fromRerank (hp : p.Of svc) :
    Opens (rerankHeads ++ candidatesHeads) (optionalText p.rerank ++ p.fromCandidates) := by
  have hopens := opens_optional hp.rerank (opens_fromCandidates hp)
  rwa [rerankWords, map_fst_stageWords] at hopens

/-- The parts can be read off the text. -/
theorem text_inj (hp : p.Of svc) (hp' : p'.Of svc) (h : p.text = p'.text) : p = p' := by
  have hcandidates : candidatesHeads.Pairwise Apart :=
    (List.pairwise_append.1 pairwise_heads).2.1
  have hhyde : fromHydeHeads.Pairwise Apart := (List.pairwise_cons.1 hcandidates).2
  have hcrag : fromCragHeads.Pairwise Apart := (List.pairwise_append.1 hhyde).2.1
  have hreflection : fromReflectionHeads.Pairwise Apart := (List.pairwise_append.1 hcrag).2.1
  have hwidth : widthHeads.Pairwise Apart := (List.pairwise_append.1 hreflection).2.1
  have hafter : fromHydeHeads <:+ rerankHeads ++ candidatesHeads :=
    (List.suffix_cons _ _).trans (List.suffix_append _ _)
  have hlast : numberHeads <:+ rerankHeads ++ candidatesHeads :=
    ((((List.suffix_cons _ _).trans (List.suffix_append _ _)).trans
      (List.suffix_append _ _)).trans (List.suffix_append _ _)).trans hafter
  have hcolon : ∀ heads, heads <:+ rerankHeads ++ candidatesHeads →
      ∀ l ∈ heads, l.head? = some ':' := fun heads hsuffix l hl =>
    head?_heads l (hsuffix.subset hl)
  obtain ⟨hstrategy, h⟩ := RetrievalStrategy.append_inj h
  have hdigits := List.append_cancel_left h
  have hversion := toDigits_of_append
    (startsSegment_of_opens (hcolon _ List.suffix_rfl) (opens_fromRerank hp))
    (startsSegment_of_opens (hcolon _ List.suffix_rfl) (opens_fromRerank hp')) hdigits
  rw [hversion] at hdigits
  obtain ⟨hrerank, h⟩ := optional_inj (map_fst_stageWords _ _ ▸ pairwise_heads) hp.rerank
    hp'.rerank (opens_fromCandidates hp) (opens_fromCandidates hp')
    (List.append_cancel_left hdigits)
  obtain ⟨hnumber, h⟩ := optionalNumber_inj hcandidates (hcolon _ hafter) (opens_fromHyde hp)
    (opens_fromHyde hp') h
  obtain ⟨hword, h⟩ := optional_inj (map_fst_stageWords _ _ ▸ hhyde) hp.hyde hp'.hyde
    (opens_fromCrag hp) (opens_fromCrag hp') h
  obtain ⟨hword', h⟩ := optional_inj (map_fst_stageWords _ _ ▸ hcrag) hp.crag hp'.crag
    (opens_fromReflection hp) (opens_fromReflection hp') h
  obtain ⟨hword'', h⟩ := optional_inj (map_fst_stageWords _ _ ▸ hreflection) hp.reflection
    hp'.reflection p.opens_fromWidth p'.opens_fromWidth h
  obtain ⟨hnumber', h⟩ := optionalNumber_inj hwidth (hcolon _ hlast) (opens_number _ _)
    (opens_number _ _) h
  obtain ⟨htopK, hquestion⟩ := fromTopK_inj h
  cases p
  cases p'
  simp only [KeyParts.mk.injEq]
  exact ⟨hstrategy, hversion, hrerank, hnumber, hword, hword', hword'', hnumber', htopK,
    hquestion⟩

end KeyParts

variable {svc} {config config' : RagRuntimeConfig} {call call' : AnswerCall} {q q' : RagRequest}

/-- The segment of a stage in a key, and the word it is. -/
theorem exists_optional_word {words : List (List Char × List Char)} (on : Bool) {plan : StagePlan}
    (h : ∃ word, IsWord words plan.cacheNamespace word) :
    ∃ word : Option (List Char × List Char), (∀ w ∈ word, w ∈ words) ∧
      optionalText word =
        (((if on then some plan else none).map (":" ++ ·.cacheNamespace)).getD "").toList ∧
      word.map (fun w => w.1 ++ w.2) =
        if on then some (":" ++ plan.cacheNamespace).toList else none := by
  obtain ⟨word, hmem, htext⟩ := h
  cases on with
  | false => exact ⟨none, (fun _ h => nomatch h), rfl, rfl⟩
  | true =>
    refine ⟨some word, fun w hw => ?_, htext, congrArg some htext⟩
    obtain rfl := Option.some.inj hw
    exact hmem

theorem toList_toString (n : ℕ) : (toString n).toList = Nat.toDigits 10 n :=
  String.toList_ofList

/-- The segments that a request's plans name. -/
theorem exists_words (h : svc.prepare config call = .ok q) :
    (∃ word, IsWord svc.rerankWords q.rerankPlan.cacheNamespace word) ∧
      (∃ word, IsWord svc.hydeWords q.hydePlan.cacheNamespace word) ∧
      (∃ word, IsWord svc.cragWords q.cragPlan.cacheNamespace word) ∧
      ∃ word, IsWord svc.reflectionWords q.selfReflectionPlan.cacheNamespace word := by
  have hq := prepared_of_prepare h
  refine ⟨?_, ?_, ?_, ?_⟩
  · obtain ⟨plan, hplan, hrerank⟩ := bind_eq_ok.1 hq.rerankPlan
    have hword : ∃ word, IsWord svc.rerankWords plan.cacheNamespace word := by
      refine exists_word_of_stagePlan (List.mem_map_of_mem (a := config.1.rerankerBackend) ?_) hplan
      cases config.1.rerankerBackend <;> simp
    rw [← Except.ok.inj hrerank]
    split <;> exact hword
  · exact exists_word_of_stagePlan (List.mem_singleton_self _) hq.hydePlan
  · obtain ⟨plan, hplan, hcrag⟩ := bind_eq_ok.1 hq.cragPlan
    rw [← Except.ok.inj hcrag]
    exact exists_word_of_stagePlan (List.mem_singleton_self _) hplan
  · obtain ⟨plan, hplan, hreflection⟩ := bind_eq_ok.1 hq.selfReflectionPlan
    rw [← Except.ok.inj hreflection]
    refine exists_word_of_stagePlan (List.mem_map_of_mem
      (a := if config.1.selfReflectiveRetrievalEnabled then "True" else "False") ?_) hplan
    cases config.1.selfReflectiveRetrievalEnabled <;> simp

/-- The parts of the key of a request. -/
theorem exists_parts (h : svc.prepare config call = .ok q) :
    ∃ p : KeyParts, p.Of svc ∧
      q.cacheKey = svc.sha256 ("rag:v8:" ++ String.ofList p.text) ∧
      p.strategy = q.strategy ∧ p.version = config.1.corpusVersion.toNat ∧
      p.rerank.map (fun w => w.1 ++ w.2) = (if q.rerankingEnabled then
        some (":" ++ q.rerankPlan.cacheNamespace).toList else none) ∧
      p.candidates = (if q.rerankingEnabled ∧ q.rerankPlan.cohort = .treatment then
        some q.candidateTopK else none) ∧
      p.hyde.map (fun w => w.1 ++ w.2) = (if q.hydeCanRun then
        some (":" ++ q.hydePlan.cacheNamespace).toList else none) ∧
      p.crag.map (fun w => w.1 ++ w.2) = (if q.cragEnabled then
        some (":" ++ q.cragPlan.cacheNamespace).toList else none) ∧
      p.reflection.map (fun w => w.1 ++ w.2) = (if q.selfReflectiveEnabled then
        some (":" ++ q.selfReflectionPlan.cacheNamespace).toList else none) ∧
      p.topK = call.topK ∧ p.question = (normalizeSpace call.question).toList := by
  obtain ⟨hrerank, hhyde, hcrag, hreflection⟩ := exists_words h
  obtain ⟨rerank, hrerankWord, hrerankText, hrerankMap⟩ :=
    exists_optional_word q.rerankingEnabled hrerank
  obtain ⟨hyde, hhydeWord, hhydeText, hhydeMap⟩ := exists_optional_word q.hydeCanRun hhyde
  obtain ⟨crag, hcragWord, hcragText, hcragMap⟩ := exists_optional_word q.cragEnabled hcrag
  obtain ⟨reflection, hreflectionWord, hreflectionText, hreflectionMap⟩ :=
    exists_optional_word q.selfReflectiveEnabled hreflection
  refine ⟨
    { strategy := q.strategy
      version := config.1.corpusVersion.toNat
      rerank, hyde, crag, reflection
      candidates := if q.rerankingEnabled ∧ q.rerankPlan.cohort = .treatment then
        some q.candidateTopK else none
      reflectionTopK := if q.selfReflectiveEnabled then some svc.reflectionRetrievalTopK else none
      topK := call.topK
      question := (normalizeSpace call.question).toList },
    ⟨hrerankWord, hhydeWord, hcragWord, hreflectionWord⟩, ?_, rfl, rfl, hrerankMap, rfl, hhydeMap,
    hcragMap, hreflectionMap, rfl, rfl⟩
  have hnamespace := (prepared_of_prepare h).cacheNamespace
  have hkey := (prepared_of_prepare h).cacheKey
  have hcandidates : (if ((if q.rerankingEnabled then some q.rerankPlan.toStagePlan
      else none).any (·.cohort = .treatment)) then ":candidates=" ++ toString q.candidateTopK
      else "").toList = optionalNumber ":candidates=".toList
        (if q.rerankingEnabled ∧ q.rerankPlan.cohort = .treatment then some q.candidateTopK
          else none) := by
    cases q.rerankingEnabled with
    | false => simp [optionalNumber]
    | true =>
      by_cases htreatment : q.rerankPlan.cohort = .treatment
      · simp [htreatment, optionalNumber]
      · simp [htreatment, optionalNumber]
  have hwidth : (if (if q.selfReflectiveEnabled then some q.selfReflectionPlan.toStagePlan
      else none).isSome then ":reflection_top_k=" ++ toString svc.reflectionRetrievalTopK
      else "").toList = optionalNumber ":reflection_top_k=".toList
        (if q.selfReflectiveEnabled then some svc.reflectionRetrievalTopK else none) := by
    cases q.selfReflectiveEnabled with
    | false => simp [optionalNumber]
    | true => simp [optionalNumber]
  rw [hkey, cacheKey, hnamespace]
  refine congrArg svc.sha256 (String.toList_inj.1 ?_)
  simp only [namespaceOf, String.toList_append, String.toList_ofList, List.append_assoc,
    toList_corpusVersion, toList_toString, hcandidates, hwidth, ← hrerankText, ← hhydeText,
    ← hcragText, ← hreflectionText, KeyParts.text, KeyParts.fromCandidates, KeyParts.fromHyde,
    KeyParts.fromCrag, KeyParts.fromReflection, KeyParts.fromWidth, KeyParts.fromTopK]
  rfl

/-- The namespaces of the stages that are on : reranking, HyDE, CRAG and self-reflection. -/
def stageNamespaces (q : RagRequest) : List (Option String) :=
  [if q.rerankingEnabled then some q.rerankPlan.cacheNamespace else none,
    if q.hydeCanRun then some q.hydePlan.cacheNamespace else none,
    if q.cragEnabled then some q.cragPlan.cacheNamespace else none,
    if q.selfReflectiveEnabled then some q.selfReflectionPlan.cacheNamespace else none]

theorem candidateTopK_of_prepare (h : svc.prepare config call = .ok q) :
    q.candidateTopK = if q.rerankingEnabled ∧ q.rerankPlan.cohort = .treatment then
      max call.topK svc.rerankerInitialTopK else call.topK := by
  have hwidth := (prepared_of_prepare h).candidateTopK
  simpa only [Bool.and_eq_true, decide_eq_true_eq] using hwidth

/-- The same segment is the same namespace. -/
theorem segment_inj {on on' : Bool} {cacheNamespace cacheNamespace' : String}
    {word : Option (List Char × List Char)}
    (h : word.map (fun w => w.1 ++ w.2) =
      if on then some (":" ++ cacheNamespace).toList else none)
    (h' : word.map (fun w => w.1 ++ w.2) =
      if on' then some (":" ++ cacheNamespace').toList else none) :
    (if on then some cacheNamespace else none) = if on' then some cacheNamespace' else none := by
  rw [h] at h'
  cases on <;> cases on'
  · rfl
  · exact nomatch h'
  · exact nomatch h'
  · have htext := Option.some.inj h'
    simp only [String.toList_append] at htext
    exact congrArg some (String.toList_inj.1 (List.append_cancel_left htext))

/-- The key of a request settles all that its answer depends on : the question up to white
space, the number of chunks, the strategy, the corpus version, the namespaces of the stages
that are on, and the width of the retrieval. -/
theorem cacheKey_inj (hsha256 : Function.Injective svc.sha256)
    (h : svc.prepare config call = .ok q) (h' : svc.prepare config' call' = .ok q')
    (heq : q.cacheKey = q'.cacheKey) :
    normalizeSpace call.question = normalizeSpace call'.question ∧ call.topK = call'.topK ∧
      q.strategy = q'.strategy ∧ config.1.corpusVersion = config'.1.corpusVersion ∧
      stageNamespaces q = stageNamespaces q' ∧ q.candidateTopK = q'.candidateTopK := by
  obtain ⟨p, hp, hkey, hstrategy, hversion, hrerank, hcandidates, hhyde, hcrag, hreflection, htopK,
    hquestion⟩ := exists_parts h
  obtain ⟨p', hp', hkey', hstrategy', hversion', hrerank', hcandidates', hhyde', hcrag',
    hreflection', htopK', hquestion'⟩ := exists_parts h'
  have htext : p.text = p'.text := by
    have hraw := congrArg String.toList (hsha256 (hkey.symm.trans (heq.trans hkey')))
    simp only [String.toList_append, String.toList_ofList] at hraw
    exact List.append_cancel_left hraw
  obtain rfl := KeyParts.text_inj hp hp' htext
  have hwidth : call.topK = call'.topK := htopK.symm.trans htopK'
  refine ⟨String.toList_inj.1 (hquestion.symm.trans hquestion'), hwidth,
    hstrategy.symm.trans hstrategy', ?_, ?_, ?_⟩
  · have hone := config.valid.corpus
    have hone' := config'.valid.corpus
    omega
  · simp only [stageNamespaces, segment_inj hrerank hrerank', segment_inj hhyde hhyde',
      segment_inj hcrag hcrag', segment_inj hreflection hreflection']
  · rw [candidateTopK_of_prepare h, candidateTopK_of_prepare h', ← hwidth]
    rw [candidateTopK_of_prepare h] at hcandidates
    rw [candidateTopK_of_prepare h'] at hcandidates'
    have hsame := hcandidates.symm.trans hcandidates'
    by_cases hon : q.rerankingEnabled ∧ q.rerankPlan.cohort = .treatment
    · by_cases hon' : q'.rerankingEnabled ∧ q'.rerankPlan.cohort = .treatment
      · rw [if_pos hon, if_pos hon']
      · rw [if_pos hon, if_neg hon'] at hsame
        exact nomatch hsame
    · by_cases hon' : q'.rerankingEnabled ∧ q'.rerankPlan.cohort = .treatment
      · rw [if_neg hon, if_pos hon'] at hsame
        exact nomatch hsame
      · rw [if_neg hon, if_neg hon']

end RAGService

/-- Two ways to write one question at the desk have one key. -/
theorem cacheKey_inj_spaces : ∃ q q',
    desk.prepare deskConfig { question := "Which fees?" } = .ok q ∧
      desk.prepare deskConfig { question := " Which  fees? " } = .ok q' ∧
      q.cacheKey = q'.cacheKey ∧
      normalizeSpace "Which fees?" = normalizeSpace " Which  fees? " := by
  have hkeys : (desk.prepare deskConfig { question := "Which fees?" }).toOption.map (·.cacheKey) =
      (desk.prepare deskConfig { question := " Which  fees? " }).toOption.map (·.cacheKey) := by
    decide +kernel
  match h : desk.prepare deskConfig { question := "Which fees?" },
    h' : desk.prepare deskConfig { question := " Which  fees? " } with
  | .error e, _ =>
    have hok : (desk.prepare deskConfig { question := "Which fees?" }).toOption.isSome = true := by
      decide +kernel
    rw [h] at hok
    exact nomatch hok
  | .ok q, .error e =>
    rw [h, h'] at hkeys
    exact nomatch hkeys
  | .ok q, .ok q' =>
    rw [h, h'] at hkeys
    have hkey : q.cacheKey = q'.cacheKey := Option.some.inj hkeys
    have hsha256 : Function.Injective desk.sha256 := fun _ _ h => h
    exact ⟨q, q', rfl, rfl, hkey, (RAGService.cacheKey_inj hsha256 h h' hkey).1⟩

end EnterpriseRag
