import EnterpriseRag.Rag.Service

/-!
# The corpus version in a cache key

A namespace starts with the strategy's own and `:corpus=` with the version, and every
segment after them starts with a colon. So two requests under different corpus versions are
in different namespaces (`corpusVersion_of_cacheNamespace`), and the same key for both is a
collision of the hash (`collision_of_cacheKey`).
-/

namespace EnterpriseRag

/-- The text is empty, or starts a new segment. -/
def StartsSegment (text : List Char) : Prop :=
  ∀ c ∈ text.head?, c = ':'

theorem startsSegment_append {text text' : List Char} (h : StartsSegment text)
    (h' : StartsSegment text') : StartsSegment (text ++ text') := by
  cases text with
  | nil => exact h'
  | cons c text => exact h

theorem startsSegment_of_head (label : String) (h : label.toList.head? = some ':')
    (text : String) : StartsSegment (label ++ text).toList := by
  intro c hc
  rw [String.toList_append, List.head?_append, h] at hc
  exact (Option.some.inj hc).symm

theorem startsSegment_ite (label : String) (h : label.toList.head? = some ':') (on : Prop)
    [Decidable on] (text : String) : StartsSegment (if on then label ++ text else "").toList := by
  split
  · exact startsSegment_of_head label h text
  · exact fun c hc => nomatch hc

/-- The digits of a number end where the segment does. -/
theorem toDigits_of_append {m n : ℕ} {rest rest' : List Char} (hrest : StartsSegment rest)
    (hrest' : StartsSegment rest')
    (h : Nat.toDigits 10 m ++ rest = Nat.toDigits 10 n ++ rest') : m = n := by
  have hsegment : ∀ (k : ℕ) {rest : List Char}, StartsSegment rest →
      (Nat.toDigits 10 k ++ rest).takeWhile (· ≠ ':') = Nat.toDigits 10 k := by
    intro k rest hrest
    have hdigits : ∀ c ∈ Nat.toDigits 10 k, decide (c ≠ ':') = true := by
      intro c hc
      have hdigit := Nat.isDigit_of_mem_toDigits (by decide) (by decide) hc
      rw [decide_eq_true_eq]
      rintro rfl
      exact absurd hdigit (by decide)
    rw [List.takeWhile_append_of_pos hdigits]
    cases rest with
    | nil => simp
    | cons c rest =>
      obtain rfl : c = ':' := hrest c rfl
      simp
  have hsame : Nat.toDigits 10 m = Nat.toDigits 10 n := by
    rw [← hsegment m hrest, h, hsegment n hrest']
  rw [← Nat.ofDigitChars_toDigits (n := m) (b := 10) (by decide) (by decide), hsame,
    Nat.ofDigitChars_toDigits (by decide) (by decide)]

/-- The namespaces of two strategies differ in their first character. -/
theorem RetrievalStrategy.append_inj {strategy strategy' : RetrievalStrategy}
    {rest rest' : List Char} (h : strategy.cacheNamespace.toList ++ rest =
      strategy'.cacheNamespace.toList ++ rest') : strategy = strategy' ∧ rest = rest' := by
  have hne : ∀ s : RetrievalStrategy, s.cacheNamespace.toList ≠ [] := by
    intro s
    cases s <;> decide +kernel
  have hhead : strategy.cacheNamespace.toList.head? = strategy'.cacheNamespace.toList.head? := by
    rw [← List.head?_append_of_ne_nil _ (hne strategy), h, List.head?_append_of_ne_nil _ (hne _)]
  have hsame : strategy = strategy' := by
    revert hhead
    cases strategy <;> cases strategy' <;> decide +kernel
  subst hsame
  exact ⟨rfl, List.append_cancel_left h⟩

namespace RAGService

variable {svc : RAGService} {config config' : RagRuntimeConfig} {call call' : AnswerCall}
  {q q' : RagRequest}

theorem startsSegment_plan (plan : Option StagePlan) :
    StartsSegment ((plan.map (":" ++ ·.cacheNamespace)).getD "").toList := by
  cases plan with
  | none => exact fun c hc => nomatch hc
  | some plan => exact startsSegment_of_head _ (by decide +kernel) _

theorem toList_corpusVersion (config : RagRuntimeConfig) :
    (toString config.1.corpusVersion).toList =
      Nat.toDigits 10 config.1.corpusVersion.toNat := by
  have hone := config.valid.corpus
  rw [Int.toString_eq_repr, Int.repr_eq_if, if_pos (by omega)]
  exact String.toList_ofList

/-- What a namespace starts with. -/
theorem exists_namespaceOf (svc : RAGService) (config : RagRuntimeConfig)
    (strategy : RetrievalStrategy) (candidateTopK : ℕ) (rerank hyde crag selfReflection : Option StagePlan) :
    ∃ rest, StartsSegment rest ∧
      (svc.namespaceOf config strategy candidateTopK rerank hyde crag selfReflection).toList =
        strategy.cacheNamespace.toList ++ (":corpus=".toList ++
          (Nat.toDigits 10 config.1.corpusVersion.toNat ++ rest)) := by
  have hplan : ∀ plan : Option StagePlan, ∀ {rest}, StartsSegment rest →
      StartsSegment (((plan.map (":" ++ ·.cacheNamespace)).getD "").toList ++ rest) :=
    fun plan _ => startsSegment_append (startsSegment_plan plan)
  have hcandidates := startsSegment_ite ":candidates=" (by decide +kernel)
    (rerank.any (·.cohort = .treatment)) (toString candidateTopK)
  have hreflection := startsSegment_ite ":reflection_top_k=" (by decide +kernel)
    selfReflection.isSome (toString svc.reflectionRetrievalTopK)
  refine ⟨_, hplan rerank (startsSegment_append hcandidates
    (hplan hyde (hplan crag (hplan selfReflection hreflection)))), ?_⟩
  simp only [namespaceOf, String.toList_append, toList_corpusVersion, List.append_assoc]

/-- Requests under different corpus versions are in different namespaces, whatever follows
them in a text. -/
theorem corpusVersion_of_append {rest rest' : List Char} (hrest : StartsSegment rest)
    (hrest' : StartsSegment rest') (h : svc.prepare config call = .ok q)
    (h' : svc.prepare config' call' = .ok q')
    (heq : q.cacheNamespace.toList ++ rest = q'.cacheNamespace.toList ++ rest') :
    config.1.corpusVersion = config'.1.corpusVersion := by
  obtain ⟨segments, hsegments, htext⟩ := exists_namespaceOf svc config q.strategy q.candidateTopK
    _ _ _ _
  obtain ⟨segments', hsegments', htext'⟩ := exists_namespaceOf svc config' q'.strategy
    q'.candidateTopK _ _ _ _
  rw [(prepared_of_prepare h).cacheNamespace, (prepared_of_prepare h').cacheNamespace, htext,
    htext'] at heq
  simp only [List.append_assoc] at heq
  have hdigits := List.append_cancel_left (RetrievalStrategy.append_inj heq).2
  have hsame := toDigits_of_append (startsSegment_append hsegments hrest)
    (startsSegment_append hsegments' hrest') hdigits
  have hone := config.valid.corpus
  have hone' := config'.valid.corpus
  omega

/-- The namespace of a request tells the corpus version. -/
theorem corpusVersion_of_cacheNamespace (h : svc.prepare config call = .ok q)
    (h' : svc.prepare config' call' = .ok q') (heq : q.cacheNamespace = q'.cacheNamespace) :
    config.1.corpusVersion = config'.1.corpusVersion := by
  have hnil : StartsSegment [] := fun c hc => nomatch hc
  exact corpusVersion_of_append hnil hnil h h' (by rw [heq])

/-- A key shared by requests under different corpus versions is a collision of the hash. -/
theorem collision_of_cacheKey (h : svc.prepare config call = .ok q)
    (h' : svc.prepare config' call' = .ok q') (heq : q.cacheKey = q'.cacheKey)
    (hne : config.1.corpusVersion ≠ config'.1.corpusVersion) :
    ∃ text text', text ≠ text' ∧ svc.sha256 text = svc.sha256 text' := by
  rw [(prepared_of_prepare h).cacheKey, (prepared_of_prepare h').cacheKey] at heq
  refine ⟨_, _, fun htext => hne ?_, heq⟩
  have hlist := congrArg String.toList htext
  simp only [String.toList_append, List.append_assoc] at hlist
  have hsegment : ∀ rest : List Char, StartsSegment (":".toList ++ rest) := by
    intro rest
    have hcolon := startsSegment_of_head ":" (by decide +kernel) (String.ofList rest)
    rwa [String.toList_append, String.toList_ofList] at hcolon
  exact corpusVersion_of_append (hsegment _) (hsegment _) h h' (List.append_cancel_left hlist)

end RAGService

end EnterpriseRag
