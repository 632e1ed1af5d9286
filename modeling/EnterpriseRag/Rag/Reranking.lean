import EnterpriseRag.Library.Ranking
import EnterpriseRag.Rag.Service

/-!
# Reranking

A backend scores the candidates, and the reply is checked before it is used. What is not a
usable reply is an exception, for which `FailOpenReranker` answers with the order of retrieval.

`execute_selects` says what a treatment request gets from `DynamicReranker.execute`, whatever
the backend replies. `run_executeRerank` is the same step in a run of the service.
-/

namespace EnterpriseRag

/-! ## Replies -/

/-- A score in a reply, by what `float` makes of it. -/
inductive RawScore
  | finite (value : ℚ)
  | notFinite
  | notNumber
  deriving DecidableEq, Repr

def RawScore.float : RawScore → Except Raised (Option ℚ)
  | .finite value => .ok (some value)
  | .notFinite => .ok none
  | .notNumber => .error (.exception "ValueError")

/-- A result of the Voyage API, with the index that `int` makes of it, if there is one. -/
structure VoyageResult where
  index : Option ℤ
  relevanceScore : RawScore
  deriving DecidableEq, Repr

structure VoyageResponse where
  results : List VoyageResult
  totalTokens : Option ℤ := none
  deriving DecidableEq, Repr

/-- What the backends reply : the cross encoder to its pairs, and the Voyage client to a query,
its documents and their limit. An error is the name of an exception. -/
structure RerankerBackends where
  predict : List (String × String) → Except String (List RawScore)
  client : String → List String → ℕ → Except String VoyageResponse

def replied {α : Type} : Except String α → Except Raised α
  | .ok a => .ok a
  | .error name => .error (.exception name)

/-! ## Voyage -/

/-- The loop over the results, with the indexes that were seen and the items so far. -/
def voyageLoop (candidates : List RetrievedChunk) :
    List ℤ → List ReRankedChunk → List VoyageResult → Except Raised (List ReRankedChunk)
  | _, items, [] => .ok items
  | seen, items, result :: rest =>
    match result.index, result.relevanceScore.float with
    | none, _ => .error (.exception "ValueError")
    | some _, .error e => .error e
    | some index, .ok score =>
      if h : 0 ≤ index ∧ index < candidates.length then
        if index ∈ seen then .error (.exception "RuntimeError")
        else
          match score with
          | none => .error (.exception "RuntimeError")
          | some score => voyageLoop candidates (index :: seen)
              (items ++ [⟨candidates.get ⟨index.toNat, by omega⟩, index.toNat + 1, some score⟩])
              rest
      else .error (.exception "RuntimeError")

/-- `VoyageReranker.rerank`. Every item that is sorted has a score. -/
def voyageRerank (backends : RerankerBackends) (query : String)
    (candidates : List RetrievedChunk) (topK : ℕ) : Except Raised ReRankOutcome :=
  if topK = 0 then .error (.exception "ValueError")
  else if candidates = [] then .ok { items := [], backend := "voyage", applied := true }
  else do
    let limit := min topK candidates.length
    let response ← replied (backends.client query (candidates.map (·.text)) limit)
    let items ← voyageLoop candidates [] [] response.results
    if items.length ≠ limit then .error (.exception "RuntimeError")
    else
      .ok
        { items := Ranking.ranked (·.rerankScore.getD 0) (·.originalRank) items
          backend := "voyage"
          applied := true
          usageTokens := response.totalTokens }

/-! ## The local cross encoder -/

/-- A candidate with its place and its score. -/
structure ScoredCandidate where
  zeroBasedRank : ℕ
  candidate : RetrievedChunk
  score : ℚ
  deriving DecidableEq, Repr

/-- The loop over the candidates and their scores, from a rank. -/
def scoreLoop : ℕ → List RetrievedChunk → List RawScore → Except Raised (List ScoredCandidate)
  | rank, candidate :: candidates, score :: scores => do
    match ← score.float with
    | none => .error (.exception "RuntimeError")
    | some value =>
      let rest ← scoreLoop (rank + 1) candidates scores
      return ⟨rank, candidate, value⟩ :: rest
  | _, _, _ => .ok []

/-- `LocalCrossEncoderReranker.rerank`. -/
def localRerank (backends : RerankerBackends) (query : String)
    (candidates : List RetrievedChunk) (topK : ℕ) : Except Raised ReRankOutcome :=
  if topK = 0 then .error (.exception "ValueError")
  else if candidates = [] then
    .ok { items := [], backend := "local-cross-encoder", applied := true }
  else do
    let scores ← replied (backends.predict (candidates.map fun c => (query, c.text)))
    if scores.length ≠ candidates.length then .error (.exception "RuntimeError")
    else do
      let scored ← scoreLoop 0 candidates scores
      .ok
        { items := ((Ranking.ranked (·.score) (·.zeroBasedRank) scored).take
            (min topK scored.length)).map fun s => ⟨s.candidate, s.zeroBasedRank + 1, some s.score⟩
          backend := "local-cross-encoder"
          applied := true }

/-! ## The dynamic reranker -/

def RerankerBackends.rerank (backends : RerankerBackends) :
    RerankerBackendName → String → List RetrievedChunk → ℕ → Except Raised ReRankOutcome
  | .voyage => voyageRerank backends
  | .local => localRerank backends

/-- `FailOpenReranker.rerank`, with the `NoOpReranker` to fall back to. -/
def failOpenRerank (name : String) (outcome : Except Raised ReRankOutcome)
    (candidates : List RetrievedChunk) (topK : ℕ) : Except Raised ReRankOutcome :=
  match outcome with
  | .ok outcome => .ok outcome
  | .error e =>
    if e.isException then do
      let fallback ← noOpRerank candidates topK
      .ok { items := fallback.items, backend := name, applied := false, fallback := true }
    else .error e

/-- `DynamicReranker.execute`. -/
def DynamicReranker.execute (r : DynamicReranker) (backends : RerankerBackends)
    (plan : RerankPlan) (query : String) (candidates : List RetrievedChunk) (topK : ℕ) :
    Except Raised ReRankOutcome :=
  if plan.cohort ≠ .treatment then noOpRerank candidates topK
  else
    match plan.backendKey with
    | none => .error (.exception "AssertionError")
    | some backend =>
      match r.delegate backend with
      | none => do
        let outcome ← noOpRerank candidates topK
        .ok
          { items := outcome.items, backend := backend.value, applied := false, fallback := true }
      | some delegate =>
        failOpenRerank delegate.name (backends.rerank backend query candidates topK) candidates topK

/-! ## What is returned -/

/-- Different candidates, as many as there can be, each with its rank. -/
structure Selects (candidates : List RetrievedChunk) (topK : ℕ) (items : List ReRankedChunk) :
    Prop where
  length : items.length = min topK candidates.length
  ranks : ∀ item ∈ items, 1 ≤ item.originalRank ∧
    candidates[item.originalRank - 1]? = some item.chunk
  distinct : (items.map (·.originalRank)).Nodup

/-- The first candidates, in the order of retrieval. -/
def firstItems (candidates : List RetrievedChunk) (topK : ℕ) : List ReRankedChunk :=
  (candidates.take topK).mapIdx fun i chunk => ⟨chunk, i + 1, none⟩

/-- A higher score, or the same score and an earlier place. -/
def Outranks (a b : ReRankedChunk) : Prop :=
  ∃ s t, a.rerankScore = some s ∧ b.rerankScore = some t ∧
    (t < s ∨ s = t ∧ a.originalRank < b.originalRank)

namespace RerankerBackends

variable (backends : RerankerBackends) (query : String) (candidates : List RetrievedChunk)
  (topK : ℕ)

/-- The reply gives a candidate this score. -/
def Gives (i : ℕ) (score : ℚ) : RerankerBackendName → Prop
  | .voyage => ∃ response,
      backends.client query (candidates.map (·.text)) (min topK candidates.length) = .ok response ∧
        ⟨some i, .finite score⟩ ∈ response.results
  | .local => ∃ scores, backends.predict (candidates.map fun c => (query, c.text)) = .ok scores ∧
      scores[i]? = some (.finite score)

/-- There is a reply, with the right number of finite scores and, from Voyage, different
indexes of candidates. -/
def Valid : RerankerBackendName → Prop
  | .voyage => ∃ response,
      backends.client query (candidates.map (·.text)) (min topK candidates.length) = .ok response ∧
        response.results.length = min topK candidates.length ∧
        (∀ result ∈ response.results, ∃ (i : ℕ) (score : ℚ), i < candidates.length ∧
          result = ⟨some i, .finite score⟩) ∧
        (response.results.map (·.index)).Nodup
  | .local => ∃ scores, backends.predict (candidates.map fun c => (query, c.text)) = .ok scores ∧
      scores.length = candidates.length ∧ ∀ score ∈ scores, ∃ value, score = .finite value

/-- A selection in the order of its scores, which are those of the reply. Of the local scores
they are the highest. -/
structure Ranks (backend : RerankerBackendName) (items : List ReRankedChunk) : Prop where
  selects : Selects candidates topK items
  sorted : items.Pairwise Outranks
  given : ∀ item ∈ items, ∃ score, item.rerankScore = some score ∧
    backends.Gives query candidates topK (item.originalRank - 1) score backend
  top : backend = .local → ∀ i score, backends.Gives query candidates topK i score backend →
    i + 1 ∉ items.map (·.originalRank) → ∀ item ∈ items, ∃ s, item.rerankScore = some s ∧
      (score < s ∨ s = score ∧ item.originalRank < i + 1)

end RerankerBackends

theorem selects_firstItems (candidates : List RetrievedChunk) (topK : ℕ) :
    Selects candidates topK (firstItems candidates topK) := by
  refine ⟨by rw [firstItems, List.length_mapIdx, List.length_take], ?_, ?_⟩
  · intro item hitem
    obtain ⟨i, hi, rfl⟩ := List.mem_mapIdx.1 hitem
    refine ⟨Nat.le_add_left _ _, ?_⟩
    have htake : i < min topK candidates.length := by rwa [List.length_take] at hi
    rw [Nat.add_sub_cancel, List.getElem?_eq_getElem (by omega), List.getElem_take]
  · refine List.pairwise_map.2 (List.pairwise_iff_getElem.2 fun i j hi hj hij => ?_)
    simp only [firstItems, List.getElem_mapIdx]
    omega

theorem noOpRerank_eq {candidates : List RetrievedChunk} {topK : ℕ} (h : 0 < topK) :
    noOpRerank candidates topK =
      .ok { items := firstItems candidates topK, backend := "none", applied := false } :=
  if_neg h.ne'

/-! ## Voyage replies -/

section Voyage

variable {candidates : List RetrievedChunk}

/-- An item as it is read from a result. -/
def ReadsAs (candidates : List RetrievedChunk) (result : VoyageResult) (item : ReRankedChunk) :
    Prop :=
  ∃ (i : ℕ) (score : ℚ), result = ⟨some i, .finite score⟩ ∧ candidates[i]? = some item.chunk ∧
    item.originalRank = i + 1 ∧ item.rerankScore = some score

theorem ReadsAs.index_eq {result : VoyageResult} {item : ReRankedChunk}
    (h : ReadsAs candidates result item) :
    result.index = some ((item.originalRank - 1 : ℕ) : ℤ) := by
  obtain ⟨i, score, rfl, -, hrank, -⟩ := h
  rw [hrank, Nat.add_sub_cancel]

/-- A result that is read, after the others. -/
theorem voyageLoop_cons {seen : List ℤ} {items : List ReRankedChunk} {result : VoyageResult}
    {item : ReRankedChunk} (h : ReadsAs candidates result item)
    (hnew : ∀ index ∈ result.index, index ∉ seen) (rest : List VoyageResult) :
    voyageLoop candidates seen items (result :: rest) =
      voyageLoop candidates (((item.originalRank - 1 : ℕ) : ℤ) :: seen) (items ++ [item]) rest := by
  obtain ⟨i, score, rfl, hchunk, hrank, hscore⟩ := h
  obtain ⟨hi, hget⟩ := List.getElem?_eq_some_iff.1 hchunk
  have hitem : item = ⟨candidates.get ⟨i, hi⟩, i + 1, some score⟩ := by
    cases item
    simp_all
  rw [voyageLoop]
  dsimp only [RawScore.float]
  rw [dif_pos ⟨Int.natCast_nonneg i, by omega⟩, if_neg (hnew _ rfl), hrank, hitem]
  rfl

/-- The loop stops at a result that is not read or was seen. -/
theorem voyageLoop_cons_eq_ok {seen : List ℤ} {items read : List ReRankedChunk}
    {result : VoyageResult} {rest : List VoyageResult}
    (h : voyageLoop candidates seen items (result :: rest) = .ok read) :
    (∃ item, ReadsAs candidates result item) ∧ ∀ index ∈ result.index, index ∉ seen := by
  rw [voyageLoop] at h
  split at h
  · exact nomatch h
  · exact nomatch h
  rename_i index score hindex hscore
  split at h
  · rename_i hrange
    split at h
    · exact nomatch h
    rename_i hseen
    split at h
    · exact nomatch h
    rename_i value
    have hraw : result.relevanceScore = .finite value := by
      cases hraw : result.relevanceScore with
      | finite other =>
        rw [hraw] at hscore
        exact congrArg _ (Option.some.inj (Except.ok.inj hscore))
      | notFinite =>
        rw [hraw] at hscore
        exact nomatch hscore
      | notNumber =>
        rw [hraw] at hscore
        exact nomatch hscore
    have hcast : ((index.toNat : ℕ) : ℤ) = index := Int.toNat_of_nonneg hrange.1
    refine ⟨⟨⟨candidates.get ⟨index.toNat, by omega⟩, index.toNat + 1, some value⟩, index.toNat,
      value, ?_, ?_, rfl, rfl⟩, fun other hother => ?_⟩
    · cases result
      simp_all
    · exact List.getElem?_eq_getElem (by omega)
    · obtain rfl := Option.some.inj (hindex.symm.trans hother)
      exact hseen
  · exact nomatch h

/-- The loop reads the results if they can be read and have different indexes that were not
seen. -/
theorem voyageLoop_eq_ok_iff : ∀ {results : List VoyageResult} {seen : List ℤ}
    {items read : List ReRankedChunk}, voyageLoop candidates seen items results = .ok read ↔
      ∃ added, read = items ++ added ∧ List.Forall₂ (ReadsAs candidates) results added ∧
        (results.map (·.index)).Nodup ∧ ∀ result ∈ results, ∀ index ∈ result.index, index ∉ seen
  | [], seen, items, read => by
    constructor
    · rintro ⟨⟩
      exact ⟨[], (List.append_nil _).symm, .nil, List.nodup_nil, List.forall_mem_nil _⟩
    · rintro ⟨added, rfl, hread, -⟩
      rw [List.forall₂_nil_left_iff.1 hread, List.append_nil]
      rfl
  | result :: rest, seen, items, read => by
    constructor
    · intro h
      obtain ⟨⟨item, hitem⟩, hnew⟩ := voyageLoop_cons_eq_ok h
      rw [voyageLoop_cons hitem hnew] at h
      obtain ⟨added, rfl, hread, hnodup, hseen⟩ := voyageLoop_eq_ok_iff.1 h
      refine ⟨item :: added, List.append_assoc _ _ _, .cons hitem hread, ?_,
        List.forall_mem_cons.2 ⟨hnew, fun other hother index hindex hmem =>
          hseen other hother index hindex (List.mem_cons_of_mem _ hmem)⟩⟩
      refine List.nodup_cons.2 ⟨fun hmem => ?_, hnodup⟩
      obtain ⟨other, hother, hsame⟩ := List.mem_map.1 hmem
      exact hseen other hother _ (hsame.trans hitem.index_eq) (List.mem_cons_self ..)
    · rintro ⟨_, rfl, hall, hnodup, hseen⟩
      obtain ⟨item, added, hitem, hread, rfl⟩ := List.forall₂_cons_left_iff.1 hall
      obtain ⟨hfresh, hnodup⟩ := List.nodup_cons.1 hnodup
      obtain ⟨hnew, hseen⟩ := List.forall_mem_cons.1 hseen
      rw [voyageLoop_cons hitem hnew]
      refine voyageLoop_eq_ok_iff.2 ⟨added, (List.append_assoc items [item] added).symm, hread,
        hnodup, fun other hother index hindex hmem => ?_⟩
      rcases List.mem_cons.1 hmem with rfl | hmem
      · exact hfresh (List.mem_map.2 ⟨other, hother, hindex.trans hitem.index_eq.symm⟩)
      · exact hseen other hother index hindex hmem

/-- The loop raises nothing that is not caught. -/
theorem isException_of_voyageLoop : ∀ {results : List VoyageResult} {seen : List ℤ}
    {items : List ReRankedChunk} {e : Raised},
      voyageLoop candidates seen items results = .error e → e.isException = true
  | [], _, _, _, h => nomatch h
  | result :: rest, seen, items, e, h => by
    rw [voyageLoop] at h
    split at h
    · exact Except.error.inj h ▸ rfl
    · rename_i e' _ hfloat
      obtain rfl := Except.error.inj h
      cases hraw : result.relevanceScore with
      | finite value =>
        rw [hraw] at hfloat
        exact nomatch hfloat
      | notFinite =>
        rw [hraw] at hfloat
        exact nomatch hfloat
      | notNumber =>
        rw [hraw] at hfloat
        exact Except.error.inj hfloat ▸ rfl
    split at h
    · split at h
      · exact Except.error.inj h ▸ rfl
      split at h
      · exact Except.error.inj h ▸ rfl
      · exact isException_of_voyageLoop h
    · exact Except.error.inj h ▸ rfl

/-- The items that are read are candidates with their ranks, and different. -/
theorem map_originalRank_of_reads {results : List VoyageResult} {added : List ReRankedChunk}
    (h : List.Forall₂ (ReadsAs candidates) results added) :
    results.map (·.index) = (added.map (·.originalRank)).map fun rank => some ((rank - 1 : ℕ) : ℤ) := by
  induction h with
  | nil => rfl
  | cons hitem _ ih => rw [List.map_cons, List.map_cons, List.map_cons, hitem.index_eq, ih]

/-- Results can be read if they have indexes of candidates and finite scores. -/
theorem exists_reads_iff {results : List VoyageResult} :
    (∃ added, List.Forall₂ (ReadsAs candidates) results added) ↔
      ∀ result ∈ results, ∃ (i : ℕ) (score : ℚ), i < candidates.length ∧
        result = ⟨some i, .finite score⟩ := by
  induction results with
  | nil => exact ⟨fun _ => List.forall_mem_nil _, fun _ => ⟨[], .nil⟩⟩
  | cons result rest ih =>
    rw [List.forall_mem_cons, ← ih]
    constructor
    · rintro ⟨_, h⟩
      obtain ⟨item, added, ⟨i, score, hresult, hchunk, -, -⟩, hread, rfl⟩ :=
        List.forall₂_cons_left_iff.1 h
      exact ⟨⟨i, score, (List.getElem?_eq_some_iff.1 hchunk).1, hresult⟩, added, hread⟩
    · rintro ⟨⟨i, score, hi, rfl⟩, added, hread⟩
      exact ⟨⟨candidates[i], i + 1, some score⟩ :: added,
        .cons ⟨i, score, rfl, List.getElem?_eq_getElem hi, rfl, rfl⟩ hread⟩

variable {backends : RerankerBackends} {query : String} {topK : ℕ}

theorem ranks_voyage {response : VoyageResponse} {items : List ReRankedChunk}
    (hreply : backends.client query (candidates.map (·.text)) (min topK candidates.length) =
      .ok response)
    (hloop : voyageLoop candidates [] [] response.results = .ok items)
    (hcount : items.length = min topK candidates.length) :
    backends.Ranks query candidates topK .voyage
      (Ranking.ranked (·.rerankScore.getD 0) (·.originalRank) items) := by
  obtain ⟨added, hadded, hread, hnodup, -⟩ := voyageLoop_eq_ok_iff.1 hloop
  obtain rfl : items = added := hadded
  have hperm : (Ranking.ranked (·.rerankScore.getD 0) (·.originalRank) items).Perm items :=
    Ranking.perm_ranked items
  have hranks : (items.map (·.originalRank)).Nodup := by
    rw [map_originalRank_of_reads hread] at hnodup
    exact hnodup.of_map
  have hitem : ∀ item ∈ items, ∃ result ∈ response.results, ReadsAs candidates result item := by
    intro item hmem
    obtain ⟨i, hi, rfl⟩ := List.getElem_of_mem hmem
    have hi' : i < response.results.length := hread.length_eq ▸ hi
    exact ⟨response.results[i], List.getElem_mem hi', hread.get hi' hi⟩
  refine ⟨⟨hperm.length_eq.trans hcount, fun item hmem => ?_, (hperm.map _).nodup_iff.2 hranks⟩,
    (Ranking.pairwise_ranked hranks).imp_of_mem fun ha hb hab => ?_, fun item hmem => ?_,
    fun h => nomatch h⟩
  · obtain ⟨result, -, i, score, -, hchunk, hrank, -⟩ := hitem item (hperm.mem_iff.1 hmem)
    rw [hrank]
    exact ⟨Nat.le_add_left _ _, hchunk⟩
  · obtain ⟨-, -, -, s, -, -, -, hs⟩ := hitem _ (hperm.mem_iff.1 ha)
    obtain ⟨-, -, -, t, -, -, -, ht⟩ := hitem _ (hperm.mem_iff.1 hb)
    rw [hs, ht] at hab
    exact ⟨s, t, hs, ht, hab⟩
  · obtain ⟨result, hresult, i, score, rfl, -, hrank, hscore⟩ :=
      hitem item (hperm.mem_iff.1 hmem)
    refine ⟨score, hscore, response, hreply, ?_⟩
    rwa [hrank, Nat.add_sub_cancel]

end Voyage

/-! ## Local scores -/

section Local

variable {backends : RerankerBackends} {query : String} {candidates : List RetrievedChunk}
  {topK : ℕ}

/-- With a score for each candidate, the loop pairs them if the scores are finite. -/
theorem scoreLoop_eq_ok_iff : ∀ {rank : ℕ} {candidates : List RetrievedChunk}
    {scores : List RawScore} {scored : List ScoredCandidate}, scores.length = candidates.length →
      (scoreLoop rank candidates scores = .ok scored ↔ scored.map (·.candidate) = candidates ∧
        scored.map (fun s => .finite s.score) = scores ∧
          scored.map (·.zeroBasedRank) = List.range' rank candidates.length)
  | _, [], [], scored, _ => by
    constructor
    · rintro ⟨⟩
      exact ⟨rfl, rfl, rfl⟩
    · rintro ⟨h, -, -⟩
      rw [List.map_eq_nil_iff.1 h]
      rfl
  | _, _ :: _, [], _, h => nomatch h
  | _, [], _ :: _, _, h => nomatch h
  | rank, candidate :: candidates, score :: scores, scored, hlength => by
    have ih : ∀ rest, scoreLoop (rank + 1) candidates scores = .ok rest ↔ _ :=
      fun rest => scoreLoop_eq_ok_iff (Nat.succ.inj hlength)
    constructor
    · intro h
      obtain ⟨value, hfloat, h⟩ := bind_eq_ok.1 h
      cases value with
      | none => exact nomatch h
      | some value =>
        obtain ⟨rest, hrest, h⟩ := bind_eq_ok.1 h
        obtain rfl := Except.ok.inj h
        obtain ⟨rfl, rfl, hranks⟩ := (ih rest).1 hrest
        have hscore : score = .finite value := by
          cases score with
          | finite other => exact congrArg _ (Option.some.inj (Except.ok.inj hfloat))
          | notFinite => exact nomatch hfloat
          | notNumber => exact nomatch hfloat
        exact ⟨rfl, by rw [hscore]; rfl, congrArg _ hranks⟩
    · rintro ⟨hall, hall', hall''⟩
      obtain ⟨first, rest, rfl⟩ : ∃ first rest, scored = first :: rest :=
        List.exists_cons_of_ne_nil fun hempty => nomatch hempty ▸ hall
      obtain ⟨hfirst, hcandidates⟩ := List.cons.inj hall
      obtain ⟨rfl, hscores⟩ := List.cons.inj hall'
      obtain ⟨hrank, hranks⟩ := List.cons.inj hall''
      refine bind_eq_ok.2 ⟨some first.score, rfl, bind_eq_ok.2 ⟨rest,
        (ih rest).2 ⟨hcandidates, hscores, hranks⟩, ?_⟩⟩
      rw [← hfirst, ← hrank]
      rfl

/-- The loop raises nothing that is not caught. -/
theorem isException_of_scoreLoop : ∀ {rank : ℕ} {candidates : List RetrievedChunk}
    {scores : List RawScore} {e : Raised}, scoreLoop rank candidates scores = .error e →
      e.isException = true
  | _, [], _, _, h => by
    rw [scoreLoop.eq_def] at h
    exact nomatch h
  | _, _ :: _, [], _, h => nomatch h
  | rank, candidate :: candidates, score :: scores, e, h => by
    cases score with
    | finite value =>
      cases hrest : scoreLoop (rank + 1) candidates scores with
      | error e' =>
        rw [scoreLoop, hrest] at h
        exact Except.error.inj h ▸ isException_of_scoreLoop hrest
      | ok rest =>
        rw [scoreLoop, hrest] at h
        exact nomatch h
    | notFinite => exact Except.error.inj h ▸ rfl
    | notNumber => exact Except.error.inj h ▸ rfl

theorem exists_scored : ∀ {rank : ℕ} {candidates : List RetrievedChunk} {scores : List RawScore},
    scores.length = candidates.length → (∀ score ∈ scores, ∃ value, score = .finite value) →
      ∃ scored, scoreLoop rank candidates scores = .ok scored
  | _, [], [], _, _ => ⟨[], rfl⟩
  | _, _ :: _, [], h, _ => nomatch h
  | _, [], _ :: _, h, _ => nomatch h
  | rank, candidate :: candidates, score :: scores, hlength, hfinite => by
    obtain ⟨⟨value, rfl⟩, hothers⟩ := List.forall_mem_cons.1 hfinite
    obtain ⟨rest, hrest⟩ : ∃ rest, scoreLoop (rank + 1) candidates scores = .ok rest :=
      exists_scored (Nat.succ.inj hlength) hothers
    exact ⟨⟨rank, candidate, value⟩ :: rest, bind_eq_ok.2 ⟨some value, rfl,
      bind_eq_ok.2 ⟨rest, hrest, rfl⟩⟩⟩

/-- Each is scored at its own place. -/
theorem of_scored {scores : List RawScore} {scored : List ScoredCandidate}
    (hlength : scores.length = candidates.length)
    (h : scoreLoop 0 candidates scores = .ok scored) {i : ℕ} {s : ScoredCandidate}
    (hs : scored[i]? = some s) :
    s.zeroBasedRank = i ∧ candidates[i]? = some s.candidate ∧
      scores[i]? = some (.finite s.score) := by
  obtain ⟨hcandidates, hscores, hranks⟩ := (scoreLoop_eq_ok_iff hlength).1 h
  refine ⟨?_, ?_, ?_⟩
  · have hrank := congrArg (·[i]?) hranks
    obtain ⟨hi, -⟩ := List.getElem?_eq_some_iff.1 hs
    have hcount : i < candidates.length := by rwa [← hcandidates, List.length_map]
    simpa [hs, List.getElem?_range' hcount] using hrank
  · rw [← hcandidates, List.getElem?_map, hs]
    rfl
  · rw [← hscores, List.getElem?_map, hs]
    rfl

theorem ranks_local {scores : List RawScore} {scored : List ScoredCandidate}
    (hreply : backends.predict (candidates.map fun c => (query, c.text)) = .ok scores)
    (hlength : scores.length = candidates.length)
    (hloop : scoreLoop 0 candidates scores = .ok scored) :
    backends.Ranks query candidates topK .local
      (((Ranking.ranked (·.score) (·.zeroBasedRank) scored).take
        (min topK scored.length)).map fun s => ⟨s.candidate, s.zeroBasedRank + 1, some s.score⟩) := by
  obtain ⟨hcandidates, hscores, hranks⟩ := (scoreLoop_eq_ok_iff hlength).1 hloop
  have hcount : scored.length = candidates.length := by rw [← hcandidates, List.length_map]
  have hperm : (Ranking.ranked (·.score) (·.zeroBasedRank) scored).Perm scored :=
    Ranking.perm_ranked scored
  have htake := List.take_sublist (min topK scored.length)
    (Ranking.ranked (·.score) (·.zeroBasedRank) scored)
  have hnodup : (scored.map (·.zeroBasedRank)).Nodup := hranks ▸ List.nodup_range'
  have hplaced : ∀ s ∈ scored, candidates[s.zeroBasedRank]? = some s.candidate ∧
      scores[s.zeroBasedRank]? = some (.finite s.score) := by
    intro s hs
    obtain ⟨i, hi⟩ := List.getElem?_of_mem hs
    obtain ⟨hrank, hplaced⟩ := of_scored hlength hloop hi
    rwa [hrank]
  refine ⟨⟨?_, ?_, ?_⟩, ?_, ?_, ?_⟩
  · rw [List.length_map, List.length_take, hperm.length_eq, hcount]
    omega
  · refine List.forall_mem_map.2 fun s hs => ⟨Nat.le_add_left _ _, ?_⟩
    exact (hplaced s (hperm.mem_iff.1 (htake.mem hs))).1
  · rw [List.map_map]
    have hsub := (htake.map (·.zeroBasedRank)).nodup ((hperm.map _).nodup_iff.2 hnodup)
    exact List.map_map (g := (· + 1)) ▸ hsub.map fun _ _ => Nat.succ.inj
  · refine List.pairwise_map.2 (((Ranking.pairwise_ranked hnodup).sublist htake).imp ?_)
    rintro a b (hlt | ⟨heq, hlt⟩)
    · exact ⟨a.score, b.score, rfl, rfl, Or.inl hlt⟩
    · exact ⟨a.score, b.score, rfl, rfl, Or.inr ⟨heq, Nat.succ_lt_succ hlt⟩⟩
  · refine List.forall_mem_map.2 fun s hs => ⟨s.score, rfl, scores, hreply, ?_⟩
    exact (hplaced s (hperm.mem_iff.1 (htake.mem hs))).2
  · rintro - i score ⟨scores', hreply', hgiven⟩ hout
    obtain rfl := Except.ok.inj (hreply.symm.trans hreply')
    obtain ⟨other, hother⟩ : ∃ other, scored[i]? = some other := by
      obtain ⟨hi, -⟩ := List.getElem?_eq_some_iff.1 hgiven
      exact ⟨_, List.getElem?_eq_getElem (by omega)⟩
    obtain ⟨rfl, -, hscore⟩ := of_scored hlength hloop hother
    obtain rfl : other.score = score :=
      RawScore.finite.inj (Option.some.inj (hscore.symm.trans hgiven))
    have hleft : other ∉ (Ranking.ranked (·.score) (·.zeroBasedRank) scored).take
        (min topK scored.length) := fun hmem =>
      hout (List.mem_map_of_mem (List.mem_map_of_mem hmem))
    refine List.forall_mem_map.2 fun s hs => ⟨s.score, rfl, ?_⟩
    rcases Ranking.before_of_take_ranked hs (List.mem_of_getElem? hother) hleft with
      hlt | ⟨heq, hle⟩
    · exact Or.inl hlt
    · refine Or.inr ⟨heq, Nat.succ_lt_succ (lt_of_le_of_ne hle fun hsame => ?_)⟩
      refine hout (List.mem_map.2 ⟨_, List.mem_map_of_mem hs, ?_⟩)
      exact congrArg (· + 1) hsame

end Local

/-! ## The contract -/

section Execute

variable {backends : RerankerBackends} {query : String} {candidates : List RetrievedChunk}
  {topK : ℕ}

/-- The reply is valid and it is ranked, or it is not and an exception is raised. -/
def RanksOrRaises (backends : RerankerBackends) (query : String)
    (candidates : List RetrievedChunk) (topK : ℕ) (backend : RerankerBackendName) : Prop :=
  (backends.Valid query candidates topK backend ∧ ∃ outcome,
    backends.rerank backend query candidates topK = .ok outcome ∧ outcome.applied = true ∧
      outcome.fallback = false ∧ backends.Ranks query candidates topK backend outcome.items) ∨
  (¬backends.Valid query candidates topK backend ∧ ∃ e,
    backends.rerank backend query candidates topK = .error e ∧ e.isException = true)

theorem voyageRerank_eq (hne : candidates ≠ []) (htopK : 0 < topK) :
    voyageRerank backends query candidates topK = (do
      let response ← replied
        (backends.client query (candidates.map (·.text)) (min topK candidates.length))
      let items ← voyageLoop candidates [] [] response.results
      if items.length ≠ min topK candidates.length then .error (.exception "RuntimeError")
      else
        .ok
          { items := Ranking.ranked (·.rerankScore.getD 0) (·.originalRank) items
            backend := "voyage"
            applied := true
            usageTokens := response.totalTokens }) := by
  rw [voyageRerank, if_neg htopK.ne', if_neg hne]

theorem ranksOrRaises_voyage (hne : candidates ≠ []) (htopK : 0 < topK) :
    RanksOrRaises backends query candidates topK .voyage := by
  have hrun : backends.rerank .voyage query candidates topK = _ :=
    voyageRerank_eq hne htopK
  cases hreply : backends.client query (candidates.map (·.text))
      (min topK candidates.length) with
  | error name =>
    rw [hreply] at hrun
    refine Or.inr ⟨?_, _, hrun, rfl⟩
    rintro ⟨response, hresponse, -⟩
    exact nomatch hreply.symm.trans hresponse
  | ok response =>
    have hvalid : backends.Valid query candidates topK .voyage ↔ ∃ items,
        voyageLoop candidates [] [] response.results = .ok items ∧
          items.length = min topK candidates.length := by
      constructor
      · rintro ⟨response', hresponse, hcount, hread, hnodup⟩
        obtain rfl := Except.ok.inj (hreply.symm.trans hresponse)
        obtain ⟨added, hread⟩ := exists_reads_iff.2 hread
        exact ⟨added, voyageLoop_eq_ok_iff.2 ⟨added, rfl, hread, hnodup,
          fun _ _ _ _ h => List.not_mem_nil h⟩, hread.length_eq.symm.trans hcount⟩
      · rintro ⟨items, hloop, hcount⟩
        obtain ⟨added, rfl, hread, hnodup, -⟩ := voyageLoop_eq_ok_iff.1 hloop
        exact ⟨response, hreply, hread.length_eq.trans hcount,
          exists_reads_iff.1 ⟨_, hread⟩, hnodup⟩
    rw [hreply] at hrun
    change _ = (voyageLoop candidates [] [] response.results >>= _) at hrun
    rw [RanksOrRaises, hvalid]
    cases hloop : voyageLoop candidates [] [] response.results with
    | error e =>
      rw [hloop] at hrun
      refine Or.inr ⟨?_, e, hrun, isException_of_voyageLoop hloop⟩
      rintro ⟨items, hitems, -⟩
      exact nomatch hitems
    | ok items =>
      rw [hloop] at hrun
      by_cases hcount : items.length = min topK candidates.length
      · have hsame := hrun.trans (if_neg (not_not.2 hcount))
        exact Or.inl ⟨⟨items, rfl, hcount⟩, _, hsame, rfl, rfl, ranks_voyage hreply hloop hcount⟩
      · have hother := hrun.trans (if_pos hcount)
        refine Or.inr ⟨?_, _, hother, rfl⟩
        rintro ⟨items', hitems, hcount'⟩
        obtain rfl := Except.ok.inj hitems
        exact hcount hcount'

theorem localRerank_eq (hne : candidates ≠ []) (htopK : 0 < topK) :
    localRerank backends query candidates topK = (do
      let scores ← replied (backends.predict (candidates.map fun c => (query, c.text)))
      if scores.length ≠ candidates.length then .error (.exception "RuntimeError")
      else do
        let scored ← scoreLoop 0 candidates scores
        .ok
          { items := ((Ranking.ranked (·.score) (·.zeroBasedRank) scored).take
              (min topK scored.length)).map fun s =>
                ⟨s.candidate, s.zeroBasedRank + 1, some s.score⟩
            backend := "local-cross-encoder"
            applied := true }) := by
  rw [localRerank, if_neg htopK.ne', if_neg hne]

theorem ranksOrRaises_local (hne : candidates ≠ []) (htopK : 0 < topK) :
    RanksOrRaises backends query candidates topK .local := by
  have hrun : backends.rerank .local query candidates topK = _ :=
    localRerank_eq hne htopK
  cases hreply : backends.predict (candidates.map fun c => (query, c.text)) with
  | error name =>
    rw [hreply] at hrun
    refine Or.inr ⟨?_, _, hrun, rfl⟩
    rintro ⟨scores, hscores, -⟩
    exact nomatch hreply.symm.trans hscores
  | ok scores =>
    rw [hreply] at hrun
    by_cases hlength : scores.length = candidates.length
    · have hsame := hrun.trans (if_neg (not_not.2 hlength))
      cases hloop : scoreLoop 0 candidates scores with
      | error e =>
        rw [hloop] at hsame
        refine Or.inr ⟨?_, e, hsame, isException_of_scoreLoop hloop⟩
        rintro ⟨scores', hscores, -, hfinite⟩
        obtain rfl := Except.ok.inj (hreply.symm.trans hscores)
        obtain ⟨scored, hscored⟩ := exists_scored hlength hfinite
        exact nomatch hloop.symm.trans hscored
      | ok scored =>
        rw [hloop] at hsame
        refine Or.inl ⟨⟨scores, hreply, hlength, ?_⟩, _, hsame, rfl, rfl,
          ranks_local hreply hlength hloop⟩
        rw [← ((scoreLoop_eq_ok_iff hlength).1 hloop).2.1]
        exact List.forall_mem_map.2 fun s _ => ⟨s.score, rfl⟩
    · have hother := hrun.trans (if_pos hlength)
      refine Or.inr ⟨?_, _, hother, rfl⟩
      rintro ⟨scores', hscores, hlength', -⟩
      obtain rfl := Except.ok.inj (hreply.symm.trans hscores)
      exact hlength hlength'

theorem ranksOrRaises (hne : candidates ≠ []) (htopK : 0 < topK) :
    ∀ backend, RanksOrRaises backends query candidates topK backend
  | .voyage => ranksOrRaises_voyage hne htopK
  | .local => ranksOrRaises_local hne htopK

variable {r : DynamicReranker} {plan : RerankPlan} {backend : RerankerBackendName}

/-- The first candidates are what there is to fall back to. -/
theorem failOpenRerank_of_error {name : String} {e : Raised} (htopK : 0 < topK)
    (h : e.isException = true) :
    failOpenRerank name (.error e) candidates topK =
      .ok { items := firstItems candidates topK
            backend := name
            applied := false
            fallback := true } := by
  rw [failOpenRerank, if_pos h, noOpRerank_eq htopK]
  rfl

/-- A treatment request gets as many different candidates as there can be. They are ranked by
the backend exactly if it is there and its reply is valid, and otherwise they are the first in
the order of retrieval. -/
theorem execute_selects (hcohort : plan.cohort = .treatment) (hkey : plan.backendKey = some backend)
    (hne : candidates ≠ []) (htopK : 0 < topK) :
    ∃ outcome, r.execute backends plan query candidates topK = .ok outcome ∧
      Selects candidates topK outcome.items ∧
      (outcome.applied = true ↔ r.delegate backend ≠ none ∧
        backends.Valid query candidates topK backend) ∧
      (outcome.applied = true →
        outcome.fallback = false ∧ backends.Ranks query candidates topK backend outcome.items) ∧
      (outcome.applied = false →
        outcome.fallback = true ∧ outcome.items = firstItems candidates topK) := by
  have hfirst := selects_firstItems candidates topK
  rw [DynamicReranker.execute, if_neg (not_not.2 hcohort), hkey]
  dsimp only
  cases hdelegate : r.delegate backend with
  | none =>
    refine ⟨_, bind_eq_ok.2 ⟨_, noOpRerank_eq htopK, rfl⟩, hfirst, ?_, nofun, fun _ => ⟨rfl, rfl⟩⟩
    exact ⟨nofun, fun h => absurd rfl h.1⟩
  | some delegate =>
    rcases ranksOrRaises hne htopK backend with
      ⟨hvalid, outcome, hrun, happlied, hfallback, hranks⟩ | ⟨hvalid, e, hrun, he⟩
    · rw [hrun]
      refine ⟨outcome, rfl, hranks.selects, ⟨fun _ => ⟨nofun, hvalid⟩, fun _ => happlied⟩,
        fun _ => ⟨hfallback, hranks⟩, fun h => ?_⟩
      exact nomatch happlied.symm.trans h
    · rw [hrun]
      refine ⟨_, failOpenRerank_of_error htopK he, hfirst, ⟨nofun, fun h => absurd h.2 hvalid⟩,
        nofun, fun _ => ⟨rfl, rfl⟩⟩

/-- Three chunks, of which the cross encoder scores the last two the same and higher. -/
def scoredAlike : RerankerBackends where
  predict pairs := .ok (pairs.mapIdx fun i _ => .finite (min i 1))
  client _ _ _ := .error "APIConnectionError"

def threeChunks : List RetrievedChunk :=
  ["one", "two", "three"].map fun text => { text, source := "policy.pdf", score := 1 }

def treated (backend : RerankerBackendName) : RerankPlan where
  cohort := .treatment
  bypassReason := none
  cacheNamespace := "dynamic:v1:cohort=treatment:backend=" ++ backend.value
  backendKey := some backend
  reportedBackend := backend.value

theorem execute_selects_scoredAlike :
    ∃ outcome, (DynamicReranker.mk ⟨"local-cross-encoder", "local"⟩ none).execute scoredAlike
        (treated .local) "q" threeChunks 2 = .ok outcome ∧
      Selects threeChunks 2 outcome.items ∧
      (outcome.applied = true ↔
        (DynamicReranker.mk ⟨"local-cross-encoder", "local"⟩ none).delegate .local ≠ none ∧
          scoredAlike.Valid "q" threeChunks 2 .local) ∧
      (outcome.applied = true →
        outcome.fallback = false ∧ scoredAlike.Ranks "q" threeChunks 2 .local outcome.items) ∧
      (outcome.applied = false →
        outcome.fallback = true ∧ outcome.items = firstItems threeChunks 2) :=
  execute_selects rfl rfl (by simp [threeChunks]) (by decide)

end Execute

/-! ## The step of the service -/

section Service

variable {svc : RAGService} {backends : RerankerBackends} {q : RagRequest} {plan : RerankPlan}
  {backend : RerankerBackendName} {o : RagOracle}

/-- Where the reranker's calls are answered by the backends, the step of a run is `execute`. -/
theorem run_executeRerank (hcohort : plan.cohort = .treatment)
    (hkey : plan.backendKey = some backend)
    (ho : ∀ past question candidates topK, o past (.rerank backend question candidates topK) =
      backends.rerank backend question candidates topK)
    (past : List (Program.Event RagOp RagOp.Res)) (chunks : List RetrievedChunk) :
    (Program.run o past (svc.executeRerank q backend chunks)).1 =
      svc.reranker.execute backends plan q.call.question chunks q.call.topK := by
  rw [DynamicReranker.execute, if_neg (not_not.2 hcohort), hkey, RAGService.executeRerank]
  dsimp only
  -- the order of retrieval, under either name
  have hnoOp : ∀ past' name, (Program.run o past' (do
      let outcome ← Program.orRaise (noOpRerank chunks q.call.topK)
      return { outcome with backend := name, fallback := true } : RagProgram ReRankOutcome)).1 =
      (do
        let outcome ← noOpRerank chunks q.call.topK
        .ok { items := outcome.items, backend := name, applied := false, fallback := true }) := by
    intro past' name
    rw [noOpRerank]
    split
    · rfl
    · rfl
  cases svc.reranker.delegate backend with
  | none => exact hnoOp past backend.value
  | some delegate =>
    dsimp only
    rw [RagProgram.exceptException, Program.run_tryCatch, Program.run_ask, id, ho]
    cases backends.rerank backend q.call.question chunks q.call.topK with
    | ok outcome => rfl
    | error e =>
      dsimp only [failOpenRerank]
      split
      · exact hnoOp _ delegate.name
      · rfl

end Service

end EnterpriseRag
