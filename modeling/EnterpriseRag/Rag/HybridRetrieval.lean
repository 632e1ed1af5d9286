import EnterpriseRag.Core.Exceptions
import EnterpriseRag.Library.RankFusion
import EnterpriseRag.Rag.Evidence
import Mathlib.Algebra.Order.Field.Rat
import Mathlib.Data.List.Dedup
import Mathlib.Tactic.Ring

/-!
# Hybrid retrieval

`HybridRetrievalStrategy` has the vector store fuse a dense and a sparse ranking of the chunks by
reciprocal ranks, and divides the fused scores by the greatest there can be, for the scale of
`confidence_scorer`. `retrieved_scores` says for every store that fuses as documented what the
scores are : 1 for a chunk that both rankings put first and for no other, at most 1/2 for a chunk
that only one of them has, and never cut by the `min`. Asking for fewer chunks gives the first of
the scores (`retrieved_prefix`).
-/

namespace EnterpriseRag

open RankFusion

/-- The payload of a point, where a key may be missing. -/
structure PointPayload where
  text : Option String := none
  source : Option String := none
  pageNumber : Option ℤ := none
  deriving DecidableEq, Repr

structure ScoredPoint where
  id : String
  score : ℚ
  payload : Option PointPayload
  deriving DecidableEq, Repr

/-- `_to_retrieved_chunk`. -/
def toRetrievedChunk (point : ScoredPoint) : RetrievedChunk where
  text := (point.payload.bind (·.text)).getD ""
  source := (point.payload.bind (·.source)).getD ""
  score := point.score
  pageNumber := point.payload.bind (·.pageNumber)

/-- `query_points` of the store with two prefetches of `candidateTopK` points, fused with
`rrfK`, and at most `limit` points in the answer. -/
abbrev QueryPoints (E : Type) :=
  (queryEmbedding : E) → (queryText : String) → (candidateTopK rrfK limit : ℕ) →
    Except Raised (List ScoredPoint)

structure HybridRetrievalStrategy where
  rrfK : ℕ := 60
  candidateTopK : ℕ := 20
  rrfK_pos : 0 < rrfK
  candidateTopK_pos : 0 < candidateTopK

namespace HybridRetrievalStrategy

variable {E : Type} (queryPoints : QueryPoints E)

/-- `search_hybrid`. -/
def searchHybrid (queryEmbedding : E) (queryText : String) (topK candidateTopK rrfK : ℕ) :
    Except Raised (List RetrievedChunk) := do
  let results ← queryPoints queryEmbedding queryText candidateTopK rrfK topK
  return results.map toRetrievedChunk

/-- `hybrid_search`. -/
def hybridSearch (queryEmbedding : E) (queryText : String) (topK rrfK candidateTopK : ℕ) :
    Except Raised (List RetrievedChunk) := do
  let candidateTopK := max topK candidateTopK
  let fusedResults ← searchHybrid queryPoints queryEmbedding queryText topK candidateTopK rrfK
  let maxRrfScore : ℚ := 2 / rrfK
  return fusedResults.map fun chunk => { chunk with score := min (chunk.score / maxRrfScore) 1 }

/-- `retrieve`. -/
def retrieve (s : HybridRetrievalStrategy) (queryText : String) (queryEmbedding : Option E)
    (topK : ℕ) : Except Raised (List RetrievedChunk) :=
  match queryEmbedding with
  | none => .error (.exception "AssertionError")
  | some queryEmbedding =>
    let candidateTopK := max topK s.candidateTopK
    hybridSearch queryPoints queryEmbedding queryText topK s.rrfK candidateTopK

end HybridRetrievalStrategy

/-! ## The vector store -/

/-- The rankings of the store, nearest first, and its points. -/
structure VectorStore (E : Type) where
  dense : E → List String
  sparse : String → List String
  payload : String → Option PointPayload

namespace VectorStore

variable {E : Type} (store : VectorStore E)

/-- What the two prefetches get. -/
def prefetched (queryEmbedding : E) (queryText : String) (candidateTopK : ℕ) :
    List (List String) :=
  [(store.dense queryEmbedding).take candidateTopK, (store.sparse queryText).take candidateTopK]

def candidates (queryEmbedding : E) (queryText : String) (candidateTopK : ℕ) : List String :=
  (store.prefetched queryEmbedding queryText candidateTopK).flatten.dedup

/-- The store fuses by reciprocal ranks counted from 0, and answers with the best. -/
def Fuses (queryPoints : QueryPoints E) : Prop :=
  ∀ queryEmbedding queryText candidateTopK rrfK limit results,
    queryPoints queryEmbedding queryText candidateTopK rrfK limit = .ok results →
    Best (fused rrfK (store.prefetched queryEmbedding queryText candidateTopK) : String → ℚ)
        (store.candidates queryEmbedding queryText candidateTopK) limit (results.map (·.id)) ∧
      ∀ point ∈ results, point.payload = store.payload point.id ∧
        point.score = fused rrfK (store.prefetched queryEmbedding queryText candidateTopK) point.id

/-- The fused score on the scale from 0 to 1. -/
def agreement (rrfK : ℕ) (rankings : List (List String)) (id : String) : ℚ :=
  fused rrfK rankings id / (2 / rrfK)

/-- The chunk of a point. -/
def chunk (rrfK : ℕ) (rankings : List (List String)) (id : String) : RetrievedChunk :=
  toRetrievedChunk ⟨id, agreement rrfK rankings id, store.payload id⟩

/-- A store that sorts the candidates. -/
def answer : QueryPoints E := fun queryEmbedding queryText candidateTopK rrfK limit =>
  let rankings := store.prefetched queryEmbedding queryText candidateTopK
  let ids := ((store.candidates queryEmbedding queryText candidateTopK).insertionSort
    fun id id' => (fused rrfK rankings id' : ℚ) ≤ fused rrfK rankings id).take limit
  .ok (ids.map fun id => ⟨id, fused rrfK rankings id, store.payload id⟩)

theorem fuses_answer : store.Fuses store.answer := by
  intro queryEmbedding queryText candidateTopK rrfK limit results h
  obtain rfl := Except.ok.inj h
  refine ⟨?_, fun point hpoint => ?_⟩
  · rw [List.map_map, Function.comp_def, List.map_id']
    exact best_take_insertionSort _ _ _
  · obtain ⟨id, -, rfl⟩ := List.mem_map.1 hpoint
    exact ⟨rfl, rfl⟩

section Agreement

variable {rrfK : ℕ} {dense sparse : List String} {id : String}

theorem maxRrfScore_pos (hk : 0 < rrfK) : (0 : ℚ) < 2 / rrfK :=
  div_pos two_pos (by exact_mod_cast hk)

theorem agreement_pos (hk : 0 < rrfK) (h : id ∈ dense ∨ id ∈ sparse) :
    0 < agreement rrfK [dense, sparse] id := by
  refine div_pos ?_ (maxRrfScore_pos hk)
  rcases h with h | h
  · exact fused_pos_of_mem hk List.mem_cons_self h
  · exact fused_pos_of_mem hk (List.mem_cons_of_mem dense (List.mem_singleton_self sparse)) h

theorem agreement_le_one (hk : 0 < rrfK) : agreement rrfK [dense, sparse] id ≤ 1 :=
  (div_le_one (maxRrfScore_pos hk)).2 (fused_le hk)

theorem agreement_eq_one_iff (hk : 0 < rrfK) : agreement rrfK [dense, sparse] id = 1 ↔
    dense.head? = some id ∧ sparse.head? = some id := by
  rw [agreement, div_eq_one_iff_eq (maxRrfScore_pos hk).ne']
  exact (fused_eq_iff hk).trans (by simp)

/-- One ranking alone gives at most half. -/
theorem agreement_le_half (hk : 0 < rrfK) (h : id ∉ dense ∨ id ∉ sparse) :
    agreement rrfK [dense, sparse] id ≤ 1 / 2 := by
  have hshares : fused rrfK [dense, sparse] id = share rrfK dense id + (share rrfK sparse id : ℚ) :=
    by simp [fused]
  have hdense : (share rrfK dense id : ℚ) ≤ 1 / rrfK := share_le hk
  have hsparse : (share rrfK sparse id : ℚ) ≤ 1 / rrfK := share_le hk
  rw [agreement, div_le_iff₀ (maxRrfScore_pos hk), hshares,
    show (1 / 2 * (2 / rrfK) : ℚ) = 1 / rrfK by ring]
  rcases h with h | h
  · rw [share_of_not_mem h, zero_add]
    exact hsparse
  · rw [share_of_not_mem h, add_zero]
    exact hdense

end Agreement

end VectorStore

/-! ## What is retrieved -/

namespace HybridRetrievalStrategy

open VectorStore

variable {E : Type} {queryPoints : QueryPoints E} {store : VectorStore E}
  {s : HybridRetrievalStrategy} {queryEmbedding : E} {queryText : String} {topK : ℕ}
  {chunks : List RetrievedChunk}

/-- What the score of a chunk says of the two rankings. -/
structure Scored (store : VectorStore E) (queryEmbedding : E) (queryText : String)
    (candidateTopK : ℕ) (id : String) (score : ℚ) : Prop where
  pos : 0 < score
  le_one : score ≤ 1
  one : score = 1 ↔ (store.dense queryEmbedding).head? = some id ∧
    (store.sparse queryText).head? = some id
  half : id ∉ (store.dense queryEmbedding).take candidateTopK ∨
    id ∉ (store.sparse queryText).take candidateTopK → score ≤ 1 / 2

theorem scored_agreement {candidateTopK rrfK : ℕ} {id : String} (hk : 0 < rrfK)
    (hcandidates : 0 < candidateTopK)
    (hid : id ∈ store.candidates queryEmbedding queryText candidateTopK) :
    Scored store queryEmbedding queryText candidateTopK id
      (agreement rrfK (store.prefetched queryEmbedding queryText candidateTopK) id) where
  pos := agreement_pos hk (by simpa [candidates, prefetched] using hid)
  le_one := agreement_le_one hk
  one := by
    refine (agreement_eq_one_iff hk).trans ?_
    rw [List.head?_take, List.head?_take, if_neg hcandidates.ne', if_neg hcandidates.ne']
  half := agreement_le_half hk

/-- The `min` cuts no score of a store that fuses as documented. -/
theorem exists_ids (hstore : store.Fuses queryPoints)
    (h : s.retrieve queryPoints queryText (some queryEmbedding) topK = .ok chunks) :
    let candidateTopK := max topK s.candidateTopK
    let rankings := store.prefetched queryEmbedding queryText candidateTopK
    ∃ ids, Best (agreement s.rrfK rankings)
        (store.candidates queryEmbedding queryText candidateTopK) topK ids ∧
      chunks = ids.map (store.chunk s.rrfK rankings) := by
  intro candidateTopK rankings
  obtain ⟨fusedResults, hfused, hchunks⟩ := bind_eq_ok.1 h
  obtain ⟨results, hresults, hmap⟩ := bind_eq_ok.1 hfused
  obtain rfl := Except.ok.inj hmap
  obtain rfl := Except.ok.inj hchunks
  rw [show max topK (max topK s.candidateTopK) = candidateTopK from max_eq_right
    (le_max_left _ _)] at hresults
  obtain ⟨hbest, hpoints⟩ := hstore _ _ _ _ _ _ hresults
  refine ⟨results.map (·.id), hbest.monotone (f := (· / (2 / (s.rrfK : ℚ))))
    (monotone_div_right_of_nonneg (maxRrfScore_pos s.rrfK_pos).le), ?_⟩
  rw [List.map_map, List.map_map]
  refine List.map_congr_left fun point hpoint => ?_
  obtain ⟨hpayload, hscore⟩ := hpoints point hpoint
  have huncut : min (point.score / (2 / s.rrfK)) 1 = agreement s.rrfK rankings point.id := by
    rw [hscore]
    exact min_eq_left (agreement_le_one s.rrfK_pos)
  simp only [Function.comp_apply, toRetrievedChunk, chunk, huncut, hpayload]

/-- Both rankings put the fees first. -/
def feeStore : VectorStore Unit where
  dense _ := ["fees", "rates"]
  sparse _ := ["fees", "limits"]
  payload id := some { text := some id, source := some "fees.pdf" }

def deskHybrid : HybridRetrievalStrategy where
  rrfK_pos := Nat.succ_pos 59
  candidateTopK_pos := Nat.succ_pos 19

/-- Asking for fewer chunks gives the first of the scores. -/
theorem retrieved_prefix {more : ℕ} {chunks' : List RetrievedChunk}
    (hstore : store.Fuses queryPoints) (hle : topK ≤ more) (hmore : more ≤ s.candidateTopK)
    (h : s.retrieve queryPoints queryText (some queryEmbedding) topK = .ok chunks)
    (h' : s.retrieve queryPoints queryText (some queryEmbedding) more = .ok chunks') :
    chunks.map (·.score) <+: chunks'.map (·.score) := by
  obtain ⟨ids, hbest, rfl⟩ := exists_ids hstore h
  obtain ⟨ids', hbest', rfl⟩ := exists_ids hstore h'
  rw [max_eq_right (hle.trans hmore)] at hbest ⊢
  rw [max_eq_right hmore] at hbest' ⊢
  rw [List.map_map, List.map_map]
  exact hbest.map_prefix hbest' hle

theorem retrieved_prefix_fees : ∃ chunks chunks',
    deskHybrid.retrieve feeStore.answer "fee" (some ()) 1 = .ok chunks ∧
      deskHybrid.retrieve feeStore.answer "fee" (some ()) 2 = .ok chunks' ∧
      chunks.map (·.score) <+: chunks'.map (·.score) :=
  ⟨_, _, rfl, rfl, retrieved_prefix (fuses_answer feeStore) (by decide) (by decide) rfl rfl⟩

end HybridRetrievalStrategy

end EnterpriseRag
