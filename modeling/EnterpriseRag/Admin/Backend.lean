import EnterpriseRag.Corpus.Replacement
import EnterpriseRag.Rag.SharedCaches
import EnterpriseRag.RagOps.Propagation

/-!
# A worker that serves and is administered

One worker runs `upload_policy`, `approve_policy` and `reject_policy` of the admin
controller, `answer` calls and the poller of the RAG operations row, one step at a time and
in any order. `upload_policy` and `reject_policy` are `submit` and `reject` of the
ingestion security service; `approve_policy` goes on after `approve` with
`invalidate_corpus_caches`, whose steps are those of `InvalidationPoint`. Any step of an
admin call may raise instead. An `answer` call reads the worker's snapshot, which only the
poller replaces here : none of the three operations applies the row it bumped.

Ghost columns say at which corpus version an admin call last changed the searchable chunks,
and when an approval activated its chunks, listed the cached keys and returned.
-/

open Transition

namespace EnterpriseRag

/-- What `invalidate_corpus_caches` does next. -/
inductive InvalidationPoint
  | bumpCorpusVersion
  | listKeys
  | deleteKeys (keys : List String)
  | clearSemantic
  | recordCacheInvalidation
  | returned
  | raised (error : Raised)
  deriving DecidableEq

def InvalidationPoint.isOver : InvalidationPoint → Bool
  | .returned | .raised _ => true
  | _ => false

/-- The collaborators of `AdminController`. -/
structure AdminController (ω : Type*) where
  ingestion : IngestionService ω
  ragOpsRepository : Bool
  semanticQueryCache : Bool

/-- One step of `invalidate_corpus_caches` for an approval. `clear_tiers` lists the keys of
the tier and deletes those, if there are any. -/
def AdminController.invalidate {ω : Type*} (ctl : AdminController ω) (source actor : String)
    (now : Timestamp) (db : RagOpsStore) (cache : AnswerCache) :
    InvalidationPoint → Option (InvalidationPoint × RagOpsStore × AnswerCache)
  | .bumpCorpusVersion =>
    match bumpCorpusVersion actor source now db with
    | .error _ => some (.raised (.exception "NumericValueOutOfRange"), db, cache)
    | .ok db => some (.listKeys, db, cache)
  | .listKeys =>
    let keys := cache.answers.map (·.key)
    some (if keys ≠ [] then .deleteKeys keys
      else if ctl.semanticQueryCache then .clearSemantic else .recordCacheInvalidation, db, cache)
  | .deleteKeys keys =>
    some (if ctl.semanticQueryCache then .clearSemantic else .recordCacheInvalidation, db,
      cache.expire keys)
  | .clearSemantic => some (.recordCacheInvalidation, db, cache.clearPoints)
  | .recordCacheInvalidation => some (.returned, recordCacheInvalidation now db, cache)
  | .returned => none
  | .raised _ => none

structure Backend where
  corpus : CorpusSystem
  db : RagOpsStore
  worker : Worker
  serving : Serving
  invalidations : ℕ → InvalidationPoint := fun _ => .bumpCorpusVersion
  changedAt : ℕ → Option ℤ := fun _ => none
  activatedAt : ℕ → Option ℕ := fun _ => none
  listedAt : ℕ → Option ℕ := fun _ => none
  returnedAt : ℕ → Option ℕ := fun _ => none

namespace Backend

variable {ω : Type*}

inductive Event (ω : Type*)
  | request (c : ℕ) (request : Request)
  | advance (c : ℕ) (w : ω)
  | fail (c : ℕ) (error : Raised)
  | serve (e : Serving.Event)
  | pollRead
  | pollCompare

/-- The source and the actor of call `c`, if it is an approval that has activated its
document and goes on to invalidate the caches. -/
def invalidating (ctl : AdminController ω) (s : Backend) (c : ℕ) : Option (String × String) :=
  match s.corpus.calls c with
  | some ⟨.approve source actor, .decided _⟩ =>
    if ctl.ragOpsRepository then some (source, actor) else none
  | _ => none

/-- Call `c` has returned or raised. -/
def IsOver (ctl : AdminController ω) (s : Backend) (c : ℕ) : Prop :=
  ∃ call, s.corpus.calls c = some call ∧ call.point.isOver = true ∧
    ((s.invalidating ctl c).isSome → (s.invalidations c).isOver = true)

/-- Call `c` is an approval that has returned. -/
def approveReturned (ctl : AdminController ω) (s : Backend) (c : ℕ) : Bool :=
  match s.corpus.calls c with
  | some ⟨.approve _ _, .decided _⟩ => !ctl.ragOpsRepository || s.invalidations c = .returned
  | _ => false

/-- The clock moves. -/
def tick (s : Backend) : Backend :=
  { s with serving := { s.serving with now := s.serving.now + 1 } }

/-- The stores after a step of admin call `c` in the ingestion service, and what it did to
the searchable chunks. -/
def ingested (s : Backend) (c : ℕ) (corpus : CorpusSystem) : Backend :=
  { s.tick with
    corpus
    changedAt := if corpus.corpus.activeChunks = s.corpus.corpus.activeChunks then s.changedAt
      else Function.update s.changedAt c (some s.db.row.1.corpusVersion)
    activatedAt := match s.corpus.calls c with
      | some ⟨_, .setIngestionStatus _⟩ => Function.update s.activatedAt c (some s.serving.now)
      | _ => s.activatedAt }

/-- The stores after a step of the invalidation of call `c`. -/
def invalidated (s : Backend) (c : ℕ) (point : InvalidationPoint) (db : RagOpsStore)
    (cache : AnswerCache) : Backend :=
  { s with
    db
    serving := { s.serving with now := s.serving.now + 1, cache }
    invalidations := Function.update s.invalidations c point
    listedAt := if s.invalidations c = .listKeys
      then Function.update s.listedAt c (some s.serving.now) else s.listedAt }

/-- When call `c` returned, if it has now. -/
def noteReturn (ctl : AdminController ω) (c : ℕ) (now : ℕ) (s : Backend) : Backend :=
  if s.approveReturned ctl c then
    { s with returnedAt := Function.update s.returnedAt c (some now) }
  else s

/-- What the surroundings reply, except for the snapshot. -/
def reads (s : Backend) : Serving.Event → Serving.Event
  | .perform c reply landed => .perform c (fun op => match op with
    | .currentConfig => s.worker.current
    | op => reply op) landed
  | e => e

/-- One step. -/
def step (ctl : AdminController ω) (svc : RAGService) (s : Backend) : Event ω → Option Backend
  | .request c request =>
    (s.corpus.step ctl.ingestion (.call c request)).map fun corpus => { s.tick with corpus }
  | .advance c w =>
    match s.invalidating ctl c with
    | some (source, actor) =>
      (ctl.invalidate source actor (ctl.ingestion.dbNow w) s.db s.serving.cache
        (s.invalidations c)).map fun (point, db, cache) =>
          (s.invalidated c point db cache).noteReturn ctl c s.serving.now
    | none =>
      (s.corpus.step ctl.ingestion (.advance c w)).map fun corpus =>
        (s.ingested c corpus).noteReturn ctl c s.serving.now
  | .fail c error =>
    match s.invalidating ctl c with
    | some _ =>
      if (s.invalidations c).isOver then none
      else some { s.tick with
        invalidations := Function.update s.invalidations c (.raised error) }
    | none =>
      (s.corpus.step ctl.ingestion (.fail c error)).map fun corpus => { s.tick with corpus }
  | .serve e => (s.serving.step svc (s.reads e)).map fun serving => { s with serving }
  | .pollRead =>
    if s.worker.polled.isSome then none
    else some { s.tick with worker := s.worker.pollRead s.db.row }
  | .pollCompare =>
    if s.worker.polled.isNone then none
    else some { s.tick with worker := s.worker.pollCompare }

/-- What a step can do. -/
inductive Moves (ctl : AdminController ω) (svc : RAGService) (s : Backend) :
    Event ω → Backend → Prop
  | request {c request corpus} (h : s.corpus.step ctl.ingestion (.call c request) = some corpus) :
    Moves ctl svc s (.request c request) { s.tick with corpus }
  | invalidate {c w source actor point db cache}
      (hcall : s.invalidating ctl c = some (source, actor))
      (h : ctl.invalidate source actor (ctl.ingestion.dbNow w) s.db s.serving.cache
        (s.invalidations c) = some (point, db, cache)) :
    Moves ctl svc s (.advance c w)
      ((s.invalidated c point db cache).noteReturn ctl c s.serving.now)
  | ingest {c w corpus} (hcall : s.invalidating ctl c = none)
      (h : s.corpus.step ctl.ingestion (.advance c w) = some corpus) :
    Moves ctl svc s (.advance c w) ((s.ingested c corpus).noteReturn ctl c s.serving.now)
  | failInvalidation {c error} (hcall : (s.invalidating ctl c).isSome)
      (h : (s.invalidations c).isOver = false) :
    Moves ctl svc s (.fail c error)
      { s.tick with invalidations := Function.update s.invalidations c (.raised error) }
  | failIngestion {c error corpus} (hcall : s.invalidating ctl c = none)
      (h : s.corpus.step ctl.ingestion (.fail c error) = some corpus) :
    Moves ctl svc s (.fail c error) { s.tick with corpus }
  | serve {e serving} (h : s.serving.step svc (s.reads e) = some serving) :
    Moves ctl svc s (.serve e) { s with serving }
  | pollRead : Moves ctl svc s .pollRead { s.tick with worker := s.worker.pollRead s.db.row }
  | pollCompare : Moves ctl svc s .pollCompare { s.tick with worker := s.worker.pollCompare }

theorem moves_of_step {ctl : AdminController ω} {svc : RAGService} {s s' : Backend} {e : Event ω}
    (h : step ctl svc s e = some s') : Moves ctl svc s e s' := by
  cases e with
  | request c request =>
    obtain ⟨corpus, hcorpus, rfl⟩ := Option.map_eq_some_iff.1 h
    exact .request hcorpus
  | advance c w =>
    simp only [step] at h
    split at h
    · rename_i source actor hcall
      obtain ⟨⟨point, db, cache⟩, hinvalidate, rfl⟩ := Option.map_eq_some_iff.1 h
      exact .invalidate hcall hinvalidate
    · rename_i hcall
      obtain ⟨corpus, hcorpus, rfl⟩ := Option.map_eq_some_iff.1 h
      exact .ingest hcall hcorpus
  | fail c error =>
    simp only [step] at h
    split at h
    · rename_i hcall
      split at h
      · exact nomatch h
      · rename_i hover
        obtain rfl := Option.some.inj h
        exact .failInvalidation (by rw [hcall]; rfl) (by simpa using hover)
    · rename_i hcall
      obtain ⟨corpus, hcorpus, rfl⟩ := Option.map_eq_some_iff.1 h
      exact .failIngestion hcall hcorpus
  | serve e =>
    obtain ⟨serving, hserving, rfl⟩ := Option.map_eq_some_iff.1 h
    exact .serve hserving
  | pollRead =>
    simp only [step] at h
    split at h
    · exact nomatch h
    · obtain rfl := Option.some.inj h
      exact .pollRead
  | pollCompare =>
    simp only [step] at h
    split at h
    · exact nomatch h
    · obtain rfl := Option.some.inj h
      exact .pollCompare

end Backend

end EnterpriseRag
