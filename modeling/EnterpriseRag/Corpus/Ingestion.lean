import EnterpriseRag.Corpus.Store
import EnterpriseRag.Library.Transition
import Mathlib.Logic.Function.Basic

/-!
# Policy ingestion

`submit`, `approve` and `reject` of the ingestion security service as calls in several
steps. `Point` is where a call stands, one constructor for each store call or
collaborator it uses next, and `IngestionService.advance` makes that call and runs the
code up to the next one. `seedDocs` ingests the policy folder.

`CorpusSystem` interleaves any number of calls with runs of the seed script and with files
placed in the folder. A call may also raise at any point, as the store call it makes there
may. Sequential use is the special case of runs that finish each call before the next
event.
-/

namespace EnterpriseRag

/-- The `status` of an upload's response. -/
inductive UploadStatus
  | ingested (status : IngestionStatus)
  | scanned (status : DocumentStatus)
  deriving DecidableEq, Repr

structure PolicyUploadResponse where
  source : String
  chunksIngested : ℕ
  replaced : Bool
  status : UploadStatus
  deriving DecidableEq, Repr

/-- The collaborators of the ingestion services : the document converter, the embedding
clients, the scanner, the configuration store, and what the stores make up themselves. -/
structure IngestionService (ω : Type*) where
  ids : PointIds ω
  rowIds : PointIds ω
  dbNow : ω → Timestamp
  tie : ω → ℕ
  /-- The texts and pages of a document's chunks. -/
  convert : ω → Bytes → Except Raised (List (String × Option ℤ))
  embed : ω → List String → Except Raised Unit
  scanDocument : ω → List String → GuardrailModeName → String → Except Raised GuardrailDecision
  guardrailMode : ω → GuardrailModeName
  /-- The file of the policy folder that the copy of an upload lands on, if any. -/
  policyFile : String → Option String
  maxUploadSizeBytes : ℕ

inductive Request
  | submit (filename : String) (content : Bytes) (actor : String)
  | approve (source actor : String)
  | reject (source actor reason : String)
  deriving DecidableEq

/-- What a call does next, with the local variables it has by then. -/
inductive Point
  | listSources
  | processDocument (isReplacing : Bool)
  | copyFile (isReplacing : Bool) (chunks : List DocumentChunk)
  | deleteReplaced (chunks : List DocumentChunk)
  | upsertChunks (isReplacing : Bool) (chunks : List DocumentChunk)
  | createPending (response : PolicyUploadResponse)
  | readChunks (id : ℕ) (response : PolicyUploadResponse)
  | scan (id : ℕ) (response : PolicyUploadResponse) (texts : List String)
  | recordScanResult (id : ℕ) (response : PolicyUploadResponse) (decision : GuardrailDecision)
  | deleteFailed (response : PolicyUploadResponse)
  | getLatest
  | approveRow (id : ℕ)
  | setIngestionStatus (id : ℕ)
  | markActive (id : ℕ)
  | deleteRejected (id : ℕ)
  | rejectRow (id : ℕ)
  | uploaded (response : PolicyUploadResponse)
  | decided (id : ℕ)
  | raised (error : Raised)
  deriving DecidableEq

/-- The call is over. -/
def Point.isOver : Point → Bool
  | .uploaded _ | .decided _ | .raised _ => true
  | _ => false

structure CorpusCall where
  request : Request
  point : Point
  deriving DecidableEq

/-- `_summarize`. -/
def summarize (decision : GuardrailDecision) : ScanSummary where
  action := decision.action
  findings := decision.findings.map fun f => (f.category.value, f.score, f.detector)

/-- The error of an `approve` with nothing to act on. -/
def noScanPassedUpload (source : String) : Raised :=
  .documentNotApprovable ("'" ++ source ++ "' has no scan_passed upload awaiting approval")

/-- The error of a `reject` with nothing to act on. -/
def noUploadAwaitingDecision (source : String) : Raised :=
  .documentNotApprovable ("'" ++ source ++ "' has no upload awaiting a decision")

namespace IngestionService

variable {ω : Type*}

/-- `process_document` of a file at `path`, and the embeddings of its chunks. -/
def processDocument (svc : IngestionService ω) (w : ω) (path : String) (content : Bytes) :
    Except Raised (List DocumentChunk) := do
  let texts ← svc.convert w content
  if texts = [] then
    .error (.exception "ValueError")
  else
    svc.embed w (texts.map (·.1))
    return texts.map fun (text, pageNumber) => ⟨text, pathName path, pageNumber⟩

/-- `_validate`. -/
def validate (svc : IngestionService ω) (filename : String) (content : Bytes) :
    Except Raised Unit :=
  if pathSuffix filename ∉ supportedSuffixes then .error (.unsupportedFileType filename)
  else if svc.maxUploadSizeBytes < content.length then .error (.fileTooLarge filename)
  else .ok ()

/-- A call up to its first store call. -/
def enter (svc : IngestionService ω) : Request → Point
  | .submit filename content _ =>
    match svc.validate filename content with
    | .error e => .raised e
    | .ok () => .listSources
  | .approve _ _ => .getLatest
  | .reject _ _ _ => .getLatest

/-- The steps of `submit`, for the upload made by call `c`. -/
def advanceSubmit (svc : IngestionService ω) (w : ω) (c : ℕ) (filename : String) (content : Bytes)
    (actor : String) (s : Corpus) : Point → Option (Point × Corpus)
  | .listSources => some (.processDocument (filename ∈ s.listSources none), s)
  | .processDocument isReplacing =>
    match svc.processDocument w filename content with
    | .error e => some (.raised e, s)
    | .ok chunks => some (.copyFile isReplacing chunks, s)
  | .copyFile isReplacing chunks =>
    let s' := match svc.policyFile filename with
      | some name => s.writeFile ⟨name, content, .upload c⟩
      | none => s
    some (if isReplacing then .deleteReplaced chunks else .upsertChunks false chunks, s')
  | .deleteReplaced chunks => some (.upsertChunks true chunks, s.deleteBySource filename)
  | .upsertChunks isReplacing chunks =>
    some (.createPending ⟨filename, chunks.length, isReplacing, .ingested .quarantined⟩,
      s.upsertChunks svc.ids w chunks .quarantined (.upload c))
  | .createPending response =>
    let id := svc.rowIds.next w (s.rows.rows.map (·.id))
    (s.createPending id filename actor response.chunksIngested (svc.dbNow w) c).map fun s' =>
      (.readChunks id response, s')
  | .readChunks id response =>
    some (.scan id response
      (((s.scrollAllChunks (some .quarantined)).filter (·.source = filename)).map (·.text)), s)
  | .scan id response texts =>
    match svc.scanDocument w texts (svc.guardrailMode w) actor with
    | .error e => some (.raised e, s)
    | .ok decision => some (.recordScanResult id response decision, s)
  | .recordScanResult id response decision =>
    if decision.action = .block then
      some (.deleteFailed response,
        s.recordScanResult id .scanFailed (summarize decision) (svc.dbNow w))
    else
      some (.uploaded { response with status := .scanned .scanPassed },
        s.recordScanResult id .scanPassed (summarize decision) (svc.dbNow w))
  | .deleteFailed response =>
    some (.uploaded { response with status := .scanned .scanFailed }, s.deleteBySource filename)
  | _ => none

/-- The steps of `approve`. -/
def advanceApprove (svc : IngestionService ω) (w : ω) (source actor : String) (s : Corpus) :
    Point → Option (Point × Corpus)
  | .getLatest =>
    match s.getLatestForSource source (svc.tie w) with
    | none => some (.raised (noScanPassedUpload source), s)
    | some state =>
      if state.status ≠ .scanPassed then some (.raised (noScanPassedUpload source), s)
      else some (.approveRow state.id, s)
  | .approveRow id => some (.setIngestionStatus id, s.approve id actor (svc.dbNow w))
  | .setIngestionStatus id => some (.markActive id, s.setIngestionStatus source .active)
  | .markActive id => some (.decided id, s.markActive id)
  | _ => none

/-- The steps of `reject`. -/
def advanceReject (svc : IngestionService ω) (w : ω) (source reason : String) (s : Corpus) :
    Point → Option (Point × Corpus)
  | .getLatest =>
    match s.getLatestForSource source (svc.tie w) with
    | none => some (.raised (noUploadAwaitingDecision source), s)
    | some state =>
      if state.status ≠ .scanPassed ∧ state.status ≠ .scanFailed then
        some (.raised (noUploadAwaitingDecision source), s)
      else some (.deleteRejected state.id, s)
  | .deleteRejected id => some (.rejectRow id, s.deleteBySource source)
  | .rejectRow id => some (.decided id, s.reject id reason)
  | _ => none

/-- One step of call `c` : where it stands after the call it makes next, and the stores. -/
def advance (svc : IngestionService ω) (w : ω) (c : ℕ) (call : CorpusCall) (s : Corpus) :
    Option (Point × Corpus) :=
  match call.request with
  | .submit filename content actor => svc.advanceSubmit w c filename content actor s call.point
  | .approve source actor => svc.advanceApprove w source actor s call.point
  | .reject source _ reason => svc.advanceReject w source reason s call.point

/-- What one step of a call can do, one constructor for each branch of the code. -/
inductive StepsTo (svc : IngestionService ω) (w : ω) (c : ℕ) (s : Corpus) :
    CorpusCall → Point → Corpus → Prop
  | listSources {filename content actor} :
    StepsTo svc w c s ⟨.submit filename content actor, .listSources⟩
      (.processDocument (filename ∈ s.listSources none)) s
  | processDocumentRaises {filename content actor isReplacing e}
      (h : svc.processDocument w filename content = .error e) :
    StepsTo svc w c s ⟨.submit filename content actor, .processDocument isReplacing⟩ (.raised e) s
  | processDocument {filename content actor isReplacing chunks}
      (h : svc.processDocument w filename content = .ok chunks) :
    StepsTo svc w c s ⟨.submit filename content actor, .processDocument isReplacing⟩
      (.copyFile isReplacing chunks) s
  | copyFile {filename content actor isReplacing chunks s'} (hchunks : s'.chunks = s.chunks)
      (hrows : s'.rows = s.rows) (hfiles : ∀ f ∈ s'.files, f ∈ s.files ∨ f.origin = .upload c) :
    StepsTo svc w c s ⟨.submit filename content actor, .copyFile isReplacing chunks⟩
      (if isReplacing then .deleteReplaced chunks else .upsertChunks false chunks) s'
  | deleteReplaced {filename content actor chunks} :
    StepsTo svc w c s ⟨.submit filename content actor, .deleteReplaced chunks⟩
      (.upsertChunks true chunks) (s.deleteBySource filename)
  | upsertChunks {filename content actor isReplacing chunks} :
    StepsTo svc w c s ⟨.submit filename content actor, .upsertChunks isReplacing chunks⟩
      (.createPending ⟨filename, chunks.length, isReplacing, .ingested .quarantined⟩)
      (s.upsertChunks svc.ids w chunks .quarantined (.upload c))
  | createPending {filename content actor response id s'}
      (h : s.createPending id filename actor response.chunksIngested (svc.dbNow w) c = some s') :
    StepsTo svc w c s ⟨.submit filename content actor, .createPending response⟩
      (.readChunks id response) s'
  | readChunks {filename content actor id response texts} :
    StepsTo svc w c s ⟨.submit filename content actor, .readChunks id response⟩
      (.scan id response texts) s
  | scanRaises {filename content actor id response texts e}
      (h : svc.scanDocument w texts (svc.guardrailMode w) actor = .error e) :
    StepsTo svc w c s ⟨.submit filename content actor, .scan id response texts⟩ (.raised e) s
  | scan {filename content actor id response texts decision}
      (h : svc.scanDocument w texts (svc.guardrailMode w) actor = .ok decision) :
    StepsTo svc w c s ⟨.submit filename content actor, .scan id response texts⟩
      (.recordScanResult id response decision) s
  | scanFailed {filename content actor id response decision} (h : decision.action = .block) :
    StepsTo svc w c s ⟨.submit filename content actor, .recordScanResult id response decision⟩
      (.deleteFailed response)
      (s.recordScanResult id .scanFailed (summarize decision) (svc.dbNow w))
  | scanPassed {filename content actor id response decision} (h : decision.action ≠ .block) :
    StepsTo svc w c s ⟨.submit filename content actor, .recordScanResult id response decision⟩
      (.uploaded { response with status := .scanned .scanPassed })
      (s.recordScanResult id .scanPassed (summarize decision) (svc.dbNow w))
  | deleteFailed {filename content actor response} :
    StepsTo svc w c s ⟨.submit filename content actor, .deleteFailed response⟩
      (.uploaded { response with status := .scanned .scanFailed }) (s.deleteBySource filename)
  | approveRefused {source actor e} :
    StepsTo svc w c s ⟨.approve source actor, .getLatest⟩ (.raised e) s
  | approveChecked {source actor r} (h : s.getLatestForSource source (svc.tie w) = some r)
      (hstatus : r.status = .scanPassed) :
    StepsTo svc w c s ⟨.approve source actor, .getLatest⟩ (.approveRow r.id) s
  | approveRow {source actor id} :
    StepsTo svc w c s ⟨.approve source actor, .approveRow id⟩ (.setIngestionStatus id)
      (s.approve id actor (svc.dbNow w))
  | setIngestionStatus {source actor id} :
    StepsTo svc w c s ⟨.approve source actor, .setIngestionStatus id⟩ (.markActive id)
      (s.setIngestionStatus source .active)
  | markActive {source actor id} :
    StepsTo svc w c s ⟨.approve source actor, .markActive id⟩ (.decided id) (s.markActive id)
  | rejectRefused {source actor reason e} :
    StepsTo svc w c s ⟨.reject source actor reason, .getLatest⟩ (.raised e) s
  | rejectChecked {source actor reason r} (h : s.getLatestForSource source (svc.tie w) = some r)
      (hstatus : r.status = .scanPassed ∨ r.status = .scanFailed) :
    StepsTo svc w c s ⟨.reject source actor reason, .getLatest⟩ (.deleteRejected r.id) s
  | deleteRejected {source actor reason id} :
    StepsTo svc w c s ⟨.reject source actor reason, .deleteRejected id⟩ (.rejectRow id)
      (s.deleteBySource source)
  | rejectRow {source actor reason id} :
    StepsTo svc w c s ⟨.reject source actor reason, .rejectRow id⟩ (.decided id)
      (s.reject id reason)

theorem stepsTo_submit {svc : IngestionService ω} {w : ω} {c : ℕ} {filename : String}
    {content : Bytes} {actor : String} {s s' : Corpus} {p point : Point}
    (h : svc.advanceSubmit w c filename content actor s p = some (point, s')) :
    svc.StepsTo w c s ⟨.submit filename content actor, p⟩ point s' := by
  cases p with
  | listSources =>
    simp only [advanceSubmit, Option.some.injEq, Prod.mk.injEq] at h
    obtain ⟨rfl, rfl⟩ := h
    exact .listSources
  | processDocument isReplacing =>
    simp only [advanceSubmit] at h
    split at h <;> simp only [Option.some.injEq, Prod.mk.injEq] at h <;> obtain ⟨rfl, rfl⟩ := h
    · rename_i hraise
      exact .processDocumentRaises hraise
    · rename_i hok
      exact .processDocument hok
  | copyFile isReplacing chunks =>
    simp only [advanceSubmit, Option.some.injEq, Prod.mk.injEq] at h
    obtain ⟨rfl, rfl⟩ := h
    refine .copyFile ?_ ?_ ?_ <;> split
    all_goals first | rfl | exact fun f hf => Or.inl hf | skip
    intro f hf
    rcases List.mem_append.1 hf with hf | hf
    · exact Or.inl (List.mem_filter.1 hf).1
    · rw [List.mem_singleton.1 hf]
      exact Or.inr rfl
  | deleteReplaced chunks =>
    simp only [advanceSubmit, Option.some.injEq, Prod.mk.injEq] at h
    obtain ⟨rfl, rfl⟩ := h
    exact .deleteReplaced
  | upsertChunks isReplacing chunks =>
    simp only [advanceSubmit, Option.some.injEq, Prod.mk.injEq] at h
    obtain ⟨rfl, rfl⟩ := h
    exact .upsertChunks
  | createPending response =>
    simp only [advanceSubmit, Option.map_eq_some_iff, Prod.mk.injEq] at h
    obtain ⟨s₁, hs₁, rfl, rfl⟩ := h
    exact .createPending hs₁
  | readChunks id response =>
    simp only [advanceSubmit, Option.some.injEq, Prod.mk.injEq] at h
    obtain ⟨rfl, rfl⟩ := h
    exact .readChunks
  | scan id response texts =>
    simp only [advanceSubmit] at h
    split at h <;> simp only [Option.some.injEq, Prod.mk.injEq] at h <;> obtain ⟨rfl, rfl⟩ := h
    · rename_i hraise
      exact .scanRaises hraise
    · rename_i hok
      exact .scan hok
  | recordScanResult id response decision =>
    simp only [advanceSubmit] at h
    split at h <;> simp only [Option.some.injEq, Prod.mk.injEq] at h <;> obtain ⟨rfl, rfl⟩ := h
    · rename_i hblock
      exact .scanFailed hblock
    · rename_i hpass
      exact .scanPassed hpass
  | deleteFailed response =>
    simp only [advanceSubmit, Option.some.injEq, Prod.mk.injEq] at h
    obtain ⟨rfl, rfl⟩ := h
    exact .deleteFailed
  | _ => simp [advanceSubmit] at h

theorem stepsTo_approve {svc : IngestionService ω} {w : ω} {c : ℕ} {source actor : String}
    {s s' : Corpus} {p point : Point}
    (h : svc.advanceApprove w source actor s p = some (point, s')) :
    svc.StepsTo w c s ⟨.approve source actor, p⟩ point s' := by
  cases p with
  | getLatest =>
    simp only [advanceApprove] at h
    split at h
    · simp only [Option.some.injEq, Prod.mk.injEq] at h
      obtain ⟨rfl, rfl⟩ := h
      exact .approveRefused
    · rename_i r hr
      split at h <;> simp only [Option.some.injEq, Prod.mk.injEq] at h <;> obtain ⟨rfl, rfl⟩ := h
      · exact .approveRefused
      · rename_i hstatus
        exact .approveChecked hr (not_not.1 hstatus)
  | approveRow id =>
    simp only [advanceApprove, Option.some.injEq, Prod.mk.injEq] at h
    obtain ⟨rfl, rfl⟩ := h
    exact .approveRow
  | setIngestionStatus id =>
    simp only [advanceApprove, Option.some.injEq, Prod.mk.injEq] at h
    obtain ⟨rfl, rfl⟩ := h
    exact .setIngestionStatus
  | markActive id =>
    simp only [advanceApprove, Option.some.injEq, Prod.mk.injEq] at h
    obtain ⟨rfl, rfl⟩ := h
    exact .markActive
  | _ => simp [advanceApprove] at h

theorem stepsTo_reject {svc : IngestionService ω} {w : ω} {c : ℕ} {source actor reason : String}
    {s s' : Corpus} {p point : Point}
    (h : svc.advanceReject w source reason s p = some (point, s')) :
    svc.StepsTo w c s ⟨.reject source actor reason, p⟩ point s' := by
  cases p with
  | getLatest =>
    simp only [advanceReject] at h
    split at h
    · simp only [Option.some.injEq, Prod.mk.injEq] at h
      obtain ⟨rfl, rfl⟩ := h
      exact .rejectRefused
    · rename_i r hr
      split at h <;> simp only [Option.some.injEq, Prod.mk.injEq] at h <;> obtain ⟨rfl, rfl⟩ := h
      · exact .rejectRefused
      · rename_i hstatus
        exact .rejectChecked hr (by tauto)
  | deleteRejected id =>
    simp only [advanceReject, Option.some.injEq, Prod.mk.injEq] at h
    obtain ⟨rfl, rfl⟩ := h
    exact .deleteRejected
  | rejectRow id =>
    simp only [advanceReject, Option.some.injEq, Prod.mk.injEq] at h
    obtain ⟨rfl, rfl⟩ := h
    exact .rejectRow
  | _ => simp [advanceReject] at h

/-- Every step is one of these. -/
theorem stepsTo_of_advance {svc : IngestionService ω} {w : ω} {c : ℕ} {call : CorpusCall}
    {s s' : Corpus} {point : Point} (h : svc.advance w c call s = some (point, s')) :
    svc.StepsTo w c s call point s' := by
  obtain ⟨request, p⟩ := call
  cases request with
  | submit filename content actor => exact stepsTo_submit h
  | approve source actor => exact stepsTo_approve h
  | reject source actor reason => exact stepsTo_reject h

theorem StepsTo.isOver_eq_false {svc : IngestionService ω} {w : ω} {c : ℕ} {call : CorpusCall}
    {s s' : Corpus} {point : Point} (h : svc.StepsTo w c s call point s') :
    call.point.isOver = false := by
  cases h <;> rfl

/-- The steps of a call that runs by itself, one world for each. -/
def perform (svc : IngestionService ω) (c : ℕ) :
    List ω → CorpusCall → Corpus → Option (CorpusCall × Corpus)
  | [], call, s => some (call, s)
  | w :: ws, call, s =>
    (svc.advance w c call s).bind fun (point, s') => svc.perform c ws { call with point } s'

/-- What every step of a call keeps, the call keeps. -/
theorem perform_induction {svc : IngestionService ω} {c : ℕ} {I : CorpusCall → Corpus → Prop}
    (hstep : ∀ w call s point s', I call s → svc.advance w c call s = some (point, s') →
      I { call with point } s') :
    ∀ {ws : List ω} {call call' : CorpusCall} {s s' : Corpus}, I call s →
      svc.perform c ws call s = some (call', s') → I call' s'
  | [], call, call', s, s', hI, h => by
    obtain ⟨rfl, rfl⟩ : call = call' ∧ s = s' := by simpa [perform] using h
    exact hI
  | w :: ws, call, call', s, s', hI, h => by
    obtain ⟨⟨point, s₁⟩, hadvance, h⟩ := Option.bind_eq_some_iff.1 h
    exact perform_induction hstep (hstep w call s point s₁ hI hadvance) h

/-! ## Seeding -/

/-- One file of the seed run : skipped if it cannot be processed. -/
def seedFile (svc : IngestionService ω) (w : ω) (f : PolicyFile) (s : Corpus) : Corpus :=
  match svc.processDocument w f.name f.content with
  | .error _ => s
  | .ok chunks => s.upsertChunks svc.ids w chunks .active f.origin

/-- The files a seed run discovers, in order. -/
def seedFiles (s : Corpus) : List PolicyFile :=
  (s.files.filter fun f => pathSuffix f.name ∈ supportedSuffixes).insertionSort
    fun f g => f.name ≤ g.name

/-- The loop of `seed_docs`, the `n`-th file in a world of its own. -/
def seedLoop (svc : IngestionService ω) (ws : ℕ → ω) : ℕ → List PolicyFile → Corpus → Corpus
  | _, [], s => s
  | n, f :: fs, s => svc.seedLoop ws (n + 1) fs (svc.seedFile (ws n) f s)

/-- `seed_docs` on the live collection. -/
def seedDocs (svc : IngestionService ω) (ws : ℕ → ω) (s : Corpus) : Corpus :=
  svc.seedLoop ws 0 (seedFiles s) s

end IngestionService

/-! ## The system -/

structure CorpusSystem where
  corpus : Corpus
  calls : ℕ → Option CorpusCall

namespace CorpusSystem

variable {ω : Type*}

inductive Event (ω : Type*)
  | call (c : ℕ) (request : Request)
  | advance (c : ℕ) (w : ω)
  | fail (c : ℕ) (error : Raised)
  | seedDocs (ws : ℕ → ω)
  | placeFile (name : String) (content : Bytes)

/-- Empty stores and no call. -/
def init : CorpusSystem :=
  ⟨⟨[], Table.empty, []⟩, fun _ => none⟩

/-- One step. -/
def step (svc : IngestionService ω) (s : CorpusSystem) : Event ω → Option CorpusSystem
  | .call c request =>
    if (s.calls c).isSome then none
    else some { s with calls := Function.update s.calls c (some ⟨request, svc.enter request⟩) }
  | .advance c w =>
    (s.calls c).bind fun call =>
      (svc.advance w c call s.corpus).map fun (point, corpus) =>
        ⟨corpus, Function.update s.calls c (some { call with point })⟩
  | .fail c error =>
    (s.calls c).bind fun call =>
      if call.point.isOver then none
      else some { s with
        calls := Function.update s.calls c (some { call with point := .raised error }) }
  | .seedDocs ws => some { s with corpus := svc.seedDocs ws s.corpus }
  | .placeFile name content =>
    some { s with corpus := s.corpus.writeFile ⟨name, content, .placed⟩ }

/-- What a step can do. -/
theorem step_cases {svc : IngestionService ω} {s s' : CorpusSystem} {e : Event ω}
    (h : step svc s e = some s') :
    (∃ c request, e = .call c request ∧ s'.corpus = s.corpus ∧
      s'.calls = Function.update s.calls c (some ⟨request, svc.enter request⟩)) ∨
    (∃ c w call point, e = .advance c w ∧ s.calls c = some call ∧
      svc.advance w c call s.corpus = some (point, s'.corpus) ∧
      s'.calls = Function.update s.calls c (some { call with point })) ∨
    (∃ c error call, e = .fail c error ∧ s.calls c = some call ∧ s'.corpus = s.corpus ∧
      s'.calls = Function.update s.calls c (some { call with point := .raised error })) ∨
    (∃ ws, e = .seedDocs ws ∧ s'.calls = s.calls ∧ s'.corpus = svc.seedDocs ws s.corpus) ∨
    (∃ name content, e = .placeFile name content ∧ s'.calls = s.calls ∧
      s'.corpus = s.corpus.writeFile ⟨name, content, .placed⟩) := by
  cases e with
  | call c request =>
    simp only [step] at h
    split at h
    · simp at h
    · obtain rfl := Option.some.inj h
      exact Or.inl ⟨c, request, rfl, rfl, rfl⟩
  | advance c w =>
    simp only [step, Option.bind_eq_some_iff, Option.map_eq_some_iff] at h
    obtain ⟨call, hcall, ⟨point, corpus⟩, hadvance, rfl⟩ := h
    exact Or.inr (Or.inl ⟨c, w, call, point, rfl, hcall, hadvance, rfl⟩)
  | fail c error =>
    simp only [step, Option.bind_eq_some_iff] at h
    obtain ⟨call, hcall, h⟩ := h
    split at h
    · simp at h
    · obtain rfl := Option.some.inj h
      exact Or.inr (Or.inr (Or.inl ⟨c, error, call, rfl, hcall, rfl, rfl⟩))
  | seedDocs ws =>
    obtain rfl := Option.some.inj h
    exact Or.inr (Or.inr (Or.inr (Or.inl ⟨ws, rfl, rfl, rfl⟩)))
  | placeFile name content =>
    obtain rfl := Option.some.inj h
    exact Or.inr (Or.inr (Or.inr (Or.inr ⟨name, content, rfl, rfl, rfl⟩)))

end CorpusSystem

end EnterpriseRag
