import EnterpriseRag.Core.Exceptions
import EnterpriseRag.Library.Table
import Mathlib.Data.List.Sort

/-!
# The corpus stores

Three stores hold a policy document : the chunks of the vector collection, the rows of
`document_security_state` and the files of the policy folder. Each operation here is one
call to one of them.

Two ghost columns, which no operation reads, say where things come from. The `origin` of
a chunk or a file is the upload its content came with, or `placed` for a file put into the
folder by other means. The `history` of a row lists every status it was given, its
present one included. `Approved` is the history a searchable document should have :
recorded `scan_passed`, and later `approved`.
-/

namespace EnterpriseRag

abbrev Bytes := List UInt8

inductive IngestionStatus
  | active
  | quarantined
  deriving DecidableEq, Repr

inductive DocumentStatus
  | pendingScan
  | scanPassed
  | scanFailed
  | approved
  | active
  | rejected
  deriving DecidableEq, Repr

/-- Where content came from. -/
inductive Origin
  | upload (call : ℕ)
  | placed
  deriving DecidableEq, Repr

structure DocumentChunk where
  text : String
  source : String
  pageNumber : Option ℤ
  deriving DecidableEq, Repr

/-- A point of the collection. -/
structure StoredChunk extends DocumentChunk where
  id : ℕ
  ingestionStatus : IngestionStatus
  origin : Origin
  deriving DecidableEq, Repr

/-- `_summarize` : a scan decision without the scanned text. -/
structure ScanSummary where
  action : GuardrailAction
  findings : List (String × ℚ × String)
  deriving DecidableEq, Repr

structure DocumentSecurityState where
  id : ℕ
  source : String
  status : DocumentStatus
  uploadedBy : String
  uploadedAt : Timestamp
  scanDecision : Option ScanSummary := none
  scannedAt : Option Timestamp := none
  approvedBy : Option String := none
  approvedAt : Option Timestamp := none
  rejectedReason : Option String := none
  chunkCount : Option ℕ := none
  upload : ℕ
  history : List DocumentStatus
  status_mem : status ∈ history
  deriving DecidableEq, Repr

abbrev SecurityTable := Table fun r : DocumentSecurityState => r.id

structure PolicyFile where
  name : String
  content : Bytes
  origin : Origin
  deriving DecidableEq, Repr

structure Corpus where
  chunks : List StoredChunk
  rows : SecurityTable
  files : List PolicyFile

/-! ## The vector collection -/

/-- Point ids as `uuid4` makes them : any, and none that is in use. -/
structure PointIds (ω : Type*) where
  next : ω → List ℕ → ℕ
  fresh : ∀ w used, next w used ∉ used

/-- The points of `upsert_chunks`. -/
def PointIds.points {ω : Type*} (ids : PointIds ω) (w : ω) (status : IngestionStatus)
    (origin : Origin) : List ℕ → List DocumentChunk → List StoredChunk
  | _, [] => []
  | used, chunk :: rest =>
    ⟨chunk, ids.next w used, status, origin⟩ ::
      ids.points w status origin (ids.next w used :: used) rest

namespace Corpus

variable {ω : Type*}

/-- `upsert_chunks`. -/
def upsertChunks (ids : PointIds ω) (w : ω) (chunks : List DocumentChunk)
    (status : IngestionStatus) (origin : Origin) (s : Corpus) : Corpus :=
  { s with chunks := s.chunks ++ ids.points w status origin (s.chunks.map (·.id)) chunks }

/-- `set_ingestion_status`. -/
def setIngestionStatus (source : String) (status : IngestionStatus) (s : Corpus) : Corpus :=
  { s with chunks := s.chunks.map fun c =>
      if c.source = source then { c with ingestionStatus := status } else c }

/-- `delete_by_source`. -/
def deleteBySource (source : String) (s : Corpus) : Corpus :=
  { s with chunks := s.chunks.filter fun c => c.source ≠ source }

/-- The default `limit` of `scroll_all_chunks`. -/
def scrollLimit : ℕ := 10000

/-- `scroll_all_chunks` : the first page, in the order of the point ids. -/
def scrollAllChunks (status : Option IngestionStatus) (s : Corpus) : List StoredChunk :=
  ((s.chunks.filter fun c => status.all (c.ingestionStatus = ·)).insertionSort
    fun a b => a.id ≤ b.id).take scrollLimit

/-- The sources `list_policies` counts. -/
def listSources (status : Option IngestionStatus) (s : Corpus) : List String :=
  ((s.scrollAllChunks status).map (·.source)).filter (· ≠ "")

/-! ## The security rows -/

/-- Give a row a status. -/
def become (status : DocumentStatus) (r : DocumentSecurityState) : DocumentSecurityState :=
  { r with
    status, history := r.history ++ [status]
    status_mem := List.mem_append_right _ List.mem_cons_self }

/-- `create_pending`. -/
def createPending (id : ℕ) (source uploadedBy : String) (chunkCount : ℕ) (now : Timestamp)
    (upload : ℕ) (s : Corpus) : Option Corpus :=
  (s.rows.insert
    { id, source, status := .pendingScan, uploadedBy, uploadedAt := now
      chunkCount := some chunkCount, upload, history := [.pendingScan]
      status_mem := List.mem_cons_self }).map
    fun rows => { s with rows }

/-- `UPDATE document_security_state SET … WHERE id = …`. -/
def updateRow (id : ℕ) (f : DocumentSecurityState → DocumentSecurityState)
    (hf : ∀ r, (f r).id = r.id) (s : Corpus) : Corpus :=
  { s with rows := s.rows.updateWhere (fun r => r.id = id) f hf }

theorem find_updateRow {id : ℕ} {f : DocumentSecurityState → DocumentSecurityState}
    {hf : ∀ r, (f r).id = r.id} {s : Corpus} {r : DocumentSecurityState}
    (hr : s.rows.find id = some r) : (s.updateRow id f hf).rows.find id = some (f r) := by
  have hid : r.id = id := by
    have h := Table.key_of_find hr
    exact h
  rw [updateRow, Table.find_updateWhere_of_some hr, if_pos (by simpa using hid)]

/-- `record_scan_result`. -/
def recordScanResult (id : ℕ) (status : DocumentStatus) (decision : ScanSummary)
    (now : Timestamp) : Corpus → Corpus :=
  updateRow id
    (fun r => { become status r with scanDecision := some decision, scannedAt := some now })
    fun _ => rfl

/-- `approve`. -/
def approve (id : ℕ) (actor : String) (now : Timestamp) : Corpus → Corpus :=
  updateRow id
    (fun r => { become .approved r with approvedBy := some actor, approvedAt := some now })
    fun _ => rfl

/-- `mark_active`. -/
def markActive (id : ℕ) : Corpus → Corpus :=
  updateRow id (become .active) fun _ => rfl

/-- `reject`. -/
def reject (id : ℕ) (reason : String) : Corpus → Corpus :=
  updateRow id (fun r => { become .rejected r with rejectedReason := some reason }) fun _ => rfl

/-- `get_latest_for_source`. Among rows uploaded at the same instant the database returns
any, here the one `tie` picks. -/
def getLatestForSource (source : String) (tie : ℕ) (s : Corpus) : Option DocumentSecurityState :=
  let rows := s.rows.rows.filter fun r => r.source = source
  let latest := rows.filter fun r => rows.all fun q => q.uploadedAt ≤ r.uploadedAt
  latest[tie % latest.length]?

theorem getLatestForSource_mem {source : String} {tie : ℕ} {s : Corpus}
    {r : DocumentSecurityState} (h : s.getLatestForSource source tie = some r) :
    s.rows.find r.id = some r ∧ r.source = source := by
  have hr := List.mem_of_getElem? h
  rw [List.mem_filter, List.mem_filter] at hr
  exact ⟨Table.find_of_mem hr.1.1, by simpa using hr.1.2⟩

/-! ## The policy folder -/

/-- Write a file, over any of the same name. -/
def writeFile (f : PolicyFile) (s : Corpus) : Corpus :=
  { s with files := s.files.filter (fun g => g.name ≠ f.name) ++ [f] }

end Corpus

/-- The parts of a path, without empty ones and `.`. -/
def pathParts (path : String) : List String :=
  ((path.toList.splitOn '/').map String.ofList).filter fun part => part ≠ "" ∧ part ≠ "."

/-- `Path.name`. -/
def pathName (path : String) : String :=
  (pathParts path).getLastD ""

/-- `Path.suffix.lower()`. -/
def pathSuffix (path : String) : String :=
  let name := (pathName path).toList
  let extension := (name.reverse.takeWhile (· ≠ '.')).reverse
  if extension ≠ [] ∧ extension.length + 1 < name.length then
    String.ofList ('.' :: extension.map Char.toLower)
  else ""

def supportedSuffixes : List String :=
  [".pdf", ".docx"]

/-! ## What the operations keep -/

/-- Recorded `scan_passed`, and later `approved`. -/
def DocumentSecurityState.Approved (r : DocumentSecurityState) : Prop :=
  [DocumentStatus.scanPassed, .approved].Sublist r.history

namespace Corpus

variable {ω : Type*} {s s' : Corpus}

/-- Some row of upload `u` was recorded `scan_passed`, and later `approved`. -/
def UploadApproved (s : Corpus) (u : ℕ) : Prop :=
  ∃ r ∈ s.rows.rows, r.upload = u ∧ r.Approved

/-- The rows of `s'` are those of `s` with more history, and new ones. -/
def Extends (s s' : Corpus) : Prop :=
  ∀ id r, s.rows.find id = some r → ∃ r', s'.rows.find id = some r' ∧ r'.upload = r.upload ∧
    r.history <+: r'.history

theorem Extends.of_rows_eq (h : s'.rows = s.rows) : s.Extends s' :=
  fun _ r hr => ⟨r, by rw [h, hr], rfl, List.prefix_rfl⟩

theorem extends_updateRow {id : ℕ} {f : DocumentSecurityState → DocumentSecurityState}
    {hf : ∀ r, (f r).id = r.id} (hupload : ∀ r, (f r).upload = r.upload)
    (hhistory : ∀ r, r.history <+: (f r).history) : s.Extends (s.updateRow id f hf) := by
  intro k r hr
  rw [updateRow, Table.find_updateWhere_of_some hr]
  refine ⟨_, rfl, ?_⟩
  split
  · exact ⟨hupload r, hhistory r⟩
  · exact ⟨rfl, List.prefix_rfl⟩

theorem extends_recordScanResult (id : ℕ) (status : DocumentStatus) (decision : ScanSummary)
    (now : Timestamp) : s.Extends (s.recordScanResult id status decision now) :=
  extends_updateRow (fun _ => rfl) fun _ => List.prefix_append _ _

theorem extends_approve (id : ℕ) (actor : String) (now : Timestamp) :
    s.Extends (s.approve id actor now) :=
  extends_updateRow (fun _ => rfl) fun _ => List.prefix_append _ _

theorem extends_markActive (id : ℕ) : s.Extends (s.markActive id) :=
  extends_updateRow (fun _ => rfl) fun _ => List.prefix_append _ _

theorem extends_reject (id : ℕ) (reason : String) : s.Extends (s.reject id reason) :=
  extends_updateRow (fun _ => rfl) fun _ => List.prefix_append _ _

theorem extends_createPending {id : ℕ} {source uploadedBy : String} {chunkCount : ℕ}
    {now : Timestamp} {upload : ℕ}
    (h : s.createPending id source uploadedBy chunkCount now upload = some s') : s.Extends s' := by
  obtain ⟨rows, hrows, rfl⟩ := Option.map_eq_some_iff.1 h
  exact fun k r hr => ⟨r, Table.find_insert_of_some hrows hr, rfl, List.prefix_rfl⟩

/-- An approved upload stays one. -/
theorem Extends.uploadApproved (h : s.Extends s') {u : ℕ} (hu : s.UploadApproved u) :
    s'.UploadApproved u := by
  obtain ⟨r, hr, hupload, happroved⟩ := hu
  obtain ⟨r', hr', hupload', hhistory⟩ := h r.id r (Table.find_of_mem hr)
  exact ⟨r', Table.mem_of_find hr', hupload'.trans hupload, happroved.trans hhistory.sublist⟩

theorem mem_points {ids : PointIds ω} {w : ω} {status : IngestionStatus} {origin : Origin}
    {chunks : List DocumentChunk} {c : StoredChunk} :
    ∀ {used : List ℕ}, c ∈ ids.points w status origin used chunks →
      c.ingestionStatus = status ∧ c.origin = origin := by
  induction chunks with
  | nil => simp [PointIds.points]
  | cons chunk rest ih =>
    intro used hc
    rw [PointIds.points, List.mem_cons] at hc
    rcases hc with rfl | hc
    · exact ⟨rfl, rfl⟩
    · exact ih hc

/-- New points have ids that were not in use. -/
theorem id_notMem_of_mem_points {ids : PointIds ω} {w : ω} {status : IngestionStatus}
    {origin : Origin} {chunks : List DocumentChunk} {c : StoredChunk} :
    ∀ {used : List ℕ}, c ∈ ids.points w status origin used chunks → c.id ∉ used := by
  induction chunks with
  | nil => simp [PointIds.points]
  | cons chunk rest ih =>
    intro used hc
    rw [PointIds.points, List.mem_cons] at hc
    rcases hc with rfl | hc
    · exact ids.fresh w used
    · exact fun hused => ih hc (List.mem_cons_of_mem _ hused)

/-- No two new points have the same id. -/
theorem nodup_points (ids : PointIds ω) (w : ω) (status : IngestionStatus) (origin : Origin)
    (chunks : List DocumentChunk) :
    ∀ used : List ℕ, ((ids.points w status origin used chunks).map (·.id)).Nodup := by
  induction chunks with
  | nil => exact fun _ => List.nodup_nil
  | cons chunk rest ih =>
    intro used
    refine List.nodup_cons.2 ⟨fun hmem => ?_, ih _⟩
    obtain ⟨c, hc, hid⟩ := List.mem_map.1 hmem
    exact id_notMem_of_mem_points hc (hid ▸ List.mem_cons_self)

@[simp] theorem map_toDocumentChunk_points (ids : PointIds ω) (w : ω) (status : IngestionStatus)
    (origin : Origin) (chunks : List DocumentChunk) :
    ∀ used : List ℕ,
      (ids.points w status origin used chunks).map (·.toDocumentChunk) = chunks := by
  induction chunks with
  | nil => exact fun _ => rfl
  | cons chunk rest ih => exact fun used => congrArg (chunk :: ·) (ih _)

theorem toDocumentChunk_mem_of_mem_points {ids : PointIds ω} {w : ω} {status : IngestionStatus}
    {origin : Origin} {chunks : List DocumentChunk} {c : StoredChunk} {used : List ℕ}
    (hc : c ∈ ids.points w status origin used chunks) : c.toDocumentChunk ∈ chunks := by
  rw [← map_toDocumentChunk_points ids w status origin chunks used]
  exact List.mem_map_of_mem hc

end Corpus

end EnterpriseRag
