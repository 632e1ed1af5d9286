import EnterpriseRag.Corpus.Quarantine

/-!
# One decision for one upload

`approve` and `reject` read the status of an upload in one step and act in later ones,
which look at no status. Two calls that both read `scan_passed` therefore both go through.
`Unsettled` is where that can happen : a call passes its check while another one that
passed it has not written the row yet. The second way to go wrong needs no second call.
The decision acts on the chunks stored under the source of the row, and an upload under a
filename with a directory part has its chunks stored under the last part only.

`one_decision_iff` says that these two are all. Its invariant is `Settled` : at most one
call has passed its check, and the row and the chunks are where that call has brought
them.
-/

open Transition

namespace EnterpriseRag

namespace Corpus

variable {s s' : Corpus}

/-- The chunks of an upload. -/
def uploadChunks (s : Corpus) (u : ℕ) : List StoredChunk :=
  s.chunks.filter fun c => c.origin = .upload u

/-- The upload has chunks, and all of them have the status. -/
def Stored (s : Corpus) (u : ℕ) (status : IngestionStatus) : Prop :=
  s.uploadChunks u ≠ [] ∧ ∀ c ∈ s.uploadChunks u, c.ingestionStatus = status

/-- Every chunk of the upload is stored under the source. -/
def StoredUnder (s : Corpus) (u : ℕ) (source : String) : Prop :=
  ∀ c ∈ s.uploadChunks u, c.source = source

instance (s : Corpus) (u : ℕ) (status : IngestionStatus) : Decidable (s.Stored u status) :=
  inferInstanceAs (Decidable (s.uploadChunks u ≠ [] ∧
    ∀ c ∈ s.uploadChunks u, c.ingestionStatus = status))

instance (s : Corpus) (u : ℕ) (source : String) : Decidable (s.StoredUnder u source) :=
  inferInstanceAs (Decidable (∀ c ∈ s.uploadChunks u, c.source = source))

def rowStatus (s : Corpus) (id : ℕ) : Option DocumentStatus :=
  (s.rows.find id).map (·.status)

/-- An upload that waits for a decision : its row is the latest of the source, and its
chunks are in quarantine. -/
structure Awaiting (s : Corpus) (source : String) (r : DocumentSecurityState) : Prop where
  latest : ∀ tie, s.getLatestForSource source tie = some r
  scanPassed : r.status = .scanPassed
  quarantined : s.Stored r.upload .quarantined

theorem mem_uploadChunks {u : ℕ} {c : StoredChunk} :
    c ∈ s.uploadChunks u ↔ c ∈ s.chunks ∧ c.origin = .upload u := by
  simp [uploadChunks]

theorem Stored.unique {u : ℕ} {status status' : IngestionStatus} (h : s.Stored u status)
    (h' : s.Stored u status') : status = status' := by
  obtain ⟨c, hc⟩ := List.exists_mem_of_ne_nil _ h.1
  exact (h.2 c hc).symm.trans (h'.2 c hc)

/-- An update that leaves sources and upload times alone leaves the order of the uploads
alone. -/
theorem getLatestForSource_updateRow {id : ℕ}
    {f : DocumentSecurityState → DocumentSecurityState} {hf : ∀ r, (f r).id = r.id}
    (hsource : ∀ r, (f r).source = r.source) (htime : ∀ r, (f r).uploadedAt = r.uploadedAt)
    (source : String) (tie : ℕ) :
    (s.updateRow id f hf).getLatestForSource source tie =
      (s.getLatestForSource source tie).map fun r => if r.id = id then f r else r := by
  have hsource' : ∀ r : DocumentSecurityState,
      (if r.id = id then f r else r).source = r.source := by
    intro r
    split <;> simp [hsource]
  have htime' : ∀ r : DocumentSecurityState,
      (if r.id = id then f r else r).uploadedAt = r.uploadedAt := by
    intro r
    split <;> simp [htime]
  simp [getLatestForSource, updateRow, Table.updateWhere, List.filter_map, Function.comp_def,
    hsource', htime']

theorem rowStatus_updateRow {id : ℕ} {f : DocumentSecurityState → DocumentSecurityState}
    {hf : ∀ r, (f r).id = r.id} {status status' : DocumentStatus}
    (hstatus : ∀ r, (f r).status = status) (h : s.rowStatus id = some status') :
    (s.updateRow id f hf).rowStatus id = some status := by
  obtain ⟨r, hr, -⟩ := Option.map_eq_some_iff.1 h
  rw [rowStatus, find_updateRow hr, Option.map_some, hstatus]

theorem stored_setIngestionStatus {u : ℕ} {source : String} (status : IngestionStatus)
    (hne : s.uploadChunks u ≠ []) (hunder : s.StoredUnder u source) :
    (s.setIngestionStatus source status).Stored u status := by
  constructor
  · obtain ⟨c, hc⟩ := List.exists_mem_of_ne_nil _ hne
    rw [mem_uploadChunks] at hc
    refine List.ne_nil_of_mem (a := if c.source = source then
      { c with ingestionStatus := status } else c) ?_
    rw [mem_uploadChunks]
    refine ⟨List.mem_map_of_mem hc.1, ?_⟩
    split <;> exact hc.2
  · intro c hc
    obtain ⟨hmem, horigin⟩ := mem_uploadChunks.1 hc
    obtain ⟨c, hold, rfl⟩ := List.mem_map.1 hmem
    split at horigin <;> rename_i hsource
    · rw [if_pos hsource]
    · exact absurd (hunder c (mem_uploadChunks.2 ⟨hold, horigin⟩)) hsource

theorem StoredUnder.setIngestionStatus {u : ℕ} {source source' : String}
    {status : IngestionStatus} (h : s.StoredUnder u source) :
    (s.setIngestionStatus source' status).StoredUnder u source := by
  intro c hc
  obtain ⟨hmem, horigin⟩ := mem_uploadChunks.1 hc
  obtain ⟨c, hold, rfl⟩ := List.mem_map.1 hmem
  split at horigin <;> split <;> exact h c (mem_uploadChunks.2 ⟨hold, horigin⟩)

theorem uploadChunks_deleteBySource {u : ℕ} {source : String} (h : s.StoredUnder u source) :
    (s.deleteBySource source).uploadChunks u = [] := by
  refine List.eq_nil_iff_forall_not_mem.2 fun c hc => ?_
  obtain ⟨hmem, horigin⟩ := mem_uploadChunks.1 hc
  obtain ⟨hmem, hsource⟩ := List.mem_filter.1 hmem
  exact absurd (h c (mem_uploadChunks.2 ⟨hmem, horigin⟩)) (by simpa using hsource)

theorem StoredUnder.of_eq_nil {u : ℕ} (source : String) (h : s.uploadChunks u = []) :
    s.StoredUnder u source := by
  simp [StoredUnder, h]

/-- Some chunk of the upload is in quarantine under another source. -/
def Misfiled (s : Corpus) (u : ℕ) (source : String) : Prop :=
  ∃ c ∈ s.uploadChunks u, c.source ≠ source ∧ c.ingestionStatus = .quarantined

theorem Misfiled.setIngestionStatus {u : ℕ} {source : String} {status : IngestionStatus}
    (h : s.Misfiled u source) : (s.setIngestionStatus source status).Misfiled u source := by
  obtain ⟨c, hc, hsource, hstatus⟩ := h
  obtain ⟨hmem, horigin⟩ := mem_uploadChunks.1 hc
  refine ⟨c, mem_uploadChunks.2 ⟨?_, horigin⟩, hsource, hstatus⟩
  exact List.mem_map.2 ⟨c, hmem, if_neg hsource⟩

theorem Misfiled.deleteBySource {u : ℕ} {source : String} (h : s.Misfiled u source) :
    (s.deleteBySource source).Misfiled u source := by
  obtain ⟨c, hc, hsource, hstatus⟩ := h
  obtain ⟨hmem, horigin⟩ := mem_uploadChunks.1 hc
  refine ⟨c, mem_uploadChunks.2 ⟨?_, horigin⟩, hsource, hstatus⟩
  exact List.mem_filter.2 ⟨hmem, by simpa using hsource⟩

end Corpus

/-! ## Calls that decide -/

/-- An `approve` or a `reject` of the source. -/
def Request.Decides (source : String) : Request → Prop
  | .submit _ _ _ => False
  | .approve source' _ => source' = source
  | .reject source' _ _ => source' = source

/-- Where a call stands once it has passed its status check. -/
def Request.afterCheck (id : ℕ) : Request → Point
  | .reject _ _ _ => .deleteRejected id
  | _ => .approveRow id

/-- The row a call decides on, once it has passed its status check. -/
def Point.row : Point → Option ℕ
  | .approveRow id | .setIngestionStatus id | .markActive id | .deleteRejected id | .rejectRow id
  | .decided id => some id
  | _ => none

/-- The call has passed its status check and has not written the row. -/
def Point.undecided : Point → Bool
  | .approveRow _ | .deleteRejected _ | .rejectRow _ => true
  | _ => false

/-- The call has returned. -/
def Point.hasDecided : Point → Bool
  | .decided _ => true
  | _ => false

/-- Where the row `r` and the chunks of its upload are once a call that decides on them has
come this far. -/
def CorpusCall.Reflects (r : DocumentSecurityState) (s : Corpus) (call : CorpusCall) : Prop :=
  match call.request, call.point with
  | .approve _ _, .approveRow id =>
    id = r.id ∧ s.rowStatus r.id = some .scanPassed ∧ s.Stored r.upload .quarantined
  | .approve _ _, .setIngestionStatus id =>
    id = r.id ∧ s.rowStatus r.id = some .approved ∧ s.Stored r.upload .quarantined
  | .approve _ _, .markActive id =>
    id = r.id ∧ s.rowStatus r.id = some .approved ∧ s.Stored r.upload .active
  | .approve _ _, .decided _ => s.rowStatus r.id = some .active ∧ s.Stored r.upload .active
  | .reject _ _ _, .deleteRejected id =>
    id = r.id ∧ s.rowStatus r.id = some .scanPassed ∧ s.Stored r.upload .quarantined
  | .reject _ _ _, .rejectRow id =>
    id = r.id ∧ s.rowStatus r.id = some .scanPassed ∧ s.uploadChunks r.upload = []
  | .reject _ _ _, .decided _ =>
    s.rowStatus r.id = some .rejected ∧ s.uploadChunks r.upload = []
  | _, _ => False

theorem CorpusCall.reflects_afterCheck {r : DocumentSecurityState} {s : Corpus}
    {source : String} {call : CorpusCall} (hdecides : call.request.Decides source)
    (hrow : s.rowStatus r.id = some .scanPassed) (hstored : s.Stored r.upload .quarantined) :
    CorpusCall.Reflects r s { call with point := call.request.afterCheck r.id } := by
  obtain ⟨request, p⟩ := call
  cases request with
  | submit filename content actor => exact hdecides.elim
  | approve source actor => exact ⟨rfl, hrow, hstored⟩
  | reject source actor reason => exact ⟨rfl, hrow, hstored⟩

/-- Once the row is written, no further check of it succeeds. -/
theorem CorpusCall.Reflects.not_checked {r : DocumentSecurityState} {s : Corpus}
    {call : CorpusCall} (h : call.Reflects r s) (hwritten : ¬call.point.undecided)
    (hstatus : s.rowStatus r.id = some .scanPassed ∨ s.rowStatus r.id = some .scanFailed) :
    False := by
  obtain ⟨request, p⟩ := call
  cases request <;> cases p <;>
    simp_all [CorpusCall.Reflects, Point.undecided]

theorem CorpusCall.Reflects.of_isOver {r : DocumentSecurityState} {s : Corpus}
    {call : CorpusCall} (h : call.Reflects r s) (hover : call.point.isOver) :
    s.rowStatus r.id = some .active ∧ s.Stored r.upload .active ∨
      s.rowStatus r.id = some .rejected ∧ s.uploadChunks r.upload = [] := by
  obtain ⟨request, p⟩ := call
  cases request <;> cases p <;>
    simp_all [CorpusCall.Reflects, Point.isOver]

namespace IngestionService

variable {ω : Type*} {svc : IngestionService ω} {w : ω} {c : ℕ} {call : CorpusCall}
  {point : Point} {s s' : Corpus} {source : String} {r : DocumentSecurityState}

/-- A call that has passed its check goes on to its end, and brings the row and the chunks
along. -/
theorem reflects_advance (h : svc.advance w c call s = some (point, s'))
    (hdecides : call.request.Decides source) (hunder : s.StoredUnder r.upload source)
    (hcall : call.Reflects r s) :
    s'.StoredUnder r.upload source ∧ CorpusCall.Reflects r s' { call with point } := by
  cases stepsTo_of_advance h with
  | approveRow =>
    obtain ⟨rfl, hrow, hstored⟩ := hcall
    exact ⟨hunder, rfl, Corpus.rowStatus_updateRow (fun _ => rfl) hrow, hstored⟩
  | setIngestionStatus =>
    obtain rfl : _ = source := hdecides
    obtain ⟨rfl, hrow, hstored⟩ := hcall
    exact ⟨hunder.setIngestionStatus, rfl, hrow,
      Corpus.stored_setIngestionStatus _ hstored.1 hunder⟩
  | markActive =>
    obtain ⟨rfl, hrow, hstored⟩ := hcall
    exact ⟨hunder, Corpus.rowStatus_updateRow (fun _ => rfl) hrow, hstored⟩
  | deleteRejected =>
    obtain rfl : _ = source := hdecides
    obtain ⟨rfl, hrow, hstored⟩ := hcall
    have hgone := Corpus.uploadChunks_deleteBySource hunder
    exact ⟨.of_eq_nil _ hgone, rfl, hrow, hgone⟩
  | rejectRow =>
    obtain ⟨rfl, hrow, hgone⟩ := hcall
    exact ⟨hunder, Corpus.rowStatus_updateRow (fun _ => rfl) hrow, hgone⟩
  | _ => exact hcall.elim

/-- A call that has passed its check writes on, whatever the row says by then. -/
inductive DecisionWrite (source : String) (id : ℕ) (s : Corpus) : Point → Corpus → Prop
  | approveRow (actor : String) (now : Timestamp) :
    DecisionWrite source id s (.setIngestionStatus id) (s.approve id actor now)
  | setIngestionStatus :
    DecisionWrite source id s (.markActive id) (s.setIngestionStatus source .active)
  | markActive : DecisionWrite source id s (.decided id) (s.markActive id)
  | deleteRejected : DecisionWrite source id s (.rejectRow id) (s.deleteBySource source)
  | rejectRow (reason : String) : DecisionWrite source id s (.decided id) (s.reject id reason)

namespace DecisionWrite

variable {id : ℕ}

theorem row_eq (h : DecisionWrite source id s point s') : point.row = some id := by
  cases h <;> rfl

/-- The row stays the latest of its source. -/
theorem latest (h : DecisionWrite source id s point s') {source' : String} {i : ℕ}
    (hs : ∀ tie, ∃ q, s.getLatestForSource source' tie = some q ∧ q.id = i) (tie : ℕ) :
    ∃ q, s'.getLatestForSource source' tie = some q ∧ q.id = i := by
  obtain ⟨q, hq, rfl⟩ := hs tie
  have hupdate : ∀ {f : DocumentSecurityState → DocumentSecurityState}
      (hf : ∀ r, (f r).id = r.id), (∀ r, (f r).source = r.source) →
      (∀ r, (f r).uploadedAt = r.uploadedAt) →
      ∃ q', (s.updateRow id f hf).getLatestForSource source' tie = some q' ∧ q'.id = q.id := by
    intro f hf hsource htime
    rw [Corpus.getLatestForSource_updateRow hsource htime, hq, Option.map_some]
    refine ⟨_, rfl, ?_⟩
    split
    · exact hf q
    · rfl
  cases h with
  | approveRow actor now => exact hupdate _ (fun _ => rfl) fun _ => rfl
  | setIngestionStatus => exact ⟨q, hq, rfl⟩
  | markActive => exact hupdate _ (fun _ => rfl) fun _ => rfl
  | deleteRejected => exact ⟨q, hq, rfl⟩
  | rejectRow reason => exact hupdate _ (fun _ => rfl) fun _ => rfl

/-- Chunks stored elsewhere stay in quarantine. -/
theorem elsewhere (h : DecisionWrite source id s point s') {u : ℕ}
    (hs : ∀ c ∈ s.uploadChunks u, c.source ≠ source → c.ingestionStatus = .quarantined) :
    ∀ c ∈ s'.uploadChunks u, c.source ≠ source → c.ingestionStatus = .quarantined := by
  cases h with
  | setIngestionStatus =>
    intro c hc hsource
    obtain ⟨hmem, horigin⟩ := Corpus.mem_uploadChunks.1 hc
    obtain ⟨c, hold, rfl⟩ := List.mem_map.1 hmem
    split at horigin <;> rename_i hc'
    · rw [if_pos hc'] at hsource
      exact absurd hc' hsource
    · rw [if_neg hc']
      exact hs c (Corpus.mem_uploadChunks.2 ⟨hold, horigin⟩) hc'
  | deleteRejected =>
    intro c hc
    obtain ⟨hmem, horigin⟩ := Corpus.mem_uploadChunks.1 hc
    exact hs c (Corpus.mem_uploadChunks.2 ⟨(List.mem_filter.1 hmem).1, horigin⟩)
  | _ => exact hs

theorem misfiled (h : DecisionWrite source id s point s') {u : ℕ} (hs : s.Misfiled u source) :
    s'.Misfiled u source := by
  cases h with
  | setIngestionStatus => exact hs.setIngestionStatus
  | deleteRejected => exact hs.deleteBySource
  | _ => exact hs

/-- The last write of a call leaves the row decided. -/
theorem rowStatus_of_isOver (h : DecisionWrite source id s point s') (hover : point.isOver)
    {status : DocumentStatus} (hrow : s.rowStatus id = some status) :
    s'.rowStatus id = some .active ∨ s'.rowStatus id = some .rejected := by
  cases h with
  | markActive => exact Or.inl (Corpus.rowStatus_updateRow (fun _ => rfl) hrow)
  | rejectRow reason => exact Or.inr (Corpus.rowStatus_updateRow (fun _ => rfl) hrow)
  | _ => simp [Point.isOver] at hover

end DecisionWrite

theorem decisionWrite_of_advance (h : svc.advance w c call s = some (point, s'))
    (hdecides : call.request.Decides source) {id : ℕ} (hrow : call.point.row = some id) :
    DecisionWrite source id s point s' := by
  cases stepsTo_of_advance h with
  | approveRow =>
    obtain rfl := Option.some.inj hrow
    exact .approveRow _ _
  | setIngestionStatus =>
    obtain rfl := Option.some.inj hrow
    obtain rfl : _ = source := hdecides
    exact .setIngestionStatus
  | markActive =>
    obtain rfl := Option.some.inj hrow
    exact .markActive
  | deleteRejected =>
    obtain rfl := Option.some.inj hrow
    obtain rfl : _ = source := hdecides
    exact .deleteRejected
  | rejectRow =>
    obtain rfl := Option.some.inj hrow
    exact .rejectRow _
  | _ => simp [Point.row] at hrow

/-- The status check of a call, and where it leads if the call passes it. -/
theorem check_of_advance (h : svc.advance w c call s = some (point, s'))
    (hdecides : call.request.Decides source) (hrow : call.point.row = none) :
    call.point = .getLatest ∧ s' = s ∧ ∀ id, point.row = some id →
      point = call.request.afterCheck id ∧
        ∃ q, s.getLatestForSource source (svc.tie w) = some q ∧ q.id = id ∧
          (q.status = .scanPassed ∨ q.status = .scanFailed) := by
  cases stepsTo_of_advance h with
  | approveRefused => exact ⟨rfl, rfl, fun id hid => by simp [Point.row] at hid⟩
  | approveChecked hr hstatus =>
    obtain rfl : _ = source := hdecides
    refine ⟨rfl, rfl, fun id hid => ?_⟩
    obtain rfl := Option.some.inj hid
    exact ⟨rfl, _, hr, rfl, Or.inl hstatus⟩
  | rejectRefused => exact ⟨rfl, rfl, fun id hid => by simp [Point.row] at hid⟩
  | rejectChecked hr hstatus =>
    obtain rfl : _ = source := hdecides
    refine ⟨rfl, rfl, fun id hid => ?_⟩
    obtain rfl := Option.some.inj hid
    exact ⟨rfl, _, hr, rfl, hstatus⟩
  | approveRow => simp [Point.row] at hrow
  | setIngestionStatus => simp [Point.row] at hrow
  | markActive => simp [Point.row] at hrow
  | deleteRejected => simp [Point.row] at hrow
  | rejectRow => simp [Point.row] at hrow
  | _ => exact hdecides.elim

end IngestionService

namespace CorpusSystem

variable {ω : Type*} {svc : IngestionService ω} {s s' : CorpusSystem} {e : Event ω}
  {source : String} {r : DocumentSecurityState}

/-- The stores, and no call. -/
def quiet (corpus : Corpus) : CorpusSystem :=
  ⟨corpus, fun _ => none⟩

/-- The event belongs to a call that decides on the source. -/
def Event.Decides (source : String) : Event ω → Prop
  | .call _ request => request.Decides source
  | .advance _ _ => True
  | .fail _ _ | .seedDocs _ | .placeFile _ _ => False

/-- Every call is over. -/
def Finished (s : CorpusSystem) : Prop :=
  ∀ c call, s.calls c = some call → call.point.isOver

/-- At most one call has returned, and once all are over the row agrees with the chunks. -/
structure OneDecision (r : DocumentSecurityState) (s : CorpusSystem) : Prop where
  unique : ∀ c c' call call', s.calls c = some call → s.calls c' = some call' →
    call.point.hasDecided → call'.point.hasDecided → c = c'
  active_iff : s.Finished →
    (s.corpus.rowStatus r.id = some .active ↔ s.corpus.Stored r.upload .active)
  rejected : s.Finished → s.corpus.rowStatus r.id = some .rejected →
    s.corpus.uploadChunks r.upload = []

/-- The event is the status check of a call, and the call passes it. -/
def PassesCheck (svc : IngestionService ω) (s : CorpusSystem) (e : Event ω) : Prop :=
  ∃ c w call point corpus, e = .advance c w ∧ s.calls c = some call ∧ call.point = .getLatest ∧
    svc.advance w c call s.corpus = some (point, corpus) ∧ point.row.isSome

/-- A call passes its check while another one that passed it has yet to write the row, or
while the upload has chunks that its source does not name. -/
def Unsettled (svc : IngestionService ω) (source : String) (r : DocumentSecurityState)
    (s : CorpusSystem) (e : Event ω) : Prop :=
  s.PassesCheck svc e ∧
    ((∃ c call, s.calls c = some call ∧ call.point.undecided) ∨
      ¬s.corpus.StoredUnder r.upload source)

/-- What holds in a run of such calls in any case. -/
structure Deciding (source : String) (r : DocumentSecurityState) (s : CorpusSystem) : Prop where
  decides : ∀ c call, s.calls c = some call → call.request.Decides source
  row : ∀ c call id, s.calls c = some call → call.point.row = some id → id = r.id
  latest : ∀ tie, ∃ q, s.corpus.getLatestForSource source tie = some q ∧ q.id = r.id
  elsewhere : ∀ c ∈ s.corpus.uploadChunks r.upload, c.source ≠ source →
    c.ingestionStatus = .quarantined

/-- What a step of such calls can do. -/
theorem decides_step_cases (hs : s.Deciding source r) (he : e.Decides source)
    (h : step svc s e = some s') :
    (∃ c request, e = .call c request ∧ s.calls c = none ∧ request.Decides source ∧
      s'.corpus = s.corpus ∧ s'.calls = Function.update s.calls c (some ⟨request, .getLatest⟩)) ∨
    (∃ c w call point, e = .advance c w ∧ s.calls c = some call ∧ call.point = .getLatest ∧
      svc.advance w c call s.corpus = some (point, s.corpus) ∧ s'.corpus = s.corpus ∧
      s'.calls = Function.update s.calls c (some { call with point }) ∧
      ∀ id, point.row = some id → point = call.request.afterCheck id ∧ id = r.id ∧
        (s.corpus.rowStatus r.id = some .scanPassed ∨
          s.corpus.rowStatus r.id = some .scanFailed)) ∨
    (∃ c w call point, e = .advance c w ∧ s.calls c = some call ∧ call.point.row = some r.id ∧
      svc.advance w c call s.corpus = some (point, s'.corpus) ∧
      IngestionService.DecisionWrite source r.id s.corpus point s'.corpus ∧
      s'.calls = Function.update s.calls c (some { call with point })) := by
  cases e with
  | call c request =>
    have hdecides : request.Decides source := he
    have henter : svc.enter request = .getLatest := by
      cases request with
      | submit filename content actor => exact hdecides.elim
      | approve source actor => rfl
      | reject source actor reason => rfl
    rw [step, henter] at h
    split at h
    · simp at h
    · rename_i hfresh
      obtain rfl := Option.some.inj h
      exact Or.inl ⟨c, request, rfl, by simpa using hfresh, hdecides, rfl, rfl⟩
  | advance c w =>
    simp only [step, Option.bind_eq_some_iff, Option.map_eq_some_iff] at h
    obtain ⟨call, hcall, ⟨point, corpus⟩, hadvance, rfl⟩ := h
    have hdecides := hs.decides c call hcall
    rcases hrow : call.point.row with _ | id
    · obtain ⟨hpoint, rfl, hcheck⟩ := IngestionService.check_of_advance hadvance hdecides hrow
      refine Or.inr (Or.inl ⟨c, w, call, point, rfl, hcall, hpoint, hadvance, rfl, rfl, ?_⟩)
      intro id hid
      obtain ⟨hafter, q, hq, rfl, hstatus⟩ := hcheck id hid
      obtain ⟨q', hq', hid'⟩ := hs.latest (svc.tie w)
      obtain rfl : q = q' := Option.some.inj (hq.symm.trans hq')
      have hfind : s.corpus.rowStatus r.id = some q.status := by
        rw [Corpus.rowStatus, ← hid', (Corpus.getLatestForSource_mem hq).1, Option.map_some]
      refine ⟨hafter, hid', ?_⟩
      rcases hstatus with hstatus | hstatus
      · exact Or.inl (hstatus ▸ hfind)
      · exact Or.inr (hstatus ▸ hfind)
    · obtain rfl := hs.row c call id hcall hrow
      exact Or.inr (Or.inr ⟨c, w, call, point, rfl, hcall, hrow, hadvance,
        IngestionService.decisionWrite_of_advance hadvance hdecides hrow, rfl⟩)
  | fail c error => exact he.elim
  | seedDocs ws => exact he.elim
  | placeFile name content => exact he.elim

theorem calls_update {c₀ c : ℕ} {call₀ call : CorpusCall}
    (h : s'.calls = Function.update s.calls c₀ (some call₀)) (hc : s'.calls c = some call) :
    c = c₀ ∧ call = call₀ ∨ c ≠ c₀ ∧ s.calls c = some call := by
  rw [h] at hc
  by_cases hcc : c = c₀
  · rw [hcc, Function.update_self] at hc
    exact Or.inl ⟨hcc, (Option.some.inj hc).symm⟩
  · rw [Function.update_of_ne hcc] at hc
    exact Or.inr ⟨hcc, hc⟩

theorem deciding_quiet {corpus : Corpus} (h : corpus.Awaiting source r) :
    (quiet corpus).Deciding source r where
  decides c call hc := by simp [quiet] at hc
  row c call id hc := by simp [quiet] at hc
  latest tie := ⟨r, h.latest tie, rfl⟩
  elsewhere c hc _ := h.quarantined.2 c hc

theorem deciding_step (hs : s.Deciding source r) (he : e.Decides source)
    (h : step svc s e = some s') : s'.Deciding source r := by
  rcases decides_step_cases hs he h with
    ⟨c, request, -, -, hdecides, hcorpus, hcalls⟩ |
    ⟨c, w, call, point, -, hcall, -, -, hcorpus, hcalls, hcheck⟩ |
    ⟨c, w, call, point, -, hcall, -, -, hwrite, hcalls⟩
  · refine ⟨fun c' call' hc' => ?_, fun c' call' id hc' hid => ?_, hcorpus ▸ hs.latest,
      hcorpus ▸ hs.elsewhere⟩
    · rcases calls_update hcalls hc' with ⟨-, rfl⟩ | ⟨-, hc'⟩
      · exact hdecides
      · exact hs.decides c' call' hc'
    · rcases calls_update hcalls hc' with ⟨-, rfl⟩ | ⟨-, hc'⟩
      · simp [Point.row] at hid
      · exact hs.row c' call' id hc' hid
  · refine ⟨fun c' call' hc' => ?_, fun c' call' id hc' hid => ?_, hcorpus ▸ hs.latest,
      hcorpus ▸ hs.elsewhere⟩
    · rcases calls_update hcalls hc' with ⟨-, rfl⟩ | ⟨-, hc'⟩
      · exact hs.decides c call hcall
      · exact hs.decides c' call' hc'
    · rcases calls_update hcalls hc' with ⟨-, rfl⟩ | ⟨-, hc'⟩
      · exact (hcheck id hid).2.1
      · exact hs.row c' call' id hc' hid
  · refine ⟨fun c' call' hc' => ?_, fun c' call' id hc' hid => ?_, hwrite.latest hs.latest,
      hwrite.elsewhere hs.elsewhere⟩
    · rcases calls_update hcalls hc' with ⟨-, rfl⟩ | ⟨-, hc'⟩
      · exact hs.decides c call hcall
      · exact hs.decides c' call' hc'
    · rcases calls_update hcalls hc' with ⟨-, rfl⟩ | ⟨-, hc'⟩
      · exact (Option.some.inj (hwrite.row_eq.symm.trans hid)).symm
      · exact hs.row c' call' id hc' hid

/-! ## At most one call passes its check -/

/-- No call has passed its check, or a single one has and the stores are where it has
brought them. -/
inductive Settled (source : String) (r : DocumentSecurityState) (s : CorpusSystem) : Prop
  | undecided (hrow : s.corpus.rowStatus r.id = some .scanPassed)
      (hstored : s.corpus.Stored r.upload .quarantined)
      (hnone : ∀ c call, s.calls c = some call → call.point.row = none)
  | decidedBy (c : ℕ) (call : CorpusCall) (hcall : s.calls c = some call)
      (hunder : s.corpus.StoredUnder r.upload source) (hreflects : call.Reflects r s.corpus)
      (hnone : ∀ c' call', c' ≠ c → s.calls c' = some call' → call'.point.row = none)

theorem settled_quiet {corpus : Corpus} (h : corpus.Awaiting source r) :
    (quiet corpus).Settled source r := by
  refine .undecided ?_ h.quarantined fun c call hc => by simp [quiet] at hc
  rw [quiet, Corpus.rowStatus, (Corpus.getLatestForSource_mem (h.latest 0)).1, Option.map_some,
    h.scanPassed]

theorem settled_step (hs : s.Deciding source r) (hsettled : s.Settled source r)
    (he : e.Decides source) (hcond : ¬s.Unsettled svc source r e) (h : step svc s e = some s') :
    s'.Settled source r := by
  rcases decides_step_cases hs he h with
    ⟨c, request, -, hfresh, -, hcorpus, hcalls⟩ |
    ⟨c, w, call, point, rfl, hcall, hpoint, hadvance, hcorpus, hcalls, hcheck⟩ |
    ⟨c, w, call, point, -, hcall, hrow, hadvance, -, hcalls⟩
  · -- a new call has checked nothing yet
    have hkeep : ∀ c' call', s'.calls c' = some call' → call'.point.row = none ∨
        c' ≠ c ∧ s.calls c' = some call' := by
      intro c' call' hc'
      rcases calls_update hcalls hc' with ⟨-, rfl⟩ | hc'
      · exact Or.inl rfl
      · exact Or.inr hc'
    cases hsettled with
    | undecided hrow hstored hnone =>
      refine .undecided (hcorpus ▸ hrow) (hcorpus ▸ hstored) fun c' call' hc' => ?_
      exact (hkeep c' call' hc').elim id fun h => hnone c' call' h.2
    | decidedBy c₀ call₀ hcall₀ hunder hreflects hnone =>
      have hne : c₀ ≠ c := by
        rintro rfl
        simp [hfresh] at hcall₀
      refine .decidedBy c₀ call₀ ?_ (hcorpus ▸ hunder) (hcorpus ▸ hreflects) ?_
      · rw [hcalls, Function.update_of_ne hne, hcall₀]
      · intro c' call' hne' hc'
        exact (hkeep c' call' hc').elim id fun h => hnone c' call' hne' h.2
  · rcases hrow : point.row with _ | id
    · -- the check fails, and the call raises
      cases hsettled with
      | undecided hrow' hstored hnone =>
        refine .undecided (hcorpus ▸ hrow') (hcorpus ▸ hstored) fun c' call' hc' => ?_
        rcases calls_update hcalls hc' with ⟨-, rfl⟩ | ⟨-, hc'⟩
        · exact hrow
        · exact hnone c' call' hc'
      | decidedBy c₀ call₀ hcall₀ hunder hreflects hnone =>
        have hne : c₀ ≠ c := by
          rintro rfl
          obtain rfl : call = call₀ := Option.some.inj (hcall.symm.trans hcall₀)
          simp [CorpusCall.Reflects, hpoint] at hreflects
        refine .decidedBy c₀ call₀ ?_ (hcorpus ▸ hunder) (hcorpus ▸ hreflects) ?_
        · rw [hcalls, Function.update_of_ne hne, hcall₀]
        · intro c' call' hne' hc'
          rcases calls_update hcalls hc' with ⟨-, rfl⟩ | ⟨-, hc'⟩
          · exact hrow
          · exact hnone c' call' hne' hc'
    · -- the check succeeds, so no other call is about to write the row
      have hpasses : s.PassesCheck svc (.advance c w) :=
        ⟨c, w, call, point, s.corpus, rfl, hcall, hpoint, hadvance, by rw [hrow]; rfl⟩
      obtain ⟨hafter, rfl, hstatus⟩ := hcheck id hrow
      have hclear : ∀ c' call', s.calls c' = some call' → ¬call'.point.undecided :=
        fun c' call' hc' hu => hcond ⟨hpasses, Or.inl ⟨c', call', hc', hu⟩⟩
      have hunder : s.corpus.StoredUnder r.upload source :=
        not_not.1 fun hn => hcond ⟨hpasses, Or.inr hn⟩
      cases hsettled with
      | undecided hrow' hstored hnone =>
        refine .decidedBy c { call with point } ?_ (hcorpus ▸ hunder) ?_ ?_
        · rw [hcalls, Function.update_self]
        · rw [hcorpus, hafter]
          exact CorpusCall.reflects_afterCheck (hs.decides c call hcall) hrow' hstored
        · intro c' call' hne' hc'
          rcases calls_update hcalls hc' with ⟨hc, -⟩ | ⟨-, hc'⟩
          · exact absurd hc hne'
          · exact hnone c' call' hc'
      | decidedBy c₀ call₀ hcall₀ hunder' hreflects hnone =>
        exact (hreflects.not_checked (hclear c₀ call₀ hcall₀) hstatus).elim
  · -- the call that has passed its check goes on
    cases hsettled with
    | undecided hrow' hstored hnone =>
      rw [hnone c call hcall] at hrow
      simp at hrow
    | decidedBy c₀ call₀ hcall₀ hunder hreflects hnone =>
      obtain rfl : c = c₀ := by
        by_contra hne
        rw [hnone c call hne hcall] at hrow
        simp at hrow
      obtain rfl : call = call₀ := Option.some.inj (hcall.symm.trans hcall₀)
      obtain ⟨hunder', hreflects'⟩ := IngestionService.reflects_advance hadvance
        (hs.decides c call hcall) hunder hreflects
      refine .decidedBy c { call with point } ?_ hunder' hreflects' ?_
      · rw [hcalls, Function.update_self]
      · intro c' call' hne' hc'
        rcases calls_update hcalls hc' with ⟨hc, -⟩ | ⟨-, hc'⟩
        · exact absurd hc hne'
        · exact hnone c' call' hne' hc'

theorem oneDecision_of_settled (h : s.Settled source r) : s.OneDecision r := by
  cases h with
  | undecided hrow hstored hnone =>
    refine ⟨fun c c' call call' hc _ hdecided _ => ?_, fun _ => ?_, fun _ hrejected => ?_⟩
    · have hrow' := hnone c call hc
      cases hpoint : call.point <;> simp [hpoint, Point.row, Point.hasDecided] at hrow' hdecided
    · refine iff_of_false (fun hactive => ?_) fun hactive => ?_
      · simp [hrow] at hactive
      · exact absurd (hstored.unique hactive) (by decide)
    · simp [hrow] at hrejected
  | decidedBy c call hcall hunder hreflects hnone =>
    have heq : ∀ c' call', s.calls c' = some call' → call'.point.hasDecided → c' = c := by
      intro c' call' hc' hdecided
      by_contra hne
      have hrow := hnone c' call' hne hc'
      cases hpoint : call'.point <;> simp [hpoint, Point.row, Point.hasDecided] at hrow hdecided
    have hlast : s.Finished →
        s.corpus.rowStatus r.id = some .active ∧ s.corpus.Stored r.upload .active ∨
        s.corpus.rowStatus r.id = some .rejected ∧ s.corpus.uploadChunks r.upload = [] :=
      fun hfinished => hreflects.of_isOver (hfinished c call hcall)
    refine ⟨fun c₁ c₂ call₁ call₂ h₁ h₂ hd₁ hd₂ => ?_, fun hfinished => ?_,
      fun hfinished hrejected => ?_⟩
    · rw [heq c₁ call₁ h₁ hd₁, heq c₂ call₂ h₂ hd₂]
    · rcases hlast hfinished with ⟨hrow, hstored⟩ | ⟨hrow, hgone⟩
      · exact iff_of_true hrow hstored
      · exact iff_of_false (by simp [hrow]) fun hstored => hstored.1 hgone
    · rcases hlast hfinished with ⟨hrow, -⟩ | ⟨-, hgone⟩
      · simp [hrow] at hrejected
      · exact hgone

/-! ## What two calls that pass their checks leave -/

/-- The row is decided, or a call that has passed its check has more to write. -/
def Underway (r : DocumentSecurityState) (s : CorpusSystem) : Prop :=
  (s.corpus.rowStatus r.id = some .active ∨ s.corpus.rowStatus r.id = some .rejected) ∨
    ∃ c call, s.calls c = some call ∧ call.point.row = some r.id ∧ ¬call.point.isOver

theorem underway_step (hs : s.Deciding source r) (hway : s.Underway r) (he : e.Decides source)
    (h : step svc s e = some s') : s'.Underway r := by
  rcases decides_step_cases hs he h with
    ⟨c, request, -, hfresh, -, hcorpus, hcalls⟩ |
    ⟨c, w, call, point, -, hcall, hpoint, -, hcorpus, hcalls, -⟩ |
    ⟨c, w, call, point, -, hcall, -, -, hwrite, hcalls⟩
  · rcases hway with hrow | ⟨c₀, call₀, hcall₀, hrow, hover⟩
    · exact Or.inl (hcorpus ▸ hrow)
    · have hne : c₀ ≠ c := by
        rintro rfl
        simp [hfresh] at hcall₀
      exact Or.inr ⟨c₀, call₀, by rw [hcalls, Function.update_of_ne hne, hcall₀], hrow, hover⟩
  · rcases hway with hrow | ⟨c₀, call₀, hcall₀, hrow, hover⟩
    · exact Or.inl (hcorpus ▸ hrow)
    · have hne : c₀ ≠ c := by
        rintro rfl
        obtain rfl : call = call₀ := Option.some.inj (hcall.symm.trans hcall₀)
        simp [hpoint, Point.row] at hrow
      exact Or.inr ⟨c₀, call₀, by rw [hcalls, Function.update_of_ne hne, hcall₀], hrow, hover⟩
  · by_cases hover : point.isOver
    · obtain ⟨q, hq, hid⟩ := hs.latest 0
      have hstatus : s.corpus.rowStatus r.id = some q.status := by
        rw [Corpus.rowStatus, ← hid, (Corpus.getLatestForSource_mem hq).1, Option.map_some]
      exact Or.inl (hwrite.rowStatus_of_isOver hover hstatus)
    · exact Or.inr ⟨c, _, by rw [hcalls, Function.update_self], hwrite.row_eq, hover⟩

/-- A call that has passed its check never raises. -/
theorem row_step (hs : s.Deciding source r) (he : e.Decides source) (h : step svc s e = some s')
    {c : ℕ} (hc : ∃ call, s.calls c = some call ∧ call.point.row = some r.id) :
    ∃ call, s'.calls c = some call ∧ call.point.row = some r.id := by
  obtain ⟨call₀, hcall₀, hrow⟩ := hc
  rcases decides_step_cases hs he h with
    ⟨c', request, -, hfresh, -, -, hcalls⟩ |
    ⟨c', w, call, point, -, hcall, hpoint, -, -, hcalls, -⟩ |
    ⟨c', w, call, point, -, hcall, -, -, hwrite, hcalls⟩
  · have hne : c ≠ c' := by
      rintro rfl
      simp [hfresh] at hcall₀
    exact ⟨call₀, by rw [hcalls, Function.update_of_ne hne, hcall₀], hrow⟩
  · have hne : c ≠ c' := by
      rintro rfl
      obtain rfl : call = call₀ := Option.some.inj (hcall.symm.trans hcall₀)
      simp [hpoint, Point.row] at hrow
    exact ⟨call₀, by rw [hcalls, Function.update_of_ne hne, hcall₀], hrow⟩
  · by_cases hcc : c = c'
    · exact ⟨_, by rw [hcalls, hcc, Function.update_self], hwrite.row_eq⟩
    · exact ⟨call₀, by rw [hcalls, Function.update_of_ne hcc, hcall₀], hrow⟩

theorem misfiled_step (hs : s.Deciding source r) (he : e.Decides source)
    (h : step svc s e = some s') (hmis : s.corpus.Misfiled r.upload source) :
    s'.corpus.Misfiled r.upload source := by
  rcases decides_step_cases hs he h with
    ⟨c, request, -, -, -, hcorpus, -⟩ | ⟨c, w, call, point, -, -, -, -, hcorpus, -⟩ |
    ⟨c, w, call, point, -, -, -, -, hwrite, -⟩
  · exact hcorpus ▸ hmis
  · exact hcorpus ▸ hmis
  · exact hwrite.misfiled hmis

/-- Two calls that pass their checks both return, and a decision on chunks that the source
does not name leaves them behind. -/
theorem not_oneDecision_of_unsettled {es : List (Event ω)} {t : CorpusSystem}
    (hs : s.Deciding source r) (hdecides : ∀ e ∈ es, e.Decides source) (he : e.Decides source)
    (hunsettled : s.Unsettled svc source r e) (h : step svc s e = some s')
    (ht : exec (step svc) s' es = some t) (hfinished : t.Finished) : ¬t.OneDecision r := by
  intro hone
  have hs' : s'.Deciding source r := deciding_step hs he h
  have halong : Along (step svc) (fun _ e => e.Decides source) s' es :=
    along_of_forall_mem (fun e he _ => hdecides e he) s'
  obtain ⟨⟨c, w, call, point, corpus, rfl, hcall, hpoint, hadvance, hrow⟩, hcase⟩ := hunsettled
  -- the call that passes its check in this step
  have hcalls' : s'.calls = Function.update s.calls c (some { call with point }) := by
    simp only [step, hcall, hadvance, Option.bind_some, Option.map_some, Option.some.injEq] at h
    rw [← h]
  have hnew : s'.calls c = some { call with point } := by
    rw [hcalls', Function.update_self]
  obtain ⟨id, hid⟩ := Option.isSome_iff_exists.1 hrow
  obtain rfl : id = r.id := hs'.row c _ id hnew hid
  have hover : ¬point.isOver := by
    intro hover
    obtain ⟨-, -, hcheck⟩ := IngestionService.check_of_advance hadvance
      (hs.decides c call hcall) (by rw [hpoint]; rfl)
    rw [(hcheck _ hid).1] at hover
    cases hrequest : call.request <;> simp [hrequest, Request.afterCheck, Point.isOver] at hover
  -- a call that has passed its check has returned by the end
  have hreturns : ∀ c', (∃ call', s'.calls c' = some call' ∧ call'.point.row = some r.id) →
      ∃ call', t.calls c' = some call' ∧ call'.point.hasDecided := by
    intro c' hc'
    obtain ⟨-, call', hcall', hrow'⟩ := invariant_along
      (I := fun s : CorpusSystem => s.Deciding source r ∧
        ∃ call', s.calls c' = some call' ∧ call'.point.row = some r.id)
      (fun s a s' hI ha hs' => ⟨deciding_step hI.1 ha hs', row_step hI.1 ha hs' hI.2⟩)
      ⟨hs', hc'⟩ halong ht
    refine ⟨call', hcall', ?_⟩
    have hover' := hfinished c' call' hcall'
    cases hpoint' : call'.point <;>
      simp [hpoint', Point.row, Point.isOver, Point.hasDecided] at hrow' hover' ⊢
  rcases hcase with ⟨c₁, call₁, hcall₁, hundecided⟩ | hunder
  · have hne : c₁ ≠ c := by
      rintro rfl
      obtain rfl : call = call₁ := Option.some.inj (hcall.symm.trans hcall₁)
      simp [hpoint, Point.undecided] at hundecided
    have hrow₁ : call₁.point.row = some r.id := by
      rcases hp : call₁.point.row with _ | i
      · cases hpoint₁ : call₁.point <;> simp [hpoint₁, Point.row, Point.undecided] at hp hundecided
      · rw [hs.row c₁ call₁ i hcall₁ hp]
    obtain ⟨call₂, hcall₂, hdecided₂⟩ := hreturns c ⟨_, hnew, hid⟩
    obtain ⟨call₃, hcall₃, hdecided₃⟩ := hreturns c₁
      ⟨call₁, by rw [hcalls', Function.update_of_ne hne, hcall₁], hrow₁⟩
    exact hne (hone.unique c₁ c call₃ call₂ hcall₃ hcall₂ hdecided₃ hdecided₂)
  · have hmis : s.corpus.Misfiled r.upload source := by
      simp only [Corpus.StoredUnder, not_forall, exists_prop] at hunder
      obtain ⟨chunk, hchunk, hsource⟩ := hunder
      exact ⟨chunk, hchunk, hsource, hs.elsewhere chunk hchunk hsource⟩
    obtain ⟨-, hway, chunk, hchunk, -, hquarantined⟩ := invariant_along
      (I := fun s : CorpusSystem => s.Deciding source r ∧ s.Underway r ∧
        s.corpus.Misfiled r.upload source)
      (fun s a s' hI ha hs' => ⟨deciding_step hI.1 ha hs', underway_step hI.1 hI.2.1 ha hs',
        misfiled_step hI.1 ha hs' hI.2.2⟩)
      ⟨hs', Or.inr ⟨c, _, hnew, hid, hover⟩, misfiled_step hs he h hmis⟩ halong ht
    rcases hway with (hactive | hrejected) | ⟨c', call', hcall', -, hover'⟩
    · have hstored := (hone.active_iff hfinished).1 hactive
      have := hstored.2 chunk hchunk
      rw [hquarantined] at this
      cases this
    · rw [hone.rejected hfinished hrejected] at hchunk
      simp at hchunk
    · exact hover' (hfinished c' call' hcall')

/-! ## Runs -/

/-- In every run of decisions on an upload that waits for one, at most one call returns,
and once all are over the row agrees with the chunks, if no step of the run is unsettled.
Once all are over, that is the only way. -/
theorem one_decision_iff {corpus : Corpus} {es : List (Event ω)} {t : CorpusSystem}
    (hawait : corpus.Awaiting source r) (hdecides : ∀ e ∈ es, e.Decides source)
    (h : exec (step svc) (quiet corpus) es = some t) :
    (Along (step svc) (fun s e => ¬s.Unsettled svc source r e) (quiet corpus) es →
      t.OneDecision r) ∧
    (t.Finished → (t.OneDecision r ↔
      Along (step svc) (fun s e => ¬s.Unsettled svc source r e) (quiet corpus) es)) := by
  have hforward : Along (step svc) (fun s e => ¬s.Unsettled svc source r e) (quiet corpus) es →
      t.OneDecision r := by
    intro halong
    suffices h : t.Settled source r from oneDecision_of_settled h
    have hboth : Along (step svc)
        (fun s e => e.Decides source ∧ ¬s.Unsettled svc source r e) (quiet corpus) es :=
      along_iff_forall_split.2 fun pre e post u hsplit hu =>
        ⟨hdecides e (by simp [hsplit]), along_iff_forall_split.1 halong pre e post u hsplit hu⟩
    exact (invariant_along
      (I := fun s : CorpusSystem => s.Deciding source r ∧ s.Settled source r)
      (fun s a s' hI ha hs' => ⟨deciding_step hI.1 ha.1 hs',
        settled_step hI.1 hI.2 ha.1 ha.2 hs'⟩)
      ⟨deciding_quiet hawait, settled_quiet hawait⟩ hboth h).2
  refine ⟨hforward, fun hfinished => ⟨fun hone => ?_, hforward⟩⟩
  refine along_iff_forall_split.2 fun pre e post u hsplit hu hunsettled => ?_
  rw [hsplit, exec_append] at h
  obtain ⟨u', hu', hpost⟩ := h
  obtain rfl : u = u' := Option.some.inj (hu.symm.trans hu')
  obtain ⟨v, hv, ht⟩ := exec_cons.1 hpost
  have hdeciding : u.Deciding source r := by
    refine invariant_along (P := fun _ e => e.Decides source)
      (fun s a s' hI ha hs' => deciding_step hI ha hs') (deciding_quiet hawait) ?_ hu
    exact along_of_forall_mem (fun e he _ => hdecides e (by simp [hsplit, he])) _
  exact not_oneDecision_of_unsettled hdeciding
    (fun e he => hdecides e (by simp [hsplit, he])) (hdecides e (by simp [hsplit])) hunsettled hv
    ht hfinished hone

theorem not_passesCheck_call (c : ℕ) (request : Request) :
    ¬s.PassesCheck svc (.call c request) := by
  rintro ⟨c, w, call, point, corpus, he, -⟩
  cases he

theorem not_passesCheck_advance {c : ℕ} {w : ω} {call : CorpusCall} (hc : s.calls c = some call)
    (hpoint : call.point ≠ .getLatest) : ¬s.PassesCheck svc (.advance c w) := by
  rintro ⟨c', w', call', point, corpus, he, hc', hpoint', -⟩
  cases he
  obtain rfl : call = call' := Option.some.inj (hc.symm.trans hc')
  exact hpoint hpoint'

theorem calls_eq_none {es : List (Event ω)} {t : CorpusSystem} {c : ℕ}
    (h : exec (step svc) s es = some t) (hc : s.calls c = none)
    (hes : ∀ request, Event.call c request ∉ es) : t.calls c = none := by
  have halong : Along (step svc) (fun _ e => ∀ request, e ≠ Event.call c request) s es :=
    along_of_forall_mem (fun e he _ request (hr : e = Event.call c request) =>
      hes request (hr ▸ he)) s
  refine invariant_along (I := fun s : CorpusSystem => s.calls c = none)
    (fun s e s' hs he h => ?_) hc halong h
  have hupdate : ∀ {c' : ℕ} {call : Option CorpusCall}, c' ≠ c →
      s'.calls = Function.update s.calls c' call → s'.calls c = none := by
    intro c' call hne hcalls
    rw [hcalls, Function.update_of_ne (Ne.symm hne), hs]
  rcases step_cases h with ⟨c', request, rfl, -, hcalls⟩ |
    ⟨c', w, call, point, -, hcall, -, hcalls⟩ | ⟨c', error, call, -, hcall, -, hcalls⟩ |
    ⟨ws, -, hcalls, -⟩ | ⟨name, content, -, hcalls, -⟩
  · exact hupdate (fun hcc => he request (by rw [hcc])) hcalls
  · exact hupdate (fun hcc => by simp [← hcc, hcall] at hs) hcalls
  · exact hupdate (fun hcc => by simp [← hcc, hcall] at hs) hcalls
  · rw [hcalls, hs]
  · rw [hcalls, hs]

/-- The calls that events start. -/
def callers : List (Event ω) → List ℕ
  | [] => []
  | .call c _ :: es => c :: callers es
  | _ :: es => callers es

theorem mem_callers {c : ℕ} {request : Request} {es : List (Event ω)}
    (h : Event.call c request ∈ es) : c ∈ callers es := by
  induction es with
  | nil => simp at h
  | cons e es ih =>
    rcases List.mem_cons.1 h with rfl | hes
    · exact List.mem_cons_self
    · cases e with
      | call c' request' => exact List.mem_cons_of_mem _ (ih hes)
      | _ => exact ih hes

/-- A run finishes with the calls it starts. -/
theorem finished_of_callers {es : List (Event ω)} {t : CorpusSystem}
    (hs : ∀ c, s.calls c = none) (h : exec (step svc) s es = some t)
    (hover : ∀ c ∈ callers es, (t.calls c).all fun call => call.point.isOver) : t.Finished := by
  intro c call hc
  by_cases hmem : c ∈ callers es
  · have hall := hover c hmem
    rwa [hc] at hall
  · have hnone := calls_eq_none h (hs c) fun request hr => hmem (mem_callers hr)
    exact absurd (hnone.symm.trans hc) (by simp)

/-- An upload whose scan passed. -/
def pendingRow : DocumentSecurityState where
  id := 1
  source := "fees.pdf"
  status := .scanPassed
  uploadedBy := "ann"
  uploadedAt := 0
  scanDecision := some ⟨.allow, []⟩
  scannedAt := some 0
  chunkCount := some 1
  upload := 0
  history := [.pendingScan, .scanPassed]
  status_mem := by decide

def pendingFees : Corpus where
  chunks := [⟨⟨"The fee is 5.", "fees.pdf", some 1⟩, 1, .quarantined, .upload 0⟩]
  rows := ⟨[pendingRow], List.nodup_singleton _⟩
  files := [⟨"fees.pdf", [1], .upload 0⟩]

example : (exec (step feesService) init (submitFees 0 :: advances 0 8 false)).map (·.corpus) =
    some pendingFees := rfl

theorem awaiting_pendingFees : pendingFees.Awaiting "fees.pdf" pendingRow := by
  refine ⟨fun tie => ?_, rfl, by decide, by decide⟩
  have hlatest : pendingFees.getLatestForSource "fees.pdf" tie = [pendingRow][tie % 1]? := rfl
  rw [hlatest, Nat.mod_one]
  rfl

def rejectFees (c : ℕ) : Event Bool :=
  .call c (.reject "fees.pdf" "eve" "outdated")

/-- A lone approval. -/
theorem one_decision_approveFees :
    ∃ t, exec (step feesService) (quiet pendingFees) (approveFees 1 :: advances 1 4 false) =
      some t ∧ t.OneDecision pendingRow := by
  have ht : exec (step feesService) (quiet pendingFees) (approveFees 1 :: advances 1 4 false) =
    some _ := rfl
  refine ⟨_, ht, (one_decision_iff awaiting_pendingFees ?_ ht).1 ?_⟩
  · intro e he
    simp only [approveFees, advances, List.replicate, List.mem_cons, List.not_mem_nil,
      or_false] at he
    rcases he with rfl | rfl | rfl | rfl | rfl <;> trivial
  · refine (along_cons rfl).2 ⟨fun h => not_passesCheck_call _ _ h.1, ?_⟩
    refine (along_cons rfl).2 ⟨?_, ?_⟩
    · rintro ⟨-, ⟨c, call, hc, hundecided⟩ | hunder⟩
      · rcases calls_update (s := quiet pendingFees) rfl hc with ⟨-, rfl⟩ | ⟨-, hc⟩
        · exact absurd hundecided (by decide)
        · simp [quiet] at hc
      · exact hunder (by decide)
    · refine (along_cons rfl).2 ⟨fun h => not_passesCheck_advance rfl (by decide) h.1, ?_⟩
      refine (along_cons rfl).2 ⟨fun h => not_passesCheck_advance rfl (by decide) h.1, ?_⟩
      exact (along_cons rfl).2 ⟨fun h => not_passesCheck_advance rfl (by decide) h.1, trivial⟩

/-- An approval and a rejection both pass their checks. The rejection deletes the chunks, and
the approval leaves the row active. -/
theorem both_decide : ∃ t, exec (step feesService) (quiet pendingFees)
    (approveFees 1 :: rejectFees 2 :: advances 1 1 false ++ advances 2 3 false ++
      advances 1 3 false) = some t ∧ t.Finished ∧ ¬t.OneDecision pendingRow := by
  have ht : exec (step feesService) (quiet pendingFees)
    (approveFees 1 :: rejectFees 2 :: advances 1 1 false ++ advances 2 3 false ++
      advances 1 3 false) = some _ := rfl
  refine ⟨_, ht, finished_of_callers (fun _ => rfl) ht (by decide +kernel), fun hone => ?_⟩
  exact absurd (hone.unique 1 2 _ _ rfl rfl rfl rfl) (by decide)

end CorpusSystem

end EnterpriseRag
