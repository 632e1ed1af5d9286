import EnterpriseRag.Corpus.Replacement

/-!
# Interrupted operations

An operation is a sequence of writes to two stores, and any of its calls may raise between
them. `FailureAtomic` is what the stores should satisfy whenever no operation is going on :
the row of an active chunk's upload says so, and a quarantined chunk can still be decided
on.

`Midway` says what holds at each point of an operation, and `HalfDone` which steps leave
an operation half done. A `submit` must not raise from the moment its chunks are stored
until its scan is recorded, nor an `approve` between the two writes that follow the first.
`failure_atomic_of_not_halfDone` is about all runs without such a step.
-/

open Transition

namespace EnterpriseRag

namespace Corpus

variable {ω : Type*} {s s' : Corpus} {ch : StoredChunk} {source : String}

/-- The latest row of the source. -/
def Newest (s : Corpus) (source : String) (r : DocumentSecurityState) : Prop :=
  r ∈ s.rows.rows ∧ r.source = source ∧
    ∀ q ∈ s.rows.rows, q.source = source → q.id ≠ r.id → q.uploadedAt < r.uploadedAt

/-- An active chunk belongs to an upload whose row is active, and a quarantined one to a
source whose latest row waits for a decision. -/
structure FailureAtomic (s : Corpus) : Prop where
  active : ∀ c ∈ s.chunks, c.ingestionStatus = .active → ∀ u, c.origin = .upload u →
    ∃ r ∈ s.rows.rows, r.upload = u ∧ r.status = .active
  quarantined : ∀ c ∈ s.chunks, c.ingestionStatus = .quarantined → ∀ tie,
    ∃ r, s.getLatestForSource c.source tie = some r ∧ r.status = .scanPassed

/-- The chunk has a row that accounts for it. -/
def Accounted (s : Corpus) (c : StoredChunk) : Prop :=
  ∃ r ∈ s.rows.rows, c.origin = .upload r.upload ∧
    (c.ingestionStatus = .active ∧ r.status = .active ∨
      c.ingestionStatus = .quarantined ∧ r.status = .scanPassed ∧ s.Newest c.source r)

def AllAccounted (s : Corpus) : Prop :=
  ∀ c ∈ s.chunks, s.Accounted c

/-- No chunk is stored under the source. -/
def Vacant (s : Corpus) (source : String) : Prop :=
  ∀ c ∈ s.chunks, c.source ≠ source

instance (s : Corpus) (source : String) : Decidable (s.Vacant source) :=
  inferInstanceAs (Decidable (∀ c ∈ s.chunks, c.source ≠ source))

theorem Newest.getLatestForSource {r : DocumentSecurityState} (h : s.Newest source r) (tie : ℕ) :
    s.getLatestForSource source tie = some r := by
  obtain ⟨hmem, hsource, hmax⟩ := h
  have hr : r ∈ s.rows.rows.filter fun r => r.source = source := by
    simp [hmem, hsource]
  have hlatest : (s.rows.rows.filter fun r => r.source = source).filter
      (fun r => (s.rows.rows.filter fun r => r.source = source).all
        fun q => q.uploadedAt ≤ r.uploadedAt) = [r] := by
    refine List.perm_singleton.1 ((List.perm_ext_iff_of_nodup ?_ (List.nodup_singleton r)).2 ?_)
    · exact (List.Nodup.of_map _ s.rows.nodup).filter _ |>.filter _
    · intro q
      rw [List.mem_singleton, List.mem_filter, List.all_eq_true]
      constructor
      · rintro ⟨hq, hall⟩
        by_contra hne
        have hid : q.id ≠ r.id := fun hid => hne (List.inj_on_of_nodup_map s.rows.nodup
          (List.mem_filter.1 hq).1 hmem hid)
        have hlt := hmax q (List.mem_filter.1 hq).1 (by simpa using (List.mem_filter.1 hq).2) hid
        have hle := hall r hr
        simp only [decide_eq_true_eq] at hle
        exact hlt.not_ge hle
      · rintro rfl
        refine ⟨hr, fun p hp => ?_⟩
        simp only [decide_eq_true_eq]
        by_cases hid : p.id = q.id
        · rw [List.inj_on_of_nodup_map s.rows.nodup (List.mem_filter.1 hp).1 hmem hid]
        · exact (hmax p (List.mem_filter.1 hp).1 (by simpa using (List.mem_filter.1 hp).2)
            hid).le
  unfold Corpus.getLatestForSource
  dsimp only
  rw [hlatest, List.length_singleton, Nat.mod_one]
  rfl

theorem AllAccounted.failureAtomic (h : s.AllAccounted) : s.FailureAtomic := by
  constructor
  · intro c hc hactive u hu
    obtain ⟨r, hr, horigin, ⟨-, hstatus⟩ | ⟨hquarantined, -⟩⟩ := h c hc
    · rw [hu, Origin.upload.injEq] at horigin
      exact ⟨r, hr, horigin.symm, hstatus⟩
    · simp [hactive] at hquarantined
  · intro c hc hquarantined tie
    obtain ⟨r, -, -, ⟨hactive, -⟩ | ⟨-, hstatus, hnewest⟩⟩ := h c hc
    · simp [hquarantined] at hactive
    · exact ⟨r, hnewest.getLatestForSource tie, hstatus⟩

/-! ## What a write to the rows leaves accounted for -/

theorem mem_updateRow {id : ℕ} {f : DocumentSecurityState → DocumentSecurityState}
    (hf : ∀ r, (f r).id = r.id) {q : DocumentSecurityState} :
    q ∈ (s.updateRow id f hf).rows.rows ↔
      ∃ r ∈ s.rows.rows, (if r.id = id then f r else r) = q := by
  simp [updateRow, Table.mem_updateWhere]

theorem Newest.updateRow (id : ℕ) {f : DocumentSecurityState → DocumentSecurityState}
    (hf : ∀ r, (f r).id = r.id) (hsource : ∀ r, (f r).source = r.source)
    (htime : ∀ r, (f r).uploadedAt = r.uploadedAt) {r : DocumentSecurityState}
    (h : s.Newest source r) :
    (s.updateRow id f hf).Newest source (if r.id = id then f r else r) := by
  have hsame : ∀ q : DocumentSecurityState, (if q.id = id then f q else q).id = q.id ∧
      (if q.id = id then f q else q).source = q.source ∧
      (if q.id = id then f q else q).uploadedAt = q.uploadedAt := by
    intro q
    split
    · exact ⟨hf q, hsource q, htime q⟩
    · exact ⟨rfl, rfl, rfl⟩
  obtain ⟨hmem, hr, hmax⟩ := h
  refine ⟨(mem_updateRow hf).2 ⟨r, hmem, rfl⟩, (hsame r).2.1.trans hr, ?_⟩
  intro q' hq' hq'source hne
  obtain ⟨q, hq, rfl⟩ := (mem_updateRow hf).1 hq'
  rw [(hsame q).2.1] at hq'source
  rw [(hsame q).1, (hsame r).1] at hne
  rw [(hsame q).2.2, (hsame r).2.2]
  exact hmax q hq hq'source hne

theorem Newest.updateRow_self {id : ℕ} {f : DocumentSecurityState → DocumentSecurityState}
    (hf : ∀ r, (f r).id = r.id) (hsource : ∀ r, (f r).source = r.source)
    (htime : ∀ r, (f r).uploadedAt = r.uploadedAt) {r : DocumentSecurityState}
    (hr : s.rows.find id = some r) (h : s.Newest source r) :
    (s.updateRow id f hf).Newest source (f r) := by
  have hid : r.id = id := by
    have h := Table.key_of_find hr
    exact h
  have hnewest := h.updateRow id hf hsource htime
  rwa [if_pos hid] at hnewest

/-- A row that accounts for no chunk may change. -/
theorem Accounted.updateRow {id : ℕ} {f : DocumentSecurityState → DocumentSecurityState}
    (hf : ∀ r, (f r).id = r.id) (hsource : ∀ r, (f r).source = r.source)
    (htime : ∀ r, (f r).uploadedAt = r.uploadedAt) (h : s.Accounted ch)
    {r : DocumentSecurityState} (hr : s.rows.find id = some r) (hactive : r.status ≠ .active)
    (hpassed : ch.ingestionStatus = .quarantined → r.status = .scanPassed →
      r.source ≠ ch.source) : (s.updateRow id f hf).Accounted ch := by
  obtain ⟨q, hq, horigin, hcase⟩ := h
  have hne : q.id ≠ id := by
    rintro rfl
    obtain rfl : q = r := Option.some.inj ((Table.find_of_mem hq).symm.trans hr)
    rcases hcase with ⟨-, hstatus⟩ | ⟨hquarantined, hstatus, hnewest⟩
    · exact hactive hstatus
    · exact hpassed hquarantined hstatus hnewest.2.1
  refine ⟨q, (mem_updateRow hf).2 ⟨q, hq, if_neg hne⟩, horigin, ?_⟩
  rcases hcase with hcase | ⟨hquarantined, hstatus, hnewest⟩
  · exact Or.inl hcase
  · have hnewest' := Newest.updateRow id hf hsource htime hnewest
    rw [if_neg hne] at hnewest'
    exact Or.inr ⟨hquarantined, hstatus, hnewest'⟩

/-- A new row of another source changes nothing for a chunk. -/
theorem Accounted.createPending {id : ℕ} {filename uploadedBy : String} {chunkCount : ℕ}
    {now : Timestamp} {upload : ℕ}
    (h : s.createPending id filename uploadedBy chunkCount now upload = some s')
    (hch : s.Accounted ch) (hsource : ch.source ≠ filename) : s'.Accounted ch := by
  obtain ⟨rows, hrows, rfl⟩ := Option.map_eq_some_iff.1 h
  obtain ⟨q, hq, horigin, hcase⟩ := hch
  refine ⟨q, (Table.mem_insert hrows).2 (Or.inl hq), horigin, hcase.imp_right ?_⟩
  rintro ⟨hquarantined, hstatus, hmem, hqsource, hmax⟩
  refine ⟨hquarantined, hstatus, (Table.mem_insert hrows).2 (Or.inl hmem), hqsource, ?_⟩
  intro p hp hpsource hne
  rcases (Table.mem_insert hrows).1 hp with hp | rfl
  · exact hmax p hp hpsource hne
  · exact absurd hpsource.symm hsource

/-- A row later than the others of its source is the latest. -/
theorem newest_createPending {id : ℕ} {filename uploadedBy : String} {chunkCount : ℕ}
    {now : Timestamp} {upload : ℕ}
    (h : s.createPending id filename uploadedBy chunkCount now upload = some s')
    (hlater : ∀ r ∈ s.rows.rows, r.source = filename → r.uploadedAt < now) :
    ∃ r, s'.rows.find id = some r ∧ r.upload = upload ∧ r.status = .pendingScan ∧
      s'.Newest filename r := by
  obtain ⟨rows, hrows, rfl⟩ := Option.map_eq_some_iff.1 h
  refine ⟨_, (Table.find_insert hrows id).trans (if_pos rfl), rfl, rfl,
    (Table.mem_insert hrows).2 (Or.inr rfl), rfl, ?_⟩
  intro q hq hqsource hne
  rcases (Table.mem_insert hrows).1 hq with hq | rfl
  · exact hlater q hq hqsource
  · exact absurd rfl hne

/-- The chunks of an upload in progress are in quarantine under its filename, and nothing
else is. -/
def Staged (s : Corpus) (c : ℕ) (filename : String) : Prop :=
  ∀ ch ∈ s.chunks, ch.source ≠ filename ∧ s.Accounted ch ∨
    ch.source = filename ∧ ch.ingestionStatus = .quarantined ∧ ch.origin = .upload c

theorem AllAccounted.subset (h : s.AllAccounted) (hrows : s'.rows = s.rows)
    (hchunks : ∀ ch ∈ s'.chunks, ch ∈ s.chunks) : s'.AllAccounted := by
  intro ch hch
  simp only [Accounted, Newest, hrows]
  exact h ch (hchunks ch hch)

theorem vacant_deleteBySource (source : String) : (s.deleteBySource source).Vacant source := by
  intro ch hch
  simpa using (List.mem_filter.1 hch).2

end Corpus

/-- What holds at each point of a call while no other is going on. -/
def CorpusCall.Midway (c : ℕ) (s : Corpus) (call : CorpusCall) : Prop :=
  match call.request, call.point with
  | .submit filename _ _, .createPending _ => s.Staged c filename
  | .submit filename _ _, .readChunks id _ | .submit filename _ _, .scan id _ _
  | .submit filename _ _, .recordScanResult id _ _ =>
    s.Staged c filename ∧ ∃ r, s.rows.find id = some r ∧ r.upload = c ∧
      r.status = .pendingScan ∧ s.Newest filename r
  | .submit filename _ _, .deleteFailed _ => ∀ ch ∈ s.chunks, ch.source ≠ filename → s.Accounted ch
  | .approve source _, .approveRow id =>
    s.AllAccounted ∧ ∃ r, s.rows.find id = some r ∧ r.status = .scanPassed ∧ r.source = source ∧
      ∀ q, s.Newest source q → q = r
  | .approve source _, .setIngestionStatus id =>
    ∃ r, s.rows.find id = some r ∧ r.status = .approved ∧ ∀ ch ∈ s.chunks,
      s.Accounted ch ∧ (ch.source = source → ch.ingestionStatus = .active) ∨
        ch.source = source ∧ ch.ingestionStatus = .quarantined ∧ ch.origin = .upload r.upload
  | .approve source _, .markActive id =>
    ∃ r, s.rows.find id = some r ∧ r.status = .approved ∧ ∀ ch ∈ s.chunks, s.Accounted ch ∨
      ch.source = source ∧ ch.ingestionStatus = .active ∧ ch.origin = .upload r.upload
  | .reject source _ _, .deleteRejected id =>
    s.AllAccounted ∧ ∃ r, s.rows.find id = some r ∧ r.status ≠ .active ∧ r.source = source
  | .reject source _ _, .rejectRow id =>
    s.AllAccounted ∧ s.Vacant source ∧
      ∃ r, s.rows.find id = some r ∧ r.status ≠ .active ∧ r.source = source
  | _, _ => s.AllAccounted

/-- Between this point of the call and the next, the stores do not account for each other. -/
def CorpusCall.Exposed (s : Corpus) (call : CorpusCall) : Prop :=
  match call.request, call.point with
  | .submit _ _ _, .createPending _ | .submit _ _ _, .readChunks _ _ | .submit _ _ _, .scan _ _ _
  | .submit _ _ _, .recordScanResult _ _ _ | .submit _ _ _, .deleteFailed _ => True
  | .approve source _, .setIngestionStatus _ | .approve source _, .markActive _ =>
    ¬s.Vacant source
  | _, _ => False

/-- The next step of the call leaves the stores without account of each other : chunks
stored beside others of the filename or under another name, a row that is not the latest,
a scan that raises. -/
def CorpusCall.Disrupts {ω : Type*} (svc : IngestionService ω) (w : ω) (s : Corpus)
    (call : CorpusCall) : Prop :=
  match call.request, call.point with
  | .submit filename _ _, .upsertChunks _ chunks =>
    ¬s.Vacant filename ∨ ∃ d ∈ chunks, d.source ≠ filename
  | .submit filename _ _, .createPending _ =>
    ∃ r ∈ s.rows.rows, r.source = filename ∧ svc.dbNow w ≤ r.uploadedAt
  | .submit _ _ actor, .scan _ _ texts =>
    ∃ e, svc.scanDocument w texts (svc.guardrailMode w) actor = .error e
  | _, _ => False

theorem CorpusCall.Midway.allAccounted {c : ℕ} {s : Corpus} {call : CorpusCall}
    (h : call.Midway c s) (hexposed : ¬call.Exposed s) : s.AllAccounted := by
  obtain ⟨request, p⟩ := call
  cases request with
  | submit filename content actor =>
    cases p <;> first | exact h | exact absurd trivial hexposed
  | approve source actor =>
    cases p with
    | approveRow id => exact h.1
    | setIngestionStatus id =>
      obtain ⟨r, -, -, hchunks⟩ := h
      intro ch hch
      rcases hchunks ch hch with ⟨haccounted, -⟩ | ⟨hsource, -⟩
      · exact haccounted
      · exact absurd hsource (not_not.1 hexposed ch hch)
    | markActive id =>
      obtain ⟨r, -, -, hchunks⟩ := h
      intro ch hch
      rcases hchunks ch hch with haccounted | ⟨hsource, -⟩
      · exact haccounted
      · exact absurd hsource (not_not.1 hexposed ch hch)
    | _ => exact h
  | reject source actor reason =>
    cases p with
    | deleteRejected id => exact h.1
    | rejectRow id => exact h.1
    | _ => exact h

theorem CorpusCall.midway_iff_of_isOver {c : ℕ} {s : Corpus} {call : CorpusCall}
    (hover : call.point.isOver) : call.Midway c s ↔ s.AllAccounted := by
  obtain ⟨request, p⟩ := call
  cases p <;> first | (cases request <;> exact Iff.rfl) | exact absurd hover Bool.false_ne_true

namespace IngestionService

variable {ω : Type*} {svc : IngestionService ω} {w : ω} {c : ℕ} {call : CorpusCall}
  {point : Point} {s s' : Corpus}

theorem midway_enter (svc : IngestionService ω) (c : ℕ) (request : Request)
    (hs : s.AllAccounted) : CorpusCall.Midway c s ⟨request, svc.enter request⟩ := by
  cases request with
  | submit filename content actor =>
    unfold enter
    dsimp only
    split <;> exact hs
  | approve source actor => exact hs
  | reject source actor reason => exact hs

theorem midway_advance (h : svc.advance w c call s = some (point, s')) (hcall : call.Midway c s)
    (hcond : ¬call.Disrupts svc w s) : CorpusCall.Midway c s' { call with point } := by
  cases stepsTo_of_advance h with
  | listSources => exact hcall
  | processDocumentRaises => exact hcall
  | processDocument => exact hcall
  | @copyFile _ _ _ isReplacing _ _ hchunks hrows _ =>
    have hs : s'.AllAccounted := Corpus.AllAccounted.subset hcall hrows fun ch hch => hchunks ▸ hch
    cases isReplacing <;> exact hs
  | deleteReplaced =>
    exact Corpus.AllAccounted.subset hcall rfl fun _ => Corpus.mem_of_mem_deleteBySource
  | upsertChunks =>
    intro ch hch
    rcases List.mem_append.1 hch with hch | hch
    · exact Or.inl ⟨not_not.1 (fun h => hcond (Or.inl h)) ch hch, hcall ch hch⟩
    · obtain ⟨hstatus, horigin⟩ := Corpus.mem_points hch
      refine Or.inr ⟨?_, hstatus, horigin⟩
      by_contra hsource
      exact hcond (Or.inr ⟨_, Corpus.toDocumentChunk_mem_of_mem_points hch, hsource⟩)
  | createPending hcreate =>
    refine ⟨fun ch hch => ?_, Corpus.newest_createPending hcreate fun r hr hsource => ?_⟩
    · obtain ⟨rows, -, hs'⟩ := Option.map_eq_some_iff.1 hcreate
      rcases hcall ch (by rw [← hs'] at hch; exact hch) with ⟨hsource, haccounted⟩ | hstaged
      · exact Or.inl ⟨hsource, haccounted.createPending hcreate hsource⟩
      · exact Or.inr hstaged
    · by_contra hlater
      exact hcond ⟨r, hr, hsource, not_lt.1 hlater⟩
  | readChunks => exact hcall
  | scanRaises hraise => exact absurd ⟨_, hraise⟩ hcond
  | scan => exact hcall
  | scanFailed =>
    obtain ⟨hstaged, r, hr, -, hstatus, -⟩ := hcall
    intro ch hch hsource
    rcases hstaged ch hch with ⟨-, haccounted⟩ | ⟨hsource', -⟩
    · exact haccounted.updateRow _ (fun _ => rfl) (fun _ => rfl) hr (by rw [hstatus]; decide)
        fun _ hpassed => by simp [hstatus] at hpassed
    · exact absurd hsource' hsource
  | scanPassed =>
    obtain ⟨hstaged, r, hr, hupload, hstatus, hnewest⟩ := hcall
    intro ch hch
    rcases hstaged ch hch with ⟨-, haccounted⟩ | ⟨hsource, hquarantined, horigin⟩
    · exact haccounted.updateRow _ (fun _ => rfl) (fun _ => rfl) hr (by rw [hstatus]; decide)
        fun _ hpassed => by simp [hstatus] at hpassed
    · -- the chunks of the upload are accounted for by its row, which is the latest
      refine ⟨_, Table.mem_of_find (Corpus.find_updateRow hr),
        horigin.trans (congrArg Origin.upload hupload.symm), Or.inr ⟨hquarantined, rfl, ?_⟩⟩
      rw [hsource]
      refine Corpus.Newest.updateRow_self ?_ ?_ ?_ hr hnewest <;> exact fun _ => rfl
  | deleteFailed =>
    intro ch hch
    obtain ⟨hmem, hsource⟩ := List.mem_filter.1 hch
    exact hcall ch hmem (by simpa using hsource)
  | approveRefused => exact hcall
  | approveChecked hr hstatus =>
    obtain ⟨hfind, hsource⟩ := Corpus.getLatestForSource_mem hr
    refine ⟨hcall, _, hfind, hstatus, hsource, fun q hq => ?_⟩
    exact Option.some.inj ((hq.getLatestForSource _).symm.trans hr)
  | @approveRow source actor id =>
    obtain ⟨hs, r, hr, hstatus, hsource, hnewest⟩ := hcall
    refine ⟨_, Corpus.find_updateRow hr, rfl, fun ch hch => ?_⟩
    have hkeep : (ch.ingestionStatus = .quarantined → ch.source ≠ source) →
        (s.approve id actor (svc.dbNow w)).Accounted ch := fun hother =>
      (hs ch hch).updateRow _ (fun _ => rfl) (fun _ => rfl) hr (by rw [hstatus]; decide)
        fun hquarantined _ hsource' => hother hquarantined (hsource'.symm.trans hsource)
    obtain ⟨q, -, horigin, ⟨hactive, -⟩ | ⟨hquarantined, -, hq⟩⟩ := hs ch hch
    · exact Or.inl ⟨hkeep fun hquarantined => by simp [hactive] at hquarantined, fun _ => hactive⟩
    · by_cases hch' : ch.source = source
      · rw [hnewest q (hch' ▸ hq)] at horigin
        exact Or.inr ⟨hch', hquarantined, horigin⟩
      · exact Or.inl ⟨hkeep fun _ => hch', fun h => absurd h hch'⟩
  | setIngestionStatus =>
    obtain ⟨r, hr, hstatus, hchunks⟩ := hcall
    refine ⟨r, hr, hstatus, fun ch' hch' => ?_⟩
    obtain ⟨ch, hch, rfl⟩ := List.mem_map.1 hch'
    rcases hchunks ch hch with ⟨haccounted, hactive⟩ | ⟨hsource, -, horigin⟩
    · split
      · rename_i hsource
        rw [← hactive hsource]
        exact Or.inl haccounted
      · exact Or.inl haccounted
    · rw [if_pos hsource]
      exact Or.inr ⟨hsource, rfl, horigin⟩
  | markActive =>
    obtain ⟨r, hr, hstatus, hchunks⟩ := hcall
    intro ch hch
    rcases hchunks ch hch with haccounted | ⟨-, hactive, horigin⟩
    · exact haccounted.updateRow _ (fun _ => rfl) (fun _ => rfl) hr (by rw [hstatus]; decide)
        fun _ hpassed => by simp [hstatus] at hpassed
    · exact ⟨_, Table.mem_of_find (Corpus.find_updateRow hr), horigin, Or.inl ⟨hactive, rfl⟩⟩
  | rejectRefused => exact hcall
  | rejectChecked hr hstatus =>
    obtain ⟨hfind, hsource⟩ := Corpus.getLatestForSource_mem hr
    refine ⟨hcall, _, hfind, ?_, hsource⟩
    rcases hstatus with hstatus | hstatus <;> rw [hstatus] <;> decide
  | deleteRejected =>
    obtain ⟨hs, hrow⟩ := hcall
    exact ⟨hs.subset rfl fun _ => Corpus.mem_of_mem_deleteBySource,
      Corpus.vacant_deleteBySource _, hrow⟩
  | rejectRow =>
    obtain ⟨hs, hvacant, r, hr, hstatus, hsource⟩ := hcall
    exact fun ch hch => (hs ch hch).updateRow _ (fun _ => rfl) (fun _ => rfl) hr hstatus
      fun _ _ hsource' => hvacant ch hch (hsource'.symm.trans hsource)

end IngestionService

namespace CorpusSystem

variable {ω : Type*} {svc : IngestionService ω} {s s' : CorpusSystem} {e : Event ω}

/-- The event leaves an operation half done, or starts one while another goes on. -/
def HalfDone (svc : IngestionService ω) (s : CorpusSystem) : Event ω → Prop
  | .call _ _ => ¬s.Finished
  | .advance c w => ∃ call, s.calls c = some call ∧ call.Disrupts svc w s.corpus
  | .fail c _ => ∃ call, s.calls c = some call ∧ call.Exposed s.corpus
  | .seedDocs _ | .placeFile _ _ => False

/-- At most one call is going on, and the stores are where it has brought them. -/
structure Orderly (s : CorpusSystem) : Prop where
  alone : ∀ c call, s.calls c = some call → ¬call.point.isOver →
    ∀ c' call', s.calls c' = some call' → c' ≠ c → call'.point.isOver
  midway : ∀ c call, s.calls c = some call → ¬call.point.isOver → call.Midway c s.corpus
  finished : s.Finished → s.corpus.AllAccounted

theorem orderly_init : init.Orderly where
  alone c call hc := by simp [init] at hc
  midway c call hc := by simp [init] at hc
  finished _ ch hch := by simp [init] at hch

/-- The call that is going on moves, and the stores with it. -/
theorem orderly_update {c : ℕ} {call : CorpusCall}
    (hothers : ∀ c' call', s.calls c' = some call' → c' ≠ c → call'.point.isOver)
    (hmid : call.Midway c s'.corpus)
    (hcalls : s'.calls = Function.update s.calls c (some call)) : s'.Orderly := by
  have hcases : ∀ c' call', s'.calls c' = some call' → ¬call'.point.isOver →
      c' = c ∧ call' = call := by
    intro c' call' hc' hover
    rcases calls_update hcalls hc' with h | ⟨hne, hc'⟩
    · exact h
    · exact absurd (hothers c' call' hc' hne) hover
  refine ⟨fun c' call' hc' hover c'' call'' hc'' hne => ?_, fun c' call' hc' hover => ?_,
    fun hfinished => ?_⟩
  · by_contra hover'
    exact hne ((hcases c'' call'' hc'' hover').1.trans (hcases c' call' hc' hover).1.symm)
  · obtain ⟨rfl, rfl⟩ := hcases c' call' hc' hover
    exact hmid
  · have hover : call.point.isOver :=
      hfinished c call (by rw [hcalls, Function.update_self])
    exact (CorpusCall.midway_iff_of_isOver hover).1 hmid

theorem orderly_step (hs : s.Orderly) (he : e.IsCall) (hcond : ¬s.HalfDone svc e)
    (h : step svc s e = some s') : s'.Orderly := by
  rcases step_cases h with ⟨c, request, rfl, hcorpus, hcalls⟩ |
    ⟨c, w, call, point, rfl, hcall, hadvance, hcalls⟩ |
    ⟨c, error, call, rfl, hcall, hcorpus, hcalls⟩ | ⟨ws, rfl, -⟩ | ⟨name, content, rfl, -⟩
  · have hfinished : s.Finished := not_not.1 hcond
    refine orderly_update (fun c' call' hc' _ => hfinished c' call' hc') ?_ hcalls
    rw [hcorpus]
    exact IngestionService.midway_enter svc c request (hs.finished hfinished)
  · have hover : ¬call.point.isOver := by
      rw [(IngestionService.stepsTo_of_advance hadvance).isOver_eq_false]
      decide
    refine orderly_update (hs.alone c call hcall hover) ?_ hcalls
    exact IngestionService.midway_advance hadvance (hs.midway c call hcall hover)
      fun hd => hcond ⟨call, hcall, hd⟩
  · have hover : ¬call.point.isOver := by
      intro hover
      simp [step, hcall, hover] at h
    have hmid := (hs.midway c call hcall hover).allAccounted fun hx => hcond ⟨call, hcall, hx⟩
    refine orderly_update (hs.alone c call hcall hover) ?_ hcalls
    rw [hcorpus]
    exact (CorpusCall.midway_iff_of_isOver rfl).2 hmid
  · exact he.elim
  · exact he.elim

theorem not_halfDone_advance {c : ℕ} {w : ω} {call : CorpusCall} (hc : s.calls c = some call)
    (h : ¬call.Disrupts svc w s.corpus) : ¬s.HalfDone svc (.advance c w) := by
  rintro ⟨call', hc', h'⟩
  obtain rfl : call = call' := Option.some.inj (hc.symm.trans hc')
  exact h h'

end CorpusSystem

end EnterpriseRag
