import EnterpriseRag.Corpus.Ingestion

/-!
# Trusted content

A chunk is searchable once it is active. `OnlyTrusted` asks that the content of every
active chunk came from an approved upload, or from a file placed in the policy folder by
other means than an upload.

Each way to make chunks active has its lemma : the flip of an approval
(`onlyTrusted_setIngestionStatus_iff`), and a seed run (`onlyTrusted_seedLoop_iff`).
`Advances` says what else a step of a call can do.
-/

namespace EnterpriseRag

namespace Corpus

variable {ω : Type*} {s s' : Corpus}

/-- Content that may be searched : placed by other means than an upload, or approved. -/
def Trusted (s : Corpus) : Origin → Prop
  | .placed => True
  | .upload u => s.UploadApproved u

/-- Every active chunk has trusted content. -/
def OnlyTrusted (s : Corpus) : Prop :=
  ∀ c ∈ s.chunks, c.ingestionStatus = .active → s.Trusted c.origin

instance (s : Corpus) (u : ℕ) : Decidable (s.UploadApproved u) :=
  inferInstanceAs (Decidable (∃ r ∈ s.rows.rows, r.upload = u ∧
    [DocumentStatus.scanPassed, .approved].Sublist r.history))

instance (s : Corpus) : ∀ origin, Decidable (s.Trusted origin)
  | .placed => isTrue trivial
  | .upload u => inferInstanceAs (Decidable (s.UploadApproved u))

instance (s : Corpus) : Decidable s.OnlyTrusted :=
  inferInstanceAs (Decidable (∀ c ∈ s.chunks, c.ingestionStatus = .active → s.Trusted c.origin))

theorem Extends.trusted (h : s.Extends s') {origin : Origin} (ht : s.Trusted origin) :
    s'.Trusted origin := by
  cases origin with
  | placed => trivial
  | upload u => exact h.uploadApproved ht

theorem trusted_congr (h : s'.rows = s.rows) {origin : Origin} :
    s'.Trusted origin ↔ s.Trusted origin :=
  ⟨(Extends.of_rows_eq h.symm).trusted, (Extends.of_rows_eq h).trusted⟩

/-- No chunk becomes active, and no row loses history. -/
theorem OnlyTrusted.of_active_subset (hs : s.OnlyTrusted) (hext : s.Extends s')
    (hsub : ∀ c ∈ s'.chunks, c.ingestionStatus = .active → c ∈ s.chunks) : s'.OnlyTrusted :=
  fun c hc hactive => hext.trusted (hs c (hsub c hc hactive) hactive)

theorem mem_of_mem_deleteBySource {source : String} {s : Corpus} {c : StoredChunk}
    (hc : c ∈ (s.deleteBySource source).chunks) : c ∈ s.chunks :=
  (List.mem_filter.1 hc).1

theorem mem_upsertChunks {ids : PointIds ω} {w : ω} {chunks : List DocumentChunk}
    {status : IngestionStatus} {origin : Origin} {c : StoredChunk}
    (hc : c ∈ (s.upsertChunks ids w chunks status origin).chunks) :
    c ∈ s.chunks ∨ c.ingestionStatus = status ∧ c.origin = origin := by
  rcases List.mem_append.1 hc with hc | hc
  · exact Or.inl hc
  · exact Or.inr (mem_points hc)

/-- Upserting some chunk stores one with its origin. -/
theorem exists_mem_upsertChunks (s : Corpus) (ids : PointIds ω) (w : ω)
    {chunks : List DocumentChunk} (hne : chunks ≠ []) (status : IngestionStatus)
    (origin : Origin) :
    ∃ c ∈ (s.upsertChunks ids w chunks status origin).chunks,
      c.ingestionStatus = status ∧ c.origin = origin := by
  obtain ⟨chunk, rest, rfl⟩ := List.exists_cons_of_ne_nil hne
  exact ⟨_, List.mem_append_right _ List.mem_cons_self, rfl, rfl⟩

/-- An approval's flip keeps only trusted chunks active exactly when every chunk stored
under the source is trusted. -/
theorem onlyTrusted_setIngestionStatus_iff (hs : s.OnlyTrusted) (source : String) :
    (s.setIngestionStatus source .active).OnlyTrusted ↔
      ∀ c ∈ s.chunks, c.source = source → s.Trusted c.origin := by
  constructor
  · intro h c hc hsource
    exact (trusted_congr rfl).1
      (h { c with ingestionStatus := .active } (List.mem_map.2 ⟨c, hc, by simp [hsource]⟩) rfl)
  · intro h c hc hactive
    obtain ⟨c₀, hc₀, rfl⟩ := List.mem_map.1 hc
    by_cases hsource : c₀.source = source
    · rw [if_pos hsource]
      exact h c₀ hc₀ hsource
    · rw [if_neg hsource] at hactive ⊢
      exact hs c₀ hc₀ hactive

end Corpus

namespace IngestionService

variable {ω : Type*} {svc : IngestionService ω} {s s' : Corpus}

/-! ## Seeding -/

/-- The files of the seed run that are ingested, the first of `fs` in the world `ws n`. -/
def ingested (svc : IngestionService ω) (ws : ℕ → ω) : ℕ → List PolicyFile → List PolicyFile
  | _, [] => []
  | n, f :: fs =>
    match svc.processDocument (ws n) f.name f.content with
    | .error _ => svc.ingested ws (n + 1) fs
    | .ok _ => f :: svc.ingested ws (n + 1) fs

theorem processDocument_ne_nil {w : ω} {path : String} {content : Bytes}
    {chunks : List DocumentChunk} (h : svc.processDocument w path content = .ok chunks) :
    chunks ≠ [] := by
  obtain ⟨texts, -, h⟩ := bind_eq_ok.1 h
  split at h
  · simp at h
  · rename_i hne
    obtain ⟨-, -, h⟩ := bind_eq_ok.1 h
    obtain rfl := Except.ok.inj h
    simpa using hne

theorem onlyTrusted_seedFile_iff (hs : s.OnlyTrusted) {w : ω} {f : PolicyFile}
    {chunks : List DocumentChunk} (hok : svc.processDocument w f.name f.content = .ok chunks) :
    (s.upsertChunks svc.ids w chunks .active f.origin).OnlyTrusted ↔ s.Trusted f.origin := by
  constructor
  · intro h
    obtain ⟨c, hc, hactive, horigin⟩ := Corpus.exists_mem_upsertChunks s svc.ids w
      (processDocument_ne_nil hok) .active f.origin
    exact horigin ▸ (Corpus.trusted_congr rfl).1 (h c hc hactive)
  · intro h c hc hactive
    rcases Corpus.mem_upsertChunks hc with hc | ⟨-, horigin⟩
    · exact hs c hc hactive
    · exact horigin ▸ h

theorem rows_seedFile (w : ω) (f : PolicyFile) (s : Corpus) :
    (svc.seedFile w f s).rows = s.rows := by
  unfold seedFile
  split <;> rfl

theorem subset_seedFile (w : ω) (f : PolicyFile) (s : Corpus) :
    s.chunks ⊆ (svc.seedFile w f s).chunks := by
  unfold seedFile
  split
  · exact List.Subset.refl _
  · exact List.subset_append_left _ _

theorem rows_seedLoop (ws : ℕ → ω) (fs : List PolicyFile) :
    ∀ (n : ℕ) (s : Corpus), (svc.seedLoop ws n fs s).rows = s.rows := by
  induction fs with
  | nil => exact fun _ _ => rfl
  | cons f fs ih => exact fun n s => (ih (n + 1) _).trans (rows_seedFile (ws n) f s)

theorem subset_seedLoop (ws : ℕ → ω) (fs : List PolicyFile) :
    ∀ (n : ℕ) (s : Corpus), s.chunks ⊆ (svc.seedLoop ws n fs s).chunks := by
  induction fs with
  | nil => exact fun _ _ => List.Subset.refl _
  | cons f fs ih =>
    exact fun n s => List.Subset.trans (subset_seedFile (ws n) f s) (ih (n + 1) _)

/-- A seed run over `fs` keeps only trusted chunks active exactly when every file it
ingests has trusted content. -/
theorem onlyTrusted_seedLoop_iff (ws : ℕ → ω) (fs : List PolicyFile) :
    ∀ {n : ℕ} {s : Corpus}, s.OnlyTrusted →
      ((svc.seedLoop ws n fs s).OnlyTrusted ↔
        ∀ f ∈ svc.ingested ws n fs, s.Trusted f.origin) := by
  induction fs with
  | nil => exact fun hs => iff_of_true hs fun f hf => by simp [ingested] at hf
  | cons f fs ih =>
    intro n s hs
    rw [seedLoop, seedFile, ingested]
    rcases hok : svc.processDocument (ws n) f.name f.content with e | chunks
    · exact ih hs
    · rw [List.forall_mem_cons, ← onlyTrusted_seedFile_iff hs hok]
      constructor
      · intro h
        -- no later file takes a chunk of this one away
        have hfile : (s.upsertChunks svc.ids (ws n) chunks .active f.origin).OnlyTrusted :=
          fun c hc hactive => (Corpus.trusted_congr (rows_seedLoop ws fs (n + 1) _)).1
            (h c (subset_seedLoop ws fs (n + 1) _ hc) hactive)
        exact ⟨hfile, fun g hg => (Corpus.trusted_congr rfl).1 ((ih hfile).1 h g hg)⟩
      · rintro ⟨hfile, h⟩
        exact (ih hfile).2 fun g hg => (Corpus.trusted_congr rfl).2 (h g hg)

end IngestionService

/-! ## The steps of a call -/

/-- Where an approval is to act on a row, the row was recorded `scan_passed` before, and
where it is to activate chunks, the row was approved. -/
def Point.Ready (s : Corpus) : Point → Prop
  | .approveRow id => ∃ r, s.rows.find id = some r ∧ .scanPassed ∈ r.history
  | .setIngestionStatus id => ∃ r, s.rows.find id = some r ∧ r.Approved
  | _ => True

theorem Corpus.Extends.ready {s s' : Corpus} (h : s.Extends s') {point : Point}
    (hp : point.Ready s) : point.Ready s' := by
  cases point with
  | approveRow id =>
    obtain ⟨r, hr, hpassed⟩ := hp
    obtain ⟨r', hr', -, hprefixed⟩ := h id r hr
    exact ⟨r', hr', hprefixed.subset hpassed⟩
  | setIngestionStatus id =>
    obtain ⟨r, hr, happroved⟩ := hp
    obtain ⟨r', hr', -, hprefixed⟩ := h id r hr
    exact ⟨r', hr', happroved.trans hprefixed.sublist⟩
  | _ => trivial

/-- Approving a row that was recorded `scan_passed` leaves it approved. -/
theorem Corpus.exists_approved_approve {s : Corpus} {id : ℕ} {r : DocumentSecurityState}
    (hr : s.rows.find id = some r) (hpassed : .scanPassed ∈ r.history) (actor : String)
    (now : Timestamp) : ∃ r', (s.approve id actor now).rows.find id = some r' ∧ r'.Approved := by
  dsimp only [approve]
  refine ⟨_, find_updateRow hr, ?_⟩
  exact (List.singleton_sublist.2 hpassed).append (List.Sublist.refl [DocumentStatus.approved])

/-- The source an approval is to activate next, and the row it approved. -/
def CorpusCall.flip : CorpusCall → Option (String × ℕ)
  | ⟨.approve source _, .setIngestionStatus id⟩ => some (source, id)
  | _ => none

theorem CorpusCall.flip_eq_some {call : CorpusCall} {source : String} {id : ℕ} :
    call.flip = some (source, id) ↔
      ∃ actor, call = ⟨.approve source actor, .setIngestionStatus id⟩ := by
  constructor
  · intro h
    unfold flip at h
    split at h
    · obtain ⟨rfl, rfl⟩ : _ = source ∧ _ = id := by simpa using h
      exact ⟨_, rfl⟩
    · simp at h
  · rintro ⟨actor, rfl⟩
    rfl

namespace IngestionService

variable {ω : Type*} {svc : IngestionService ω} {s s' : Corpus} {call : CorpusCall}

/-- What one step of a call does to the stores and to what the call has established. Only
the flip of an approval activates chunks. -/
structure Advances (s s' : Corpus) (call : CorpusCall) (point : Point) : Prop where
  rows : s.Extends s'
  chunks : call.flip = none → ∀ c ∈ s'.chunks, c.ingestionStatus = .active → c ∈ s.chunks
  origins : (∀ c ∈ s.chunks, c.origin ≠ .placed) → ∀ c ∈ s'.chunks, c.origin ≠ .placed
  ready : call.point.Ready s → point.Ready s'

/-- A step that activates no chunk, to a point with nothing to establish. -/
theorem Advances.of_rows {point : Point} (hrows : s.Extends s') (hchunks : s'.chunks = s.chunks)
    (hready : point.Ready s') : Advances s s' call point :=
  ⟨hrows, fun _ _ hc _ => hchunks ▸ hc, fun h => hchunks ▸ h, fun _ => hready⟩

/-- A step that leaves the rows alone and at most removes chunks. -/
theorem Advances.of_subset {point : Point} (hrows : s'.rows = s.rows)
    (hchunks : s'.chunks ⊆ s.chunks) (hready : point.Ready s') : Advances s s' call point :=
  ⟨.of_rows_eq hrows, fun _ _ hc _ => hchunks hc, fun h c hc => h c (hchunks hc),
    fun _ => hready⟩

theorem advances {w : ω} {c : ℕ} {point : Point}
    (h : svc.advance w c call s = some (point, s')) : Advances s s' call point := by
  cases stepsTo_of_advance h with
  | deleteReplaced => exact .of_subset rfl (fun _ => Corpus.mem_of_mem_deleteBySource) trivial
  | deleteFailed => exact .of_subset rfl (fun _ => Corpus.mem_of_mem_deleteBySource) trivial
  | deleteRejected => exact .of_subset rfl (fun _ => Corpus.mem_of_mem_deleteBySource) trivial
  | copyFile hchunks hrows _ =>
    refine .of_rows (.of_rows_eq hrows) hchunks ?_
    split <;> trivial
  | upsertChunks =>
    refine ⟨.of_rows_eq rfl, fun _ chunk hc hactive => ?_, fun h chunk hc => ?_,
      fun _ => trivial⟩
    · rcases Corpus.mem_upsertChunks hc with hc | ⟨hstatus, -⟩
      · exact hc
      · rw [hstatus] at hactive
        simp at hactive
    · rcases Corpus.mem_upsertChunks hc with hc | ⟨-, horigin⟩
      · exact h chunk hc
      · simp [horigin]
  | createPending hcreate =>
    refine .of_rows (Corpus.extends_createPending hcreate) ?_ trivial
    obtain ⟨rows, -, rfl⟩ := Option.map_eq_some_iff.1 hcreate
    rfl
  | scanFailed => exact .of_rows (Corpus.extends_recordScanResult _ _ _ _) rfl trivial
  | scanPassed => exact .of_rows (Corpus.extends_recordScanResult _ _ _ _) rfl trivial
  | approveChecked hr hstatus =>
    refine .of_rows (.of_rows_eq rfl) rfl ⟨_, (Corpus.getLatestForSource_mem hr).1, ?_⟩
    rw [← hstatus]
    exact DocumentSecurityState.status_mem _
  | approveRow =>
    refine ⟨Corpus.extends_approve _ _ _, fun _ _ hc _ => hc, fun h => h, ?_⟩
    rintro ⟨r, hr, hpassed⟩
    exact Corpus.exists_approved_approve hr hpassed _ _
  | setIngestionStatus =>
    refine ⟨.of_rows_eq rfl, fun h => by simp [CorpusCall.flip] at h, fun h chunk hc => ?_,
      fun _ => trivial⟩
    obtain ⟨chunk₀, hchunk₀, rfl⟩ := List.mem_map.1 hc
    split <;> exact h chunk₀ hchunk₀
  | markActive => exact .of_rows (Corpus.extends_markActive _) rfl trivial
  | rejectRow => exact .of_rows (Corpus.extends_reject _ _) rfl trivial
  | _ => exact .of_subset rfl (List.Subset.refl _) trivial

end IngestionService

end EnterpriseRag
