import EnterpriseRag.Corpus.Quarantine
import EnterpriseRag.Corpus.SingleIngestion
import EnterpriseRag.Corpus.Trust
import EnterpriseRag.Library.Page

/-!
# What the upload scan sees

`submit` finds out by two listings what it works on : `list_policies` tells it whether the
source is there to be replaced, and `_quarantined_chunk_texts` reads the new chunks back
for the scanner. Each is the first page of the collection in the order of the point ids,
and looks for the source on that page only.

`ScanExact` is what the scan should be : the texts of the chunks that carry the source,
which are the new document's, so that an approval publishes nothing else. `ScanFits` is
when it is (`scan_exact_iff`) : the document is stored under the name it was submitted by,
an old version of it is on the page `list_policies` reads, and the new chunks are on the
page of quarantined ones.
-/

namespace EnterpriseRag

/-- How far a call has come. -/
def Point.rank : Point → ℕ
  | .listSources | .getLatest => 0
  | .processDocument _ | .approveRow _ | .deleteRejected _ => 1
  | .copyFile _ _ | .setIngestionStatus _ | .rejectRow _ => 2
  | .deleteReplaced _ | .markActive _ => 3
  | .upsertChunks _ _ => 4
  | .createPending _ => 5
  | .readChunks _ _ => 6
  | .scan _ _ _ => 7
  | .recordScanResult _ _ _ => 8
  | .deleteFailed _ => 9
  | .uploaded _ | .decided _ | .raised _ => 10

namespace IngestionService

variable {ω : Type*} {svc : IngestionService ω} {w : ω} {c : ℕ} {call call' : CorpusCall}
  {point : Point} {s s' s₁ : Corpus} {filename actor : String} {content : Bytes} {ws : List ω}

theorem rank_lt_of_advance (h : svc.advance w c call s = some (point, s')) :
    call.point.rank < point.rank := by
  cases stepsTo_of_advance h with
  | copyFile => split <;> simp [Point.rank]
  | _ => simp [Point.rank]

theorem rank_le_of_perform (h : svc.perform c ws call s = some (call', s₁)) :
    call.point.rank ≤ call'.point.rank :=
  perform_induction (I := fun reached _ => call.point.rank ≤ reached.point.rank)
    (fun _ _ _ _ _ hle hadvance => hle.trans (rank_lt_of_advance hadvance).le) le_rfl h

/-- The first of the steps of a call that has come further. -/
theorem exists_advance_of_perform (h : svc.perform c ws call s = some (call', s₁))
    (hne : call ≠ call') :
    ∃ w ws' point s', ws = w :: ws' ∧ svc.advance w c call s = some (point, s') ∧
      svc.perform c ws' { call with point } s' = some (call', s₁) := by
  cases ws with
  | nil =>
    obtain ⟨rfl, -⟩ := Prod.mk.inj (Option.some.inj h)
    exact absurd rfl hne
  | cons w ws =>
    obtain ⟨⟨point, s'⟩, hadvance, h⟩ := Option.bind_eq_some_iff.1 h
    exact ⟨w, ws, point, s', rfl, hadvance, h⟩

/-- A call that has come no further has made no step. -/
theorem perform_of_rank_eq (h : svc.perform c ws call s = some (call', s₁))
    (hrank : call.point.rank = call'.point.rank) : call = call' ∧ s = s₁ := by
  cases ws with
  | nil => exact Prod.mk.inj (Option.some.inj h)
  | cons w ws =>
    obtain ⟨⟨point, s'⟩, hadvance, h⟩ := Option.bind_eq_some_iff.1 h
    have hlt := (rank_lt_of_advance hadvance).trans_le (rank_le_of_perform h)
    omega

/-! ## The collection at the scan -/

/-- The points an upload stores : its fourth step stores them, or its fifth if the third
deleted an old version. -/
def uploadedPoints (svc : IngestionService ω) (c : ℕ) (filename : String) (content : Bytes)
    (ws : List ω) (s : Corpus) : List StoredChunk :=
  (ws[if filename ∈ s.listSources none then 4 else 3]?).elim [] fun w =>
    svc.ids.points w .quarantined (.upload c)
      ((cleared filename (filename ∈ s.listSources none) s).chunks.map (·.id))
      (svc.uploadVersion filename content ws)

/-- What `_quarantined_chunk_texts` reads. -/
def quarantinedChunkTexts (source : String) (s : Corpus) : List String :=
  ((s.scrollAllChunks (some .quarantined)).filter (·.source = source)).map (·.text)

/-- From the point where the chunks are stored to the scan. -/
theorem scanned_of_upsertChunks {isReplacing : Bool} {chunks : List DocumentChunk} {id : ℕ}
    {response : PolicyUploadResponse} {texts : List String}
    (h : svc.perform c ws ⟨.submit filename content actor, .upsertChunks isReplacing chunks⟩ s =
      some (⟨.submit filename content actor, .scan id response texts⟩, s₁)) :
    ∃ w, ws[0]? = some w ∧ texts = quarantinedChunkTexts filename s₁ ∧
      s₁.chunks = s.chunks ++
        svc.ids.points w .quarantined (.upload c) (s.chunks.map (·.id)) chunks := by
  obtain ⟨w, ws, _, _, rfl, hadvance, h⟩ := exists_advance_of_perform h (by simp)
  obtain ⟨rfl, rfl⟩ := Prod.mk.inj (Option.some.inj hadvance)
  obtain ⟨_, ws, _, _, rfl, hadvance, h⟩ := exists_advance_of_perform h (by simp)
  obtain ⟨s₂, hcreate, hadvance⟩ := Option.map_eq_some_iff.1 hadvance
  obtain ⟨rfl, rfl⟩ := Prod.mk.inj hadvance
  obtain ⟨rows, -, rfl⟩ := Option.map_eq_some_iff.1 hcreate
  obtain ⟨_, ws, _, _, rfl, hadvance, h⟩ := exists_advance_of_perform h (by simp)
  obtain ⟨rfl, rfl⟩ := Prod.mk.inj (Option.some.inj hadvance)
  obtain ⟨hcall, rfl⟩ := perform_of_rank_eq h rfl
  simp only [CorpusCall.mk.injEq, Point.scan.injEq, true_and] at hcall
  exact ⟨w, rfl, hcall.2.2.symm, rfl⟩

theorem scanned_of_perform {id : ℕ} {response : PolicyUploadResponse} {texts : List String}
    (h : svc.perform c ws ⟨.submit filename content actor,
      svc.enter (.submit filename content actor)⟩ s =
        some (⟨.submit filename content actor, .scan id response texts⟩, s₁)) :
    s₁.chunks = (cleared filename (filename ∈ s.listSources none) s).chunks ++
        svc.uploadedPoints c filename content ws s ∧
      texts = quarantinedChunkTexts filename s₁ ∧ svc.uploadVersion filename content ws ≠ [] ∧
      (∀ ch ∈ svc.uploadVersion filename content ws, ch.source = pathName filename) ∧
      (svc.uploadedPoints c filename content ws s).map (·.toDocumentChunk) =
        svc.uploadVersion filename content ws := by
  have henter : svc.enter (.submit filename content actor) = .listSources := by
    unfold enter at h ⊢
    dsimp only at h ⊢
    split
    · rename_i e hvalid
      rw [hvalid] at h
      have hover := perform_of_isOver rfl h
      simp at hover
    · rfl
  rw [henter] at h
  obtain ⟨w₀, ws, _, _, rfl, hadvance, h⟩ := exists_advance_of_perform h (by simp)
  obtain ⟨rfl, rfl⟩ := Prod.mk.inj (Option.some.inj hadvance)
  obtain ⟨w₁, ws, _, _, rfl, hadvance, h⟩ := exists_advance_of_perform h (by simp)
  simp only [advance, advanceSubmit] at hadvance
  split at hadvance <;> obtain ⟨rfl, rfl⟩ := Prod.mk.inj (Option.some.inj hadvance)
  · have hover := perform_of_isOver rfl h
    simp at hover
  rename_i chunks hprocess
  obtain ⟨w₂, ws, _, s₂, rfl, hadvance, h⟩ := exists_advance_of_perform h (by simp)
  have hchunks : s₂.chunks = s.chunks := by
    cases stepsTo_of_advance hadvance with
    | copyFile hchunks => exact hchunks
  obtain ⟨rfl, -⟩ := Prod.mk.inj (Option.some.inj hadvance)
  have hversion : svc.uploadVersion filename content (w₀ :: w₁ :: w₂ :: ws) = chunks := by
    rw [uploadVersion, hprocess]
    rfl
  rw [hversion]
  suffices hstored : s₁.chunks = (cleared filename (filename ∈ s.listSources none) s).chunks ++
      svc.uploadedPoints c filename content (w₀ :: w₁ :: w₂ :: ws) s ∧
      texts = quarantinedChunkTexts filename s₁ ∧
      (svc.uploadedPoints c filename content (w₀ :: w₁ :: w₂ :: ws) s).map (·.toDocumentChunk) =
        chunks from
    ⟨hstored.1, hstored.2.1, processDocument_ne_nil hprocess,
      source_of_mem_processDocument hprocess, hstored.2.2⟩
  unfold uploadedPoints
  rw [hversion]
  by_cases hlisted : filename ∈ s.listSources none
  · simp only [hlisted, decide_true, if_true] at h ⊢
    obtain ⟨w₃, ws, _, s₃, rfl, hadvance, h⟩ := exists_advance_of_perform h (by simp)
    obtain ⟨rfl, rfl⟩ := Prod.mk.inj (Option.some.inj hadvance)
    obtain ⟨w₄, hw₄, htexts, hs₁⟩ := scanned_of_upsertChunks h
    have hdeleted : (s₂.deleteBySource filename).chunks = (cleared filename true s).chunks := by
      simp [cleared, Corpus.deleteBySource, hchunks]
    rw [hdeleted] at hs₁
    simp only [List.getElem?_cons_succ, hw₄, Option.elim_some]
    exact ⟨hs₁, htexts, Corpus.map_toDocumentChunk_points ..⟩
  · simp only [hlisted, decide_false, if_false] at h ⊢
    obtain ⟨w₃, hw₃, htexts, hs₁⟩ := scanned_of_upsertChunks h
    rw [hchunks] at hs₁
    simp only [List.getElem?_cons_succ, hw₃, Option.elim_some]
    exact ⟨hs₁, htexts, Corpus.map_toDocumentChunk_points ..⟩

/-! ## What an approval publishes -/

/-- After the scan the chunks of the source only become fewer. -/
theorem subset_of_perform_scan {id : ℕ} {response response' : PolicyUploadResponse}
    {texts : List String}
    (h : svc.perform c ws ⟨.submit filename content actor, .scan id response texts⟩ s =
      some (⟨.submit filename content actor, .uploaded response'⟩, s₁)) :
    s₁.chunks ⊆ s.chunks := by
  have hkept : 7 ≤ Point.rank (.uploaded response') ∧ s₁.chunks ⊆ s.chunks := by
    refine perform_induction (I := fun call s' => 7 ≤ call.point.rank ∧ s'.chunks ⊆ s.chunks)
      ?_ ⟨le_rfl, fun _ hch => hch⟩ h
    rintro w call s' point s'' ⟨hrank, hsubset⟩ hadvance
    refine ⟨hrank.trans (rank_lt_of_advance hadvance).le, ?_⟩
    cases stepsTo_of_advance hadvance with
    | scan => exact hsubset
    | scanRaises => exact hsubset
    | scanFailed => exact hsubset
    | scanPassed => exact hsubset
    | deleteFailed => exact fun ch hch => hsubset (List.mem_filter.1 hch).1
    | _ => simp [Point.rank] at hrank
  exact hkept.2

/-- The scan of an upload sees what its approval publishes. -/
structure ScanExact (svc : IngestionService ω) (c : ℕ) (filename : String) (content : Bytes)
    (actor : String) (ws : List ω) (id : ℕ) (response : PolicyUploadResponse)
    (texts : List String) (s : Corpus) : Prop where
  /-- The texts are those of the chunks that carry the source. -/
  scanned : texts.Perm ((s.chunks.filter fun ch => ch.source = filename).map (·.text))
  /-- These are the new document's. -/
  version : (s.contents.filter fun ch => ch.source = filename) =
    svc.uploadVersion filename content ws
  /-- An approval makes no other chunk of the source active. -/
  published : ∀ ws₁ ws₂ response' approver id' s₁ s₂,
    svc.perform c ws₁ ⟨.submit filename content actor, .scan id response texts⟩ s =
      some (⟨.submit filename content actor, .uploaded response'⟩, s₁) →
    svc.perform (c + 1) ws₂ ⟨.approve filename approver, .getLatest⟩ s₁ =
      some (⟨.approve filename approver, .decided id'⟩, s₂) →
    ∀ ch ∈ s₂.activeChunks, ch.source = filename →
      ch.text ∈ texts ∧ ch.toDocumentChunk ∈ svc.uploadVersion filename content ws

/-- The new chunks are the only ones of the source, and on the page that is read back. -/
structure ScanFits (svc : IngestionService ω) (c : ℕ) (filename : String) (content : Bytes)
    (ws : List ω) (s : Corpus) : Prop where
  name : pathName filename = filename
  found : s.Vacant filename ∨ filename ∈ s.listSources none
  page : ∀ p ∈ svc.uploadedPoints c filename content ws s,
    ((cleared filename (filename ∈ s.listSources none) s).chunks ++
      svc.uploadedPoints c filename content ws s).countP
        (fun ch => ch.ingestionStatus = .quarantined ∧ ch.id ≤ p.id) ≤ Corpus.scrollLimit

theorem vacant_cleared_iff : (cleared filename (filename ∈ s.listSources none) s).Vacant filename ↔
    s.Vacant filename ∨ filename ∈ s.listSources none := by
  by_cases hlisted : filename ∈ s.listSources none <;>
    simp [cleared, hlisted, Corpus.Vacant, Corpus.deleteBySource]

theorem quarantined_of_mem_uploadedPoints {p : StoredChunk}
    (hp : p ∈ svc.uploadedPoints c filename content ws s) : p.ingestionStatus = .quarantined := by
  unfold uploadedPoints at hp
  rcases hw : ws[if filename ∈ s.listSources none then 4 else 3]? with _ | w <;>
    simp only [hw, Option.elim_none, Option.elim_some, List.not_mem_nil] at hp
  exact (Corpus.mem_points hp).1

/-- No other point has the id of an uploaded one. -/
theorem eq_of_id_eq_uploaded {p q : StoredChunk}
    (hp : p ∈ svc.uploadedPoints c filename content ws s)
    (hq : q ∈ (cleared filename (filename ∈ s.listSources none) s).chunks ++
      svc.uploadedPoints c filename content ws s) (hid : q.id = p.id) : q = p := by
  unfold uploadedPoints at hp hq
  rcases hw : ws[if filename ∈ s.listSources none then 4 else 3]? with _ | w <;>
    simp only [hw, Option.elim_none, Option.elim_some, List.not_mem_nil] at hp hq
  rcases List.mem_append.1 hq with hold | hnew
  · exact absurd (List.mem_map.2 ⟨q, hold, hid⟩) (Corpus.id_notMem_of_mem_points hp)
  · exact List.inj_on_of_nodup_map (Corpus.nodup_points ..) hnew hp hid

theorem published_of_scan {id : ℕ} {response : PolicyUploadResponse} {texts : List String}
    {version : List DocumentChunk}
    (htexts : texts.Perm ((s.chunks.filter fun ch => ch.source = filename).map (·.text)))
    (hversion : (s.contents.filter fun ch => ch.source = filename) = version)
    {ws₁ ws₂ : List ω} {response' : PolicyUploadResponse} {approver : String} {id' : ℕ}
    {s₁ s₂ : Corpus}
    (hscan : svc.perform c ws₁ ⟨.submit filename content actor, .scan id response texts⟩ s =
      some (⟨.submit filename content actor, .uploaded response'⟩, s₁))
    (happrove : svc.perform (c + 1) ws₂ ⟨.approve filename approver, .getLatest⟩ s₁ =
      some (⟨.approve filename approver, .decided id'⟩, s₂)) :
    ∀ ch ∈ s₂.activeChunks, ch.source = filename →
      ch.text ∈ texts ∧ ch.toDocumentChunk ∈ version := by
  intro ch hch hsource
  obtain ⟨-, hs₂⟩ : Approving s₁ filename ⟨.approve filename approver, .decided id'⟩ s₂ :=
    perform_induction (fun _ _ _ _ _ => approving_advance) ⟨⟨approver, rfl⟩, rfl⟩ happrove
  have hch₂ := (List.mem_filter.1 hch).1
  have hs₂ : s₂.chunks = (s₁.setIngestionStatus filename .active).chunks := hs₂
  rw [hs₂] at hch₂
  obtain ⟨ch₁, hch₁, rfl⟩ := List.mem_map.1 hch₂
  have hcontent : ∀ {ch : StoredChunk}, (if ch.source = filename then
      { ch with ingestionStatus := .active } else ch).toDocumentChunk = ch.toDocumentChunk := by
    intro ch
    split <;> rfl
  rw [hcontent] at hsource ⊢
  have hmem := subset_of_perform_scan hscan hch₁
  constructor
  · refine htexts.mem_iff.2 (List.mem_map.2 ⟨ch₁, ?_, rfl⟩)
    exact List.mem_filter.2 ⟨hmem, by simpa using hsource⟩
  · rw [← hversion]
    exact List.mem_filter.2 ⟨List.mem_map_of_mem hmem, by simpa using hsource⟩

/-! ## When the scan is exact -/

/-- The quarantined chunks. -/
def quarantinedChunks (s : Corpus) : List StoredChunk :=
  s.chunks.filter fun ch => (some IngestionStatus.quarantined).all (ch.ingestionStatus = ·)

theorem quarantinedChunkTexts_eq (source : String) (s : Corpus) :
    quarantinedChunkTexts source s =
      ((Page.page (·.id) Corpus.scrollLimit (quarantinedChunks s)).filter
        (·.source = source)).map (·.text) :=
  rfl

theorem countP_quarantinedChunks (s : Corpus) (k : ℕ) :
    (quarantinedChunks s).countP (fun ch => ch.id ≤ k) =
      s.chunks.countP (fun ch => ch.ingestionStatus = .quarantined ∧ ch.id ≤ k) := by
  rw [quarantinedChunks, List.countP_filter]
  refine List.countP_congr fun ch _ => ?_
  simp [and_comm]

/-- A listing that reads every chunk of the source leaves none of it out. -/
theorem filter_rest_eq_nil_of_perm {source : String}
    (h : (quarantinedChunkTexts source s).Perm
      ((s.chunks.filter fun ch => ch.source = source).map (·.text))) :
    (Page.rest (·.id) Corpus.scrollLimit (quarantinedChunks s)).filter
      (·.source = source) = [] := by
  refine Page.filter_rest_eq_nil (le_antisymm ?_ ?_)
  · have hall := ((Page.perm_page_append_rest (·.id) Corpus.scrollLimit
      (quarantinedChunks s)).filter (·.source = source)).length_eq
    rw [List.filter_append, List.length_append] at hall
    omega
  · have hlength := h.length_eq
    rw [quarantinedChunkTexts_eq, List.length_map, List.length_map] at hlength
    rw [hlength]
    exact (List.filter_sublist.filter _).length_le

/-- It reads every chunk of the source if they are quarantined and it leaves none out. -/
theorem perm_of_filter_rest_eq_nil {source : String}
    (hquarantined : ∀ ch ∈ s.chunks, ch.source = source → ch ∈ quarantinedChunks s)
    (h : (Page.rest (·.id) Corpus.scrollLimit (quarantinedChunks s)).filter
      (·.source = source) = []) :
    (quarantinedChunkTexts source s).Perm
      ((s.chunks.filter fun ch => ch.source = source).map (·.text)) := by
  have hsame : (quarantinedChunks s).filter (·.source = source) =
      s.chunks.filter fun ch => ch.source = source := by
    rw [quarantinedChunks, List.filter_filter]
    refine List.filter_congr fun ch hch => ?_
    by_cases hs : ch.source = source
    · simpa [hs] using (List.mem_filter.1 (hquarantined ch hch hs)).2
    · simp [hs]
  rw [quarantinedChunkTexts_eq, ← hsame]
  exact (Page.filter_perm_of_rest h).map _

/-- Documents of one source, and only they, are the documents of a source. -/
theorem filter_append_eq_iff {old new : List DocumentChunk} {source stored : String}
    (hne : new ≠ []) (hnew : ∀ ch ∈ new, ch.source = stored) :
    (old ++ new).filter (fun ch => ch.source = source) = new ↔
      stored = source ∧ ∀ ch ∈ old, ch.source ≠ source := by
  constructor
  · intro h
    have hstored : stored = source := by
      obtain ⟨ch, hch⟩ := List.exists_mem_of_ne_nil _ hne
      rw [← hnew ch hch]
      rw [← h] at hch
      simpa using (List.mem_filter.1 hch).2
    have hkept : new.filter (fun ch => ch.source = source) = new :=
      List.filter_eq_self.2 fun ch hch => by simp [hnew ch hch, hstored]
    rw [List.filter_append, hkept, List.append_left_eq_self] at h
    exact ⟨hstored, fun ch hch hs => by simpa [hs] using List.filter_eq_nil_iff.1 h ch hch⟩
  · rintro ⟨hstored, hold⟩
    rw [List.filter_append, List.filter_eq_nil_iff.2 fun ch hch => by simpa using hold ch hch,
      List.nil_append]
    exact List.filter_eq_self.2 fun ch hch => by simp [hnew ch hch, hstored]

/-- The new chunks and nothing else carry the source if the document is stored under its own
name and next to no other version. -/
theorem version_iff_of_scanned {id : ℕ} {response : PolicyUploadResponse} {texts : List String}
    (h : svc.perform c ws ⟨.submit filename content actor,
      svc.enter (.submit filename content actor)⟩ s =
        some (⟨.submit filename content actor, .scan id response texts⟩, s₁)) :
    (s₁.contents.filter fun ch => ch.source = filename) =
      svc.uploadVersion filename content ws ↔ pathName filename = filename ∧
        (s.Vacant filename ∨ filename ∈ s.listSources none) := by
  obtain ⟨hchunks, -, hne, hsource, hpoints⟩ := scanned_of_perform h
  have hcontents : s₁.contents = (cleared filename (filename ∈ s.listSources none) s).contents ++
      svc.uploadVersion filename content ws := by
    rw [Corpus.contents, hchunks, List.map_append, hpoints, Corpus.contents]
  rw [hcontents, filter_append_eq_iff hne hsource, ← vacant_cleared_iff,
    Corpus.vacant_iff_contents]

/-- A new chunk is on the page that is read back if there are few quarantined ids before it. -/
theorem not_mem_rest_iff_of_scanned {p : StoredChunk}
    (hchunks : s₁.chunks = (cleared filename (filename ∈ s.listSources none) s).chunks ++
      svc.uploadedPoints c filename content ws s)
    (hp : p ∈ svc.uploadedPoints c filename content ws s) :
    p ∉ Page.rest (·.id) Corpus.scrollLimit (quarantinedChunks s₁) ↔
      ((cleared filename (filename ∈ s.listSources none) s).chunks ++
        svc.uploadedPoints c filename content ws s).countP
          (fun ch => ch.ingestionStatus = .quarantined ∧ ch.id ≤ p.id) ≤ Corpus.scrollLimit := by
  have hmem : p ∈ quarantinedChunks s₁ := List.mem_filter.2
    ⟨hchunks ▸ List.mem_append_right _ hp, by simp [quarantined_of_mem_uploadedPoints hp]⟩
  rw [Page.not_mem_rest_iff hmem fun q hq hid =>
    eq_of_id_eq_uploaded hp (hchunks ▸ (List.mem_filter.1 hq).1) hid,
    countP_quarantinedChunks, hchunks]

theorem scanFits_of_scanExact {id : ℕ} {response : PolicyUploadResponse} {texts : List String}
    (h : svc.perform c ws ⟨.submit filename content actor,
      svc.enter (.submit filename content actor)⟩ s =
        some (⟨.submit filename content actor, .scan id response texts⟩, s₁))
    (hexact : svc.ScanExact c filename content actor ws id response texts s₁) :
    svc.ScanFits c filename content ws s := by
  obtain ⟨hname, hfound⟩ := (version_iff_of_scanned h).1 hexact.version
  obtain ⟨hchunks, rfl, -, hsource, hpoints⟩ := scanned_of_perform h
  refine ⟨hname, hfound, fun p hp =>
    (not_mem_rest_iff_of_scanned hchunks hp).1 fun hrest => ?_⟩
  have hnone := List.filter_eq_nil_iff.1 (filter_rest_eq_nil_of_perm hexact.scanned) p hrest
  have hp := hsource _ (hpoints ▸ List.mem_map_of_mem hp)
  simp [hp, hname] at hnone

theorem scanExact_of_scanFits {id : ℕ} {response : PolicyUploadResponse} {texts : List String}
    (h : svc.perform c ws ⟨.submit filename content actor,
      svc.enter (.submit filename content actor)⟩ s =
        some (⟨.submit filename content actor, .scan id response texts⟩, s₁))
    (hfits : svc.ScanFits c filename content ws s) :
    svc.ScanExact c filename content actor ws id response texts s₁ := by
  have hversion := (version_iff_of_scanned h).2 ⟨hfits.name, hfits.found⟩
  obtain ⟨hchunks, rfl, -, -, -⟩ := scanned_of_perform h
  have huploaded : ∀ ch ∈ s₁.chunks, ch.source = filename →
      ch ∈ svc.uploadedPoints c filename content ws s := by
    intro ch hch hs
    rw [hchunks] at hch
    exact (List.mem_append.1 hch).resolve_left fun hold =>
      vacant_cleared_iff.2 hfits.found ch hold hs
  have hscanned : (quarantinedChunkTexts filename s₁).Perm
      ((s₁.chunks.filter fun ch => ch.source = filename).map (·.text)) := by
    refine perm_of_filter_rest_eq_nil (fun ch hch hs => ?_) ?_
    · have hquarantined := quarantined_of_mem_uploadedPoints (huploaded ch hch hs)
      exact List.mem_filter.2 ⟨hch, by simp [hquarantined]⟩
    · refine List.filter_eq_nil_iff.2 fun ch hrest hs => ?_
      have hch := (Page.perm_page_append_rest (·.id) Corpus.scrollLimit
        (quarantinedChunks s₁)).mem_iff.1 (List.mem_append_right _ hrest)
      have hp := huploaded ch (List.mem_filter.1 hch).1 (by simpa using hs)
      exact (not_mem_rest_iff_of_scanned hchunks hp).2 (hfits.page ch hp) hrest
  exact ⟨hscanned, hversion, fun ws₁ ws₂ response' approver id' s₁ s₂ hscan happrove =>
    published_of_scan hscanned hversion hscan happrove⟩

/-- A document's scan is exact if and only if the document is stored under its own name, next
to no other version, and its chunks are on the page of quarantined ones. -/
theorem scan_exact_iff {id : ℕ} {response : PolicyUploadResponse} {texts : List String}
    (h : svc.perform c ws ⟨.submit filename content actor,
      svc.enter (.submit filename content actor)⟩ s =
        some (⟨.submit filename content actor, .scan id response texts⟩, s₁)) :
    svc.ScanExact c filename content actor ws id response texts s₁ ↔
      svc.ScanFits c filename content ws s :=
  ⟨scanFits_of_scanExact h, scanExact_of_scanFits h⟩

end IngestionService

namespace Corpus

/-- An active version of the fees, and another document that waits for a decision. -/
def feesAndLoans : Corpus where
  chunks :=
    [⟨⟨"The fee is 4.", "fees.pdf", some 1⟩, 1, .active, .placed⟩,
      ⟨⟨"A loan takes 3 days.", "loans.pdf", some 1⟩, 2, .quarantined, .upload 7⟩]
  rows := Table.empty
  files := []

/-- So many chunks of another document that waits for a decision. -/
def manyLoans (n : ℕ) : Corpus where
  chunks := (List.range n).map fun i =>
    ⟨⟨"A loan takes 3 days.", "loans.pdf", none⟩, i, .quarantined, .upload 7⟩
  rows := Table.empty
  files := []

theorem of_mem_manyLoans {n : ℕ} {ch : StoredChunk} (h : ch ∈ (manyLoans n).chunks) :
    ch.source = "loans.pdf" ∧ ch.ingestionStatus = .quarantined := by
  obtain ⟨i, -, rfl⟩ := List.mem_map.1 h
  exact ⟨rfl, rfl⟩

end Corpus

namespace IngestionService

theorem scan_exact_fees : ∃ id response texts s₁,
    feesService.perform 0 (List.replicate 7 false) ⟨.submit "fees.pdf" [1] "ann",
      feesService.enter (.submit "fees.pdf" [1] "ann")⟩ Corpus.feesAndLoans =
        some (⟨.submit "fees.pdf" [1] "ann", .scan id response texts⟩, s₁) ∧
    feesService.ScanExact 0 "fees.pdf" [1] "ann" (List.replicate 7 false) id response texts s₁ := by
  have h : feesService.perform 0 (List.replicate 7 false) ⟨.submit "fees.pdf" [1] "ann",
    feesService.enter (.submit "fees.pdf" [1] "ann")⟩ Corpus.feesAndLoans =
      some (⟨.submit "fees.pdf" [1] "ann", .scan _ _ _⟩, _) := rfl
  exact ⟨_, _, _, _, h, (scan_exact_iff h).2
    ⟨by decide +kernel, Or.inr (by decide +kernel), by decide +kernel⟩⟩

theorem perform_listSources (svc : IngestionService ω) (c : ℕ) (w : ω) (ws : List ω)
    (filename actor : String) (content : Bytes) (s : Corpus) :
    svc.perform c (w :: ws) ⟨.submit filename content actor, .listSources⟩ s =
      svc.perform c ws
        ⟨.submit filename content actor, .processDocument (filename ∈ s.listSources none)⟩ s :=
  rfl

theorem fees_notMem_manyLoans (n : ℕ) : "fees.pdf" ∉ (Corpus.manyLoans n).listSources none := by
  intro hmem
  obtain ⟨ch, hch, hs⟩ := List.mem_map.1 (List.mem_filter.1 hmem).1
  have hsource := (Corpus.of_mem_manyLoans (List.mem_filter.1 (Page.mem_of_mem_page hch)).1).1
  rw [hs] at hsource
  simp at hsource

/-- An upload next to any number of other chunks. -/
theorem exists_perform_manyLoans (n : ℕ) : ∃ id response texts s₁,
    feesService.perform 0 (List.replicate 6 false) ⟨.submit "fees.pdf" [1] "ann",
      feesService.enter (.submit "fees.pdf" [1] "ann")⟩ (Corpus.manyLoans n) =
        some (⟨.submit "fees.pdf" [1] "ann", .scan id response texts⟩, s₁) := by
  have henter : feesService.enter (.submit "fees.pdf" [1] "ann") = .listSources := rfl
  rw [henter, List.replicate_succ, perform_listSources,
    decide_eq_false (fees_notMem_manyLoans n)]
  exact ⟨_, _, _, _, rfl⟩

theorem not_scanFits_manyLoans (n : ℕ) (hn : Corpus.scrollLimit ≤ n) :
    ¬feesService.ScanFits 0 "fees.pdf" [1] (List.replicate 6 false) (Corpus.manyLoans n) := by
  intro hfits
  have hcleared : cleared "fees.pdf" (decide ("fees.pdf" ∈ (Corpus.manyLoans n).listSources none))
      (Corpus.manyLoans n) = Corpus.manyLoans n := by
    rw [decide_eq_false (fees_notMem_manyLoans n)]
    rfl
  have huploaded : feesService.uploadedPoints 0 "fees.pdf" [1] (List.replicate 6 false)
      (Corpus.manyLoans n) = [⟨⟨"The fee is 5.", "fees.pdf", some 1⟩,
        ((Corpus.manyLoans n).chunks.map (·.id)).sum + 1, .quarantined, .upload 0⟩] := by
    rw [uploadedPoints, hcleared, if_neg (fees_notMem_manyLoans n)]
    rfl
  have hpage := hfits.page
  rw [hcleared, huploaded] at hpage
  have hpage := hpage _ (List.mem_singleton_self _)
  -- every other id is below that of the new chunk
  have hall : (Corpus.manyLoans n).chunks.countP (fun ch => ch.ingestionStatus = .quarantined ∧
      ch.id ≤ ((Corpus.manyLoans n).chunks.map (·.id)).sum + 1) = n := by
    rw [List.countP_eq_length.2, Corpus.manyLoans, List.length_map, List.length_range]
    intro ch hch
    have hle := List.le_sum_of_mem (List.mem_map_of_mem (f := (·.id)) hch)
    simpa [(Corpus.of_mem_manyLoans hch).2] using hle.trans (Nat.le_succ _)
  rw [List.countP_append, hall, List.countP_singleton, if_pos (by simp)] at hpage
  omega

/-- The page of quarantined chunks is full, and the scan does not see the upload. -/
theorem full_page_hides_upload : ∃ id response texts s₁,
    feesService.perform 0 (List.replicate 6 false) ⟨.submit "fees.pdf" [1] "ann",
      feesService.enter (.submit "fees.pdf" [1] "ann")⟩ (Corpus.manyLoans Corpus.scrollLimit) =
        some (⟨.submit "fees.pdf" [1] "ann", .scan id response texts⟩, s₁) ∧
    ¬feesService.ScanExact 0 "fees.pdf" [1] "ann" (List.replicate 6 false) id response
      texts s₁ := by
  obtain ⟨id, response, texts, s₁, h⟩ := exists_perform_manyLoans Corpus.scrollLimit
  exact ⟨id, response, texts, s₁, h, fun hexact =>
    not_scanFits_manyLoans _ le_rfl (scanFits_of_scanExact h hexact)⟩

end IngestionService

end EnterpriseRag
