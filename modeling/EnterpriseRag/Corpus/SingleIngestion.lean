import EnterpriseRag.Corpus.Interruption
import EnterpriseRag.Library.LastMatch

/-!
# One ingestion per source

A document enters the live collection by two paths. An upload goes through `submit` and
`approve`, and `ingest` deletes the chunks of a source it finds listed before it stores
the new ones. `seed_docs` stores the chunks of every file of the policy folder next to
whatever is there.

`Shelf` runs the two paths one after the other and keeps a log of the versions ingested.
`OneIngestion` asks that the searchable chunks of a source be those of its last version.
An ingestion keeps it when it takes the place of what is stored under its source
(`Replaces`) : an upload whose source is listed or new, under its own name, and a seed run
over files none of whose sources is stored yet.
-/

open Transition

namespace EnterpriseRag

/-- The last version of a source in a log of ingestions, nothing if there is none. -/
def lastVersion (versions : List (String × List DocumentChunk)) (source : String) :
    List DocumentChunk :=
  (LastMatch.findLast (fun v => decide (v.1 = source)) versions).elim [] (·.2)

theorem lastVersion_concat (versions : List (String × List DocumentChunk)) (k source : String)
    (chunks : List DocumentChunk) :
    lastVersion (versions ++ [(k, chunks)]) source =
      if k = source then chunks else lastVersion versions source := by
  rw [lastVersion, LastMatch.findLast_concat]
  by_cases hk : k = source <;> simp [hk, lastVersion]

namespace Corpus

variable {ω : Type*} {s s' : Corpus} {versions : List (String × List DocumentChunk)}

/-- The texts of the collection, without what the store adds to them. -/
def contents (s : Corpus) : List DocumentChunk :=
  s.chunks.map (·.toDocumentChunk)

/-- Everything stored is searchable, and what is stored under a source is its last
version. -/
structure Shelved (s : Corpus) (versions : List (String × List DocumentChunk)) : Prop where
  active : ∀ c ∈ s.chunks, c.ingestionStatus = .active
  contents : ∀ source, s.contents.filter (fun c => c.source = source) = lastVersion versions source

@[simp] theorem contents_upsertChunks (ids : PointIds ω) (w : ω) (chunks : List DocumentChunk)
    (status : IngestionStatus) (origin : Origin) :
    (s.upsertChunks ids w chunks status origin).contents = s.contents ++ chunks := by
  simp [contents, upsertChunks]

@[simp] theorem contents_deleteBySource (source : String) :
    (s.deleteBySource source).contents = s.contents.filter fun c => c.source ≠ source := by
  simp [contents, deleteBySource, List.filter_map, Function.comp_def]

@[simp] theorem contents_setIngestionStatus (source : String) (status : IngestionStatus) :
    (s.setIngestionStatus source status).contents = s.contents := by
  rw [contents, setIngestionStatus, List.map_map, contents]
  refine List.map_congr_left fun c _ => ?_
  by_cases hc : c.source = source <;> simp [hc]

theorem contents_congr (h : s'.chunks = s.chunks) : s'.contents = s.contents := by
  rw [contents, h, contents]

theorem vacant_iff_contents {source : String} :
    s.Vacant source ↔ ∀ c ∈ s.contents, c.source ≠ source := by
  simp [Vacant, contents]

theorem Vacant.filter_contents {source : String} (h : s.Vacant source) :
    (s.contents.filter fun c => c.source ≠ source) = s.contents :=
  List.filter_eq_self.2 fun c hc => by simpa using vacant_iff_contents.1 h c hc

/-- A version that takes the place of what was stored under its source. -/
theorem Shelved.replace {k : String} {chunks : List DocumentChunk} (h : s.Shelved versions)
    (hcontents : s'.contents = (s.contents.filter fun c => c.source ≠ k) ++ chunks)
    (hchunks : ∀ c ∈ chunks, c.source = k)
    (hactive : ∀ c ∈ s'.chunks, c.ingestionStatus = .active) :
    s'.Shelved (versions ++ [(k, chunks)]) := by
  refine ⟨hactive, fun source => ?_⟩
  rw [hcontents, List.filter_append, List.filter_filter, lastVersion_concat]
  by_cases hk : k = source
  · subst hk
    have hold : s.contents.filter (fun c => decide (c.source = k) && decide (c.source ≠ k)) = [] :=
      List.filter_eq_nil_iff.2 fun c _ => by simp
    rw [hold, List.nil_append, if_pos rfl]
    exact List.filter_eq_self.2 fun c hc => by simpa using hchunks c hc
  · have hnew : (chunks.filter fun c => c.source = source) = [] :=
      List.filter_eq_nil_iff.2 fun c hc => by simpa [hchunks c hc] using hk
    rw [hnew, List.append_nil, if_neg hk, ← h.contents source]
    refine List.filter_congr fun c _ => ?_
    by_cases hc : c.source = source
    · simp [hc, Ne.symm hk]
    · simp [hc]

end Corpus

namespace IngestionService

variable {ω : Type*} {svc : IngestionService ω} {w : ω} {c : ℕ} {call call' : CorpusCall}
  {point : Point} {s s' : Corpus}

theorem source_of_mem_processDocument {path : String} {content : Bytes}
    {chunks : List DocumentChunk} (h : svc.processDocument w path content = .ok chunks) :
    ∀ c ∈ chunks, c.source = pathName path := by
  unfold processDocument at h
  obtain ⟨texts, -, h⟩ := bind_eq_ok.1 h
  split at h
  · simp at h
  · obtain ⟨-, -, h⟩ := bind_eq_ok.1 h
    obtain rfl : _ = chunks := Except.ok.inj h
    intro c hc
    obtain ⟨⟨text, page⟩, -, rfl⟩ := List.mem_map.1 hc
    rfl

/-! ## An upload and its approval -/

/-- `submit`, and then `approve` of the upload if its scan passed. -/
def uploadApproved (svc : IngestionService ω) (c : ℕ) (filename : String) (content : Bytes)
    (actor approver : String) (ws ws' : List ω) (s : Corpus) : Option Corpus :=
  let request := Request.submit filename content actor
  (svc.perform c ws ⟨request, svc.enter request⟩ s).bind fun (call, s₁) =>
    match call.point with
    | .uploaded ⟨_, _, _, .scanned .scanPassed⟩ =>
      (svc.perform (c + 1) ws' ⟨.approve filename approver, .getLatest⟩ s₁).bind
        fun (call', s₂) =>
          match call'.point with
          | .decided _ => some s₂
          | _ => none
    | _ => none

/-- The chunks of an uploaded document : the second step of `submit` processes it. -/
def uploadVersion (svc : IngestionService ω) (filename : String) (content : Bytes) :
    List ω → List DocumentChunk
  | _ :: w :: _ => (svc.processDocument w filename content).toOption.getD []
  | _ => []

/-- The collection an upload stores its chunks in : what was there, without the source it
replaces. -/
def cleared (filename : String) (isReplacing : Bool) (s : Corpus) : Corpus :=
  if isReplacing then s.deleteBySource filename else s

/-- The chunks are stored, and nothing else is new. -/
structure Added (s₀ s : Corpus) (chunks : List DocumentChunk) : Prop where
  contents : s.contents = s₀.contents ++ chunks
  old_or_new : ∀ ch ∈ s.chunks, ch ∈ s₀.chunks ∨ ch.toDocumentChunk ∈ chunks

theorem Added.congr {s₀ : Corpus} {chunks : List DocumentChunk} (h : Added s₀ s chunks)
    (hs : s'.chunks = s.chunks) : Added s₀ s' chunks :=
  ⟨(Corpus.contents_congr hs).trans h.contents, fun ch hch => h.old_or_new ch (hs ▸ hch)⟩

theorem added_upsertChunks (ids : PointIds ω) (chunks : List DocumentChunk)
    (status : IngestionStatus) (origin : Origin) :
    Added s (s.upsertChunks ids w chunks status origin) chunks := by
  refine ⟨Corpus.contents_upsertChunks ids w chunks status origin, fun ch hch => ?_⟩
  rcases List.mem_append.1 hch with hch | hch
  · exact Or.inl hch
  · exact Or.inr (Corpus.toDocumentChunk_mem_of_mem_points hch)

/-- Where an upload stands once its document is processed, over the collection it found. -/
def Uploading (s₀ : Corpus) (filename : String) (isReplacing : Bool) (chunks : List DocumentChunk)
    (call : CorpusCall) (s : Corpus) : Prop :=
  (∃ content actor, call.request = .submit filename content actor) ∧
    match call.point with
    | .copyFile r chs => r = isReplacing ∧ chs = chunks ∧ s.chunks = s₀.chunks
    | .deleteReplaced chs => isReplacing = true ∧ chs = chunks ∧ s.chunks = s₀.chunks
    | .upsertChunks _ chs => chs = chunks ∧ s.chunks = (cleared filename isReplacing s₀).chunks
    | .createPending _ | .readChunks _ _ | .scan _ _ _ | .recordScanResult _ _ _
    | .uploaded ⟨_, _, _, .scanned .scanPassed⟩ =>
      Added (cleared filename isReplacing s₀) s chunks
    | .deleteFailed _ | .uploaded _ | .raised _ => True
    | _ => False

theorem uploading_advance {s₀ : Corpus} {filename : String} {isReplacing : Bool}
    {chunks : List DocumentChunk} (h : Uploading s₀ filename isReplacing chunks call s)
    (hadvance : svc.advance w c call s = some (point, s')) :
    Uploading s₀ filename isReplacing chunks { call with point } s' := by
  obtain ⟨⟨content, actor, hrequest⟩, h⟩ := h
  refine ⟨⟨content, actor, hrequest⟩, ?_⟩
  cases stepsTo_of_advance hadvance with
  | copyFile hchunks _ _ =>
    obtain ⟨hreplacing, rfl, hs⟩ := h
    rw [hreplacing]
    cases isReplacing with
    | true => exact ⟨rfl, rfl, hchunks.trans hs⟩
    | false => exact ⟨rfl, hchunks.trans hs⟩
  | deleteReplaced =>
    obtain ⟨rfl, rfl, hs⟩ := h
    obtain ⟨rfl, -, -⟩ := Request.submit.inj hrequest
    refine ⟨rfl, ?_⟩
    simp [cleared, Corpus.deleteBySource, hs]
  | upsertChunks =>
    obtain ⟨rfl, hs⟩ := h
    have hadded := added_upsertChunks (s := s) (w := w) svc.ids ‹_› .quarantined (.upload c)
    exact ⟨hadded.contents.trans (by rw [Corpus.contents_congr hs]),
      fun ch hch => hs ▸ hadded.old_or_new ch hch⟩
  | createPending hcreate =>
    obtain ⟨rows, -, rfl⟩ := Option.map_eq_some_iff.1 hcreate
    exact Added.congr h rfl
  | readChunks => exact h
  | scan => exact h
  | scanPassed => exact Added.congr h rfl
  | scanRaises => trivial
  | scanFailed => trivial
  | deleteFailed => trivial
  | listSources => exact h.elim
  | processDocumentRaises => exact h.elim
  | processDocument => exact h.elim
  | approveRefused => simp at hrequest
  | approveChecked => simp at hrequest
  | approveRow => simp at hrequest
  | setIngestionStatus => simp at hrequest
  | markActive => simp at hrequest
  | rejectRefused => simp at hrequest
  | rejectChecked => simp at hrequest
  | deleteRejected => simp at hrequest
  | rejectRow => simp at hrequest

/-- Where an approval stands, over the collection it found. -/
def Approving (s₀ : Corpus) (source : String) (call : CorpusCall) (s : Corpus) : Prop :=
  (∃ actor, call.request = .approve source actor) ∧
    match call.point with
    | .getLatest | .approveRow _ | .setIngestionStatus _ => s.chunks = s₀.chunks
    | .markActive _ | .decided _ => s.chunks = (s₀.setIngestionStatus source .active).chunks
    | .raised _ => True
    | _ => False

theorem approving_advance {s₀ : Corpus} {source : String} (h : Approving s₀ source call s)
    (hadvance : svc.advance w c call s = some (point, s')) :
    Approving s₀ source { call with point } s' := by
  obtain ⟨⟨actor, hrequest⟩, h⟩ := h
  refine ⟨⟨actor, hrequest⟩, ?_⟩
  cases stepsTo_of_advance hadvance with
  | approveRefused => trivial
  | approveChecked => exact h
  | approveRow => exact h
  | setIngestionStatus =>
    obtain ⟨rfl, -⟩ := Request.approve.inj hrequest
    simp only [Corpus.setIngestionStatus]
    rw [h]
  | markActive => exact h
  | _ => simp at hrequest

theorem uploaded_of_perform {filename : String} {content : Bytes} {actor : String} {ws : List ω}
    {s₁ : Corpus} {source : String} {n : ℕ} {replaced : Bool}
    (h : svc.perform c ws ⟨.submit filename content actor, .listSources⟩ s = some (call, s₁))
    (hpoint : call.point = .uploaded ⟨source, n, replaced, .scanned .scanPassed⟩) :
    Added (cleared filename (filename ∈ s.listSources none) s) s₁
        (svc.uploadVersion filename content ws) ∧
      ∀ ch ∈ svc.uploadVersion filename content ws, ch.source = pathName filename := by
  match ws with
  | [] =>
    obtain ⟨rfl, -⟩ := Prod.mk.inj (Option.some.inj h)
    simp at hpoint
  | [w₀] =>
    obtain ⟨rfl, -⟩ := Prod.mk.inj (Option.some.inj h)
    simp at hpoint
  | w₀ :: w₁ :: ws =>
    obtain ⟨⟨point, s'⟩, hadvance, h⟩ := Option.bind_eq_some_iff.1 h
    obtain ⟨rfl, rfl⟩ := Prod.mk.inj (Option.some.inj hadvance)
    obtain ⟨⟨point, s'⟩, hadvance, h⟩ := Option.bind_eq_some_iff.1 h
    have huploading : ∀ chunks : List DocumentChunk,
        Uploading s filename (filename ∈ s.listSources none) chunks
          ⟨.submit filename content actor, point⟩ s' →
        Added (cleared filename (filename ∈ s.listSources none) s) s₁ chunks := by
      intro chunks hstart
      obtain ⟨-, hadded⟩ := perform_induction (fun _ _ _ _ _ => uploading_advance) hstart h
      rw [hpoint] at hadded
      exact hadded
    rw [uploadVersion]
    simp only [advance, advanceSubmit] at hadvance
    split at hadvance <;> simp only [Option.some.injEq, Prod.mk.injEq] at hadvance <;>
      obtain ⟨rfl, rfl⟩ := hadvance <;> rename_i hprocess <;> rw [hprocess]
    · exact ⟨huploading [] ⟨⟨content, actor, rfl⟩, trivial⟩, by simp [Except.toOption]⟩
    · exact ⟨huploading _ ⟨⟨content, actor, rfl⟩, rfl, rfl, rfl⟩,
        source_of_mem_processDocument hprocess⟩

/-- A call whose point is over stays there. -/
theorem perform_of_isOver {ws : List ω} {s₁ : Corpus} (hover : call.point.isOver = true)
    (h : svc.perform c ws call s = some (call', s₁)) : call' = call := by
  cases ws with
  | nil =>
    obtain ⟨rfl, -⟩ := Prod.mk.inj (Option.some.inj h)
    rfl
  | cons w ws =>
    obtain ⟨⟨point, s'⟩, hadvance, -⟩ := Option.bind_eq_some_iff.1 h
    rw [(stepsTo_of_advance hadvance).isOver_eq_false] at hover
    simp at hover

/-- An upload that returned passed `_validate`. -/
theorem enter_of_perform {filename : String} {content : Bytes} {actor : String} {ws : List ω}
    {s₁ : Corpus} {response : PolicyUploadResponse}
    (h : svc.perform c ws ⟨.submit filename content actor,
      svc.enter (.submit filename content actor)⟩ s = some (call, s₁))
    (hpoint : call.point = .uploaded response) :
    svc.enter (.submit filename content actor) = .listSources := by
  unfold enter at h ⊢
  dsimp only at h ⊢
  split
  · rename_i e hvalid
    rw [hvalid] at h
    rw [perform_of_isOver rfl h] at hpoint
    simp at hpoint
  · rfl

/-- What an approved upload leaves in the collection. -/
theorem uploadApproved_added {filename : String} {content : Bytes} {actor approver : String}
    {ws ws' : List ω} (h : svc.uploadApproved c filename content actor approver ws ws' s = some s') :
    ∃ s₁, Added (cleared filename (filename ∈ s.listSources none) s) s₁
        (svc.uploadVersion filename content ws) ∧
      s'.chunks = (s₁.setIngestionStatus filename .active).chunks ∧
      ∀ ch ∈ svc.uploadVersion filename content ws, ch.source = pathName filename := by
  obtain ⟨⟨call, s₁⟩, hsubmit, h⟩ := Option.bind_eq_some_iff.1 h
  dsimp only at h
  split at h
  · rename_i hpoint
    obtain ⟨⟨call', s₂⟩, happrove, h⟩ := Option.bind_eq_some_iff.1 h
    dsimp only at h
    split at h
    · rename_i id hdecided
      obtain rfl := Option.some.inj h
      obtain ⟨-, hchunks⟩ : Approving s₁ filename call' s₂ :=
        perform_induction (fun _ _ _ _ _ => approving_advance) ⟨⟨approver, rfl⟩, rfl⟩ happrove
      rw [hdecided] at hchunks
      rw [enter_of_perform hsubmit hpoint] at hsubmit
      have hsubmit := uploaded_of_perform hsubmit hpoint
      exact ⟨s₁, hsubmit.1, hchunks, hsubmit.2⟩
    · simp at h
  · simp at h

/-- An approved upload whose source is listed or new takes the place of what was stored. -/
theorem shelved_uploadApproved {filename : String} {content : Bytes} {actor approver : String}
    {ws ws' : List ω} {versions : List (String × List DocumentChunk)} (hs : s.Shelved versions)
    (hname : pathName filename = filename)
    (hfound : s.Vacant filename ∨ filename ∈ s.listSources none)
    (h : svc.uploadApproved c filename content actor approver ws ws' s = some s') :
    s'.Shelved (versions ++ [(filename, svc.uploadVersion filename content ws)]) := by
  obtain ⟨s₁, hadded, hchunks, hsource⟩ := uploadApproved_added h
  rw [hname] at hsource
  have hcleared : (cleared filename (filename ∈ s.listSources none) s).contents =
      s.contents.filter fun c => c.source ≠ filename := by
    by_cases hlisted : filename ∈ s.listSources none
    · simp [cleared, hlisted]
    · rw [(hfound.resolve_right hlisted).filter_contents]
      simp [cleared, hlisted]
  have hold : ∀ ch ∈ (cleared filename (filename ∈ s.listSources none) s).chunks,
      ch ∈ s.chunks := by
    intro ch hch
    unfold cleared at hch
    split at hch
    · exact (List.mem_filter.1 hch).1
    · exact hch
  refine hs.replace ?_ hsource fun ch hch => ?_
  · rw [Corpus.contents_congr hchunks, Corpus.contents_setIngestionStatus, hadded.contents,
      hcleared]
  · rw [hchunks] at hch
    obtain ⟨ch₁, hch₁, rfl⟩ := List.mem_map.1 hch
    split
    · rfl
    · rename_i hne
      rcases hadded.old_or_new ch₁ hch₁ with hold₁ | hnew
      · exact hs.active ch₁ (hold ch₁ hold₁)
      · exact absurd (hsource _ hnew) hne

/-! ## A seed run -/

/-- The versions a seed run ingests. -/
def seedVersions (svc : IngestionService ω) (ws : ℕ → ω) :
    ℕ → List PolicyFile → List (String × List DocumentChunk)
  | _, [] => []
  | n, f :: fs =>
    match svc.processDocument (ws n) f.name f.content with
    | .error _ => svc.seedVersions ws (n + 1) fs
    | .ok chunks => (pathName f.name, chunks) :: svc.seedVersions ws (n + 1) fs

/-- A seed run over files of different sources, none of which is stored yet. -/
theorem shelved_seedLoop {ws : ℕ → ω} :
    ∀ {fs : List PolicyFile} {n : ℕ} {s : Corpus} {versions : List (String × List DocumentChunk)},
      s.Shelved versions → ((svc.seedVersions ws n fs).map (·.1)).Nodup →
      (∀ v ∈ svc.seedVersions ws n fs, s.Vacant v.1) →
      (svc.seedLoop ws n fs s).Shelved (versions ++ svc.seedVersions ws n fs)
  | [], _, _, _, hs, _, _ => by
    rw [seedLoop, seedVersions, List.append_nil]
    exact hs
  | f :: fs, n, s, versions, hs, hnodup, hvacant => by
    rw [seedVersions] at hnodup hvacant ⊢
    rw [seedLoop, seedFile]
    rcases hprocess : svc.processDocument (ws n) f.name f.content with e | chunks
    · rw [hprocess] at hnodup hvacant
      exact shelved_seedLoop hs hnodup hvacant
    · rw [hprocess] at hnodup hvacant
      dsimp only at hnodup hvacant ⊢
      have hsource := source_of_mem_processDocument hprocess
      have hnew : (s.upsertChunks svc.ids (ws n) chunks .active f.origin).Shelved
          (versions ++ [(pathName f.name, chunks)]) := by
        refine hs.replace ?_ hsource fun ch hch => ?_
        · rw [Corpus.contents_upsertChunks, (hvacant _ List.mem_cons_self).filter_contents]
        · rcases List.mem_append.1 hch with hch | hch
          · exact hs.active ch hch
          · exact (Corpus.mem_points hch).1
      rw [List.append_cons]
      refine shelved_seedLoop hnew (List.nodup_cons.1 hnodup).2 fun v hv => ?_
      have hne : v.1 ≠ pathName f.name := fun heq =>
        (List.nodup_cons.1 hnodup).1 (List.mem_map.2 ⟨v, hv, heq⟩)
      rw [Corpus.vacant_iff_contents, Corpus.contents_upsertChunks]
      intro ch hch
      rcases List.mem_append.1 hch with hch | hch
      · exact Corpus.vacant_iff_contents.1 (hvacant v (List.mem_cons_of_mem _ hv)) ch hch
      · rw [hsource ch hch]
        exact hne.symm

end IngestionService

/-! ## The shelf -/

/-- The live collection with a log of what was ingested into it. -/
structure Shelf where
  corpus : Corpus
  calls : ℕ
  versions : List (String × List DocumentChunk)

namespace Shelf

variable {ω : Type*}

/-- An upload that was approved, a run of `seed_docs`, or a file put into the folder. -/
inductive Ingestion (ω : Type*)
  | upload (filename : String) (content : Bytes) (actor approver : String) (ws ws' : List ω)
  | seedDocs (ws : ℕ → ω)
  | placeFile (name : String) (content : Bytes)

def init : Shelf :=
  ⟨⟨[], Table.empty, []⟩, 0, []⟩

def ingest (svc : IngestionService ω) (s : Shelf) : Ingestion ω → Option Shelf
  | .upload filename content actor approver ws ws' =>
    (svc.uploadApproved s.calls filename content actor approver ws ws' s.corpus).map fun corpus =>
      ⟨corpus, s.calls + 2,
        s.versions ++ [(pathName filename, svc.uploadVersion filename content ws)]⟩
  | .seedDocs ws =>
    some ⟨svc.seedDocs ws s.corpus, s.calls,
      s.versions ++ svc.seedVersions ws 0 (IngestionService.seedFiles s.corpus)⟩
  | .placeFile name content =>
    some { s with corpus := s.corpus.writeFile ⟨name, content, .placed⟩ }

/-- The searchable chunks of every source are those of its last version, each once. -/
def OneIngestion (s : Shelf) : Prop :=
  ∀ source, ((s.corpus.activeChunks.filter fun c => c.source = source).map
    (·.toDocumentChunk)).Perm (lastVersion s.versions source)

/-- The ingestion takes the place of what is stored under its sources. -/
def Replaces (svc : IngestionService ω) (s : Shelf) : Ingestion ω → Prop
  | .upload filename _ _ _ _ _ =>
    pathName filename = filename ∧
      (s.corpus.Vacant filename ∨ filename ∈ s.corpus.listSources none)
  | .seedDocs ws =>
    let versions := svc.seedVersions ws 0 (IngestionService.seedFiles s.corpus)
    (versions.map (·.1)).Nodup ∧ ∀ v ∈ versions, s.corpus.Vacant v.1
  | .placeFile _ _ => True

instance decidableReplaces (svc : IngestionService ω) (s : Shelf) :
    ∀ i, Decidable (s.Replaces svc i)
  | .upload filename _ _ _ _ _ =>
    inferInstanceAs (Decidable (pathName filename = filename ∧
      (s.corpus.Vacant filename ∨ filename ∈ s.corpus.listSources none)))
  | .seedDocs ws =>
    inferInstanceAs (Decidable
      (((svc.seedVersions ws 0 (IngestionService.seedFiles s.corpus)).map (·.1)).Nodup ∧
        ∀ v ∈ svc.seedVersions ws 0 (IngestionService.seedFiles s.corpus), s.corpus.Vacant v.1))
  | .placeFile _ _ => isTrue trivial

variable {svc : IngestionService ω}

theorem shelved_ingest {s s' : Shelf} {i : Ingestion ω} (hs : s.corpus.Shelved s.versions)
    (hi : s.Replaces svc i) (h : ingest svc s i = some s') : s'.corpus.Shelved s'.versions := by
  cases i with
  | upload filename content actor approver ws ws' =>
    obtain ⟨corpus, hupload, rfl⟩ := Option.map_eq_some_iff.1 h
    dsimp only
    rw [hi.1]
    exact IngestionService.shelved_uploadApproved hs hi.1 hi.2 hupload
  | seedDocs ws =>
    obtain rfl := Option.some.inj h
    exact IngestionService.shelved_seedLoop hs hi.1 hi.2
  | placeFile name content =>
    obtain rfl := Option.some.inj h
    exact ⟨hs.active, hs.contents⟩

theorem oneIngestion_of_shelved {s : Shelf} (hs : s.corpus.Shelved s.versions) :
    s.OneIngestion := by
  intro source
  have hactive : s.corpus.activeChunks = s.corpus.chunks :=
    List.filter_eq_self.2 fun c hc => by simpa using hs.active c hc
  rw [hactive, ← hs.contents source, Corpus.contents, List.filter_map]
  exact List.Perm.refl _

/-- After ingestions each of which takes the place of what was stored, every source has its
last version searchable, and nothing else. -/
theorem one_ingestion_of_replaces {is : List (Ingestion ω)} {t : Shelf}
    (hreplaces : Along (ingest svc) (Replaces svc) init is)
    (h : exec (ingest svc) init is = some t) : t.OneIngestion :=
  oneIngestion_of_shelved (invariant_along (fun _ _ _ hs hi h => shelved_ingest hs hi h)
    ⟨by simp [init], fun _ => rfl⟩ hreplaces h)

/-- The fee a document states depends on its edition, and the world `true` is later. -/
def editionsService : IngestionService Bool :=
  { feesService with
    dbNow := fun later => if later then 1 else 0
    convert := fun _ content =>
      .ok [(if content = [1] then "The fee is 5." else "The fee is 7.", some 1)]
    scanDocument := fun _ _ mode _ => .ok ⟨.ingestion, .allow, mode, [], false⟩ }

def uploadFees (content : Bytes) (steps : ℕ) (later : Bool) : Ingestion Bool :=
  .upload "fees.pdf" content "ann" "bob" (List.replicate steps later) (List.replicate 4 later)

/-- A seed run, and then two editions of another document. -/
def seedThenEditions : List (Ingestion Bool) :=
  [.placeFile "loans.pdf" [3], .seedDocs fun _ => false, uploadFees [1] 8 false,
    uploadFees [2] 9 true]

theorem one_ingestion_seedThenEditions : ∃ t,
    exec (ingest editionsService) init seedThenEditions = some t ∧ t.OneIngestion := by
  have ht : exec (ingest editionsService) init seedThenEditions = some _ := rfl
  exact ⟨_, ht, one_ingestion_of_replaces (by decide +kernel) ht⟩

/-- An approved upload is in the policy folder too, and a seed run stores it again. -/
theorem seed_duplicates_upload : ∃ t,
    exec (ingest editionsService) init [uploadFees [1] 8 false, .seedDocs fun _ => false] =
      some t ∧ ¬t.OneIngestion := by
  have ht : exec (ingest editionsService) init
    [uploadFees [1] 8 false, .seedDocs fun _ => false] = some _ := rfl
  refine ⟨_, ht, fun h => ?_⟩
  have hlength := (h "fees.pdf").length_eq
  revert hlength
  decide +kernel

end Shelf

end EnterpriseRag
