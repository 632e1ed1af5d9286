import EnterpriseRag.Admin.Backend
import EnterpriseRag.Corpus.Collections
import EnterpriseRag.Corpus.SingleIngestion
import EnterpriseRag.Corpus.Trust
import EnterpriseRag.Library.Page
import Mathlib.Data.Finset.Image

/-!
# The blue/green migration

`blueGreenMigrate` seeds a new collection from the policy folder and points the application's
name at it, unless a check refuses. The checks are on the report of the seed run, the number
of points stored and the set of sources stored, where `scroll_all_chunks` reads the sources of
the first page of points only.

`GateExact` is what the checks should do : let through the runs that stored every file, and
leave everything as it was otherwise. They do if every file has a point on the first page of
the new collection, or the run is refused anyway (`gate_exact_iff`).
-/

namespace EnterpriseRag

/-- What a migration works with. -/
structure MigrationScript (ω : Type*) extends IngestionService ω where
  /-- The error of the upsert of a file's chunks, if it raises one. -/
  upsertError : ω → Option Raised
  qdrantCollection : String
  semanticQueryCache : Bool

structure SeedReport where
  discoveredFiles : ℕ
  succeededFiles : ℕ
  failedFiles : List String := []
  chunksWritten : ℕ := 0
  sources : Finset String := ∅

/-- The `RuntimeError`s of a migration, with what their messages say, and what else stops it. -/
inductive Refusal
  | alreadyExists (collection : String)
  | failedFiles (failed : List String) (discovered : ℕ)
  | partialCorpus (succeeded discovered : ℕ)
  | noFiles
  | pointMismatch (collection : String) (points written : ℕ)
  | sourceMismatch (collection : String) (stored reported : Finset String)
  | liveTaken (liveAlias : String)
  | raised (error : Raised)
  deriving DecidableEq

/-- The database, the policy folder and what `invalidate_corpus_caches` writes to. -/
structure Deployment where
  qdrant : Qdrant
  files : List PolicyFile
  db : RagOpsStore
  cache : AnswerCache

namespace MigrationScript

variable {ω : Type*}

/-! ## The seed run -/

/-- The files `seed_docs` discovers. -/
def discovered (files : List PolicyFile) : List PolicyFile :=
  IngestionService.seedFiles ⟨[], Table.empty, files⟩

/-- The body of the loop of `seed_docs` up to the upsert. A document without chunks fails too. -/
def ingestFile (svc : MigrationScript ω) (w : ω) (f : PolicyFile) :
    Except Raised (List DocumentChunk) := do
  let chunks ← svc.processDocument w f.name f.content
  match svc.upsertError w with
  | some e => .error e
  | none => return chunks

/-- The loop of `seed_docs` over a repository of its own, the `n`-th file in a world of its
own. -/
def seedLoop (svc : MigrationScript ω) (ws : ℕ → ω) :
    ℕ → List PolicyFile → SeedReport → Corpus → Except Raised SeedReport × Corpus
  | _, [], report, s => (.ok report, s)
  | n, f :: fs, report, s =>
    match svc.ingestFile (ws n) f with
    | .error e =>
      if e.isException then
        svc.seedLoop ws (n + 1) fs
          { report with failedFiles := report.failedFiles ++ [pathName f.name] } s
      else (.error e, s)
    | .ok chunks =>
      svc.seedLoop ws (n + 1) fs
        { report with
          succeededFiles := report.succeededFiles + 1
          chunksWritten := report.chunksWritten + chunks.length
          sources := insert (pathName f.name) report.sources }
        (s.upsertChunks svc.ids (ws n) chunks .active f.origin)

/-- `seed_docs` into an explicit repository. -/
def seedDocs (svc : MigrationScript ω) (ws : ℕ → ω) (files : List PolicyFile) (s : Corpus) :
    Except Raised SeedReport × Corpus :=
  svc.seedLoop ws 0 (discovered files) ⟨(discovered files).length, 0, [], 0, ∅⟩ s

/-! ## The checks -/

/-- `_require_complete_corpus`. -/
def requireCompleteCorpus (report : SeedReport) : Except Refusal Unit :=
  if report.failedFiles ≠ [] then
    .error (.failedFiles report.failedFiles report.discoveredFiles)
  else if report.succeededFiles ≠ report.discoveredFiles then
    .error (.partialCorpus report.succeededFiles report.discoveredFiles)
  else if report.discoveredFiles = 0 then .error .noFiles
  else .ok ()

/-- The checks on what was seeded into the new collection. -/
def checkCorpus (newCollection : String) (report : SeedReport) (s : Corpus) :
    Except Refusal Unit := do
  requireCompleteCorpus report
  let actualSources := (s.listSources (some .active)).toFinset
  if s.chunks.length ≠ report.chunksWritten then
    .error (.pointMismatch newCollection s.chunks.length report.chunksWritten)
  else if actualSources ≠ report.sources then
    .error (.sourceMismatch newCollection actualSources report.sources)
  else return

/-! ## The cutover -/

def liveAlias (target : String) : String :=
  target ++ "_live"

/-- `_cutover_alias`. -/
def cutoverAlias (target newCollection : String) (q : Qdrant) : Except Refusal Qdrant :=
  let update (operations : List AliasOperation) : Except Refusal Qdrant :=
    match q.updateCollectionAliases operations with
    | some q => .ok q
    | none => .error (.raised (.exception "UnexpectedResponse"))
  if (q.aliases target).isSome then
    update [.deleteAlias target, .createAlias newCollection target]
  else if ¬q.collectionExists target then
    update [.createAlias newCollection target]
  else if (q.aliases (liveAlias target)).isSome ∨ q.collectionExists (liveAlias target) then
    .error (.liveTaken (liveAlias target))
  else update [.createAlias newCollection (liveAlias target)]

/-- `invalidate_corpus_caches` to its end : where it ends, and what it leaves. -/
def invalidateCorpusCaches (svc : MigrationScript ω) (source : String) (now : Timestamp) :
    ℕ → InvalidationPoint × RagOpsStore × AnswerCache →
      InvalidationPoint × RagOpsStore × AnswerCache
  | 0, reached => reached
  | n + 1, (point, db, cache) =>
    match AdminController.invalidate ⟨svc.toIngestionService, true, svc.semanticQueryCache⟩
      source "qdrant_migration" now db cache point with
    | none => (point, db, cache)
    | some reached => svc.invalidateCorpusCaches source now n reached

def newCollectionName (svc : MigrationScript ω) : String :=
  svc.qdrantCollection ++ "_v2"

/-- What a migration comes to. -/
inductive Outcome
  | refused (refusal : Refusal)
  | cutOver (invalidation : InvalidationPoint)
  deriving DecidableEq

/-- `blue_green_migrate`. -/
def blueGreenMigrate (svc : MigrationScript ω) (ws : ℕ → ω) (now : Timestamp) (d : Deployment) :
    Outcome × Deployment :=
  let target := svc.qdrantCollection
  let newCollection := svc.newCollectionName
  if h : d.qdrant.collectionExists newCollection = false then
    let (report, s) := svc.seedDocs ws d.files ⟨[], Table.empty, []⟩
    let q := (d.qdrant.createCollection newCollection h).setPoints newCollection s.chunks
    match report with
    | .error e => (.refused (.raised e), { d with qdrant := q })
    | .ok report =>
      match checkCorpus newCollection report s with
      | .error refusal => (.refused refusal, { d with qdrant := q })
      | .ok () =>
        match cutoverAlias target newCollection q with
        | .error refusal => (.refused refusal, { d with qdrant := q })
        | .ok q =>
          -- at most five steps : the bump, the three of the caches and the record
          let (point, db, cache) := svc.invalidateCorpusCaches
            (target ++ "->" ++ newCollection) now 5 (.bumpCorpusVersion, d.db, d.cache)
          (.cutOver point, { d with qdrant := q, db, cache })
  else (.refused (.alreadyExists newCollection), d)

/-! ## What a seed run reports -/

variable {svc : MigrationScript ω} {w : ω} {ws : ℕ → ω} {f : PolicyFile}
  {files fs done : List PolicyFile} {chunks : List DocumentChunk} {report report' : SeedReport}
  {s s' : Corpus} {n : ℕ} {now : Timestamp} {d : Deployment}

theorem ingestFile_eq_ok : svc.ingestFile w f = .ok chunks ↔
    svc.processDocument w f.name f.content = .ok chunks ∧ svc.upsertError w = none := by
  unfold ingestFile
  rw [bind_eq_ok]
  constructor
  · rintro ⟨chunks', hprocess, h⟩
    split at h
    · simp at h
    · rename_i hupsert
      exact ⟨Except.ok.inj h ▸ hprocess, hupsert⟩
  · rintro ⟨hprocess, hupsert⟩
    exact ⟨chunks, hprocess, by rw [hupsert]; rfl⟩

/-- Every file is ingested, from the `n`-th world on. -/
def AllIngested (svc : MigrationScript ω) (ws : ℕ → ω) (n : ℕ) (files : List PolicyFile) : Prop :=
  ∀ i f, files[i]? = some f → ∃ chunks, svc.ingestFile (ws (n + i)) f = .ok chunks

theorem allIngested_cons : svc.AllIngested ws n (f :: fs) ↔
    (∃ chunks, svc.ingestFile (ws n) f = .ok chunks) ∧ svc.AllIngested ws (n + 1) fs := by
  constructor
  · intro h
    refine ⟨h 0 f rfl, fun i g hg => ?_⟩
    have hg := h (i + 1) g hg
    rwa [Nat.add_left_comm, Nat.add_comm] at hg
  · rintro ⟨hf, hfs⟩ (_ | i) g hg
    · obtain rfl := Option.some.inj hg
      exact hf
    · have hg := hfs i g hg
      rwa [Nat.add_assoc, Nat.add_comm 1 i] at hg

/-- The report of a run that ingested every file so far, over the repository it left. -/
structure Tallies (done : List PolicyFile) (report : SeedReport) (s : Corpus) : Prop where
  failed : report.failedFiles = []
  succeeded : report.succeededFiles = done.length
  written : report.chunksWritten = s.chunks.length
  sources : report.sources = (done.map fun f => pathName f.name).toFinset
  stored : report.sources = (s.chunks.map (·.source)).toFinset
  active : ∀ c ∈ s.chunks, c.ingestionStatus = .active
  nodup : (s.chunks.map (·.id)).Nodup

theorem Tallies.ingestFile (h : Tallies done report s) (hok : svc.ingestFile w f = .ok chunks) :
    Tallies (done ++ [f])
      { report with
        succeededFiles := report.succeededFiles + 1
        chunksWritten := report.chunksWritten + chunks.length
        sources := insert (pathName f.name) report.sources }
      (s.upsertChunks svc.ids w chunks .active f.origin) := by
  have hprocess := (ingestFile_eq_ok.1 hok).1
  set points := svc.ids.points w .active f.origin (s.chunks.map (·.id)) chunks
  have hchunks : (s.upsertChunks svc.ids w chunks .active f.origin).chunks = s.chunks ++ points :=
    rfl
  have hcontent : points.map (·.toDocumentChunk) = chunks :=
    Corpus.map_toDocumentChunk_points ..
  refine ⟨h.failed, by simp [h.succeeded], ?_, ?_, ?_, ?_, ?_⟩
  · rw [hchunks, List.length_append, ← h.written, ← hcontent, List.length_map]
  · rw [h.sources, List.map_append, List.toFinset_append, Finset.union_comm]
    rfl
  · have hsources : (points.map (·.source)).toFinset = {pathName f.name} := by
      have hmap : points.map (·.source) = chunks.map (·.source) := by
        rw [← hcontent, List.map_map]
        rfl
      rw [hmap]
      ext source
      simp only [List.mem_toFinset, List.mem_map, Finset.mem_singleton]
      constructor
      · rintro ⟨ch, hch, rfl⟩
        exact IngestionService.source_of_mem_processDocument hprocess ch hch
      · rintro rfl
        obtain ⟨ch, hch⟩ := List.exists_mem_of_ne_nil _
          (IngestionService.processDocument_ne_nil hprocess)
        exact ⟨ch, hch, IngestionService.source_of_mem_processDocument hprocess ch hch⟩
    rw [hchunks, List.map_append, List.toFinset_append, hsources, ← h.stored, Finset.union_comm]
    rfl
  · intro c hc
    rcases List.mem_append.1 hc with hold | hnew
    · exact h.active c hold
    · exact (Corpus.mem_points hnew).1
  · rw [hchunks, List.map_append, List.nodup_append]
    refine ⟨h.nodup, Corpus.nodup_points .., fun a ha b hb hab => ?_⟩
    obtain ⟨c, hc, rfl⟩ := List.mem_map.1 hb
    exact Corpus.id_notMem_of_mem_points hc (hab ▸ ha)

theorem seedLoop_of_allIngested :
    ∀ {fs : List PolicyFile} {n : ℕ} {done : List PolicyFile} {report : SeedReport} {s : Corpus},
      Tallies done report s → svc.AllIngested ws n fs →
      ∃ report', svc.seedLoop ws n fs report s =
          (.ok report', svc.toIngestionService.seedLoop ws n fs s) ∧
        report'.discoveredFiles = report.discoveredFiles ∧
        Tallies (done ++ fs) report' (svc.toIngestionService.seedLoop ws n fs s)
  | [], n, done, report, s, htallies, _ => by
    rw [List.append_nil]
    exact ⟨report, rfl, rfl, htallies⟩
  | f :: fs, n, done, report, s, htallies, hall => by
    obtain ⟨⟨chunks, hok⟩, hall⟩ := allIngested_cons.1 hall
    obtain ⟨report', hrun, hdiscovered, htallies⟩ :=
      seedLoop_of_allIngested (htallies.ingestFile hok) hall
    have hseed : svc.seedFile (ws n) f s =
        s.upsertChunks svc.ids (ws n) chunks .active f.origin := by
      rw [IngestionService.seedFile, (ingestFile_eq_ok.1 hok).1]
    rw [seedLoop, IngestionService.seedLoop, hok, hseed]
    rw [← List.append_cons] at htallies
    exact ⟨report', hrun, hdiscovered, htallies⟩

/-- A run that reports no failed file ingested every one. -/
theorem allIngested_of_seedLoop :
    ∀ {fs : List PolicyFile} {n : ℕ} {report : SeedReport} {s : Corpus},
      svc.seedLoop ws n fs report s = (.ok report', s') → report'.failedFiles = [] →
      report.failedFiles = [] ∧ svc.AllIngested ws n fs
  | [], n, report, s, h, hnone => by
    obtain ⟨rfl, -⟩ : report = report' ∧ s = s' := by simpa [seedLoop] using h
    exact ⟨hnone, by simp [AllIngested]⟩
  | f :: fs, n, report, s, h, hnone => by
    rw [seedLoop] at h
    split at h
    · split at h
      · simpa using (allIngested_of_seedLoop h hnone).1
      · simp at h
    · rename_i chunks hok
      obtain ⟨hreport, hall⟩ := allIngested_of_seedLoop h hnone
      exact ⟨hreport, allIngested_cons.2 ⟨⟨chunks, hok⟩, hall⟩⟩

/-- The chunks of an ingested file are in the collection it was ingested into. -/
theorem mem_contents_of_allIngested :
    ∀ {fs : List PolicyFile} {n : ℕ} {s : Corpus}, svc.AllIngested ws n fs →
      ∀ {i f chunks}, fs[i]? = some f → svc.ingestFile (ws (n + i)) f = .ok chunks →
        ∀ ch ∈ chunks, ch ∈ (svc.toIngestionService.seedLoop ws n fs s).contents
  | [], n, s, hall, i, f, chunks, hf, hok, ch, hch => by simp at hf
  | g :: fs, n, s, hall, i, f, chunks, hf, hok, ch, hch => by
    obtain ⟨-, hall⟩ := allIngested_cons.1 hall
    rw [IngestionService.seedLoop]
    cases i with
    | succ i =>
      rw [Nat.add_comm i, ← Nat.add_assoc] at hok
      exact mem_contents_of_allIngested hall hf hok ch hch
    | zero =>
      obtain rfl := Option.some.inj hf
      rw [Nat.add_zero] at hok
      rw [IngestionService.seedFile, (ingestFile_eq_ok.1 hok).1]
      have hmem : ch ∈ (s.upsertChunks svc.ids (ws n) chunks .active g.origin).contents := by
        rw [Corpus.contents_upsertChunks]
        exact List.mem_append_right _ hch
      obtain ⟨c, hc, rfl⟩ := List.mem_map.1 hmem
      exact List.mem_map_of_mem (IngestionService.subset_seedLoop ws fs (n + 1) _ hc)

/-! ## What the checks let through -/

theorem requireCompleteCorpus_eq_ok : requireCompleteCorpus report = .ok () ↔
    report.failedFiles = [] ∧ report.succeededFiles = report.discoveredFiles ∧
      report.discoveredFiles ≠ 0 := by
  unfold requireCompleteCorpus
  split
  · rename_i h
    simp [h]
  · split
    · rename_i h
      simp [h]
    · split <;> simp_all

theorem checkCorpus_eq_ok {newCollection : String} :
    checkCorpus newCollection report s = .ok () ↔ requireCompleteCorpus report = .ok () ∧
      s.chunks.length = report.chunksWritten ∧
      (s.listSources (some .active)).toFinset = report.sources := by
  unfold checkCorpus
  rw [bind_eq_ok]
  constructor
  · rintro ⟨⟨⟩, hcomplete, h⟩
    split at h
    · simp at h
    · rename_i hlength
      dsimp only at h
      split at h
      · simp at h
      · rename_i hsources
        exact ⟨hcomplete, not_not.1 hlength, not_not.1 hsources⟩
  · rintro ⟨hcomplete, hlength, hsources⟩
    exact ⟨(), hcomplete, by simp [hlength, hsources, pure, Except.pure]⟩

/-- Some point of every file is on the first page of the points. -/
def OnFirstPage (files : List PolicyFile) (points : List StoredChunk) : Prop :=
  ∀ f ∈ files, ∃ p ∈ points, p.source = pathName f.name ∧
    points.countP (fun q => q.id ≤ p.id) ≤ Corpus.scrollLimit

theorem pathName_ne_of_mem_discovered (hf : f ∈ discovered files) : pathName f.name ≠ "" := by
  have hsuffix := (List.mem_filter.1 ((List.mem_insertionSort _).1 hf)).2
  intro hname
  simp [pathSuffix, hname, supportedSuffixes] at hsuffix

/-- The sources that are read back are those of the report if every file has a point on the
first page. -/
theorem Tallies.listSources_iff (h : Tallies done report s)
    (hnames : ∀ f ∈ done, pathName f.name ≠ "") :
    (s.listSources (some .active)).toFinset = report.sources ↔ OnFirstPage done s.chunks := by
  have hactive : (s.chunks.filter fun c => (some IngestionStatus.active).all
      (c.ingestionStatus = ·)) = s.chunks :=
    List.filter_eq_self.2 fun c hc => by simp [h.active c hc]
  have hpage : ∀ {p}, p ∈ s.chunks → (p ∈ s.scrollAllChunks (some .active) ↔
      s.chunks.countP (fun q => q.id ≤ p.id) ≤ Corpus.scrollLimit) := by
    intro p hp
    rw [Corpus.scrollAllChunks, hactive]
    exact Page.mem_page_iff h.nodup hp
  have hsubset : ∀ {p}, p ∈ s.scrollAllChunks (some .active) → p ∈ s.chunks :=
    fun hp => (List.mem_filter.1 (Page.mem_of_mem_page hp)).1
  have hlisted : ∀ {source}, source ∈ (s.listSources (some .active)).toFinset ↔
      (∃ p ∈ s.scrollAllChunks (some .active), p.source = source) ∧ source ≠ "" := by
    simp [Corpus.listSources]
  constructor
  · intro hsame f hf
    have hsource : pathName f.name ∈ report.sources := by
      rw [h.sources, List.mem_toFinset, List.mem_map]
      exact ⟨f, hf, rfl⟩
    rw [← hsame] at hsource
    obtain ⟨⟨p, hp, hps⟩, -⟩ := hlisted.1 hsource
    exact ⟨p, hsubset hp, hps, (hpage (hsubset hp)).1 hp⟩
  · intro hfirst
    ext source
    rw [hlisted]
    constructor
    · rintro ⟨⟨p, hp, rfl⟩, -⟩
      rw [h.stored]
      exact List.mem_toFinset.2 (List.mem_map_of_mem (f := (·.source)) (hsubset hp))
    · intro hsource
      rw [h.sources] at hsource
      obtain ⟨f, hf, rfl⟩ := List.mem_map.1 (List.mem_toFinset.1 hsource)
      obtain ⟨p, hp, hps, hcount⟩ := hfirst f hf
      exact ⟨⟨p, (hpage hp).2 hcount, hps⟩, hnames f hf⟩

/-- The points that the files get if all of them are ingested. -/
def seededPoints (svc : MigrationScript ω) (ws : ℕ → ω) (files : List PolicyFile) :
    List StoredChunk :=
  (svc.toIngestionService.seedLoop ws 0 files ⟨[], Table.empty, []⟩).chunks

theorem seedDocs_of_allIngested (hall : svc.AllIngested ws 0 (discovered files)) :
    ∃ report, svc.seedDocs ws files ⟨[], Table.empty, []⟩ =
        (.ok report, svc.toIngestionService.seedLoop ws 0 (discovered files)
          ⟨[], Table.empty, []⟩) ∧
      report.discoveredFiles = (discovered files).length ∧
      Tallies (discovered files) report
        (svc.toIngestionService.seedLoop ws 0 (discovered files) ⟨[], Table.empty, []⟩) := by
  have hstart : Tallies [] ⟨(discovered files).length, 0, [], 0, ∅⟩ ⟨[], Table.empty, []⟩ :=
    ⟨rfl, rfl, rfl, rfl, rfl, by simp, List.nodup_nil⟩
  exact seedLoop_of_allIngested hstart hall

/-- The checks let a run through if and only if there was a file, every file was ingested, and
every file has a point on the first page. -/
theorem checkCorpus_seedDocs_iff {newCollection : String} :
    (∃ report s, svc.seedDocs ws files ⟨[], Table.empty, []⟩ = (.ok report, s) ∧
      checkCorpus newCollection report s = .ok ()) ↔
    discovered files ≠ [] ∧ svc.AllIngested ws 0 (discovered files) ∧
      OnFirstPage (discovered files) (svc.seededPoints ws (discovered files)) := by
  constructor
  · rintro ⟨report, s, hrun, hcheck⟩
    obtain ⟨hcomplete, -, hsources⟩ := checkCorpus_eq_ok.1 hcheck
    obtain ⟨hfailed, -, hsome⟩ := requireCompleteCorpus_eq_ok.1 hcomplete
    have hall := (allIngested_of_seedLoop hrun hfailed).2
    obtain ⟨report', hrun', hdiscovered, htallies⟩ := seedDocs_of_allIngested hall
    obtain ⟨hreport, rfl⟩ := Prod.mk.inj (hrun.symm.trans hrun')
    obtain rfl := Except.ok.inj hreport
    refine ⟨fun hnil => hsome (by rw [hdiscovered, hnil]; rfl), hall, ?_⟩
    exact (htallies.listSources_iff fun f hf => pathName_ne_of_mem_discovered hf).1 hsources
  · rintro ⟨hne, hall, hfirst⟩
    obtain ⟨report, hrun, hdiscovered, htallies⟩ := seedDocs_of_allIngested hall
    refine ⟨report, _, hrun, checkCorpus_eq_ok.2 ⟨requireCompleteCorpus_eq_ok.2 ⟨htallies.failed,
      htallies.succeeded.trans hdiscovered.symm, ?_⟩, htallies.written.symm, ?_⟩⟩
    · rw [hdiscovered]
      exact fun hlength => hne (List.length_eq_zero_iff.1 hlength)
    · exact (htallies.listSources_iff fun f hf => pathName_ne_of_mem_discovered hf).2 hfirst

/-! ## The gate -/

/-- The cutover points the application's name, or the live one, at the new collection. -/
theorem exists_cutoverAlias (target newCollection : String) (q : Qdrant)
    (hnew : (q.collections newCollection).isSome)
    (hlive : q.collectionExists (liveAlias target) = false) :
    ∃ q', cutoverAlias target newCollection q = .ok q' ∧ q'.collections = q.collections ∧
      ∃ name ∈ [target, liveAlias target], q'.resolve name = some newCollection := by
  obtain ⟨hnoAlias, hnoCollection⟩ := Qdrant.not_collectionExists_iff.1 hlive
  unfold cutoverAlias
  by_cases halias : (q.aliases target).isSome
  · obtain ⟨c, hc⟩ := Option.isSome_iff_exists.1 halias
    obtain ⟨q', hupdate, hcollections, haliases⟩ := Qdrant.exists_updateCollectionAliases hnew
      (q.alias_free hc) (Or.inr rfl)
    refine ⟨q', ?_, hcollections, target, List.mem_cons_self,
      Qdrant.resolve_of_alias (by rw [haliases, Function.update_self])⟩
    simp only [halias, if_true, hupdate]
  · by_cases hexists : q.collectionExists target = true
    · obtain ⟨q', hupdate, hcollections, haliases⟩ := Qdrant.exists_updateCollectionAliases hnew
        hnoCollection (Or.inl rfl)
      refine ⟨q', ?_, hcollections, liveAlias target, by simp,
        Qdrant.resolve_of_alias (by rw [haliases, Function.update_self])⟩
      simp [halias, hexists, hnoAlias, hlive, hupdate]
    · have hfree := (Qdrant.not_collectionExists_iff.1 (Bool.eq_false_of_not_eq_true hexists)).2
      obtain ⟨q', hupdate, hcollections, haliases⟩ := Qdrant.exists_updateCollectionAliases hnew
        hfree (Or.inl rfl)
      refine ⟨q', ?_, hcollections, target, List.mem_cons_self,
        Qdrant.resolve_of_alias (by rw [haliases, Function.update_self])⟩
      simp [halias, hexists, hupdate]

/-- The aliases, every collection but the new one, and the stores of the caches are as they
were. -/
structure Untouched (newCollection : String) (d d' : Deployment) : Prop where
  aliases : d'.qdrant.aliases = d.qdrant.aliases
  collections : ∀ name ≠ newCollection, d'.qdrant.collections name = d.qdrant.collections name
  db : d'.db = d.db
  cache : d'.cache = d.cache

/-- The checks let the run through. -/
def Passes (svc : MigrationScript ω) (ws : ℕ → ω) (d : Deployment) : Prop :=
  ∃ report s, svc.seedDocs ws d.files ⟨[], Table.empty, []⟩ = (.ok report, s) ∧
    checkCorpus svc.newCollectionName report s = .ok ()

/-- The seeded collection next to what was there. -/
theorem untouched_of_seeded (hnew : d.qdrant.collectionExists svc.newCollectionName = false)
    (points : List StoredChunk) :
    Untouched svc.newCollectionName d
      ⟨(d.qdrant.createCollection svc.newCollectionName hnew).setPoints
        svc.newCollectionName points, d.files, d.db, d.cache⟩ := by
  refine ⟨rfl, fun name hname => ?_, rfl, rfl⟩
  rw [Qdrant.collections_setPoints_createCollection, Function.update_of_ne hname]

theorem untouched_of_not_passes (now : Timestamp)
    (hnew : d.qdrant.collectionExists svc.newCollectionName = false)
    (h : ¬svc.Passes ws d) :
    Untouched svc.newCollectionName d (svc.blueGreenMigrate ws now d).2 ∧
      (svc.blueGreenMigrate ws now d).2.qdrant.collections svc.newCollectionName =
        some (svc.seedDocs ws d.files ⟨[], Table.empty, []⟩).2.chunks := by
  have huntouched := untouched_of_seeded hnew
  have hseeded := fun points => congrFun
    (Qdrant.collections_setPoints_createCollection hnew points) svc.newCollectionName
  simp only [Function.update_self] at hseeded
  unfold blueGreenMigrate
  rw [dif_pos hnew]
  rcases hseed : svc.seedDocs ws d.files ⟨[], Table.empty, []⟩ with ⟨e | report, s⟩
  · exact ⟨huntouched _, hseeded _⟩
  · rcases hcheck : checkCorpus svc.newCollectionName report s with refusal | ⟨⟩
    · dsimp only
      rw [hcheck]
      exact ⟨huntouched _, hseeded _⟩
    · exact absurd ⟨report, s, hseed, hcheck⟩ h

theorem cutOver_of_passes (now : Timestamp)
    (hnew : d.qdrant.collectionExists svc.newCollectionName = false)
    (hlive : d.qdrant.collectionExists (liveAlias svc.qdrantCollection) = false)
    {report : SeedReport} {s : Corpus}
    (hseed : svc.seedDocs ws d.files ⟨[], Table.empty, []⟩ = (.ok report, s))
    (hcheck : checkCorpus svc.newCollectionName report s = .ok ()) :
    (∃ point, (svc.blueGreenMigrate ws now d).1 = .cutOver point) ∧
      (svc.blueGreenMigrate ws now d).2.qdrant.collections svc.newCollectionName =
        some s.chunks ∧
      ∃ name ∈ [svc.qdrantCollection, liveAlias svc.qdrantCollection],
        (svc.blueGreenMigrate ws now d).2.qdrant.resolve name = some svc.newCollectionName := by
  have hne : liveAlias svc.qdrantCollection ≠ svc.newCollectionName := by
    intro heq
    have htoList := congrArg String.toList heq
    simp [liveAlias, newCollectionName] at htoList
  have hstaged := Qdrant.collections_setPoints_createCollection hnew s.chunks
  obtain ⟨q', hcutover, hcollections, hresolve⟩ := exists_cutoverAlias
    svc.qdrantCollection svc.newCollectionName
    ((d.qdrant.createCollection svc.newCollectionName hnew).setPoints svc.newCollectionName
      s.chunks)
    (by rw [hstaged, Function.update_self]; rfl)
    (by
      rw [Qdrant.not_collectionExists_iff, hstaged, Function.update_of_ne hne]
      exact Qdrant.not_collectionExists_iff.1 hlive)
  have hmigrate : ∃ point db cache, svc.blueGreenMigrate ws now d =
      (.cutOver point, ⟨q', d.files, db, cache⟩) := by
    unfold blueGreenMigrate
    rw [dif_pos hnew, hseed]
    dsimp only
    rw [hcheck]
    dsimp only
    rw [hcutover]
    exact ⟨_, _, _, rfl⟩
  obtain ⟨point, db, cache, hmigrate⟩ := hmigrate
  rw [hmigrate]
  refine ⟨⟨point, rfl⟩, ?_, hresolve⟩
  rw [hcollections, hstaged, Function.update_self]

/-- The file's chunks are in the new collection. -/
def FileStored (svc : MigrationScript ω) (w : ω) (f : PolicyFile) (q : Qdrant) : Prop :=
  ∃ chunks, svc.ingestFile w f = .ok chunks ∧
    ∃ points, q.collections svc.newCollectionName = some points ∧
      ∀ ch ∈ chunks, ch ∈ points.map (·.toDocumentChunk)

/-- An application-facing name changes what it resolves to exactly if there are files and each
is stored, and a refusal leaves everything as it was. -/
structure GateExact (svc : MigrationScript ω) (ws : ℕ → ω) (now : Timestamp) (d : Deployment) :
    Prop where
  exact : (∃ name ∈ [svc.qdrantCollection, liveAlias svc.qdrantCollection],
      (svc.blueGreenMigrate ws now d).2.qdrant.resolve name ≠ d.qdrant.resolve name) ↔
    discovered d.files ≠ [] ∧ ∀ i f, (discovered d.files)[i]? = some f →
      svc.FileStored (ws i) f (svc.blueGreenMigrate ws now d).2.qdrant
  refused : ∀ refusal, (svc.blueGreenMigrate ws now d).1 = .refused refusal →
    Untouched svc.newCollectionName d (svc.blueGreenMigrate ws now d).2

/-- Some file is not ingested, or every file has a point on the first page. -/
def FirstPageSuffices (svc : MigrationScript ω) (ws : ℕ → ω) (d : Deployment) : Prop :=
  svc.AllIngested ws 0 (discovered d.files) →
    OnFirstPage (discovered d.files) (svc.seededPoints ws (discovered d.files))

theorem newCollectionName_notMem :
    svc.newCollectionName ∉ [svc.qdrantCollection, liveAlias svc.qdrantCollection] := by
  have hlive : svc.newCollectionName ≠ liveAlias svc.qdrantCollection := by
    intro heq
    have htoList := congrArg String.toList heq
    simp [liveAlias, newCollectionName] at htoList
  have htarget : svc.newCollectionName ≠ svc.qdrantCollection := by
    intro heq
    have hlength := congrArg String.length heq
    simp [newCollectionName] at hlength
  simp [hlive, htarget]

/-- An application-facing name changes if and only if the checks pass. -/
theorem resolve_changes_iff (now : Timestamp)
    (hnew : d.qdrant.collectionExists svc.newCollectionName = false)
    (hlive : d.qdrant.collectionExists (liveAlias svc.qdrantCollection) = false) :
    (∃ name ∈ [svc.qdrantCollection, liveAlias svc.qdrantCollection],
      (svc.blueGreenMigrate ws now d).2.qdrant.resolve name ≠ d.qdrant.resolve name) ↔
    svc.Passes ws d := by
  constructor
  · rintro ⟨name, hname, hne⟩
    by_contra hfails
    have huntouched := (untouched_of_not_passes now hnew hfails).1
    have hother : name ≠ svc.newCollectionName := by
      rintro rfl
      exact newCollectionName_notMem hname
    exact hne (Qdrant.resolve_congr (congrFun huntouched.aliases name)
      (huntouched.collections name hother))
  · rintro ⟨report, s, hseed, hcheck⟩
    obtain ⟨-, -, name, hname, hresolve⟩ := cutOver_of_passes now hnew hlive hseed hcheck
    refine ⟨name, hname, fun hsame => ?_⟩
    have hexists := Qdrant.isSome_of_resolve (hsame.symm.trans hresolve)
    rw [(Qdrant.not_collectionExists_iff.1 hnew).2] at hexists
    simp at hexists

theorem collections_blueGreenMigrate (ws : ℕ → ω) (now : Timestamp)
    (hnew : d.qdrant.collectionExists svc.newCollectionName = false)
    (hlive : d.qdrant.collectionExists (liveAlias svc.qdrantCollection) = false) :
    (svc.blueGreenMigrate ws now d).2.qdrant.collections svc.newCollectionName =
      some (svc.seedDocs ws d.files ⟨[], Table.empty, []⟩).2.chunks := by
  by_cases hpasses : svc.Passes ws d
  · obtain ⟨report, s, hseed, hcheck⟩ := hpasses
    rw [(cutOver_of_passes now hnew hlive hseed hcheck).2.1, hseed]
  · exact (untouched_of_not_passes now hnew hpasses).2

/-- Every file is stored if and only if every file is ingested. -/
theorem filesStored_iff (now : Timestamp)
    (hnew : d.qdrant.collectionExists svc.newCollectionName = false)
    (hlive : d.qdrant.collectionExists (liveAlias svc.qdrantCollection) = false) :
    (∀ i f, (discovered d.files)[i]? = some f →
      svc.FileStored (ws i) f (svc.blueGreenMigrate ws now d).2.qdrant) ↔
    svc.AllIngested ws 0 (discovered d.files) := by
  constructor
  · intro h i f hf
    obtain ⟨chunks, hok, -⟩ := h i f hf
    exact ⟨chunks, by rwa [Nat.zero_add]⟩
  · intro hall i f hf
    obtain ⟨chunks, hok⟩ := hall i f hf
    obtain ⟨report, hseed, -, -⟩ := seedDocs_of_allIngested hall
    have hstored := collections_blueGreenMigrate ws now hnew hlive
    rw [hseed] at hstored
    exact ⟨chunks, by rwa [Nat.zero_add] at hok, _, hstored,
      mem_contents_of_allIngested hall hf hok⟩

theorem passes_iff : svc.Passes ws d ↔ discovered d.files ≠ [] ∧
    svc.AllIngested ws 0 (discovered d.files) ∧
      OnFirstPage (discovered d.files) (svc.seededPoints ws (discovered d.files)) :=
  checkCorpus_seedDocs_iff

theorem firstPageSuffices_of_gateExact
    (hnew : d.qdrant.collectionExists svc.newCollectionName = false)
    (hlive : d.qdrant.collectionExists (liveAlias svc.qdrantCollection) = false)
    (hgate : svc.GateExact ws now d) : svc.FirstPageSuffices ws d := by
  intro hall
  by_cases hnone : discovered d.files = []
  · rw [hnone]
    exact fun f hf => by simp at hf
  · have hchanged := hgate.exact.2 ⟨hnone, (filesStored_iff now hnew hlive).2 hall⟩
    exact (passes_iff.1 ((resolve_changes_iff now hnew hlive).1 hchanged)).2.2

/-- The checks are exact if and only if every file has a point on the first page of the new
collection, or the run is refused anyway. -/
theorem gate_exact_iff (svc : MigrationScript ω) (ws : ℕ → ω) (now : Timestamp) (d : Deployment)
    (hnew : d.qdrant.collectionExists svc.newCollectionName = false)
    (hlive : d.qdrant.collectionExists (liveAlias svc.qdrantCollection) = false) :
    svc.GateExact ws now d ↔ svc.FirstPageSuffices ws d := by
  refine ⟨firstPageSuffices_of_gateExact hnew hlive,
    fun hsuffices => ⟨?_, fun refusal hrefused => ?_⟩⟩
  · rw [resolve_changes_iff now hnew hlive, filesStored_iff now hnew hlive, passes_iff]
    exact ⟨fun h => ⟨h.1, h.2.1⟩, fun h => ⟨h.1, h.2, hsuffices h.2⟩⟩
  · by_cases hpass : svc.Passes ws d
    · obtain ⟨report, s, hseed, hcheck⟩ := hpass
      obtain ⟨⟨point, hpoint⟩, -⟩ := cutOver_of_passes now hnew hlive hseed hcheck
      simp [hpoint] at hrefused
    · exact (untouched_of_not_passes now hnew hpass).1

/-- The fees have `m + 1` chunks, and the loans one. -/
def longFees (m : ℕ) : MigrationScript Bool :=
  { feesService with
    convert := fun _ content =>
      .ok (if content = [1] then List.replicate (m + 1) ("A fee is 5.", none)
        else [("A loan takes 3 days.", none)])
    upsertError := fun _ => none
    qdrantCollection := "policies"
    semanticQueryCache := true }

/-- A collection from before the first migration, and two documents. -/
def feesAndLoans : Deployment where
  qdrant :=
    ⟨fun name => if name = "policies" then some [] else none, fun _ => none, by simp, by simp⟩
  files := [⟨"fees.pdf", [1], .placed⟩, ⟨"loans.pdf", [2], .placed⟩]
  db := ⟨RagOpsRow.initial 0, []⟩
  cache := ⟨[], []⟩

theorem gate_exact_feesAndLoans : (longFees 2).GateExact (fun _ => false) 0 feesAndLoans :=
  (gate_exact_iff _ _ _ _ (by decide) (by decide)).2 fun _ => by
    unfold OnFirstPage
    decide +kernel

theorem discovered_feesAndLoans : discovered feesAndLoans.files =
    [⟨"fees.pdf", [1], .placed⟩, ⟨"loans.pdf", [2], .placed⟩] := by
  decide +kernel

theorem ingestFile_fees (m : ℕ) : (longFees m).ingestFile false ⟨"fees.pdf", [1], .placed⟩ =
    .ok ((List.replicate (m + 1) ("A fee is 5.", none)).map fun (text, page) =>
      ⟨text, pathName "fees.pdf", page⟩) :=
  rfl

theorem ingestFile_loans (m : ℕ) : (longFees m).ingestFile false ⟨"loans.pdf", [2], .placed⟩ =
    .ok [⟨"A loan takes 3 days.", pathName "loans.pdf", none⟩] :=
  rfl

theorem seededPoints_feesAndLoans (m : ℕ) : ∃ fees : List StoredChunk,
    fees.length = m + 1 ∧ (∀ p ∈ fees, p.source = "fees.pdf") ∧
      (longFees m).seededPoints (fun _ => false) (discovered feesAndLoans.files) =
        fees ++ [⟨⟨"A loan takes 3 days.", "loans.pdf", none⟩, (fees.map (·.id)).sum + 1,
          .active, .placed⟩] := by
  have hfees : pathName "fees.pdf" = "fees.pdf" := by decide +kernel
  have hloans : pathName "loans.pdf" = "loans.pdf" := by decide +kernel
  have hprocessFees := (ingestFile_eq_ok.1 (ingestFile_fees m)).1
  have hprocessLoans := (ingestFile_eq_ok.1 (ingestFile_loans m)).1
  rw [hloans] at hprocessLoans
  rw [discovered_feesAndLoans, seededPoints, IngestionService.seedLoop, IngestionService.seedFile,
    hprocessFees, IngestionService.seedLoop, IngestionService.seedFile, hprocessLoans]
  set chunks := (List.replicate (m + 1) ("A fee is 5.", (none : Option ℤ))).map
    fun (text, page) => (⟨text, pathName "fees.pdf", page⟩ : DocumentChunk)
  refine ⟨(countingIds Bool).points false .active .placed [] chunks, ?_, fun p hp => ?_, rfl⟩
  · rw [← List.length_map (·.toDocumentChunk), Corpus.map_toDocumentChunk_points,
      List.length_map, List.length_replicate]
  · obtain ⟨_, -, hchunk⟩ := List.mem_map.1 (Corpus.toDocumentChunk_mem_of_mem_points hp)
    rw [← hchunk, hfees]

theorem not_onFirstPage_feesAndLoans (m : ℕ) (hm : Corpus.scrollLimit ≤ m + 1) :
    ¬OnFirstPage (discovered feesAndLoans.files)
      ((longFees m).seededPoints (fun _ => false) (discovered feesAndLoans.files)) := by
  intro hfirst
  obtain ⟨fees, hlength, hsource, hpoints⟩ := seededPoints_feesAndLoans m
  rw [hpoints, discovered_feesAndLoans] at hfirst
  obtain ⟨p, hp, hps, hcount⟩ := hfirst ⟨"loans.pdf", [2], .placed⟩ (by simp)
  have hname : pathName "loans.pdf" = "loans.pdf" := by decide +kernel
  rcases List.mem_append.1 hp with hold | hnew
  · rw [hsource p hold, hname] at hps
    simp at hps
  · rw [List.mem_singleton] at hnew
    subst hnew
    -- every other id is below that of the loans
    have hall : fees.countP (fun q => q.id ≤ (fees.map (·.id)).sum + 1) = m + 1 := by
      rw [List.countP_eq_length.2, hlength]
      intro q hq
      simpa using (List.le_sum_of_mem (List.mem_map_of_mem (f := (·.id)) hq)).trans (Nat.le_succ _)
    rw [List.countP_append, hall, List.countP_singleton, if_pos (by simp)] at hcount
    omega

/-- Every file is stored, and the cutover is refused. -/
theorem second_page_refused :
    ¬(longFees Corpus.scrollLimit).GateExact (fun _ => false) 0 feesAndLoans := by
  intro hgate
  refine not_onFirstPage_feesAndLoans Corpus.scrollLimit (Nat.le_succ _)
    (firstPageSuffices_of_gateExact (by rfl) (by rfl) hgate ?_)
  rw [discovered_feesAndLoans, allIngested_cons, allIngested_cons]
  exact ⟨⟨_, ingestFile_fees _⟩, ⟨_, ingestFile_loans _⟩, by simp [AllIngested]⟩

end MigrationScript

end EnterpriseRag
