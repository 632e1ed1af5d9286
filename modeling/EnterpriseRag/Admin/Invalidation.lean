import EnterpriseRag.Admin.Backend
import EnterpriseRag.Rag.CacheKeys
import EnterpriseRag.Rag.EvidenceGuard

/-!
# The corpus version after a change of the corpus

Searchable chunks change when `delete_by_source` hits active ones, in a replacing upload, a
blocked one or a rejection, and when an approval activates a document. Only the approval
goes on to `invalidate_corpus_caches`. In a run where no step deletes active chunks, and
where no approval that has activated chunks ends before its bump, every call that is over
has been followed by a bump since its last change (`changes_invalidated`).
-/

open Transition

namespace EnterpriseRag

/-- The next call marks an approved row active. -/
def Point.marksActive : Point → Bool
  | .markActive _ => true
  | _ => false

namespace IngestionService

variable {ω : Type*} {svc : IngestionService ω} {w : ω} {c : ℕ} {call : CorpusCall}
  {point : Point} {s s' : Corpus}

/-- A step that changes the searchable chunks deletes some, or is the activation of an
approval. -/
theorem changes_of_advance (h : svc.advance w c call s = some (point, s'))
    (hne : s'.activeChunks ≠ s.activeChunks) :
    (∃ chunk ∈ s.activeChunks, call.deletes = some chunk.source) ∨
      ∃ id, point = .markActive id := by
  by_cases hcall : call.request.Unapproving
  · left
    rw [activeChunks_advance h hcall] at hne
    cases hdeletes : call.deletes with
    | none =>
      rw [hdeletes] at hne
      exact absurd (Corpus.without_nil _) hne
    | some source =>
      by_contra hnone
      refine hne (List.filter_eq_self.2 fun chunk hchunk => ?_)
      rw [hdeletes]
      simp only [Option.toList_some, List.mem_singleton, decide_eq_true_eq]
      exact fun hsource => hnone ⟨chunk, hchunk, by rw [hsource]⟩
  · cases stepsTo_of_advance h with
    | setIngestionStatus => exact Or.inr ⟨_, rfl⟩
    | approveRefused => exact absurd rfl hne
    | approveChecked _ _ => exact absurd rfl hne
    | approveRow => exact absurd rfl hne
    | markActive => exact absurd rfl hne
    | _ => exact absurd trivial hcall

theorem decided_of_marksActive (h : svc.advance w c call s = some (point, s'))
    (hpoint : call.point.marksActive = true) :
    ∃ source actor id, call.request = .approve source actor ∧ point = .decided id := by
  cases stepsTo_of_advance h with
  | markActive => exact ⟨_, _, _, rfl, rfl⟩
  | _ => exact nomatch hpoint

end IngestionService

/-- Requests under a corpus version up to `v` share no partition with requests under the
row's configuration, and no key unless the hash collides. -/
def RagOpsRow.CutsOff (row : RagOpsRow) (v : ℤ) : Prop :=
  ∀ (svc : RAGService) (config : RagRuntimeConfig) (call call' : AnswerCall) (q q' : RagRequest),
    config.1.corpusVersion ≤ v → svc.prepare config call = .ok q →
      svc.prepare (derived row) call' = .ok q' →
        q.cacheNamespace ≠ q'.cacheNamespace ∧
          (q.cacheKey = q'.cacheKey → ∃ text text', text ≠ text' ∧ svc.sha256 text = svc.sha256 text')

/-- A bump past `v` cuts off. -/
theorem RagOpsRow.cutsOff_of_lt {row : RagOpsRow} {v : ℤ} (h : v < row.1.corpusVersion) :
    row.CutsOff v := by
  intro svc config call call' q q' hv hq hq'
  have hne : config.1.corpusVersion ≠ (derived row).1.corpusVersion :=
    ne_of_lt (hv.trans_lt h)
  exact ⟨fun heq => hne (RAGService.corpusVersion_of_cacheNamespace hq hq' heq),
    fun heq => RAGService.collision_of_cacheKey hq hq' heq hne⟩

theorem not_marksActive_of_isOver {p : Point} (h : p.isOver = true) : p.marksActive = false := by
  cases p <;> first | rfl | exact nomatch h

namespace Backend

variable {ω : Type*} {ctl : AdminController ω} {svc : RAGService} {s s' : Backend} {c : ℕ}

/-- The stores with no call. -/
def idle (corpus : Corpus) (db : RagOpsStore) (current : RagRuntimeConfig) : Backend where
  corpus := CorpusSystem.quiet corpus
  db
  worker := ⟨current, none, none⟩
  serving := .init

/-- Of every call that is over, the corpus version was bumped after its last change of the
searchable chunks, and what was cached by then is cut off. -/
def Invalidated (ctl : AdminController ω) (s : Backend) : Prop :=
  ∀ c v, s.IsOver ctl c → s.changedAt c = some v →
    v < s.db.row.1.corpusVersion ∧ s.db.row.CutsOff v

/-- There was no bump since call `c` changed the searchable chunks. -/
def Unbumped (s : Backend) (c : ℕ) : Prop :=
  ∃ v ∈ s.changedAt c, s.db.row.1.corpusVersion ≤ v

/-- Call `c` is an approval about to mark its row active. -/
def Marking (s : Backend) (c : ℕ) : Prop :=
  ∃ call ∈ s.corpus.calls c, call.point.marksActive = true

/-- Call `c` is about to delete active chunks. -/
def DeletesActive (s : Backend) (c : ℕ) : Prop :=
  ∃ chunk ∈ s.corpus.corpus.activeChunks,
    (s.corpus.calls c).bind CorpusCall.deletes = some chunk.source

/-- The step deletes active chunks, or ends an approval that has activated chunks without a
bump : a store call raises, the counter is past its range, or there is no repository. -/
def SkipsInvalidation (ctl : AdminController ω) (s : Backend) : Event ω → Prop
  | .advance c _ => s.DeletesActive c ∨ s.Unbumped c ∧
    (s.invalidations c = .bumpCorpusVersion ∧ integerMax < s.db.row.1.corpusVersion + 1 ∨
      s.Marking c ∧ ctl.ragOpsRepository = false)
  | .fail c _ => s.Unbumped c
  | _ => False

instance (ctl : AdminController ω) (s : Backend) : DecidablePred (s.SkipsInvalidation ctl)
  | .advance c _ => inferInstanceAs (Decidable
      ((∃ chunk ∈ s.corpus.corpus.activeChunks,
        (s.corpus.calls c).bind CorpusCall.deletes = some chunk.source) ∨
      (∃ v ∈ s.changedAt c, s.db.row.1.corpusVersion ≤ v) ∧
        (s.invalidations c = .bumpCorpusVersion ∧ integerMax < s.db.row.1.corpusVersion + 1 ∨
          (∃ call ∈ s.corpus.calls c, call.point.marksActive = true) ∧
            ctl.ragOpsRepository = false)))
  | .fail c _ => inferInstanceAs (Decidable (∃ v ∈ s.changedAt c, s.db.row.1.corpusVersion ≤ v))
  | .request _ _ | .serve _ | .pollRead | .pollCompare => isFalse id

/-- Call `c` is an approval that goes on to its bump. -/
def Awaits (ctl : AdminController ω) (s : Backend) (c : ℕ) : Prop :=
  s.Marking c ∨ (s.invalidating ctl c).isSome ∧ s.invalidations c = .bumpCorpusVersion

/-- What holds of every call : a change of its own was bumped, or is about to be. -/
structure Announced (ctl : AdminController ω) (s : Backend) (c : ℕ) : Prop where
  le : ∀ v, s.changedAt c = some v → v ≤ s.db.row.1.corpusVersion
  idle : s.invalidations c ≠ .bumpCorpusVersion → (s.invalidating ctl c).isSome
  bumped : ∀ v, s.changedAt c = some v → v < s.db.row.1.corpusVersion ∨ s.Awaits ctl c

theorem invalidating_congr (h : s'.corpus.calls c = s.corpus.calls c) :
    s'.invalidating ctl c = s.invalidating ctl c := by
  rw [invalidating, invalidating, h]

theorem Announced.congr (h : s.Announced ctl c) (hcall : s'.corpus.calls c = s.corpus.calls c)
    (hinvalidation : s'.invalidations c = s.invalidations c)
    (hchanged : s'.changedAt c = s.changedAt c)
    (hversion : s'.db.row.1.corpusVersion = s.db.row.1.corpusVersion) : s'.Announced ctl c where
  le v hv := by
    rw [hversion]
    exact h.le v (hchanged ▸ hv)
  idle hne := by
    rw [invalidating_congr hcall]
    exact h.idle (hinvalidation ▸ hne)
  bumped v hv := by
    rw [hversion, Awaits, Marking, hcall, invalidating_congr hcall, hinvalidation]
    exact h.bumped v (hchanged ▸ hv)

/-- A call whose changes were all bumped. -/
theorem announced_of_lt (hidle : s.invalidations c ≠ .bumpCorpusVersion →
      (s.invalidating ctl c).isSome)
    (hlt : ∀ v, s.changedAt c = some v → v < s.db.row.1.corpusVersion) : s.Announced ctl c :=
  ⟨fun v hv => (hlt v hv).le, hidle, fun v hv => Or.inl (hlt v hv)⟩

theorem Announced.noteReturn {c' : ℕ} (h : s.Announced ctl c') (now : ℕ) :
    (s.noteReturn ctl c now).Announced ctl c' := by
  rw [Backend.noteReturn]
  split
  · exact h.congr rfl rfl rfl rfl
  · exact h

theorem lt_of_not_unbumped (h : ¬s.Unbumped c) :
    ∀ v, s.changedAt c = some v → v < s.db.row.1.corpusVersion := fun v hv =>
  not_le.1 fun hle => h ⟨v, hv, hle⟩

theorem not_marksActive_of_invalidating {source actor : String} {call : CorpusCall}
    (h : s.invalidating ctl c = some (source, actor)) (hcall : s.corpus.calls c = some call) :
    call.point.marksActive = false := by
  rw [invalidating, hcall] at h
  split at h
  · rename_i heq
    obtain rfl := Option.some.inj heq
    rfl
  · exact nomatch h

/-- What a step of the invalidation does to the corpus version. -/
theorem version_of_invalidate {source actor : String} {now : Timestamp} {db db' : RagOpsStore}
    {cache cache' : AnswerCache} {p point : InvalidationPoint}
    (h : ctl.invalidate source actor now db cache p = some (point, db', cache')) :
    (p = .bumpCorpusVersion ∧ db' = db ∧ integerMax < db.row.1.corpusVersion + 1) ∨
    (p = .bumpCorpusVersion ∧ db'.row.1.corpusVersion = db.row.1.corpusVersion + 1) ∨
    (p ≠ .bumpCorpusVersion ∧ db'.row.1.corpusVersion = db.row.1.corpusVersion) := by
  cases p with
  | bumpCorpusVersion =>
    simp only [AdminController.invalidate, bumpCorpusVersion] at h
    split at h
    · rename_i hbump
      split at hbump
      · rename_i hmax
        simp only [Option.some.injEq, Prod.mk.injEq] at h
        exact Or.inl ⟨rfl, h.2.1.symm, hmax⟩
      · cases hbump
    · rename_i db₁ hbump
      split at hbump
      · cases hbump
      · simp only [Option.some.injEq, Prod.mk.injEq] at h
        obtain ⟨-, rfl, -⟩ := h
        obtain rfl := Except.ok.inj hbump
        exact Or.inr (Or.inl ⟨rfl, rfl⟩)
  | returned => cases h
  | raised e => cases h
  | _ =>
    simp only [AdminController.invalidate, Option.some.injEq, Prod.mk.injEq] at h
    obtain ⟨-, rfl, -⟩ := h
    exact Or.inr (Or.inr ⟨by simp, rfl⟩)

theorem calls_of_request {svc : IngestionService ω} {s s' : CorpusSystem} {request : Request}
    (h : s.step svc (.call c request) = some s') :
    s.calls c = none ∧ ∀ c' ≠ c, s'.calls c' = s.calls c' := by
  simp only [CorpusSystem.step] at h
  split at h
  · cases h
  · rename_i hnone
    obtain rfl := Option.some.inj h
    exact ⟨by simpa using hnone, fun c' hc => Function.update_of_ne hc ..⟩

theorem calls_of_advance {svc : IngestionService ω} {s s' : CorpusSystem} {w : ω}
    (h : s.step svc (.advance c w) = some s') :
    ∃ call point, s.calls c = some call ∧ svc.advance w c call s.corpus = some (point, s'.corpus) ∧
      s'.calls c = some { call with point } ∧ ∀ c' ≠ c, s'.calls c' = s.calls c' := by
  simp only [CorpusSystem.step, Option.bind_eq_some_iff, Option.map_eq_some_iff] at h
  obtain ⟨call, hcall, ⟨point, corpus⟩, hadvance, rfl⟩ := h
  exact ⟨call, point, hcall, hadvance, Function.update_self .., fun c' hc =>
    Function.update_of_ne hc ..⟩

theorem calls_of_fail {svc : IngestionService ω} {s s' : CorpusSystem} {error : Raised}
    (h : s.step svc (.fail c error) = some s') :
    (∃ call, s.calls c = some call ∧ call.point.isOver = false) ∧
      ∀ c' ≠ c, s'.calls c' = s.calls c' := by
  simp only [CorpusSystem.step, Option.bind_eq_some_iff] at h
  obtain ⟨call, hcall, h⟩ := h
  split at h
  · cases h
  · rename_i hover
    obtain rfl := Option.some.inj h
    exact ⟨⟨call, hcall, by simpa using hover⟩, fun c' hc => Function.update_of_ne hc ..⟩

/-- A step of call `c` in the ingestion service. -/
theorem announced_ingest {w : ω} {corpus : CorpusSystem} (hs : s.Announced ctl c)
    (hcall : s.invalidating ctl c = none) (h : s.corpus.step ctl.ingestion (.advance c w) = some corpus)
    (hskip : ¬s.SkipsInvalidation ctl (.advance c w)) : (s.ingested c corpus).Announced ctl c := by
  obtain ⟨call, point, hc, hadvance, hc', -⟩ := calls_of_advance h
  have hbump : s.invalidations c = .bumpCorpusVersion := by
    by_contra hne
    simpa [hcall] using hs.idle hne
  by_cases hsame : corpus.corpus.activeChunks = s.corpus.corpus.activeChunks
  · have hchanged : (s.ingested c corpus).changedAt = s.changedAt := if_pos hsame
    refine ⟨fun v hv => hs.le v (hchanged ▸ hv), fun hne => absurd hbump hne, fun v hv => ?_⟩
    rcases hs.bumped v (hchanged ▸ hv) with hlt | ⟨call', hmarking, hpoint⟩ | ⟨hsome, -⟩
    · exact Or.inl hlt
    · -- the approval marks its row active
      obtain rfl : call = call' := Option.some.inj (hc.symm.trans hmarking)
      by_cases hlt : v < s.db.row.1.corpusVersion
      · exact Or.inl hlt
      refine Or.inr (Or.inr ⟨?_, hbump⟩)
      have hunbumped : s.Unbumped c := ⟨v, hchanged ▸ hv, not_lt.1 hlt⟩
      have hrepository : ctl.ragOpsRepository = true := by
        by_contra hnone
        exact hskip (Or.inr ⟨hunbumped, Or.inr ⟨⟨call, hc, hpoint⟩, by simpa using hnone⟩⟩)
      obtain ⟨source, actor, id, hrequest, rfl⟩ :=
        IngestionService.decided_of_marksActive hadvance hpoint
      have hdecided : corpus.calls c = some ⟨.approve source actor, .decided id⟩ := by
        rw [hc', hrequest]
      show (invalidating ctl _ c).isSome
      rw [invalidating, show (s.ingested c corpus).corpus.calls c = _ from hdecided]
      simp [hrepository]
    · simp [hcall] at hsome
  · have hchanged : (s.ingested c corpus).changedAt =
        Function.update s.changedAt c (some s.db.row.1.corpusVersion) := if_neg hsame
    have hnow : ∀ v, (s.ingested c corpus).changedAt c = some v → v = s.db.row.1.corpusVersion := by
      intro v hv
      rw [hchanged, Function.update_self] at hv
      exact (Option.some.inj hv).symm
    rcases IngestionService.changes_of_advance hadvance hsame with
      ⟨chunk, hchunk, hdeletes⟩ | ⟨id, rfl⟩
    · exact absurd (Or.inl ⟨chunk, hchunk, by rw [hc, Option.bind_some, hdeletes]⟩) hskip
    · refine ⟨fun v hv => (hnow v hv).le, fun hne => absurd hbump hne, fun v _ => ?_⟩
      exact Or.inr (Or.inl ⟨_, hc', rfl⟩)

theorem announced_step {e : Event ω} (hs : ∀ c, s.Announced ctl c)
    (hskip : ¬s.SkipsInvalidation ctl e) (h : step ctl svc s e = some s') :
    ∀ c, s'.Announced ctl c := by
  intro c'
  cases moves_of_step h with
  | @request c request corpus hcorpus =>
    obtain ⟨hnone, hrest⟩ := calls_of_request hcorpus
    by_cases hc : c' = c
    · subst hc
      have hcall : s.invalidating ctl c' = none := by rw [invalidating, hnone]
      refine announced_of_lt (fun hne => ?_) fun v hv => ?_
      · simpa [hcall] using (hs c').idle hne
      · rcases (hs c').bumped v hv with hlt | ⟨call, hcall', -⟩ | ⟨hsome, -⟩
        · exact hlt
        · simp [hnone] at hcall'
        · simp [hcall] at hsome
    · exact (hs c').congr (hrest c' hc) rfl rfl rfl
  | @invalidate c w source actor point db cache hcall hinvalidate =>
    refine Announced.noteReturn ?_ _
    by_cases hc : c' = c
    · subst hc
      refine announced_of_lt (fun _ => ?_) fun v hv => ?_
      · rw [show (s.invalidated c' point db cache).invalidating ctl c' = s.invalidating ctl c' from
          invalidating_congr rfl, hcall]
        rfl
      · show v < db.row.1.corpusVersion
        rcases version_of_invalidate hinvalidate with
          ⟨hbump, rfl, hmax⟩ | ⟨hbump, hversion⟩ | ⟨hbump, hversion⟩
        · by_contra hlt
          exact hskip (Or.inr ⟨⟨v, hv, not_lt.1 hlt⟩, Or.inl ⟨hbump, hmax⟩⟩)
        · have hle := (hs c').le v hv
          omega
        · rw [hversion]
          rcases (hs c').bumped v hv with hlt | ⟨call, hmarking, hpoint⟩ | ⟨-, hbump'⟩
          · exact hlt
          · exact absurd hpoint (by simp [not_marksActive_of_invalidating hcall hmarking])
          · exact absurd hbump' hbump
    · rcases version_of_invalidate hinvalidate with
        ⟨-, rfl, -⟩ | ⟨-, hversion⟩ | ⟨-, hversion⟩
      · exact (hs c').congr rfl (Function.update_of_ne hc ..) rfl rfl
      · -- a bump is past every change so far
        refine announced_of_lt (fun hne => ?_) fun v hv => ?_
        · rw [show (s.invalidated c point db cache).invalidating ctl c' = s.invalidating ctl c' from
            invalidating_congr rfl]
          refine (hs c').idle fun hbump => hne ?_
          exact (Function.update_of_ne hc ..).trans hbump
        · show v < db.row.1.corpusVersion
          have hle := (hs c').le v hv
          omega
      · exact (hs c').congr rfl (Function.update_of_ne hc ..) rfl hversion
  | @ingest c w corpus hcall hcorpus =>
    refine Announced.noteReturn ?_ _
    by_cases hc : c' = c
    · subst hc
      exact announced_ingest (hs c') hcall hcorpus hskip
    · obtain ⟨call, point, -, -, -, hrest⟩ := calls_of_advance hcorpus
      refine (hs c').congr (hrest c' hc) rfl ?_ rfl
      by_cases hsame : corpus.corpus.activeChunks = s.corpus.corpus.activeChunks
      · rw [show (s.ingested c corpus).changedAt = s.changedAt from if_pos hsame]
      · rw [show (s.ingested c corpus).changedAt = Function.update _ _ _ from if_neg hsame]
        exact Function.update_of_ne hc ..
  | @failInvalidation c error hcall hover =>
    by_cases hc : c' = c
    · subst hc
      exact announced_of_lt (fun _ => hcall) (lt_of_not_unbumped hskip)
    · exact (hs c').congr rfl (Function.update_of_ne hc ..) rfl rfl
  | @failIngestion c error corpus hcall hcorpus =>
    by_cases hc : c' = c
    · subst hc
      refine announced_of_lt (fun hne => ?_) (lt_of_not_unbumped hskip)
      simpa [hcall] using (hs c').idle hne
    · exact (hs c').congr ((calls_of_fail hcorpus).2 c' hc) rfl rfl rfl
  | serve _ => exact (hs c').congr rfl rfl rfl rfl
  | pollRead => exact (hs c').congr rfl rfl rfl rfl
  | pollCompare => exact (hs c').congr rfl rfl rfl rfl

theorem announced_idle (corpus : Corpus) (db : RagOpsStore) (current : RagRuntimeConfig) (c : ℕ) :
    (idle corpus db current).Announced ctl c :=
  announced_of_lt (fun h => absurd rfl h) fun _ h => nomatch h

/-- In every run without a step that skips the invalidation, whatever an admin call that is
over changed in the searchable chunks was followed by a bump, and what was cached by then is
cut off. -/
theorem changes_invalidated {corpus : Corpus} {db : RagOpsStore} {current : RagRuntimeConfig}
    {es : List (Event ω)} {t : Backend} (h : exec (step ctl svc) (idle corpus db current) es = some t)
    (hkept : Along (step ctl svc) (fun s e => ¬s.SkipsInvalidation ctl e) (idle corpus db current) es) :
    t.Invalidated ctl := by
  have hannounced : ∀ c, t.Announced ctl c :=
    invariant_along (fun _ _ _ hs hskip hstep => announced_step hs hskip hstep)
      (announced_idle corpus db current) hkept h
  rintro c v ⟨call, hcall, hover, hinvalidation⟩ hv
  have hlt : v < t.db.row.1.corpusVersion := by
    rcases (hannounced c).bumped v hv with hlt | ⟨call', hmarking, hpoint⟩ | ⟨hsome, hbump⟩
    · exact hlt
    · obtain rfl := Option.some.inj (hcall.symm.trans hmarking)
      exact absurd hpoint (by simp [not_marksActive_of_isOver hover])
    · have hraised := hinvalidation hsome
      rw [hbump] at hraised
      exact nomatch hraised
  exact ⟨hlt, RagOpsRow.cutsOff_of_lt hlt⟩

/-- Both collaborators of the invalidation are there. -/
def feesAdmin : AdminController Bool :=
  ⟨feesService, true, true⟩

/-- The stores of a new deployment with the corpus. -/
def deployed (corpus : Corpus) : Backend :=
  idle corpus ⟨.initial 0, []⟩ (derived (.initial 0))

/-- The approval of the fees, to its end. -/
def approval : List (Event Bool) :=
  .request 1 (.approve "fees.pdf" "bob") :: List.replicate 8 (.advance 1 false)

/-- Another upload of the fees, to its end. -/
def replacement : List (Event Bool) :=
  .request 2 (.submit "fees.pdf" [1] "ann") :: List.replicate 9 (.advance 2 false)

theorem changes_invalidated_approval : ∃ t,
    exec (step feesAdmin desk) (deployed CorpusSystem.pendingFees) approval = some t ∧
      t.changedAt 1 = some 1 ∧ t.returnedAt 1 = some 8 ∧ t.db.row.1.corpusVersion = 2 ∧
      t.Invalidated feesAdmin := by
  have hend : ((exec (step feesAdmin desk) (deployed CorpusSystem.pendingFees) approval).map fun t =>
      (t.changedAt 1, t.returnedAt 1, t.db.row.1.corpusVersion)) = some (some 1, some 8, 2) := by
    decide +kernel
  obtain ⟨t, ht, hfields⟩ := Option.map_eq_some_iff.1 hend
  obtain ⟨hchanged, hrest⟩ := Prod.mk.inj hfields
  obtain ⟨hreturned, hversion⟩ := Prod.mk.inj hrest
  exact ⟨t, ht, hchanged, hreturned, hversion, changes_invalidated ht (by decide +kernel)⟩

/-- The upload takes the approved chunks out of the collection and returns, and the corpus
version is the same. -/
theorem replacement_unannounced : ∃ t,
    exec (step feesAdmin desk) (deployed CorpusSystem.approvedFees) replacement = some t ∧
      CorpusSystem.approvedFees.activeChunks ≠ [] ∧ t.corpus.corpus.activeChunks = [] ∧
      ¬t.Invalidated feesAdmin := by
  have hend : ((exec (step feesAdmin desk) (deployed CorpusSystem.approvedFees) replacement).map fun t =>
      (t.corpus.corpus.activeChunks.length, (t.corpus.calls 2).map (·.point.isOver),
        (t.invalidating feesAdmin 2).isSome, t.changedAt 2, t.db.row.1.corpusVersion)) =
      some (0, some true, false, some 1, 1) := by
    decide +kernel
  obtain ⟨t, ht, hfields⟩ := Option.map_eq_some_iff.1 hend
  obtain ⟨hactive, hrest⟩ := Prod.mk.inj hfields
  obtain ⟨hover, hrest⟩ := Prod.mk.inj hrest
  obtain ⟨hinvalidating, hrest⟩ := Prod.mk.inj hrest
  obtain ⟨hchanged, hversion⟩ := Prod.mk.inj hrest
  obtain ⟨call, hcall, hpoint⟩ := Option.map_eq_some_iff.1 hover
  refine ⟨t, ht, by decide +kernel, List.length_eq_zero_iff.1 hactive, fun hinvalidated => ?_⟩
  have hlt := (hinvalidated 2 1 ⟨call, hcall, hpoint, fun hsome => ?_⟩ hchanged).1
  · rw [hversion] at hlt
    exact absurd hlt (by decide)
  · rw [hinvalidating] at hsome
    exact nomatch hsome

end Backend

end EnterpriseRag
