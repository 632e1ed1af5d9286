import EnterpriseRag.Corpus.Decisions

/-!
# What an upload that is not approved takes away

Chunks leave the collection by `delete_by_source` only : when `ingest` replaces a source
that is listed, when the scan of an upload blocks it, and when an upload is rejected. The
three delete whatever is stored under the source, active chunks of an earlier upload
included.

`active_after_unapproved` is about runs of `submit` and `reject` calls. Nothing becomes
active, and what stops being searchable is exactly what is stored under the sources
deleted on the way.
-/

open Transition

namespace EnterpriseRag

namespace Corpus

variable {ω : Type*} {s : Corpus}

/-- The searchable chunks. -/
def activeChunks (s : Corpus) : List StoredChunk :=
  s.chunks.filter fun c => c.ingestionStatus = .active

/-- The chunks that are stored under none of the sources. -/
def without (sources : List String) (chunks : List StoredChunk) : List StoredChunk :=
  chunks.filter fun c => c.source ∉ sources

@[simp] theorem without_nil (chunks : List StoredChunk) : without [] chunks = chunks := by
  simp [without]

theorem without_append (sources sources' : List String) (chunks : List StoredChunk) :
    without (sources ++ sources') chunks = without sources' (without sources chunks) := by
  simp [without, List.filter_filter, Bool.and_comm]

/-- Quarantined chunks are not searchable. -/
theorem activeChunks_upsertChunks (ids : PointIds ω) (w : ω) (chunks : List DocumentChunk)
    (origin : Origin) :
    (s.upsertChunks ids w chunks .quarantined origin).activeChunks = s.activeChunks := by
  have hnew : (ids.points w .quarantined origin (s.chunks.map (·.id)) chunks).filter
      (fun c => c.ingestionStatus = .active) = [] := by
    refine List.filter_eq_nil_iff.2 fun c hc => ?_
    rw [(mem_points hc).1]
    decide
  rw [activeChunks, upsertChunks, List.filter_append, hnew, List.append_nil, activeChunks]

theorem activeChunks_deleteBySource (source : String) :
    (s.deleteBySource source).activeChunks = without [source] s.activeChunks := by
  simp [activeChunks, deleteBySource, without, List.filter_filter, Bool.and_comm]

end Corpus

/-- The source a call is about to delete. -/
def CorpusCall.deletes (call : CorpusCall) : Option String :=
  match call.request, call.point with
  | .submit filename _ _, .deleteReplaced _ | .submit filename _ _, .deleteFailed _ => some filename
  | .reject source _ _, .deleteRejected _ => some source
  | _, _ => none

/-- A `submit` or a `reject`. -/
def Request.Unapproving : Request → Prop
  | .submit _ _ _ | .reject _ _ _ => True
  | .approve _ _ => False

namespace IngestionService

variable {ω : Type*} {svc : IngestionService ω} {w : ω} {c : ℕ} {call : CorpusCall}
  {point : Point} {s s' : Corpus}

theorem activeChunks_advance (h : svc.advance w c call s = some (point, s'))
    (hcall : call.request.Unapproving) :
    s'.activeChunks = Corpus.without call.deletes.toList s.activeChunks := by
  cases stepsTo_of_advance h with
  | copyFile hchunks _ _ =>
    rw [Corpus.activeChunks, hchunks]
    exact (Corpus.without_nil _).symm
  | deleteReplaced => exact Corpus.activeChunks_deleteBySource _
  | upsertChunks =>
    rw [Corpus.activeChunks_upsertChunks]
    exact (Corpus.without_nil _).symm
  | createPending hcreate =>
    obtain ⟨rows, -, rfl⟩ := Option.map_eq_some_iff.1 hcreate
    exact (Corpus.without_nil _).symm
  | deleteFailed => exact Corpus.activeChunks_deleteBySource _
  | setIngestionStatus => exact hcall.elim
  | deleteRejected => exact Corpus.activeChunks_deleteBySource _
  | _ => exact (Corpus.without_nil _).symm

end IngestionService

namespace CorpusSystem

variable {ω : Type*} {svc : IngestionService ω} {s s' : CorpusSystem} {e : Event ω}

/-- The event belongs to a `submit` or a `reject`. -/
def Event.Unapproving : Event ω → Prop
  | .call _ request => request.Unapproving
  | .advance _ _ | .fail _ _ => True
  | .seedDocs _ | .placeFile _ _ => False

/-- The source an event is about to delete. -/
def deletes (s : CorpusSystem) : Event ω → Option String
  | .advance c _ => (s.calls c).bind CorpusCall.deletes
  | _ => none

/-- No call is an approval. -/
def NoApproval (s : CorpusSystem) : Prop :=
  ∀ c call, s.calls c = some call → call.request.Unapproving

theorem noApproval_step (hs : s.NoApproval) (he : e.Unapproving) (h : step svc s e = some s') :
    s'.NoApproval := by
  intro c' call' hc'
  rcases step_cases h with ⟨c, request, rfl, -, hcalls⟩ |
    ⟨c, w, call, point, -, hcall, -, hcalls⟩ | ⟨c, error, call, -, hcall, -, hcalls⟩ |
    ⟨ws, rfl, -⟩ | ⟨name, content, rfl, -⟩
  · rcases calls_update hcalls hc' with ⟨-, rfl⟩ | ⟨-, hc'⟩
    · exact he
    · exact hs c' call' hc'
  · rcases calls_update hcalls hc' with ⟨-, rfl⟩ | ⟨-, hc'⟩
    · exact hs c call hcall
    · exact hs c' call' hc'
  · rcases calls_update hcalls hc' with ⟨-, rfl⟩ | ⟨-, hc'⟩
    · exact hs c call hcall
    · exact hs c' call' hc'
  · exact he.elim
  · exact he.elim

/-- A step takes away what it deletes, and nothing else. -/
theorem activeChunks_step (hs : s.NoApproval) (he : e.Unapproving) (h : step svc s e = some s') :
    s'.corpus.activeChunks = Corpus.without (s.deletes e).toList s.corpus.activeChunks := by
  rcases step_cases h with ⟨c, request, rfl, hcorpus, -⟩ |
    ⟨c, w, call, point, rfl, hcall, hadvance, -⟩ | ⟨c, error, call, rfl, -, hcorpus, -⟩ |
    ⟨ws, rfl, -⟩ | ⟨name, content, rfl, -⟩
  · rw [hcorpus]
    exact (Corpus.without_nil _).symm
  · rw [IngestionService.activeChunks_advance hadvance (hs c call hcall), deletes, hcall,
      Option.bind_some]
  · rw [hcorpus]
    exact (Corpus.without_nil _).symm
  · exact he.elim
  · exact he.elim

/-- The sources a run deletes. -/
def deleted (svc : IngestionService ω) (s : CorpusSystem) (es : List (Event ω)) : List String :=
  outputs (step svc) (fun s e => (s.deletes e).toList) s es

/-- After any run of uploads and rejections, the searchable chunks are those from before
that are stored under none of the sources deleted on the way. -/
theorem active_after_unapproved {corpus : Corpus} {es : List (Event ω)} {t : CorpusSystem}
    (hes : ∀ e ∈ es, e.Unapproving) (h : exec (step svc) (quiet corpus) es = some t) :
    t.corpus.activeChunks =
      Corpus.without (deleted svc (quiet corpus) es) corpus.activeChunks := by
  refine eq_act_outputs (q := fun s : CorpusSystem => s.corpus.activeChunks)
    (fun c => Corpus.without_nil c) Corpus.without_append
    (fun _ _ _ hs he h => noApproval_step hs he h)
    (fun _ _ _ hs he h => activeChunks_step hs he h) (fun c call hc => ?_)
    (along_of_forall_mem (fun e he _ => hes e he) _) h
  simp [quiet] at hc

/-- An upload that was approved. -/
def approvedRow : DocumentSecurityState :=
  { Corpus.become .active (Corpus.become .approved pendingRow) with
    approvedBy := some "bob", approvedAt := some 0 }

def approvedFees : Corpus where
  chunks := [⟨⟨"The fee is 5.", "fees.pdf", some 1⟩, 1, .active, .upload 0⟩]
  rows := ⟨[approvedRow], List.nodup_singleton _⟩
  files := [⟨"fees.pdf", [1], .upload 0⟩]

example : (exec (step feesService) init approvedInTurn).map (·.corpus) = some approvedFees := rfl

/-- The upload of another document, blocked by its scan. -/
def submitLoans : List (Event Bool) :=
  .call 2 (.submit "loans.pdf" [2] "ann") :: advances 2 9 true

theorem active_after_submitLoans : ∃ t,
    exec (step feesService) (quiet approvedFees) submitLoans = some t ∧
      t.corpus.activeChunks = approvedFees.activeChunks := by
  have ht : exec (step feesService) (quiet approvedFees) submitLoans = some _ := rfl
  refine ⟨_, ht, (active_after_unapproved (fun e he => ?_) ht).trans (by decide +kernel)⟩
  simp only [submitLoans, advances, List.mem_cons, List.mem_replicate] at he
  rcases he with rfl | ⟨-, rfl⟩ <;> trivial

/-- The approved version is gone while its replacement still waits for a decision. -/
theorem replacement_removes_approved : ∃ t call,
    exec (step feesService) (quiet approvedFees) (submitFees 2 :: advances 2 9 false) = some t ∧
      t.calls 2 = some call ∧
      call.point = .uploaded ⟨"fees.pdf", 1, true, .scanned .scanPassed⟩ ∧
      t.corpus.activeChunks ≠ approvedFees.activeChunks := by
  have ht : exec (step feesService) (quiet approvedFees) (submitFees 2 :: advances 2 9 false) =
    some _ := rfl
  exact ⟨_, _, ht, rfl, rfl, by decide +kernel⟩

end CorpusSystem

end EnterpriseRag
