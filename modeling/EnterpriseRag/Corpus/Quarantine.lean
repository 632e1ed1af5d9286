import EnterpriseRag.Corpus.Trust
import Mathlib.Algebra.Order.BigOperators.Group.List

/-!
# What is searchable was approved

Two steps make chunks active that should not be. An approval flips whatever is stored
under its source at that moment, which may be chunks of another upload (`ForeignFlip`).
A seed run ingests whatever the policy folder holds, which includes the copy every upload
left there before it was scanned (`UntrustedSeed`). `onlyTrusted_step_iff` says that a
step breaks `OnlyTrusted` exactly when it is one of the two : the chunks of the approved
upload itself are never the problem, which is what `Ready` carries.

`only_trusted_searchable_iff` is about all runs. `quarantine_iff` is about the runs of
calls alone, where the approval's flip is the only way in.
-/

open Transition

namespace EnterpriseRag

/-! ## A service whose scan blocks on demand -/

/-- Ids that count up. -/
def countingIds (ω : Type*) : PointIds ω where
  next _ used := used.sum + 1
  fresh _ used h := by
    have hle : used.sum + 1 ≤ used.sum := List.le_sum_of_mem h
    omega

/-- Every document is one chunk, and the scan blocks it in the world `true`. -/
def feesService : IngestionService Bool where
  ids := countingIds Bool
  rowIds := countingIds Bool
  dbNow _ := 0
  tie _ := 0
  convert _ _ := .ok [("The fee is 5.", some 1)]
  embed _ _ := .ok ()
  scanDocument blocks _ mode _ :=
    .ok ⟨.ingestion, if blocks then .block else .allow, mode, [], false⟩
  guardrailMode _ := .enforce
  policyFile filename := some filename
  maxUploadSizeBytes := 1000

namespace CorpusSystem

/-- Call `c` makes its next `n` store calls. -/
def advances (c n : ℕ) (blocks : Bool) : List (Event Bool) :=
  List.replicate n (.advance c blocks)

def submitFees (c : ℕ) : Event Bool :=
  .call c (.submit "fees.pdf" [1] "ann")

def approveFees (c : ℕ) : Event Bool :=
  .call c (.approve "fees.pdf" "bob")

/-- An upload, and then its approval. -/
def approvedInTurn : List (Event Bool) :=
  submitFees 0 :: advances 0 8 false ++ approveFees 1 :: advances 1 4 false

/-- An upload the scan blocks, and then a seed run. -/
def blockedThenSeeded : List (Event Bool) :=
  submitFees 0 :: advances 0 9 true ++ [.seedDocs fun _ => false]

/-- Between the two writes of an approval, another upload of the source replaces the
chunks. -/
def overtakenApproval : List (Event Bool) :=
  submitFees 0 :: advances 0 8 false ++ approveFees 1 :: advances 1 2 false ++
    submitFees 2 :: advances 2 5 false ++ advances 1 1 false

variable {ω : Type*} {svc : IngestionService ω} {s s' : CorpusSystem} {e : Event ω}

/-- Every approval has approved the row it activates chunks for. -/
def Ready (s : CorpusSystem) : Prop :=
  ∀ c call, s.calls c = some call → call.point.Ready s.corpus

theorem ready_enter (svc : IngestionService ω) (request : Request) (corpus : Corpus) :
    (svc.enter request).Ready corpus := by
  cases request with
  | submit filename content actor =>
    unfold IngestionService.enter
    dsimp only
    split <;> trivial
  | approve source actor => trivial
  | reject source actor reason => trivial

theorem Ready.update {c : ℕ} {call : CorpusCall} (hs : s.Ready)
    (hext : s.corpus.Extends s'.corpus) (hpoint : call.point.Ready s'.corpus)
    (hcalls : s'.calls = Function.update s.calls c (some call)) : s'.Ready := by
  intro c' call' hcall'
  rw [hcalls] at hcall'
  by_cases hc : c' = c
  · rw [hc, Function.update_self] at hcall'
    exact Option.some.inj hcall' ▸ hpoint
  · rw [Function.update_of_ne hc] at hcall'
    exact hext.ready (hs c' call' hcall')

theorem Ready.congr (hs : s.Ready) (hext : s.corpus.Extends s'.corpus)
    (hcalls : s'.calls = s.calls) : s'.Ready :=
  fun c call hcall => hext.ready (hs c call (hcalls ▸ hcall))

theorem ready_init : init.Ready := by
  intro c call hcall
  simp [init] at hcall

theorem ready_step (hs : s.Ready) (h : step svc s e = some s') : s'.Ready := by
  rcases step_cases h with ⟨c, request, -, hcorpus, hcalls⟩ |
    ⟨c, w, call, point, -, hcall, hadvance, hcalls⟩ | ⟨c, error, call, -, -, hcorpus, hcalls⟩ |
    ⟨ws, -, hcalls, hcorpus⟩ | ⟨name, content, -, hcalls, hcorpus⟩
  · exact hs.update (.of_rows_eq (by rw [hcorpus])) (ready_enter svc request _) hcalls
  · have hadv := IngestionService.advances hadvance
    exact hs.update hadv.rows (hadv.ready (hs c call hcall)) hcalls
  · refine hs.update (.of_rows_eq (by rw [hcorpus])) ?_ hcalls
    trivial
  · refine hs.congr (.of_rows_eq ?_) hcalls
    rw [hcorpus]
    exact IngestionService.rows_seedLoop ws _ 0 s.corpus
  · exact hs.congr (.of_rows_eq (by rw [hcorpus]; rfl)) hcalls

/-! ## What breaks the quarantine -/

/-- The source an event is to activate, and the row approved for it. -/
def flip (s : CorpusSystem) : Event ω → Option (String × ℕ)
  | .advance c _ => (s.calls c).bind CorpusCall.flip
  | _ => none

/-- The files an event is to ingest. -/
def seeded (svc : IngestionService ω) (s : CorpusSystem) : Event ω → List PolicyFile
  | .seedDocs ws => svc.ingested ws 0 (IngestionService.seedFiles s.corpus)
  | _ => []

/-- An approval is about to activate an untrusted chunk of another upload than the one
whose row it approved. -/
def ForeignFlip (s : CorpusSystem) (e : Event ω) : Prop :=
  ∃ f ∈ s.flip e, ∃ r ∈ s.corpus.rows.find f.2, ∃ c ∈ s.corpus.chunks,
    c.source = f.1 ∧ c.origin ≠ .upload r.upload ∧ ¬s.corpus.Trusted c.origin

/-- A seed run is about to ingest a file that an upload left in the policy folder, and
that upload was not approved. -/
def UntrustedSeed (svc : IngestionService ω) (s : CorpusSystem) (e : Event ω) : Prop :=
  ∃ f ∈ s.seeded svc e, ¬s.corpus.Trusted f.origin

instance (s : CorpusSystem) (e : Event ω) : Decidable (s.ForeignFlip e) :=
  inferInstanceAs (Decidable (∃ f ∈ s.flip e, ∃ r ∈ s.corpus.rows.find f.2,
    ∃ c ∈ s.corpus.chunks,
      c.source = f.1 ∧ c.origin ≠ .upload r.upload ∧ ¬s.corpus.Trusted c.origin))

instance (s : CorpusSystem) (e : Event ω) : Decidable (s.UntrustedSeed svc e) :=
  inferInstanceAs (Decidable (∃ f ∈ s.seeded svc e, ¬s.corpus.Trusted f.origin))

theorem not_foreignFlip (h : s.flip e = none) : ¬s.ForeignFlip e := by
  rintro ⟨f, hf, -⟩
  simp [h] at hf

theorem not_untrustedSeed (h : s.seeded svc e = []) : ¬s.UntrustedSeed svc e := by
  rintro ⟨f, hf, -⟩
  simp [h] at hf

/-- The flip keeps only trusted chunks active exactly when it is not foreign : the chunks
of the approved upload are trusted. -/
theorem onlyTrusted_flip_iff (hready : s.Ready) (hs : s.corpus.OnlyTrusted) {c : ℕ} {w : ω}
    {source actor : String} {id : ℕ}
    (hcall : s.calls c = some ⟨.approve source actor, .setIngestionStatus id⟩) :
    (s.corpus.setIngestionStatus source .active).OnlyTrusted ↔
      ¬s.ForeignFlip (.advance c w) := by
  have hflip : s.flip (.advance c w) = some (source, id) := by
    rw [flip, hcall]
    rfl
  obtain ⟨r, hr, happroved⟩ := hready c _ hcall
  rw [Corpus.onlyTrusted_setIngestionStatus_iff hs]
  constructor
  · rintro h ⟨f, hf, -, -, chunk, hchunk, hsource, -, huntrusted⟩
    obtain rfl : (source, id) = f := Option.some.inj (hflip.symm.trans hf)
    exact huntrusted (h chunk hchunk hsource)
  · intro h chunk hchunk hsource
    by_contra huntrusted
    refine h ⟨_, hflip, r, hr, chunk, hchunk, hsource, fun horigin => huntrusted ?_, huntrusted⟩
    rw [horigin]
    exact ⟨r, Table.mem_of_find hr, rfl, happroved⟩

theorem onlyTrusted_init : init.corpus.OnlyTrusted := by
  intro c hc
  simp [init] at hc

/-- A step keeps only trusted chunks active exactly when it is neither of the two. -/
theorem onlyTrusted_step_iff (hready : s.Ready) (hs : s.corpus.OnlyTrusted)
    (h : step svc s e = some s') :
    s'.corpus.OnlyTrusted ↔ ¬s.ForeignFlip e ∧ ¬s.UntrustedSeed svc e := by
  rcases step_cases h with ⟨c, request, rfl, hcorpus, -⟩ |
    ⟨c, w, call, point, rfl, hcall, hadvance, -⟩ | ⟨c, error, call, rfl, -, hcorpus, -⟩ |
    ⟨ws, rfl, -, hcorpus⟩ | ⟨name, content, rfl, -, hcorpus⟩
  · exact iff_of_true (hcorpus ▸ hs) ⟨not_foreignFlip rfl, not_untrustedSeed rfl⟩
  · rcases hflip : call.flip with _ | ⟨source, id⟩
    · have hadv := IngestionService.advances hadvance
      refine iff_of_true (hs.of_active_subset hadv.rows (hadv.chunks hflip))
        ⟨not_foreignFlip ?_, not_untrustedSeed rfl⟩
      rw [flip, hcall]
      exact hflip
    · obtain ⟨actor, rfl⟩ := CorpusCall.flip_eq_some.1 hflip
      simp only [IngestionService.advance, IngestionService.advanceApprove, Option.some.injEq,
        Prod.mk.injEq] at hadvance
      rw [← hadvance.2, onlyTrusted_flip_iff hready hs hcall]
      exact ⟨fun h => ⟨h, not_untrustedSeed rfl⟩, And.left⟩
  · exact iff_of_true (hcorpus ▸ hs) ⟨not_foreignFlip rfl, not_untrustedSeed rfl⟩
  · rw [hcorpus, IngestionService.seedDocs, IngestionService.onlyTrusted_seedLoop_iff ws _ hs]
    constructor
    · intro h
      refine ⟨not_foreignFlip rfl, ?_⟩
      rintro ⟨f, hf, huntrusted⟩
      exact huntrusted (h f hf)
    · rintro ⟨-, h⟩ f hf
      by_contra huntrusted
      exact h ⟨f, hf, huntrusted⟩
  · rw [hcorpus]
    exact iff_of_true hs ⟨not_foreignFlip rfl, not_untrustedSeed rfl⟩

/-! ## Runs -/

/-- Every chunk a run ever makes searchable comes from an approved upload or from a file
placed by other means, exactly when no step is a foreign flip or an untrusted seed. -/
theorem only_trusted_searchable_iff {es : List (Event ω)} {t : CorpusSystem}
    (h : exec (step svc) init es = some t) :
    (∀ pre post u, es = pre ++ post → exec (step svc) init pre = some u →
        u.corpus.OnlyTrusted) ↔
      Along (step svc) (fun s e => ¬s.ForeignFlip e ∧ ¬s.UntrustedSeed svc e) init es :=
  forall_reached_iff_along (fun _ _ _ => ready_step)
    (fun _ _ _ hready hs => onlyTrusted_step_iff hready hs) ready_init onlyTrusted_init h

/-- An approved upload stays the only searchable content when its copy is seeded again. -/
theorem only_trusted_searchable_approvedInTurn :
    ∃ t, exec (step feesService) init (approvedInTurn ++ [.seedDocs fun _ => false]) = some t ∧
      ∀ pre post u, approvedInTurn ++ [.seedDocs fun _ => false] = pre ++ post →
        exec (step feesService) init pre = some u → u.corpus.OnlyTrusted := by
  have ht : exec (step feesService) init
      (approvedInTurn ++ [.seedDocs fun _ => false]) = some _ := rfl
  exact ⟨_, ht, (only_trusted_searchable_iff ht).2 (by decide +kernel)⟩

/-- The scan blocked the upload and its chunks were deleted, but the seed run finds the
copy in the policy folder. -/
theorem blocked_upload_seeded :
    ∃ u, exec (step feesService) init blockedThenSeeded = some u ∧ ¬u.corpus.OnlyTrusted := by
  have hu : exec (step feesService) init blockedThenSeeded = some _ := rfl
  exact ⟨_, hu, by decide +kernel⟩

/-- The event belongs to a `submit`, `approve` or `reject` call. -/
def Event.IsCall : Event ω → Prop
  | .call _ _ | .advance _ _ | .fail _ _ => True
  | .seedDocs _ | .placeFile _ _ => False

/-- Every active chunk belongs to an approved upload. -/
def OnlyApproved (s : CorpusSystem) : Prop :=
  ∀ c ∈ s.corpus.chunks, c.ingestionStatus = .active →
    ∃ u, c.origin = .upload u ∧ s.corpus.UploadApproved u

theorem OnlyApproved.onlyTrusted (h : s.OnlyApproved) : s.corpus.OnlyTrusted := by
  intro c hc hactive
  obtain ⟨u, horigin, hu⟩ := h c hc hactive
  rw [horigin]
  exact hu

theorem onlyApproved_iff (hs : ∀ c ∈ s.corpus.chunks, c.origin ≠ .placed) :
    s.OnlyApproved ↔ s.corpus.OnlyTrusted := by
  refine ⟨OnlyApproved.onlyTrusted, fun h c hc hactive => ?_⟩
  have htrusted := h c hc hactive
  rcases horigin : c.origin with u | _
  · rw [horigin] at htrusted
    exact ⟨u, rfl, htrusted⟩
  · exact absurd horigin (hs c hc)

theorem ne_placed_step (hs : ∀ c ∈ s.corpus.chunks, c.origin ≠ .placed) (hcall : e.IsCall)
    (h : step svc s e = some s') : ∀ c ∈ s'.corpus.chunks, c.origin ≠ .placed := by
  rcases step_cases h with ⟨c, request, rfl, hcorpus, -⟩ |
    ⟨c, w, call, point, rfl, -, hadvance, -⟩ | ⟨c, error, call, rfl, -, hcorpus, -⟩ |
    ⟨ws, rfl, -⟩ | ⟨name, content, rfl, -⟩
  · exact hcorpus ▸ hs
  · exact (IngestionService.advances hadvance).origins hs
  · exact hcorpus ▸ hs
  · exact hcall.elim
  · exact hcall.elim

/-- In a run of calls, every chunk that is ever active belongs to an upload whose own row
was recorded `scan_passed` and then approved, exactly when no step is a foreign flip. -/
theorem quarantine_iff {es : List (Event ω)} {t : CorpusSystem}
    (h : exec (step svc) init es = some t) (hcalls : ∀ e ∈ es, e.IsCall) :
    (∀ pre post u, es = pre ++ post → exec (step svc) init pre = some u → u.OnlyApproved) ↔
      Along (step svc) (fun s e => ¬s.ForeignFlip e) init es := by
  have halong : Along (step svc) (fun s e => ¬s.ForeignFlip e) init es ↔
      Along (step svc) (fun s e => ¬s.ForeignFlip e ∧ ¬s.UntrustedSeed svc e) init es := by
    refine along_congr (fun e he s => ?_) init
    cases e with
    | seedDocs ws => exact (hcalls _ he).elim
    | _ => exact (and_iff_left (not_untrustedSeed rfl)).symm
  rw [halong, ← forall_reached_iff_along (fun _ _ _ => ready_step)
    (fun _ _ _ hready hs => onlyTrusted_step_iff hready hs) ready_init onlyTrusted_init h]
  -- no chunk of such a run was placed, so the two properties agree in every state
  refine forall₅_congr fun pre post u hsplit hu => onlyApproved_iff ?_
  have hpre : Along (step svc) (fun _ e => e.IsCall) init pre :=
    along_of_forall_mem (fun e he _ => hcalls e (hsplit ▸ List.mem_append_left post he)) init
  exact invariant_along (fun _ _ _ => ne_placed_step) (fun c hc => by simp [init] at hc) hpre hu

/-- An approval that nothing overtakes. -/
theorem quarantine_approvedInTurn :
    ∃ t, exec (step feesService) init approvedInTurn = some t ∧
      ∀ pre post u, approvedInTurn = pre ++ post → exec (step feesService) init pre = some u →
        u.OnlyApproved := by
  have ht : exec (step feesService) init approvedInTurn = some _ := rfl
  refine ⟨_, ht, (quarantine_iff ht fun e he => ?_).2 (by decide +kernel)⟩
  revert e
  simp [approvedInTurn, submitFees, approveFees, advances, Event.IsCall]

/-- The approval of the first upload activates the chunks of the second, which has not even
been scanned. -/
theorem overtaken_approval_activates :
    ∃ u, exec (step feesService) init overtakenApproval = some u ∧ ¬u.OnlyApproved := by
  have hu : exec (step feesService) init overtakenApproval = some _ := rfl
  exact ⟨_, hu, fun h => absurd h.onlyTrusted (by decide +kernel)⟩

end CorpusSystem

end EnterpriseRag
