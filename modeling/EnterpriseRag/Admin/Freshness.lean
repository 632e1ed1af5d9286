import EnterpriseRag.Admin.Invalidation
import EnterpriseRag.Rag.CachedGuardrails

/-!
# Cached answers after an approval

An approval lists the cached keys and deletes those. An answer that is written later stays,
and when its call retrieved before the approval activated its chunks (`Straddles`) it is of
the old corpus. It is cached under the old corpus version, but the worker's own snapshot
has that version too until the poller replaces it. In a run where no call that started
after the approval returned can be served such an answer, the cached answers served to those
calls were retrieved after the activation (`fresh_after_approval`).
-/

open Transition

namespace EnterpriseRag

/-- The entries that may be older than the listing, with the invalidation at the point. -/
def InvalidationPoint.Spares (e : CachedAnswer) : InvalidationPoint → Prop
  | .deleteKeys keys => e.key ∈ keys
  | .raised _ => True
  | _ => False

namespace Backend

variable {ω : Type*} {ctl : AdminController ω} {svc : RAGService} {s s' : Backend} {c : ℕ}
  {x : RagCall}

/-- Every cached answer served to a call that started after an approval returned is one that
some call composed and wrote, and that retrieved after the approval activated its chunks. -/
def FreshAfterApproval (svc : RAGService) (s : Backend) : Prop :=
  ∀ c returned activated i x response, s.returnedAt c = some returned →
    s.activatedAt c = some activated → s.serving.calls i = some x → returned < x.startedAt →
    x.program = .pure response → response.cacheHit = true →
    ∃ e w q stages cached retrieved, x.served = some e ∧ s.serving.WrittenBy svc e w q ∧
      svc.modelValidateJson (svc.modelDumpJson (svc.respond q stages)) = .ok cached ∧
      response = { cached with cacheHit := true } ∧
      w.retrievedAt = some retrieved ∧ activated < retrieved

/-- The call retrieved before approval `c` activated its chunks, and wrote after it listed the
keys. -/
def Straddles (s : Backend) (c : ℕ) (w : RagCall) : Prop :=
  ∃ activated retrieved wrote, s.activatedAt c = some activated ∧
    w.retrievedAt = some retrieved ∧ w.wroteAt = some wrote ∧ retrieved ≤ activated ∧
    ∀ listed, s.listedAt c = some listed → listed ≤ wrote

/-- No call that started after an approval returned can be served what a call that straddles
the approval wrote. -/
def StraddlersApart (svc : RAGService) (s : Backend) : Prop :=
  ∀ c returned i x q j w q', s.returnedAt c = some returned → s.serving.calls i = some x →
    returned < x.startedAt → x.Requests svc q → s.serving.calls j = some w →
    w.Requests svc q' → s.Straddles c w → ¬s.serving.MayServe svc q q'

/-! ## The invariant -/

/-- What holds of admin call `c` : once it has listed the keys, the entries that are older are
about to be deleted or are gone. -/
structure ApprovalTimes (ctl : AdminController ω) (s : Backend) (c : ℕ) : Prop where
  idle : s.invalidations c ≠ .bumpCorpusVersion → (s.invalidating ctl c).isSome
  unlisted : s.invalidations c = .bumpCorpusVersion ∨ s.invalidations c = .listKeys →
    s.listedAt c = none
  listed : ∀ t, s.listedAt c = some t → t < s.serving.now ∧
    ∀ e ∈ s.serving.cache.answers, t ≤ e.writtenAt ∨ (s.invalidations c).Spares e
  returned : ∀ t, s.returnedAt c = some t → s.approveReturned ctl c = true

/-- What holds of an answer call : it found no entry older than the listing of an approval
that returned before it started. -/
structure AnswerTimes (s : Backend) (x : RagCall) : Prop where
  started : x.startedAt < s.serving.now
  served : ∀ e, x.served = some e → ∀ c returned listed, s.returnedAt c = some returned →
    returned < x.startedAt → s.listedAt c = some listed → listed ≤ e.writtenAt

structure Timely (ctl : AdminController ω) (svc : RAGService) (s : Backend) : Prop where
  sound : s.serving.Sound svc
  approvals : ∀ c, s.ApprovalTimes ctl c
  answers : ∀ i x, s.serving.calls i = some x → s.AnswerTimes x

theorem approveReturned_congr (hcall : s'.corpus.calls c = s.corpus.calls c)
    (hinvalidation : s'.invalidations c = s.invalidations c) :
    s'.approveReturned ctl c = s.approveReturned ctl c := by
  rw [approveReturned, approveReturned, hcall, hinvalidation]

/-- Only newer entries were added, and call `c` did not move. -/
theorem ApprovalTimes.mono (h : s.ApprovalTimes ctl c)
    (hcall : s'.corpus.calls c = s.corpus.calls c)
    (hinvalidation : s'.invalidations c = s.invalidations c)
    (hlisted : s'.listedAt c = s.listedAt c) (hreturned : s'.returnedAt c = s.returnedAt c)
    (hnow : s.serving.now ≤ s'.serving.now)
    (hanswers : ∀ e ∈ s'.serving.cache.answers,
      e ∈ s.serving.cache.answers ∨ s.serving.now ≤ e.writtenAt) : s'.ApprovalTimes ctl c where
  idle hne := by
    rw [invalidating_congr hcall]
    exact h.idle (hinvalidation ▸ hne)
  unlisted hpoint := hlisted.trans (h.unlisted (hinvalidation ▸ hpoint))
  listed t ht := by
    obtain ⟨hlt, hold⟩ := h.listed t (hlisted ▸ ht)
    refine ⟨hlt.trans_le hnow, fun e he => ?_⟩
    rw [hinvalidation]
    rcases hanswers e he with he | he
    · exact hold e he
    · exact Or.inl (hlt.le.trans he)
  returned t ht := by
    rw [approveReturned_congr hcall hinvalidation]
    exact h.returned t (hreturned ▸ ht)

/-- No approval that returned before the call started, or listed keys, is new. -/
theorem AnswerTimes.mono (h : s.AnswerTimes x) (hnow : s.serving.now ≤ s'.serving.now)
    (hold : ∀ c returned listed, s'.returnedAt c = some returned → returned < s.serving.now →
      s'.listedAt c = some listed → s.returnedAt c = some returned ∧ s.listedAt c = some listed) :
    s'.AnswerTimes x where
  started := h.started.trans_le hnow
  served e he c returned listed hreturned hlt hlisted := by
    obtain ⟨hreturned, hlisted⟩ := hold c returned listed hreturned (hlt.trans h.started) hlisted
    exact h.served e he c returned listed hreturned hlt hlisted

/-- After an approval that returned, every entry is newer than its listing. -/
theorem ApprovalTimes.le_writtenAt (h : s.ApprovalTimes ctl c) {returned listed : ℕ}
    (hreturned : s.returnedAt c = some returned) (hlisted : s.listedAt c = some listed)
    {e : CachedAnswer} (he : e ∈ s.serving.cache.answers) : listed ≤ e.writtenAt := by
  have hover := h.returned returned hreturned
  rw [approveReturned] at hover
  split at hover
  · rw [Bool.or_eq_true, decide_eq_true_eq] at hover
    rcases hover with hrepository | hpoint
    · -- without a repository nothing was listed
      have hpoint : s.invalidations c = .bumpCorpusVersion := by
        by_contra hne
        have hsome := h.idle hne
        rw [invalidating] at hsome
        split at hsome
        · simp_all
        · cases hsome
      rw [h.unlisted (Or.inl hpoint)] at hlisted
      cases hlisted
    · rcases (h.listed listed hlisted).2 e he with hle | hspares
      · exact hle
      · rw [hpoint] at hspares
        exact hspares.elim
  · cases hover

/-! ## Steps -/

theorem exists_noteReturn (ctl : AdminController ω) (s : Backend) (c now : ℕ) :
    ∃ returnedAt, s.noteReturn ctl c now = { s with returnedAt } ∧
      (∀ c' ≠ c, returnedAt c' = s.returnedAt c') ∧
      ∀ t, returnedAt c = some t →
        s.returnedAt c = some t ∨ t = now ∧ s.approveReturned ctl c = true := by
  rw [noteReturn]
  split
  · rename_i hreturned
    refine ⟨_, rfl, fun c' hc => Function.update_of_ne hc .., fun t ht => Or.inr ⟨?_, hreturned⟩⟩
    rw [Function.update_self] at ht
    exact (Option.some.inj ht).symm
  · exact ⟨_, rfl, fun _ _ => rfl, fun t ht => Or.inl ht⟩

/-- A call that has returned takes no further step. -/
theorem ApprovalTimes.returnedAt_eq_none (h : s.ApprovalTimes ctl c)
    (hover : s.approveReturned ctl c = false) : s.returnedAt c = none := by
  cases hreturned : s.returnedAt c with
  | none => rfl
  | some t =>
    rw [h.returned t hreturned] at hover
    exact nomatch hover

theorem approveReturned_of_invalidating {source actor : String}
    (hcall : s.invalidating ctl c = some (source, actor)) :
    s.approveReturned ctl c = decide (s.invalidations c = .returned) := by
  rw [invalidating] at hcall
  rw [approveReturned]
  split at hcall
  · split at hcall
    · simp_all
    · cases hcall
  · cases hcall

theorem approveReturned_of_not_isOver {call : CorpusCall} (hcall : s.corpus.calls c = some call)
    (hover : call.point.isOver = false) : s.approveReturned ctl c = false := by
  rw [approveReturned, hcall]
  split
  · rename_i heq
    obtain rfl := Option.some.inj heq
    exact nomatch hover
  · rfl

theorem timely_serve {serving : Serving} {e : Serving.Event} (hs : s.Timely ctl svc)
    (h : s.serving.step svc e = some serving) : Timely ctl svc { s with serving } := by
  have hnow : serving.now = s.serving.now + 1 := by
    rcases Serving.step_cases h with ⟨c, args, -, -, rfl⟩ | ⟨c, reply, landed, x, op, k, -, -, -, rfl⟩ |
      ⟨hnow, -⟩
    · rfl
    · rfl
    · exact hnow
  have hle : s.serving.now ≤ serving.now := by omega
  have hanswers : ∀ e ∈ serving.cache.answers,
      e ∈ s.serving.cache.answers ∨ s.serving.now ≤ e.writtenAt := by
    intro e he
    rcases Serving.step_cases h with ⟨c, args, -, -, rfl⟩ | ⟨c, reply, landed, x, op, k, -, -, -, rfl⟩ |
      ⟨-, -, hsubset, -⟩
    · exact Or.inl he
    · rcases AnswerCache.mem_answers_after he with he | ⟨key, value, -, rfl⟩
      · exact Or.inl he
      · exact Or.inr le_rfl
    · exact Or.inl (hsubset e he)
  have hkept : ∀ i x, s.serving.calls i = some x → AnswerTimes { s with serving } x := fun i x hx =>
    (hs.answers i x hx).mono hle fun c returned listed hreturned _ hlisted => ⟨hreturned, hlisted⟩
  refine ⟨Serving.sound_step hs.sound h, fun c => ?_, fun i x hx => ?_⟩
  · exact (hs.approvals c).mono rfl rfl rfl rfl hle hanswers
  · rcases Serving.step_cases h with ⟨c, args, -, -, rfl⟩ |
      ⟨c, reply, landed, y, op, k, -, hy, hprogram, rfl⟩ | ⟨-, hcalls, -⟩
    · rcases Serving.mem_update hx with ⟨-, rfl⟩ | hx
      · exact ⟨Nat.lt_succ_self _, fun _ he => nomatch he⟩
      · exact hkept i x hx
    · rcases Serving.mem_update hx with ⟨-, rfl⟩ | hx
      · have hpermits := (hs.sound.calls c y hy).permits
        rw [hprogram] at hpermits
        have hyx := (hs.sound.calls c y hy).extends_performed
          (r := s.serving.cache.respond op (reply op)) (k := k) hpermits.1
        have hbefore := hkept c y hy
        refine ⟨hyx.startedAt ▸ hbefore.started, fun e he c' returned listed hreturned hlt hlisted => ?_⟩
        rcases Serving.served_performed (s := s.serving) (x := y) (k := k) (reply op) with
          ⟨hsame, -⟩ | ⟨key, e', -, hmem, -, hserved, -⟩
        · exact hbefore.served e (hsame ▸ he) c' returned listed hreturned (hyx.startedAt ▸ hlt) hlisted
        · obtain rfl : e' = e := Option.some.inj (hserved.symm.trans he)
          exact (hs.approvals c').le_writtenAt hreturned hlisted hmem
      · exact hkept i x hx
    · exact hkept i x (hcalls ▸ hx)

/-- `s'` is `s` after a step of admin call `c`, as far as the others can tell. -/
structure Steps (s s' : Backend) (c : ℕ) : Prop where
  now : s'.serving.now = s.serving.now + 1
  calls : s'.serving.calls = s.serving.calls
  answers : ∀ e ∈ s'.serving.cache.answers, e ∈ s.serving.cache.answers
  points : ∀ p ∈ s'.serving.cache.points, p ∈ s.serving.cache.points
  others : ∀ c' ≠ c, s'.corpus.calls c' = s.corpus.calls c' ∧
    s'.invalidations c' = s.invalidations c' ∧ s'.listedAt c' = s.listedAt c' ∧
    s'.returnedAt c' = s.returnedAt c'
  own : ∀ returned, s'.returnedAt c = some returned → returned < s.serving.now →
    s.returnedAt c = some returned ∧ s'.listedAt c = s.listedAt c

theorem Steps.timely (hs : s.Timely ctl svc) (h : s.Steps s' c) (hc : s'.ApprovalTimes ctl c) :
    s'.Timely ctl svc := by
  have hle : s.serving.now ≤ s'.serving.now := by
    rw [h.now]
    exact Nat.le_succ _
  refine ⟨hs.sound.shrink h.now h.calls h.answers h.points, fun c' => ?_, fun i x hx => ?_⟩
  · by_cases hcc : c' = c
    · exact hcc ▸ hc
    · obtain ⟨hcall, hinvalidation, hlisted, hreturned⟩ := h.others c' hcc
      exact (hs.approvals c').mono hcall hinvalidation hlisted hreturned hle
        fun e he => Or.inl (h.answers e he)
  · refine (hs.answers i x (h.calls ▸ hx)).mono hle fun c' returned listed hreturned hlt hlisted => ?_
    by_cases hcc : c' = c
    · subst hcc
      obtain ⟨hreturned, hsame⟩ := h.own returned hreturned hlt
      exact ⟨hreturned, hsame ▸ hlisted⟩
    · obtain ⟨-, -, hlisted', hreturned'⟩ := h.others c' hcc
      exact ⟨hreturned' ▸ hreturned, hlisted' ▸ hlisted⟩

/-- What a step of the invalidation does to the entries. -/
theorem spares_of_invalidate {source actor : String} {now : Timestamp} {db db' : RagOpsStore}
    {cache cache' : AnswerCache} {p point : InvalidationPoint}
    (h : ctl.invalidate source actor now db cache p = some (point, db', cache')) :
    (∀ e ∈ cache'.answers, e ∈ cache.answers) ∧ (∀ q ∈ cache'.points, q ∈ cache.points) ∧
      point ≠ .bumpCorpusVersion ∧ (point = .listKeys → p = .bumpCorpusVersion) ∧
      (p ≠ .bumpCorpusVersion → ∀ e ∈ cache'.answers, p = .listKeys ∨ p.Spares e →
        point.Spares e) := by
  have hsame : (∀ e ∈ cache.answers, e ∈ cache.answers) ∧ ∀ q ∈ cache.points, q ∈ cache.points :=
    ⟨fun _ h => h, fun _ h => h⟩
  have hnext : ∀ b : Bool, (if b then InvalidationPoint.clearSemantic
      else .recordCacheInvalidation) ≠ .bumpCorpusVersion ∧ (if b then InvalidationPoint.clearSemantic
      else .recordCacheInvalidation) ≠ .listKeys := by
    intro b
    cases b <;> exact ⟨by simp, by simp⟩
  cases p with
  | bumpCorpusVersion =>
    simp only [AdminController.invalidate] at h
    split at h <;> simp only [Option.some.injEq, Prod.mk.injEq] at h <;>
      obtain ⟨rfl, -, rfl⟩ := h <;>
      exact ⟨hsame.1, hsame.2, by simp, fun _ => rfl, fun hne => absurd rfl hne⟩
  | listKeys =>
    simp only [AdminController.invalidate, Option.some.injEq, Prod.mk.injEq] at h
    obtain ⟨rfl, -, rfl⟩ := h
    split
    · exact ⟨hsame.1, hsame.2, by simp, by simp, fun _ e he _ => List.mem_map_of_mem he⟩
    · rename_i hnone
      have hempty : cache.answers = [] := by simpa using hnone
      refine ⟨hsame.1, hsame.2, (hnext _).1, fun heq => absurd heq (hnext _).2, fun _ e he => ?_⟩
      rw [hempty] at he
      cases he
  | deleteKeys keys =>
    simp only [AdminController.invalidate, Option.some.injEq, Prod.mk.injEq] at h
    obtain ⟨rfl, -, rfl⟩ := h
    refine ⟨fun e he => (List.mem_filter.1 he).1, hsame.2, (hnext _).1,
      fun heq => absurd heq (hnext _).2, fun _ e he hspares => ?_⟩
    rcases hspares with heq | hkey
    · cases heq
    · simpa using (of_decide_eq_true (List.mem_filter.1 he).2) hkey
  | clearSemantic =>
    simp only [AdminController.invalidate, Option.some.injEq, Prod.mk.injEq] at h
    obtain ⟨rfl, -, rfl⟩ := h
    refine ⟨hsame.1, (fun _ hq => by cases hq), by simp, by simp, fun _ e _ hspares => ?_⟩
    rcases hspares with heq | hspares
    · cases heq
    · exact hspares.elim
  | recordCacheInvalidation =>
    simp only [AdminController.invalidate, Option.some.injEq, Prod.mk.injEq] at h
    obtain ⟨rfl, -, rfl⟩ := h
    refine ⟨hsame.1, hsame.2, by simp, by simp, fun _ e _ hspares => ?_⟩
    rcases hspares with heq | hspares
    · cases heq
    · exact hspares.elim
  | returned => cases h
  | raised error => cases h

/-- A step of the invalidation of an approval. -/
theorem timely_invalidate {w : ω} {source actor : String} {point : InvalidationPoint}
    {db : RagOpsStore} {cache : AnswerCache} (hs : s.Timely ctl svc)
    (hcall : s.invalidating ctl c = some (source, actor))
    (h : ctl.invalidate source actor (ctl.ingestion.dbNow w) s.db s.serving.cache
      (s.invalidations c) = some (point, db, cache)) :
    ((s.invalidated c point db cache).noteReturn ctl c s.serving.now).Timely ctl svc := by
  obtain ⟨returnedAt, hnote, hothers, hown⟩ :=
    exists_noteReturn ctl (s.invalidated c point db cache) c s.serving.now
  rw [hnote]
  have hopen : s.returnedAt c = none := by
    refine (hs.approvals c).returnedAt_eq_none ?_
    rw [approveReturned_of_invalidating hcall, decide_eq_false_iff_not]
    intro hreturned
    rw [hreturned] at h
    exact nomatch h
  obtain ⟨hanswers, hpoints, hbump, hlist, hspares⟩ := spares_of_invalidate h
  have hlistedAt : ∀ c' ≠ c, (s.invalidated c point db cache).listedAt c' = s.listedAt c' := by
    intro c' hc
    by_cases hlisting : s.invalidations c = .listKeys
    · rw [show (s.invalidated c point db cache).listedAt = Function.update _ _ _ from if_pos hlisting]
      exact Function.update_of_ne hc ..
    · rw [show (s.invalidated c point db cache).listedAt = s.listedAt from if_neg hlisting]
  have hpoint : (s.invalidated c point db cache).invalidations c = point := Function.update_self ..
  refine Steps.timely (c := c) hs ⟨rfl, rfl, hanswers, hpoints, fun c' hc => ⟨rfl, ?_, ?_, ?_⟩,
    fun returned hreturned hlt => ?_⟩ ⟨fun _ => ?_, fun hearly => ?_, fun t ht => ?_, fun t ht => ?_⟩
  · exact Function.update_of_ne hc ..
  · exact hlistedAt c' hc
  · exact hothers c' hc
  · rcases hown returned hreturned with hbefore | ⟨rfl, -⟩
    · exact nomatch hopen.symm.trans hbefore
    · exact absurd hlt (Nat.lt_irrefl _)
  · show (s.invalidating ctl c).isSome
    rw [hcall]
    rfl
  · have hfirst : s.invalidations c = .bumpCorpusVersion := by
      rcases hearly with hearly | hearly
      · exact absurd (hpoint.symm.trans hearly) hbump
      · exact hlist (hpoint.symm.trans hearly)
    show (s.invalidated c point db cache).listedAt c = none
    rw [show (s.invalidated c point db cache).listedAt = s.listedAt from
      if_neg (by rw [hfirst]; exact nofun)]
    exact (hs.approvals c).unlisted (Or.inl hfirst)
  · show t < s.serving.now + 1 ∧ ∀ e ∈ cache.answers, t ≤ e.writtenAt ∨
      ((s.invalidated c point db cache).invalidations c).Spares e
    rw [hpoint]
    change (s.invalidated c point db cache).listedAt c = some t at ht
    by_cases hlisting : s.invalidations c = .listKeys
    · rw [show (s.invalidated c point db cache).listedAt = Function.update _ _ _ from
        if_pos hlisting, Function.update_self] at ht
      obtain rfl := Option.some.inj ht
      refine ⟨Nat.lt_succ_self _, fun e he => Or.inr ?_⟩
      exact hspares (by rw [hlisting]; exact nofun) e he (Or.inl hlisting)
    · rw [show (s.invalidated c point db cache).listedAt = s.listedAt from if_neg hlisting] at ht
      obtain ⟨hlt, hold⟩ := (hs.approvals c).listed t ht
      have hlate : s.invalidations c ≠ .bumpCorpusVersion := by
        intro hfirst
        rw [(hs.approvals c).unlisted (Or.inl hfirst)] at ht
        exact nomatch ht
      refine ⟨hlt.trans (Nat.lt_succ_self _), fun e he => ?_⟩
      exact (hold e (hanswers e he)).imp_right fun hspared => hspares hlate e he (Or.inr hspared)
  · rcases hown t ht with hbefore | ⟨-, hreturned⟩
    · exact nomatch hopen.symm.trans hbefore
    · exact hreturned

/-- A step of an admin call in the ingestion service. -/
theorem timely_ingest {w : ω} {corpus : CorpusSystem} (hs : s.Timely ctl svc)
    (hcall : s.invalidating ctl c = none)
    (h : s.corpus.step ctl.ingestion (.advance c w) = some corpus) :
    ((s.ingested c corpus).noteReturn ctl c s.serving.now).Timely ctl svc := by
  obtain ⟨returnedAt, hnote, hothers, hown⟩ :=
    exists_noteReturn ctl (s.ingested c corpus) c s.serving.now
  rw [hnote]
  obtain ⟨call, point, hc, hadvance, -, hrest⟩ := calls_of_advance h
  have hopen : s.returnedAt c = none :=
    (hs.approvals c).returnedAt_eq_none (approveReturned_of_not_isOver hc
      (IngestionService.stepsTo_of_advance hadvance).isOver_eq_false)
  have hfirst : s.invalidations c = .bumpCorpusVersion := by
    by_contra hne
    simpa [hcall] using (hs.approvals c).idle hne
  have hunlisted := (hs.approvals c).unlisted (Or.inl hfirst)
  refine Steps.timely (c := c) hs ⟨rfl, rfl, fun _ he => he, fun _ hp => hp,
    fun c' hc => ⟨hrest c' hc, rfl, rfl, hothers c' hc⟩, fun returned hreturned hlt => ?_⟩
    ⟨fun hne => absurd hfirst hne, fun _ => hunlisted, fun t ht => ?_, fun t ht => ?_⟩
  · rcases hown returned hreturned with hbefore | ⟨rfl, -⟩
    · exact nomatch hopen.symm.trans hbefore
    · exact absurd hlt (Nat.lt_irrefl _)
  · exact nomatch hunlisted.symm.trans ht
  · rcases hown t ht with hbefore | ⟨-, hreturned⟩
    · exact nomatch hopen.symm.trans hbefore
    · exact hreturned

/-- A step of the poller. -/
theorem timely_poll (hs : s.Timely ctl svc) (worker : Worker) :
    Timely ctl svc { s.tick with worker } := by
  refine ⟨hs.sound.shrink rfl rfl (fun _ he => he) fun _ hp => hp, fun c => ?_, fun i x hx => ?_⟩
  · exact (hs.approvals c).mono rfl rfl rfl rfl (Nat.le_succ _) fun _ he => Or.inl he
  · exact (hs.answers i x hx).mono (Nat.le_succ _) fun _ _ _ hreturned _ hlisted =>
      ⟨hreturned, hlisted⟩

theorem timely_step {e : Event ω} (hs : s.Timely ctl svc) (h : step ctl svc s e = some s') :
    s'.Timely ctl svc := by
  cases moves_of_step h with
  | @request c request corpus hcorpus =>
    obtain ⟨hnone, hrest⟩ := calls_of_request hcorpus
    have hcall : s.invalidating ctl c = none := by rw [invalidating, hnone]
    have hfirst : s.invalidations c = .bumpCorpusVersion := by
      by_contra hne
      simpa [hcall] using (hs.approvals c).idle hne
    have hunlisted := (hs.approvals c).unlisted (Or.inl hfirst)
    have hopen : s.returnedAt c = none :=
      (hs.approvals c).returnedAt_eq_none (by rw [approveReturned, hnone])
    refine Steps.timely (c := c) hs ⟨rfl, rfl, fun _ he => he, fun _ hp => hp,
      fun c' hc => ⟨hrest c' hc, rfl, rfl, rfl⟩, fun _ hreturned _ => ⟨hreturned, rfl⟩⟩
      ⟨fun hne => absurd hfirst hne, fun _ => hunlisted, fun t ht => ?_, fun t ht => ?_⟩
    · cases hunlisted.symm.trans ht
    · cases hopen.symm.trans ht
  | @invalidate c w source actor point db cache hcall hinvalidate =>
    exact timely_invalidate hs hcall hinvalidate
  | @ingest c w corpus hcall hcorpus => exact timely_ingest hs hcall hcorpus
  | @failInvalidation c error hcall hover =>
    obtain ⟨⟨source, actor⟩, hsome⟩ := Option.isSome_iff_exists.1 hcall
    have hopen : s.returnedAt c = none := by
      refine (hs.approvals c).returnedAt_eq_none ?_
      rw [approveReturned_of_invalidating hsome, decide_eq_false_iff_not]
      intro hreturned
      rw [hreturned] at hover
      cases hover
    have hraised : Function.update s.invalidations c (.raised error) c = .raised error :=
      Function.update_self ..
    refine Steps.timely (c := c) hs ⟨rfl, rfl, fun _ he => he, fun _ hp => hp,
      fun c' hc => ⟨rfl, Function.update_of_ne hc .., rfl, rfl⟩,
      fun _ hreturned _ => ⟨hreturned, rfl⟩⟩ ⟨fun _ => hcall, fun hearly => ?_, fun t ht => ?_,
      fun t ht => ?_⟩
    · rcases hearly with hearly | hearly
      · cases hraised.symm.trans hearly
      · cases hraised.symm.trans hearly
    · refine ⟨((hs.approvals c).listed t ht).1.trans (Nat.lt_succ_self _), fun e _ => Or.inr ?_⟩
      show (Function.update s.invalidations c (.raised error) c).Spares e
      rw [hraised]
      trivial
    · cases hopen.symm.trans ht
  | @failIngestion c error corpus hcall hcorpus =>
    have hfirst : s.invalidations c = .bumpCorpusVersion := by
      by_contra hne
      simpa [hcall] using (hs.approvals c).idle hne
    have hunlisted := (hs.approvals c).unlisted (Or.inl hfirst)
    obtain ⟨⟨call, hc, hover⟩, hrest⟩ := calls_of_fail hcorpus
    have hopen : s.returnedAt c = none :=
      (hs.approvals c).returnedAt_eq_none (approveReturned_of_not_isOver hc hover)
    refine Steps.timely (c := c) hs ⟨rfl, rfl, fun _ he => he, fun _ hp => hp,
      fun c' hc => ⟨hrest c' hc, rfl, rfl, rfl⟩,
      fun _ hreturned _ => ⟨hreturned, rfl⟩⟩
      ⟨fun hne => absurd hfirst hne, fun _ => hunlisted, fun t ht => ?_, fun t ht => ?_⟩
    · cases hunlisted.symm.trans ht
    · cases hopen.symm.trans ht
  | serve hserving => exact timely_serve hs hserving
  | pollRead => exact timely_poll hs _
  | pollCompare => exact timely_poll hs _

theorem timely_idle (corpus : Corpus) (db : RagOpsStore) (current : RagRuntimeConfig) :
    (idle corpus db current).Timely ctl svc where
  sound := Serving.sound_init
  approvals _ := ⟨fun hne => absurd rfl hne, fun _ => rfl, (fun _ ht => nomatch ht),
    fun _ ht => nomatch ht⟩
  answers _ _ hx := nomatch hx

/-- In every run in which no call started after an approval returned can be served what a
call that straddles it wrote, cached answers are fresh after an approval. -/
theorem fresh_after_approval {corpus : Corpus} {db : RagOpsStore} {current : RagRuntimeConfig}
    {es : List (Event ω)} {t : Backend}
    (h : exec (step ctl svc) (idle corpus db current) es = some t)
    (hapart : t.StraddlersApart svc) : t.FreshAfterApproval svc := by
  have ht : t.Timely ctl svc :=
    invariant (fun _ _ _ hs hstep => timely_step hs hstep) (timely_idle corpus db current) h
  intro c returned activated i x response hreturned hactivated hx hlt hresponse hhit
  obtain ⟨q, e, w, q', stages, cached, hq, he, hw, hserve, hcached, hsame⟩ :=
    ht.sound.exists_writer hx hresponse hhit
  obtain ⟨retrieved, hretrieved⟩ := Option.isSome_iff_exists.1 hw.retrieved
  obtain ⟨wrote, hwrote, hle⟩ := hw.wrote
  refine ⟨e, w, q', stages, cached, retrieved, he, hw, hcached, hsame, hretrieved, ?_⟩
  by_contra hbefore
  refine hapart c returned i x q e.writer w q' hreturned hx hlt hq hw.writer hw.request ?_ hserve
  refine ⟨activated, retrieved, wrote, hactivated, hretrieved, hwrote, not_lt.1 hbefore, ?_⟩
  intro listed hlisted
  exact ((ht.answers i x hx).served e he c returned listed hreturned hlt hlisted).trans hle

/-! ## An approval at the desk -/

/-- A call of a run was started in it. -/
theorem exists_start {corpus : Corpus} {db : RagOpsStore} {current : RagRuntimeConfig}
    {es : List (Event ω)} {t : Backend} {i : ℕ}
    (h : exec (step ctl svc) (idle corpus db current) es = some t)
    (hx : t.serving.calls i = some x) : ∃ args, .serve (.start i args) ∈ es := by
  have hstarted : ∀ i x, t.serving.calls i = some x → ∃ args, .serve (.start i args) ∈ es := by
    refine invariant_along (I := fun s : Backend => ∀ i x, s.serving.calls i = some x →
      ∃ args, .serve (.start i args) ∈ es) (P := fun _ e => e ∈ es) ?_
      (fun i x hx => by simp [idle, Serving.init] at hx) (along_of_forall_mem (fun e he _ => he) _) h
    intro s e s' hs he hstep i x hx
    cases moves_of_step hstep with
    | serve hserving =>
      rename_i e serving
      rcases Serving.step_cases hserving with ⟨c, args, hreads, -, rfl⟩ |
        ⟨c, reply, landed, y, op, k, -, hy, -, rfl⟩ | ⟨-, hcalls, -⟩
      · rcases Serving.mem_update hx with ⟨rfl, -⟩ | hx
        · cases e with
          | start c' args' =>
            obtain ⟨rfl, rfl⟩ : c' = i ∧ args' = args := by simpa [reads] using hreads
            exact ⟨args', he⟩
          | _ => simp [reads] at hreads
        · exact hs i x hx
      · rcases Serving.mem_update hx with ⟨rfl, -⟩ | hx
        · exact hs i y hy
        · exact hs i x hx
      · exact hs i x (hcalls ▸ hx)
    | @invalidate c w source actor point db cache _ _ =>
      obtain ⟨returnedAt, hnote, -⟩ :=
        exists_noteReturn ctl (s.invalidated c point db cache) c s.serving.now
      rw [hnote] at hx
      exact hs i x hx
    | @ingest c w corpus _ _ =>
      obtain ⟨returnedAt, hnote, -⟩ := exists_noteReturn ctl (s.ingested c corpus) c s.serving.now
      rw [hnote] at hx
      exact hs i x hx
    | _ => exact hs i x hx
  exact hstarted i x hx

/-- An approval that has returned in a run took a step in it. -/
theorem exists_advance {corpus : Corpus} {db : RagOpsStore} {current : RagRuntimeConfig}
    {es : List (Event ω)} {t : Backend} {returned : ℕ}
    (h : exec (step ctl svc) (idle corpus db current) es = some t)
    (hreturned : t.returnedAt c = some returned) : ∃ w, .advance c w ∈ es := by
  have hadvanced : ∀ c, (t.returnedAt c).isSome → ∃ w, .advance c w ∈ es := by
    refine invariant_along (I := fun s : Backend => ∀ c, (s.returnedAt c).isSome →
      ∃ w, .advance c w ∈ es) (P := fun _ e => e ∈ es) ?_
      (fun c hc => by simp [idle] at hc) (along_of_forall_mem (fun e he _ => he) _) h
    intro s e s' hs he hstep c' hc'
    cases moves_of_step hstep with
    | @invalidate c w source actor point db cache _ _ =>
      obtain ⟨returnedAt, hnote, hothers, -⟩ :=
        exists_noteReturn ctl (s.invalidated c point db cache) c s.serving.now
      rw [hnote] at hc'
      by_cases hc : c' = c
      · exact hc ▸ ⟨w, he⟩
      · exact hs c' (hothers c' hc ▸ hc')
    | @ingest c w corpus _ _ =>
      obtain ⟨returnedAt, hnote, hothers, -⟩ :=
        exists_noteReturn ctl (s.ingested c corpus) c s.serving.now
      rw [hnote] at hc'
      by_cases hc : c' = c
      · exact hc ▸ ⟨w, he⟩
      · exact hs c' (hothers c' hc ▸ hc')
    | _ => exact hs c' hc'
  exact hadvanced c (by simp [hreturned])

/-- The chunk of the fees. -/
def feeChunk : RetrievedChunk :=
  ⟨"The fee is 5.", "fees.pdf", 9 / 10, some 1⟩

/-- What the surroundings answer when the chunks are found. -/
def feeDay (chunks : List RetrievedChunk) : RagOracle :=
  deskDay deskConfig chunks [] (if chunks = [] then "I do not know." else "The fee is 5.")

/-- The response the desk composes from the chunks. -/
def composedFrom (chunks : List RetrievedChunk) : Except Raised RagChatResponse :=
  (Program.run (feeDay chunks) [] (desk.answer feesCall)).1

/-- The desk with a cache that knows its two responses. -/
def feeDesk : RAGService :=
  { desk with
    modelDumpJson := fun response => if response.finalEvidence = [] then "unknown" else "fee"
    modelValidateJson := fun raw => composedFrom (if raw = "unknown" then [] else [feeChunk]) }

/-- Call `c` runs its next `n` operations, and finds the chunks. -/
def served (c n : ℕ) (chunks : List RetrievedChunk) : List (Event Bool) :=
  List.replicate n (.serve (.perform c (feeDay chunks []) false))

/-- A call, the approval, and two more calls in turn. -/
def answersInTurn : List (Event Bool) :=
  .serve (.start 0 feesCall) :: served 0 6 [] ++ approval ++ .advance 1 false ::
    .serve (.start 1 feesCall) :: served 1 6 [feeChunk] ++
    .serve (.start 2 feesCall) :: served 2 2 [feeChunk]

/-- A call that has retrieved when the approval starts, and writes when it has returned. Another
call follows. -/
def answerAcross : List (Event Bool) :=
  .serve (.start 0 feesCall) :: served 0 4 [] ++ approval ++ served 0 2 [] ++
    .serve (.start 1 feesCall) :: served 1 2 [feeChunk]

/-- What a call made of a run : when it started, retrieved and wrote, who wrote what it found, and
whether it returned a hit, and on how much evidence. -/
structure Outcome where
  startedAt : ℕ
  retrievedAt : Option ℕ
  wroteAt : Option ℕ
  writer : Option ℕ
  returned : Option (Bool × ℕ)
  deriving DecidableEq

def outcome (s : Backend) (i : ℕ) : Option Outcome :=
  (s.serving.calls i).map fun x => ⟨x.startedAt, x.retrievedAt, x.wroteAt, x.served.map (·.writer),
    match x.program with
    | .pure response => some (response.cacheHit, response.finalEvidence.length)
    | _ => none⟩

theorem exists_outcome {s : Backend} {i : ℕ} {o : Outcome} {returned : Bool × ℕ}
    (h : s.outcome i = some o) (ho : o.returned = some returned) :
    ∃ x response, s.serving.calls i = some x ∧ x.program = .pure response ∧
      x.startedAt = o.startedAt ∧ x.retrievedAt = o.retrievedAt ∧ x.wroteAt = o.wroteAt ∧
      x.served.map (·.writer) = o.writer ∧
      (response.cacheHit, response.finalEvidence.length) = returned := by
  obtain ⟨x, hx, rfl⟩ := Option.map_eq_some_iff.1 h
  dsimp only at ho
  split at ho
  · rename_i response hprogram
    exact ⟨x, response, hx, hprogram, rfl, rfl, rfl, rfl, Option.some.inj ho⟩
  · exact nomatch ho

/-- The first call wrote before the approval listed the keys, the second retrieved after it
activated its chunks, and the third wrote nothing. -/
theorem fresh_after_approval_inTurn : ∃ t,
    exec (step feesAdmin feeDesk) (deployed CorpusSystem.pendingFees) answersInTurn = some t ∧
      t.returnedAt 1 = some 16 ∧
      t.outcome 2 = some ⟨24, none, none, some 1, some (true, 1)⟩ ∧
      t.FreshAfterApproval feeDesk := by
  have hend : ((exec (step feesAdmin feeDesk) (deployed CorpusSystem.pendingFees)
      answersInTurn).map fun t => ([t.returnedAt 1, t.listedAt 1, t.activatedAt 1],
        [t.outcome 0, t.outcome 1, t.outcome 2])) =
      some ([some 16, some 13, some 10],
        [some ⟨0, some 4, some 6, none, some (false, 0)⟩,
          some ⟨17, some 21, some 23, none, some (false, 1)⟩,
          some ⟨24, none, none, some 1, some (true, 1)⟩]) := by
    decide +kernel
  obtain ⟨t, ht, hfields⟩ := Option.map_eq_some_iff.1 hend
  simp only [Prod.mk.injEq, List.cons.injEq, and_true] at hfields
  obtain ⟨⟨hreturned, hlisted, hactivated⟩, h0, h1, h2⟩ := hfields
  refine ⟨t, ht, hreturned, h2, fresh_after_approval ht ?_⟩
  rintro c returned' i x q j w q' hreturned' - - - hw -
    ⟨activated, retrieved, wrote, hactivated', hretrieved, hwrote, hle, hlate⟩
  exfalso
  have hc : c = 1 := by
    obtain ⟨e, he⟩ := exists_advance ht hreturned'
    have hmem : c = 1 ∧ e = false := by simpa [answersInTurn, approval, served] using he
    exact hmem.1
  subst hc
  have hj : j = 0 ∨ j = 1 ∨ j = 2 := by
    obtain ⟨args, he⟩ := exists_start ht hw
    simp [answersInTurn, approval, served] at he
    omega
  obtain rfl := Option.some.inj (hactivated.symm.trans hactivated')
  rcases hj with rfl | rfl | rfl
  · obtain ⟨w', -, hw', -, -, -, hwrote', -⟩ := exists_outcome h0 rfl
    obtain rfl := Option.some.inj (hw.symm.trans hw')
    obtain rfl := Option.some.inj (hwrote.symm.trans hwrote')
    exact absurd (hlate 13 hlisted) (by decide)
  · obtain ⟨w', -, hw', -, -, hretrieved', -⟩ := exists_outcome h1 rfl
    obtain rfl := Option.some.inj (hw.symm.trans hw')
    obtain rfl := Option.some.inj (hretrieved.symm.trans hretrieved')
    exact absurd hle (by decide)
  · obtain ⟨w', -, hw', -, -, hretrieved', -⟩ := exists_outcome h2 rfl
    obtain rfl := Option.some.inj (hw.symm.trans hw')
    exact nomatch hretrieved.symm.trans hretrieved'

/-- The call after the approval is served what the first one composed of the old corpus. -/
theorem stale_answer_served : ∃ t,
    exec (step feesAdmin feeDesk) (deployed CorpusSystem.pendingFees) answerAcross = some t ∧
      t.corpus.corpus.activeChunks.length = 1 ∧
      t.outcome 1 = some ⟨16, none, none, some 0, some (true, 0)⟩ ∧
      ¬t.FreshAfterApproval feeDesk := by
  have hend : ((exec (step feesAdmin feeDesk) (deployed CorpusSystem.pendingFees)
      answerAcross).map fun t => (t.corpus.corpus.activeChunks.length,
        [t.returnedAt 1, t.activatedAt 1], [t.outcome 0, t.outcome 1])) =
      some (1, [some 13, some 8],
        [some ⟨0, some 4, some 15, none, some (false, 0)⟩,
          some ⟨16, none, none, some 0, some (true, 0)⟩]) := by
    decide +kernel
  obtain ⟨t, ht, hfields⟩ := Option.map_eq_some_iff.1 hend
  simp only [Prod.mk.injEq, List.cons.injEq, and_true] at hfields
  obtain ⟨hactive, ⟨hreturned, hactivated⟩, h0, h1⟩ := hfields
  refine ⟨t, ht, hactive, h1, fun hfresh => ?_⟩
  obtain ⟨x, response, hx, hresponse, hstarted, -, -, hwriter, hhit⟩ := exists_outcome h1 rfl
  have hlate : 13 < x.startedAt := by
    rw [hstarted]
    decide
  obtain ⟨e, w, q, stages, cached, retrieved, he, hw, -, -, hretrieved, hlt⟩ :=
    hfresh 1 13 8 1 x response hreturned hactivated hx hlate
      hresponse (Prod.mk.inj hhit).1
  -- the entry found was written by the first call
  have hfirst := hw.writer
  rw [he] at hwriter
  rw [show e.writer = 0 from Option.some.inj hwriter] at hfirst
  obtain ⟨w', -, hw', -, -, hretrieved', -⟩ := exists_outcome h0 rfl
  obtain rfl := Option.some.inj (hfirst.symm.trans hw')
  obtain rfl := Option.some.inj (hretrieved.symm.trans hretrieved')
  exact absurd hlt (by decide)

end Backend

end EnterpriseRag
