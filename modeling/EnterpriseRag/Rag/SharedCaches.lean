import EnterpriseRag.Library.Transition
import EnterpriseRag.Rag.CacheUse
import Mathlib.Logic.Function.Basic

/-!
# Answers through shared caches

Any number of `answer` calls run, one operation at a time and in any order, against one
exact cache and one semantic cache. What the caches return is what was stored under the key
or in the partition, or a failure; a write that raises may have landed. Everything else the
calls ask, the configuration each reads included, is answered by whoever runs them. Entries
may expire and both caches may be cleared at any time.

Ghost columns say who wrote an entry and when, and which entry a call found last. `Sound`
is what follows from `permits_answer` over a run : a call that is served a cached answer was
served what another call composed and wrote, and its request reaches that one's key, as its
own or through a call of its semantic partition (`MayServe`).
-/

namespace EnterpriseRag

open Program Transition

/-! ## The caches -/

/-- An entry of the `RAG_ANSWER` tier. -/
structure CachedAnswer where
  key : String
  value : String
  writer : ℕ
  writtenAt : ℕ
  deriving DecidableEq, Repr

/-- A point of the semantic cache. -/
structure SemanticPoint where
  embedding : Embedding
  cacheNamespace : String
  topK : ℕ
  cacheKey : String
  recorder : ℕ
  deriving DecidableEq, Repr

structure AnswerCache where
  answers : List CachedAnswer
  points : List SemanticPoint
  deriving DecidableEq, Repr

namespace AnswerCache

variable (cache : AnswerCache)

def get (key : String) : Option CachedAnswer :=
  cache.answers.find? (·.key = key)

def set (entry : CachedAnswer) : AnswerCache :=
  { cache with answers := entry :: cache.answers.filter (·.key ≠ entry.key) }

def record (point : SemanticPoint) : AnswerCache :=
  { cache with points := cache.points ++ [point] }

/-- `delete`, or the end of the entries' time to live. -/
def expire (keys : List String) : AnswerCache :=
  { cache with answers := cache.answers.filter (·.key ∉ keys) }

/-- `SemanticQueryCache.clear`. -/
def clearPoints : AnswerCache :=
  { cache with points := [] }

/-- What the caches return : `reply` says whether they fail, and which of the candidates in
the partition a search finds. -/
def respond : (op : RagOp) → op.Res → op.Res
  | .cacheGet key, .ok _ => .ok ((cache.get key).map (·.value))
  | .findCandidates _ cacheNamespace topK _, .ok keys =>
    .ok (keys.filter fun key => cache.points.any fun point =>
      point.cacheNamespace = cacheNamespace && point.topK = topK && point.cacheKey = key)
  | _, reply => reply

/-- The caches after an operation of call `c`. -/
def after (c now : ℕ) (landed : Bool) : (op : RagOp) → op.Res → AnswerCache
  | .cacheSet key value, r =>
    if r.toBool || landed then cache.set ⟨key, value, c, now⟩ else cache
  | .recordSemantic embedding cacheNamespace topK key, r =>
    if r.toBool || landed then cache.record ⟨embedding, cacheNamespace, topK, key, c⟩ else cache
  | _, _ => cache

variable {cache}

theorem mem_of_get {key : String} {e : CachedAnswer} (h : cache.get key = some e) :
    e ∈ cache.answers ∧ e.key = key :=
  ⟨List.mem_of_find?_eq_some h, by simpa using List.find?_some h⟩

/-- An entry after an operation was there before, or is the one it writes. -/
theorem mem_answers_after {c now : ℕ} {landed : Bool} {op : RagOp} {r : op.Res} {e : CachedAnswer}
    (h : e ∈ (cache.after c now landed op r).answers) :
    e ∈ cache.answers ∨ ∃ key value, op = .cacheSet key value ∧ e = ⟨key, value, c, now⟩ := by
  cases op with
  | cacheSet key value =>
    dsimp only [after] at h
    split at h
    · rcases List.mem_cons.1 h with rfl | h
      · exact Or.inr ⟨key, value, rfl, rfl⟩
      · exact Or.inl (List.mem_filter.1 h).1
    · exact Or.inl h
  | recordSemantic embedding cacheNamespace topK key =>
    dsimp only [after] at h
    split at h <;> exact Or.inl h
  | _ => exact Or.inl h

theorem mem_points_after {c now : ℕ} {landed : Bool} {op : RagOp} {r : op.Res} {p : SemanticPoint}
    (h : p ∈ (cache.after c now landed op r).points) :
    p ∈ cache.points ∨ ∃ embedding cacheNamespace topK key,
      op = .recordSemantic embedding cacheNamespace topK key ∧
        p = ⟨embedding, cacheNamespace, topK, key, c⟩ := by
  cases op with
  | cacheSet key value =>
    dsimp only [after] at h
    split at h <;> exact Or.inl h
  | recordSemantic embedding cacheNamespace topK key =>
    dsimp only [after] at h
    split at h
    · rcases List.mem_append.1 h with h | h
      · exact Or.inl h
      · exact Or.inr ⟨embedding, cacheNamespace, topK, key, rfl, List.mem_singleton.1 h⟩
    · exact Or.inl h
  | _ => exact Or.inl h

end AnswerCache

/-! ## Calls in progress -/

/-- A call, what is left of it and, as ghosts, what it has read and when it started,
retrieved and wrote. -/
structure RagCall where
  call : AnswerCall
  startedAt : ℕ
  program : RagProgram RagChatResponse
  trace : CacheTrace := {}
  retrievedAt : Option ℕ := none
  wroteAt : Option ℕ := none
  served : Option CachedAnswer := none

namespace RagCall

/-- The ghosts after an operation. -/
def note (x : RagCall) (now : ℕ) (cache : AnswerCache) : (op : RagOp) → op.Res → RagCall
  | .retrieve .request _ _ _ _, _ => { x with retrievedAt := some now }
  | .cacheSet _ _, _ => { x with wroteAt := some now }
  | .cacheGet key, .ok (some _) => { x with served := cache.get key }
  | _, _ => x

/-- One operation of call `c`. -/
def perform (x : RagCall) (c now : ℕ) (cache : AnswerCache) (reply : (op : RagOp) → op.Res)
    (landed : Bool) : Option (RagCall × AnswerCache) :=
  match x.program with
  | .call op k =>
    let r := cache.respond op (reply op)
    some ({ x.note now cache op r with program := k r, trace := x.trace.next op r },
      cache.after c now landed op r)
  | _ => none

/-- `q` is the request of the call. -/
def Requests (svc : RAGService) (x : RagCall) (q : RagRequest) : Prop :=
  svc.Requests x.call x.trace q

/-- A later state of the same call. -/
structure Extends (x y : RagCall) : Prop where
  call : y.call = x.call
  startedAt : y.startedAt = x.startedAt
  config : ∀ config, x.trace.config = some config → y.trace.config = some config
  retrievedAt : ∀ t, x.retrievedAt = some t → y.retrievedAt = some t
  wroteAt : ∀ t, x.wroteAt = some t → ∃ t', y.wroteAt = some t' ∧ t ≤ t'

theorem Extends.refl (x : RagCall) : x.Extends x :=
  ⟨rfl, rfl, fun _ h => h, fun _ h => h, fun t h => ⟨t, h, le_rfl⟩⟩

theorem Extends.requests {svc : RAGService} {x y : RagCall} {q : RagRequest} (h : x.Extends y)
    (hq : x.Requests svc q) : y.Requests svc q := by
  obtain ⟨config, hconfig, hprepare⟩ := hq
  exact ⟨config, h.config config hconfig, h.call ▸ hprepare⟩

theorem Requests.unique {svc : RAGService} {x : RagCall} {q q' : RagRequest}
    (h : x.Requests svc q) (h' : x.Requests svc q') : q = q' := by
  obtain ⟨config, hconfig, hprepare⟩ := h
  obtain ⟨config', hconfig', hprepare'⟩ := h'
  obtain rfl := Option.some.inj (hconfig.symm.trans hconfig')
  exact Except.ok.inj (hprepare.symm.trans hprepare')

end RagCall

/-! ## The system -/

/-- The caches and the calls. Every event moves the clock. -/
structure Serving where
  now : ℕ
  cache : AnswerCache
  calls : ℕ → Option RagCall

namespace Serving

inductive Event
  | start (c : ℕ) (args : AnswerCall)
  | perform (c : ℕ) (reply : (op : RagOp) → op.Res) (landed : Bool)
  | expire (keys : List String)
  | clearPoints

def init : Serving :=
  ⟨0, ⟨[], []⟩, fun _ => none⟩

def step (svc : RAGService) (s : Serving) : Event → Option Serving
  | .start c args =>
    if (s.calls c).isSome then none
    else some { s with
      now := s.now + 1
      calls := Function.update s.calls c (some ⟨args, s.now, svc.answer args, {}, none, none, none⟩) }
  | .perform c reply landed =>
    (s.calls c).bind fun x => (x.perform c s.now s.cache reply landed).map fun (x, cache) =>
      ⟨s.now + 1, cache, Function.update s.calls c (some x)⟩
  | .expire keys => some { s with now := s.now + 1, cache := s.cache.expire keys }
  | .clearPoints => some { s with now := s.now + 1, cache := s.cache.clearPoints }

/-- What a step can do. -/
theorem step_cases {svc : RAGService} {s s' : Serving} {e : Event} (h : step svc s e = some s') :
    (∃ c args, e = .start c args ∧ s.calls c = none ∧ s' = ⟨s.now + 1, s.cache,
      Function.update s.calls c (some ⟨args, s.now, svc.answer args, {}, none, none, none⟩)⟩) ∨
    (∃ c reply landed x op k, e = .perform c reply landed ∧ s.calls c = some x ∧
      x.program = .call op k ∧ s' = ⟨s.now + 1,
        s.cache.after c s.now landed op (s.cache.respond op (reply op)),
        Function.update s.calls c (some
          { x.note s.now s.cache op (s.cache.respond op (reply op)) with
            program := k (s.cache.respond op (reply op))
            trace := x.trace.next op (s.cache.respond op (reply op)) })⟩) ∨
    (s'.now = s.now + 1 ∧ s'.calls = s.calls ∧
      (∀ e ∈ s'.cache.answers, e ∈ s.cache.answers) ∧
        ∀ p ∈ s'.cache.points, p ∈ s.cache.points) := by
  cases e with
  | start c args =>
    simp only [step] at h
    split at h
    · simp at h
    · rename_i hnone
      exact Or.inl ⟨c, args, rfl, by simpa using hnone, (Option.some.inj h).symm⟩
  | perform c reply landed =>
    simp only [step, Option.bind_eq_some_iff, Option.map_eq_some_iff] at h
    obtain ⟨x, hx, ⟨y, cache⟩, hperform, rfl⟩ := h
    cases hprogram : x.program with
    | call op k =>
      rw [RagCall.perform, hprogram] at hperform
      obtain ⟨rfl, rfl⟩ := Prod.mk.inj (Option.some.inj hperform)
      exact Or.inr (Or.inl ⟨c, reply, landed, x, op, k, rfl, hx, hprogram, rfl⟩)
    | _ =>
      rw [RagCall.perform, hprogram] at hperform
      simp at hperform
  | expire keys =>
    obtain rfl := Option.some.inj h
    exact Or.inr (Or.inr ⟨rfl, rfl, fun e he => (List.mem_filter.1 he).1, fun _ hp => hp⟩)
  | clearPoints =>
    obtain rfl := Option.some.inj h
    exact Or.inr (Or.inr ⟨rfl, rfl, fun _ he => he, fun _ hp => nomatch hp⟩)

/-! ## Who served whom -/

/-- `s'` is a later state. -/
def Extends (s s' : Serving) : Prop :=
  ∀ c x, s.calls c = some x → ∃ y, s'.calls c = some y ∧ x.Extends y

/-- Both requests use the semantic cache, and in the same partition. -/
structure SharePartition (svc : RAGService) (q q' : RagRequest) : Prop where
  left : svc.semanticOn q = true
  right : svc.semanticOn q' = true
  cacheNamespace : q.cacheNamespace = q'.cacheNamespace
  topK : q.call.topK = q'.call.topK

/-- `key` is the key of a call in the partition of `q`. -/
def Recorded (svc : RAGService) (s : Serving) (q : RagRequest) (key : String) : Prop :=
  ∃ p y q', s.calls p = some y ∧ y.Requests svc q' ∧ SharePartition svc q q' ∧ key = q'.cacheKey

/-- What `q'` is cached under can be found by `q` : under its own key, or under that of a call
in its partition. -/
def MayServe (svc : RAGService) (s : Serving) (q q' : RagRequest) : Prop :=
  q'.cacheKey = q.cacheKey ∨ s.Recorded svc q q'.cacheKey

/-- Call `w` composed the entry for request `q` and wrote it. -/
structure WrittenBy (svc : RAGService) (s : Serving) (e : CachedAnswer) (w : RagCall)
    (q : RagRequest) : Prop where
  writer : s.calls e.writer = some w
  request : w.Requests svc q
  key : e.key = q.cacheKey
  value : ∃ stages, e.value = svc.modelDumpJson (svc.respond q stages)
  retrieved : w.retrievedAt.isSome
  wrote : ∃ t, w.wroteAt = some t ∧ e.writtenAt ≤ t

variable {svc : RAGService} {s s' : Serving}

theorem Extends.recorded (h : s.Extends s') {q : RagRequest} {key : String}
    (hkey : s.Recorded svc q key) : s'.Recorded svc q key := by
  obtain ⟨p, y, q', hy, hq', hshare, rfl⟩ := hkey
  obtain ⟨z, hz, hext⟩ := h p y hy
  exact ⟨p, z, q', hz, hext.requests hq', hshare, rfl⟩

theorem Extends.mayServe (h : s.Extends s') {q q' : RagRequest} (hq : s.MayServe svc q q') :
    s'.MayServe svc q q' :=
  hq.imp_right h.recorded

theorem Extends.writtenBy (h : s.Extends s') {e : CachedAnswer} {w : RagCall} {q : RagRequest}
    (hw : s.WrittenBy svc e w q) : ∃ w', s'.WrittenBy svc e w' q := by
  obtain ⟨w', hw', hext⟩ := h e.writer w hw.writer
  obtain ⟨t, ht, hle⟩ := hw.wrote
  obtain ⟨t', ht', hle'⟩ := hext.wroteAt t ht
  obtain ⟨r, hr⟩ := Option.isSome_iff_exists.1 hw.retrieved
  exact ⟨w', hw', hext.requests hw.request, hw.key, hw.value, by simp [hext.retrievedAt r hr],
    t', ht', hle.trans hle'⟩

/-! ## The invariant -/

/-- What holds of a call in progress. -/
structure CallSound (svc : RAGService) (s : Serving) (x : RagCall) : Prop where
  permits : RAGService.Permits svc x.call svc.ServedFromCache x.trace x.program
  retrieved : x.retrievedAt.isSome = x.trace.retrieved
  wrote : ∀ t, x.wroteAt = some t → t < s.now
  found : x.trace.found = x.served.map fun e => (e.key, e.value)
  candidates : ∀ key ∈ x.trace.candidates, ∃ q, x.Requests svc q ∧ s.Recorded svc q key
  served : ∀ e, x.served = some e → ∃ q w q', x.Requests svc q ∧ s.WrittenBy svc e w q' ∧
    s.MayServe svc q q'

/-- Every entry was composed and written by a call, every point recorded by one. -/
structure Sound (svc : RAGService) (s : Serving) : Prop where
  calls : ∀ c x, s.calls c = some x → s.CallSound svc x
  answers : ∀ e ∈ s.cache.answers, ∃ w q, s.WrittenBy svc e w q
  points : ∀ p ∈ s.cache.points, ∃ y q, s.calls p.recorder = some y ∧ y.Requests svc q ∧
    svc.semanticOn q = true ∧ p.cacheNamespace = q.cacheNamespace ∧ p.topK = q.call.topK ∧
    p.cacheKey = q.cacheKey

theorem CallSound.mono {x : RagCall} (h : s.CallSound svc x) (hext : s.Extends s')
    (hnow : s.now ≤ s'.now) : s'.CallSound svc x where
  permits := h.permits
  retrieved := h.retrieved
  wrote t ht := (h.wrote t ht).trans_le hnow
  found := h.found
  candidates key hkey := by
    obtain ⟨q, hq, hrecorded⟩ := h.candidates key hkey
    exact ⟨q, hq, hext.recorded hrecorded⟩
  served e he := by
    obtain ⟨q, w, q', hq, hw, hserve⟩ := h.served e he
    obtain ⟨w', hw'⟩ := hext.writtenBy hw
    exact ⟨q, w', q', hq, hw', hext.mayServe hserve⟩

theorem sound_init : (init).Sound svc where
  calls _ _ h := nomatch h
  answers _ h := nomatch h
  points _ h := nomatch h

section Perform

variable {c : ℕ} {landed : Bool} {x : RagCall} {op : RagOp} {k : op.Res → RagProgram RagChatResponse}
  {r : op.Res}

/-- The call after an operation. -/
def performed (s : Serving) (x : RagCall) (op : RagOp) (r : op.Res)
    (k : op.Res → RagProgram RagChatResponse) : RagCall :=
  { x.note s.now s.cache op r with program := k r, trace := x.trace.next op r }

/-- An operation only adds to what is known of the call. -/
theorem CallSound.extends_performed (h : s.CallSound svc x)
    (hop : svc.Permitted x.call x.trace op) : x.Extends (s.performed x op r k) := by
  have hsame : ∀ y : RagCall, y.call = x.call → y.startedAt = x.startedAt →
      y.retrievedAt = x.retrievedAt → y.wroteAt = x.wroteAt → y.trace.config = x.trace.config →
      x.Extends y := by
    intro y hcall hstarted hretrieved hwrote hconfig
    exact ⟨hcall, hstarted, fun _ hc => hconfig.trans hc, fun _ ht => hretrieved.trans ht,
      fun t ht => ⟨t, hwrote.trans ht, le_rfl⟩⟩
  cases op with
  | currentConfig =>
    refine ⟨rfl, rfl, fun config hconfig => ?_, fun _ ht => ht, fun t ht => ⟨t, ht, le_rfl⟩⟩
    rw [show x.trace.config = none from hop] at hconfig
    cases hconfig
  | cacheGet key =>
    rcases r with _ | _ | _ <;> exact hsame _ rfl rfl rfl rfl rfl
  | cacheSet key value =>
    exact ⟨rfl, rfl, fun _ hc => hc, fun _ ht => ht,
      fun t ht => ⟨s.now, rfl, (h.wrote t ht).le⟩⟩
  | findCandidates embedding cacheNamespace topK threshold =>
    cases r <;> exact hsame _ rfl rfl rfl rfl rfl
  | retrieve site strategy text embedding topK =>
    cases site with
    | request =>
      refine ⟨rfl, rfl, fun _ hc => hc, fun t ht => ?_, fun t ht => ⟨t, ht, le_rfl⟩⟩
      have hretrieved := h.retrieved
      rw [ht, show x.trace.retrieved = false from hop] at hretrieved
      cases hretrieved
    | reflection => exact hsame _ rfl rfl rfl rfl rfl
  | _ => exact hsame _ rfl rfl rfl rfl rfl

/-- The entry found last is the one from before, or one read now. -/
theorem served_performed (reply : op.Res) :
    ((s.performed x op (s.cache.respond op reply) k).served = x.served ∧
      (s.performed x op (s.cache.respond op reply) k).trace.found = x.trace.found) ∨
    ∃ key e, op = .cacheGet key ∧ e ∈ s.cache.answers ∧ e.key = key ∧
      (s.performed x op (s.cache.respond op reply) k).served = some e ∧
      (s.performed x op (s.cache.respond op reply) k).trace.found = some (e.key, e.value) := by
  cases op with
  | cacheGet key =>
    match reply with
    | .error _ => exact Or.inl ⟨rfl, rfl⟩
    | .ok _ =>
      cases hget : s.cache.get key with
      | none =>
        refine Or.inl ⟨?_, ?_⟩ <;>
          simp [performed, RagCall.note, CacheTrace.next, AnswerCache.respond, hget]
      | some e =>
        obtain ⟨he, hkey⟩ := AnswerCache.mem_of_get hget
        refine Or.inr ⟨key, e, rfl, he, hkey, ?_, ?_⟩ <;>
          simp [performed, RagCall.note, CacheTrace.next, AnswerCache.respond, hget, hkey]
  | retrieve site strategy text embedding topK => cases site <;> exact Or.inl ⟨rfl, rfl⟩
  | findCandidates embedding cacheNamespace topK threshold =>
    match reply with
    | .error _ => exact Or.inl ⟨rfl, rfl⟩
    | .ok _ => exact Or.inl ⟨rfl, rfl⟩
  | _ => exact Or.inl ⟨rfl, rfl⟩

/-- The candidates are those from before, or those of points found now. -/
theorem candidates_performed (reply : op.Res) :
    (s.performed x op (s.cache.respond op reply) k).trace.candidates = x.trace.candidates ∨
    ∃ embedding cacheNamespace topK threshold,
      op = .findCandidates embedding cacheNamespace topK threshold ∧
      ∀ key ∈ (s.performed x op (s.cache.respond op reply) k).trace.candidates,
        ∃ p ∈ s.cache.points, p.cacheNamespace = cacheNamespace ∧ p.topK = topK ∧
          p.cacheKey = key := by
  cases op with
  | findCandidates embedding cacheNamespace topK threshold =>
    cases reply with
    | error _ => exact Or.inl rfl
    | ok keys =>
      refine Or.inr ⟨embedding, cacheNamespace, topK, threshold, rfl, fun key hkey => ?_⟩
      obtain ⟨p, hp, hpoint⟩ := List.any_eq_true.1 (List.mem_filter.1 hkey).2
      simp only [Bool.and_eq_true, decide_eq_true_eq] at hpoint
      exact ⟨p, hp, hpoint.1.1, hpoint.1.2, hpoint.2⟩
  | cacheGet key =>
    left
    rcases s.cache.respond (.cacheGet key) reply with _ | _ | _ <;> rfl
  | retrieve site strategy text embedding topK => cases site <;> exact Or.inl rfl
  | _ => exact Or.inl rfl

theorem CallSound.times_performed (h : s.CallSound svc x) :
    (s.performed x op r k).retrievedAt.isSome = (s.performed x op r k).trace.retrieved ∧
      ∀ t, (s.performed x op r k).wroteAt = some t → t < s.now + 1 := by
  have hwrote : ∀ t, x.wroteAt = some t → t < s.now + 1 := fun t ht =>
    (h.wrote t ht).trans (Nat.lt_succ_self _)
  cases op with
  | cacheSet key value =>
    refine ⟨h.retrieved, fun t ht => ?_⟩
    obtain rfl := Option.some.inj ht
    exact Nat.lt_succ_self _
  | cacheGet key =>
    rcases r with _ | _ | _ <;> exact ⟨h.retrieved, hwrote⟩
  | findCandidates embedding cacheNamespace topK threshold =>
    cases r <;> exact ⟨h.retrieved, hwrote⟩
  | retrieve site strategy text embedding topK =>
    cases site with
    | request => exact ⟨rfl, hwrote⟩
    | reflection => exact ⟨h.retrieved, hwrote⟩
  | _ => exact ⟨h.retrieved, hwrote⟩

/-- A call of a state in which call `c` is `y`. -/
theorem mem_update {calls : ℕ → Option RagCall} {c' : ℕ} {y x' : RagCall}
    (h : Function.update calls c (some y) c' = some x') :
    (c' = c ∧ x' = y) ∨ calls c' = some x' := by
  by_cases hc : c' = c
  · subst hc
    rw [Function.update_self] at h
    exact Or.inl ⟨rfl, (Option.some.inj h).symm⟩
  · rw [Function.update_of_ne hc] at h
    exact Or.inr h

theorem extends_update {y : RagCall} (now : ℕ) (cache : AnswerCache) (hx : s.calls c = some x)
    (hext : x.Extends y) : s.Extends ⟨now, cache, Function.update s.calls c (some y)⟩ := by
  intro c' x' hx'
  by_cases hc : c' = c
  · subst hc
    obtain rfl := Option.some.inj (hx.symm.trans hx')
    exact ⟨y, Function.update_self .., hext⟩
  · exact ⟨x', (Function.update_of_ne hc ..).trans hx', .refl x'⟩

/-- The call after an operation, in any later state. -/
theorem Sound.callSound_performed (hs : s.Sound svc) (hx : s.calls c = some x)
    (hprogram : x.program = .call op k) (reply : op.Res) (hext : s.Extends s')
    (hnow : s'.now = s.now + 1) :
    s'.CallSound svc (s.performed x op (s.cache.respond op reply) k) := by
  have hsound := hs.calls c x hx
  have hpermits := hsound.permits
  rw [hprogram] at hpermits
  obtain ⟨hop, hrest⟩ := hpermits
  have hxy : x.Extends (s.performed x op (s.cache.respond op reply) k) :=
    hsound.extends_performed hop
  obtain ⟨hretrieved, hwrote⟩ :=
    hsound.times_performed (r := s.cache.respond op reply) (k := k)
  refine ⟨?_, hretrieved, hnow ▸ hwrote, ?_, ?_, ?_⟩
  · rw [hxy.call]
    exact hrest _
  · rcases served_performed (s := s) (x := x) (k := k) reply with
      ⟨hserved, hfound⟩ | ⟨key, e, -, -, -, hserved, hfound⟩
    · rw [hserved, hfound]
      exact hsound.found
    · rw [hserved, hfound]
      rfl
  · rcases candidates_performed (s := s) (x := x) (k := k) reply with
      hsame | ⟨embedding, cacheNamespace, topK, threshold, rfl, hpoints⟩
    · intro key hkey
      rw [hsame] at hkey
      obtain ⟨q, hq, hrecorded⟩ := hsound.candidates key hkey
      exact ⟨q, hxy.requests hq, hext.recorded hrecorded⟩
    · intro key hkey
      obtain ⟨q, hq, hon, hnamespace, htopK⟩ := hop
      obtain ⟨p, hp, hpNamespace, hpTopK, rfl⟩ := hpoints key hkey
      obtain ⟨y, q', hy, hq', hon', hyNamespace, hyTopK, hkey'⟩ := hs.points p hp
      have hshare : SharePartition svc q q' :=
        ⟨hon, hon', hnamespace.symm.trans (hpNamespace.symm.trans hyNamespace),
          htopK.symm.trans (hpTopK.symm.trans hyTopK)⟩
      exact ⟨q, hxy.requests hq, hext.recorded ⟨p.recorder, y, q', hy, hq', hshare, hkey'⟩⟩
  · rcases served_performed (s := s) (x := x) (k := k) reply with
      ⟨hserved, -⟩ | ⟨key, e, rfl, he, hkey, hserved, -⟩
    · intro e he
      rw [hserved] at he
      obtain ⟨q, w, q', hq, hw, hserve⟩ := hsound.served e he
      obtain ⟨w', hw'⟩ := hext.writtenBy hw
      exact ⟨q, w', q', hxy.requests hq, hw', hext.mayServe hserve⟩
    · intro e' he'
      obtain rfl : e = e' := Option.some.inj (hserved.symm.trans he')
      obtain ⟨w, q', hw⟩ := hs.answers e he
      obtain ⟨w', hw'⟩ := hext.writtenBy hw
      obtain ⟨q, hq, hreach⟩ := hop
      refine ⟨q, w', q', hxy.requests hq, hw', ?_⟩
      rcases hreach with hown | ⟨-, hcandidate⟩
      · exact Or.inl (hw.key.symm.trans (hkey.trans hown))
      · -- the candidates were found in the partition of the same request
        obtain ⟨q₁, hq₁, hrecorded⟩ := hsound.candidates key hcandidate
        obtain rfl : q₁ = q := RagCall.Requests.unique hq₁ hq
        rw [← hkey, hw.key] at hrecorded
        exact Or.inr (hext.recorded hrecorded)

/-- An operation of a call keeps the invariant. -/
theorem Sound.perform (hs : s.Sound svc) (hx : s.calls c = some x)
    (hprogram : x.program = .call op k) (reply : op.Res) :
    Sound svc ⟨s.now + 1, s.cache.after c s.now landed op (s.cache.respond op reply),
      Function.update s.calls c (some (s.performed x op (s.cache.respond op reply) k))⟩ := by
  have hsound := hs.calls c x hx
  have hpermits := hsound.permits
  rw [hprogram] at hpermits
  have hop := hpermits.1
  have hxy : x.Extends (s.performed x op (s.cache.respond op reply) k) :=
    hsound.extends_performed hop
  have hext := extends_update (s.now + 1)
    (s.cache.after c s.now landed op (s.cache.respond op reply)) hx hxy
  refine ⟨fun c' x' hx' => ?_, fun e he => ?_, fun p hp => ?_⟩
  · rcases mem_update hx' with ⟨-, rfl⟩ | hx'
    · exact hs.callSound_performed hx hprogram reply hext rfl
    · exact (hs.calls c' x' hx').mono hext (Nat.le_succ _)
  · rcases AnswerCache.mem_answers_after he with he | ⟨key, value, rfl, rfl⟩
    · obtain ⟨w, q, hw⟩ := hs.answers e he
      obtain ⟨w', hw'⟩ := hext.writtenBy hw
      exact ⟨w', q, hw'⟩
    · obtain ⟨q, stages, hq, hkey, hvalue, hretrieved⟩ := hop
      refine ⟨_, q, Function.update_self .., hxy.requests hq, hkey, ⟨stages, hvalue⟩, ?_,
        s.now, rfl, le_rfl⟩
      exact hsound.retrieved.trans hretrieved
  · rcases AnswerCache.mem_points_after hp with hp | ⟨embedding, cacheNamespace, topK, key, rfl, rfl⟩
    · obtain ⟨y, q, hy, hq, hrest⟩ := hs.points p hp
      obtain ⟨y', hy', hyy'⟩ := hext _ y hy
      exact ⟨y', q, hy', hyy'.requests hq, hrest⟩
    · obtain ⟨q, hq, hon, hnamespace, htopK, hkey⟩ := hop
      exact ⟨_, q, Function.update_self .., hxy.requests hq, hon, hnamespace, htopK, hkey⟩

end Perform

/-- Time passes, and entries and points may go. -/
theorem Sound.shrink (hs : s.Sound svc) (hnow : s'.now = s.now + 1) (hcalls : s'.calls = s.calls)
    (hanswers : ∀ e ∈ s'.cache.answers, e ∈ s.cache.answers)
    (hpoints : ∀ p ∈ s'.cache.points, p ∈ s.cache.points) : s'.Sound svc := by
  have hext : s.Extends s' := fun c x hx => ⟨x, hcalls ▸ hx, .refl x⟩
  refine ⟨fun c x hx => ?_, fun e he => ?_, fun p hp => ?_⟩
  · exact (hs.calls c x (hcalls ▸ hx)).mono hext (by rw [hnow]; exact Nat.le_succ _)
  · obtain ⟨w, q, hw⟩ := hs.answers e (hanswers e he)
    obtain ⟨w', hw'⟩ := hext.writtenBy hw
    exact ⟨w', q, hw'⟩
  · rw [hcalls]
    exact hs.points p (hpoints p hp)

/-- A new call. -/
theorem Sound.start {c : ℕ} (hs : s.Sound svc) (hnone : s.calls c = none) (args : AnswerCall) :
    Sound svc ⟨s.now + 1, s.cache,
      Function.update s.calls c (some ⟨args, s.now, svc.answer args, {}, none, none, none⟩)⟩ := by
  have hext : s.Extends ⟨s.now + 1, s.cache,
      Function.update s.calls c (some ⟨args, s.now, svc.answer args, {}, none, none, none⟩)⟩ := by
    intro c' x' hx'
    have hc : c' ≠ c := by
      rintro rfl
      simp [hnone] at hx'
    exact ⟨x', (Function.update_of_ne hc ..).trans hx', .refl x'⟩
  refine ⟨fun c' x' hx' => ?_, fun e he => ?_, fun p hp => ?_⟩
  · rcases mem_update hx' with ⟨-, rfl⟩ | hx'
    · exact ⟨RAGService.permits_answer svc args, rfl, by simp, rfl, by simp, by simp⟩
    · exact (hs.calls c' x' hx').mono hext (Nat.le_succ _)
  · obtain ⟨w, q, hw⟩ := hs.answers e he
    obtain ⟨w', hw'⟩ := hext.writtenBy hw
    exact ⟨w', q, hw'⟩
  · obtain ⟨y, q, hy, hq, hrest⟩ := hs.points p hp
    obtain ⟨y', hy', hyy'⟩ := hext _ y hy
    exact ⟨y', q, hy', hyy'.requests hq, hrest⟩

theorem sound_step {e : Event} (hs : s.Sound svc) (h : step svc s e = some s') : s'.Sound svc := by
  rcases step_cases h with ⟨c, args, -, hnone, rfl⟩ |
    ⟨c, reply, landed, x, op, k, -, hx, hprogram, rfl⟩ | ⟨hnow, hcalls, hanswers, hpoints⟩
  · exact hs.start hnone args
  · exact hs.perform hx hprogram (reply op)
  · exact hs.shrink hnow hcalls hanswers hpoints

/-- Every state of a run is sound. -/
theorem sound_run {es : List Event} {t : Serving} (h : exec (step svc) init es = some t) :
    t.Sound svc :=
  invariant (fun _ _ _ hs hstep => sound_step hs hstep) sound_init h

/-- A call that returned a cached answer was served what some call composed and wrote, from a
request that may serve its own. -/
theorem Sound.exists_writer (hs : s.Sound svc) {c : ℕ} {x : RagCall} {response : RagChatResponse}
    (hx : s.calls c = some x) (hreturned : x.program = .pure response)
    (hhit : response.cacheHit = true) :
    ∃ q e w q' stages cached, x.Requests svc q ∧ x.served = some e ∧ s.WrittenBy svc e w q' ∧
      s.MayServe svc q q' ∧
      svc.modelValidateJson (svc.modelDumpJson (svc.respond q' stages)) = .ok cached ∧
      response = { cached with cacheHit := true } := by
  have hsound := hs.calls c x hx
  have hpermits := hsound.permits
  rw [hreturned] at hpermits
  obtain ⟨key, raw, cached, hfound, hraw, rfl⟩ := hpermits response rfl hhit
  rw [hsound.found, Option.map_eq_some_iff] at hfound
  obtain ⟨e, he, hentry⟩ := hfound
  obtain ⟨-, rfl⟩ := Prod.mk.inj hentry
  obtain ⟨q, w, q', hq, hw, hserve⟩ := hsound.served e he
  obtain ⟨stages, hvalue⟩ := hw.value
  exact ⟨q, e, w, q', stages, cached, hq, he, hw, hserve, hvalue ▸ hraw, rfl⟩

end Serving

end EnterpriseRag
