import EnterpriseRag.Library.Faults
import EnterpriseRag.Rag.EmbeddingClient
import EnterpriseRag.Rag.EvidenceGuard
import EnterpriseRag.Rag.Runs

/-!
# What a cache can break

A read that fails or finds nothing is a miss, and a write that fails is none. An entry that
cannot be decoded should be a miss as well and is not : it is decoded outside of the `try`. Taken
for a miss it leaves the answer and the embeddings as they would be on one, so the caches break
nothing exactly if every entry read can be decoded (`unbroken_by_caches`).
-/

namespace EnterpriseRag

open Program

/-- The call raises the error past `except Exception`. -/
def RaisesPast {α : Type} (x : Except Raised α) (e : Raised) : Prop :=
  x = .error e ∧ e.isException = false

theorem isException_of_benign {α : Type} {e : Raised}
    (h : ∀ e', ¬RaisesPast (.error e : Except Raised α) e') : e.isException = true := by
  by_contra hnot
  exact h e ⟨rfl, Bool.eq_false_iff.2 hnot⟩

/-- A write to a cache, of which an `Exception` is no failure. -/
theorem survives_write {Op : Type} {Res : Op → Type} {F : Faults Op Res Raised}
    {o o' : Oracle Op Res} {α : Type} {op : Op} {x : Res op → Except Raised Unit}
    {failed done : α} (hmasked : F.Masked o o') (hmask : ∀ r, F.mask op r = r)
    (hraises : ∀ r e, F.Raises op r e ↔ RaisesPast (x r) e) :
    F.Survives o o' (attempt op x >>= fun written => match written with
      | .error e => if e.isException then return failed else .raise e
      | .ok () => return done) := by
  refine Faults.survives_call hmasked (fun r e h => ?_) fun r hbenign => ?_
  · obtain ⟨hx, hexception⟩ := (hraises r e).1 h
    show (match x r with
      | .error e => if e.isException then return failed else .raise e
      | .ok () => return done : Program Op Res Raised α) = raise e
    rw [hx]
    exact if_neg (by simp [hexception])
  · rw [hmask]
    refine ⟨rfl, ?_⟩
    show F.Survives o o' (match x r with
      | .error e => if e.isException then return failed else .raise e
      | .ok () => return done)
    cases hx : x r with
    | ok _ => exact Faults.survives_pure
    | error e =>
      have hexception : e.isException = true := isException_of_benign fun e' he' =>
        hbenign e' ((hraises r e').2 (hx ▸ he'))
      dsimp only
      rw [if_pos hexception]
      exact Faults.survives_pure

namespace RAGService

variable (svc : RAGService)

/-- An entry that cannot be decoded is taken for none, and so is a read that fails. -/
def maskCaches : (op : RagOp) → op.Res → op.Res
  | .cacheGet _, .ok (some raw) =>
    match svc.modelValidateJson raw with
    | .ok _ => .ok (some raw)
    | .error _ => .ok none
  | .cacheGet _, _ => .ok none
  | .findCandidates _ _ _ _, .error _ => .ok []
  | _, r => r

/-- The error of decoding an entry, or one that the call raises past `except Exception`. -/
def CacheRaises : (op : RagOp) → op.Res → Raised → Prop
  | .cacheGet _, r, e =>
    RaisesPast r e ∨ ∃ raw, r = .ok (some raw) ∧ svc.modelValidateJson raw = .error e
  | .findCandidates _ _ _ _, r, e => RaisesPast r e
  | .cacheSet _ _, r, e => RaisesPast r e
  | .recordSemantic _ _ _ _, r, e => RaisesPast r e
  | _, _, _ => False

/-- The faults of the exact and the semantic cache. -/
def cacheFaults : Faults RagOp RagOp.Res Raised where
  mask := svc.maskCaches
  Raises := svc.CacheRaises
  mask_mask op r := by
    cases op with
    | cacheGet key =>
      match r with
      | .error e => rfl
      | .ok none => rfl
      | .ok (some raw) =>
        dsimp only [maskCaches]
        cases hraw : svc.modelValidateJson raw with
        | error e => rfl
        | ok response =>
          dsimp only
          rw [hraw]
    | findCandidates _ _ _ _ => cases r <;> rfl
    | _ => rfl

variable {svc} {o o' : RagOracle} {q : RagRequest}

theorem transparent_of_composes {op : RagOp} (h : op.Composes) :
    svc.cacheFaults.Transparent op := by
  intro r
  cases op <;> first | exact h.elim | exact ⟨rfl, fun _ => id⟩

theorem survives_getCached (hmasked : svc.cacheFaults.Masked o o') (key : String) :
    svc.cacheFaults.Survives o o' (svc.getCached key) := by
  refine Faults.survives_call hmasked (fun r e hraises => ?_) fun r hbenign => ?_
  · rcases hraises with ⟨rfl, hexception⟩ | ⟨raw, rfl, hraw⟩
    · exact if_neg (by simp [hexception])
    · show (orRaise (svc.modelValidateJson raw) >>= fun response => return some response :
        RagProgram (Option RagChatResponse)) = raise e
      rw [hraw]
      rfl
  · match r with
    | .error e =>
      have hexception := isException_of_benign fun e' he' => hbenign e' (Or.inl he')
      refine ⟨(if_pos hexception).symm, ?_⟩
      show svc.cacheFaults.Survives o o' (if e.isException then _ else _)
      rw [if_pos hexception]
      exact Faults.survives_pure
    | .ok none => exact ⟨rfl, Faults.survives_pure⟩
    | .ok (some raw) =>
      cases hraw : svc.modelValidateJson raw with
      | error e => exact absurd (Or.inr ⟨raw, rfl, hraw⟩) (hbenign e)
      | ok response =>
        have hmask : svc.cacheFaults.mask (.cacheGet key) (.ok (some raw)) = .ok (some raw) := by
          show (match svc.modelValidateJson raw with
            | .ok _ => .ok (some raw)
            | .error _ => .ok none : Except Raised (Option String)) = _
          rw [hraw]
        rw [hmask]
        exact ⟨rfl, Faults.survives_orRaise.bind fun _ => Faults.survives_pure⟩

theorem survives_firstLive (hmasked : svc.cacheFaults.Masked o o') :
    ∀ keys : List String, svc.cacheFaults.Survives o o' (svc.firstLive keys)
  | [] => Faults.survives_pure
  | key :: keys => by
    refine (survives_getCached hmasked key).bind fun found => ?_
    cases found with
    | some response => exact Faults.survives_pure
    | none => exact survives_firstLive hmasked keys

theorem survives_checkSemanticCache (hmasked : svc.cacheFaults.Masked o o')
    (embedding : Embedding) :
    svc.cacheFaults.Survives o o' (svc.checkSemanticCache q embedding) := by
  refine Faults.survives_call hmasked (fun r e hraises => ?_) fun r hbenign => ?_
  · obtain ⟨rfl, hexception⟩ := hraises
    exact if_neg (by simp [hexception])
  · cases r with
    | error e =>
      have hexception := isException_of_benign hbenign
      refine ⟨(if_pos hexception).symm, ?_⟩
      show svc.cacheFaults.Survives o o' (if e.isException then _ else _)
      rw [if_pos hexception]
      exact Faults.survives_pure
    | ok keys => exact ⟨rfl, survives_firstLive hmasked keys⟩

theorem survives_lookup (hmasked : svc.cacheFaults.Masked o o') :
    svc.cacheFaults.Survives o o' (svc.lookup q) := by
  refine (survives_getCached hmasked _).bind fun found => ?_
  cases found with
  | some response => exact Faults.survives_pure
  | none =>
    dsimp only
    split
    · refine (Faults.survives_of_uses hmasked (fun op => transparent_of_composes)
        (uses_embedOne (fun _ => trivial) _)).bind fun embedding => ?_
      exact (survives_checkSemanticCache hmasked embedding).bind fun _ => Faults.survives_pure
    · exact Faults.survives_pure

theorem survives_cacheResponse (hmasked : svc.cacheFaults.Masked o o') (s : Stages)
    (original : Option Embedding) :
    svc.cacheFaults.Survives o o' (svc.cacheResponse q s original) := by
  rw [cacheResponse]
  split
  · exact Faults.survives_pure
  have hset : svc.cacheFaults.Survives o o' (svc.setCached q.cacheKey (svc.respond q s)) :=
    survives_write hmasked (fun r => rfl) fun r e => Iff.rfl
  refine hset.bind fun written => ?_
  split
  · split
    · exact survives_write hmasked (fun r => rfl) fun r e => Iff.rfl
    · exact Faults.survives_pure
  · exact Faults.survives_pure

theorem survives_answer (hmasked : svc.cacheFaults.Masked o o') (call : AnswerCall) :
    svc.cacheFaults.Survives o o' (svc.answer call) := by
  have hconfig : svc.cacheFaults.Transparent .currentConfig := fun _ => ⟨rfl, fun _ => id⟩
  have hgather : ∀ op : RagOp, op.Gathers → svc.cacheFaults.Transparent op := by
    rintro op (hop | ⟨strategy, text, embedding, topK, rfl⟩)
    · exact transparent_of_composes (composes_of_plain hop)
    · exact fun _ => ⟨rfl, fun _ => id⟩
  refine Faults.survives_call hmasked (fun r e h => h.elim) fun config _ => ⟨rfl, ?_⟩
  refine Faults.survives_orRaise.bind fun q => ?_
  refine (survives_lookup hmasked).bind fun looked => ?_
  obtain ⟨cached, original⟩ := looked
  cases cached with
  | some response => exact Faults.survives_pure
  | none =>
    refine (Faults.survives_of_uses hmasked hgather (uses_gather original)).bind fun gathered => ?_
    obtain ⟨gathered, original⟩ := gathered
    refine (Faults.survives_of_uses hmasked (fun op => transparent_of_composes)
      (uses_compose gathered)).bind fun s => ?_
    exact (survives_cacheResponse hmasked s original).bind fun _ => Faults.survives_pure

end RAGService

namespace OpenAIEmbeddingClient

variable {V : Type} (client : OpenAIEmbeddingClient V)

/-- An entry that cannot be decoded, or holds nothing, is taken for none, and so is a read that
fails. -/
def maskCache : (op : EmbedOp) → op.Res V → op.Res V
  | .get _, .ok (some raw) =>
    match client.jsonLoads raw with
    | .ok (some _) => .ok (some raw)
    | _ => .ok none
  | .get _, _ => .ok none
  | _, r => r

/-- The error of decoding an entry, or one that the cache raises past `except Exception`. -/
def CacheRaises : (op : EmbedOp) → op.Res V → Raised → Prop
  | .get _, r, e => RaisesPast r e ∨ ∃ raw, r = .ok (some raw) ∧ client.jsonLoads raw = .error e
  | .set _ _, r, e => RaisesPast r e
  | .create _ _, _, _ => False

/-- The faults of the cache of embeddings. -/
def cacheFaults : Faults EmbedOp (EmbedOp.Res V) Raised where
  mask := client.maskCache
  Raises := client.CacheRaises
  mask_mask op r := by
    cases op with
    | get key =>
      match r with
      | .error e => rfl
      | .ok none => rfl
      | .ok (some raw) =>
        dsimp only [maskCache]
        match hraw : client.jsonLoads raw with
        | .error e => rfl
        | .ok none => rfl
        | .ok (some v) =>
          dsimp only
          rw [hraw]
    | _ => rfl

variable {client} {o o' : EmbedOracle V} {model : String}

theorem survives_getCached (hmasked : client.cacheFaults.Masked o o') (text : String) :
    client.cacheFaults.Survives o o' (client.getCached text model) := by
  refine Faults.survives_call hmasked (fun r e hraises => ?_) fun r hbenign => ?_
  · rcases hraises with ⟨rfl, hexception⟩ | ⟨raw, rfl, hraw⟩
    · exact if_neg (by simp [hexception])
    · show (orRaise (client.jsonLoads raw) : EmbedProgram V (Option V)) = raise e
      rw [hraw]
      rfl
  · match r with
    | .error e =>
      have hexception := isException_of_benign fun e' he' => hbenign e' (Or.inl he')
      refine ⟨(if_pos hexception).symm, ?_⟩
      show client.cacheFaults.Survives o o' (if e.isException then _ else _)
      rw [if_pos hexception]
      exact Faults.survives_pure
    | .ok none => exact ⟨rfl, Faults.survives_pure⟩
    | .ok (some raw) =>
      refine ⟨?_, Faults.survives_orRaise⟩
      have hmask : client.cacheFaults.mask (.get (client.cacheKey text model)) (.ok (some raw)) =
          match client.jsonLoads raw with
          | .ok (some _) => .ok (some raw)
          | _ => .ok none := rfl
      rw [hmask]
      match hraw : client.jsonLoads raw with
      | .error e => exact absurd (Or.inr ⟨raw, rfl, hraw⟩) (hbenign e)
      | .ok none =>
        show (return none : EmbedProgram V (Option V)) = orRaise (client.jsonLoads raw)
        rw [hraw]
        rfl
      | .ok (some v) => rfl

theorem survives_lookupTexts (hmasked : client.cacheFaults.Masked o o') :
    ∀ (texts : List String) (results : List (Option V)) (misses : MissIndices),
      client.cacheFaults.Survives o o' (client.lookupTexts model texts results misses)
  | [], _, _ => Faults.survives_pure
  | text :: texts, results, misses => by
    refine (survives_getCached hmasked text).bind fun cached => ?_
    cases cached with
    | some cached => exact survives_lookupTexts hmasked texts _ _
    | none => exact survives_lookupTexts hmasked texts _ _

theorem survives_createWithRetries (hmasked : client.cacheFaults.Masked o o')
    {texts : List String} : ∀ retries,
      client.cacheFaults.Survives o o' (createWithRetries model texts retries)
  | 0 => Faults.survives_call hmasked (fun _ _ h => h.elim) fun _ _ =>
      ⟨rfl, Faults.survives_orRaise⟩
  | retries + 1 => by
    refine Faults.survives_call hmasked (fun _ _ h => h.elim) fun r _ => ⟨rfl, ?_⟩
    cases r with
    | ok data => exact Faults.survives_pure
    | error e =>
      show client.cacheFaults.Survives o o' (if e.isException then _ else _)
      split
      · exact survives_createWithRetries hmasked retries
      · exact Faults.survives_raise

theorem survives_storeVectors (hmasked : client.cacheFaults.Masked o o') {misses : MissIndices} :
    ∀ (data : List (ℤ × V)) (results : List (Option V)),
      client.cacheFaults.Survives o o' (client.storeVectors model misses data results)
  | [], _ => Faults.survives_pure
  | (index, vector) :: data, results => by
    refine Faults.survives_orRaise.bind fun text => ?_
    have hset : client.cacheFaults.Survives o o' (client.setCached text model vector) :=
      survives_write hmasked (fun r => rfl) fun r e => Iff.rfl
    exact hset.bind fun _ => survives_storeVectors hmasked data _

theorem survives_embedTexts (hmasked : client.cacheFaults.Masked o o') (texts : List String)
    (model : Option String) :
    client.cacheFaults.Survives o o' (client.embedTexts texts model) := by
  rw [embedTexts]
  split
  · exact Faults.survives_pure
  refine (survives_lookupTexts hmasked texts [] []).bind fun looked => ?_
  obtain ⟨results, misses⟩ := looked
  have hfetch : client.cacheFaults.Survives o o' (client.fetchMisses
      (orElseText model client.defaultModel) misses results) := by
    rw [fetchMisses]
    split
    · exact Faults.survives_pure
    · exact (survives_createWithRetries hmasked 2).bind fun data =>
        survives_storeVectors hmasked data results
  refine hfetch.bind fun results => ?_
  split
  · exact Faults.survives_pure
  · exact Faults.survives_raise

end OpenAIEmbeddingClient

/-- A day at the desk without its stages, on which the exact cache answers every read alike. -/
def entryDay (read : Except Raised (Option String)) : RagOracle
  | _, .cacheGet _ => read
  | _, .critique _ _ _ => .error (.exception "TimeoutError")
  | h, op => deskDay (derived (RagOpsRow.initial 0)) [feesChunk] [] "Two percent." h op

theorem masked_entryDay {read : Except Raised (Option String)}
    (h : ∀ key, desk.maskCaches (.cacheGet key) read = .ok none) :
    desk.cacheFaults.Masked (entryDay read) (entryDay (.ok none)) := by
  intro op _ _ _
  cases op with
  | cacheGet key => exact (h key).symm
  | retrieve site _ _ _ _ => cases site <;> rfl
  | _ => rfl

/-- A client that can decode one entry. -/
def toyClient : OpenAIEmbeddingClient ℕ where
  defaultModel := "small"
  sha256 := id
  jsonDumps v := toString v
  jsonLoads raw := if raw = "7" then .ok (some 7) else .error (.exception "JSONDecodeError")

/-- The cache answers every read alike, and the API every request. -/
def toyDay (read : Except Raised (Option String)) : EmbedOracle ℕ
  | _, .get _ => read
  | _, .set _ _ => .ok ()
  | _, .create _ _ => .ok [(0, 7)]

theorem masked_toyDay {read : Except Raised (Option String)}
    (h : ∀ key, toyClient.maskCache (.get key) read = .ok none) :
    toyClient.cacheFaults.Masked (toyDay read) (toyDay (.ok none)) := by
  intro op _ _ _
  cases op with
  | get key => exact (h key).symm
  | _ => rfl

end EnterpriseRag
