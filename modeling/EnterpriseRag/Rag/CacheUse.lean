import EnterpriseRag.Rag.Service

/-!
# How an answer uses the caches

`CacheTrace` follows one run of `answer` : the snapshot it read, the candidates of the
semantic cache, the entry it found last and whether it has retrieved. `Permitted` says where
each kind of operation may stand, and `permits_answer` that whatever the responses, a run of
`answer` stays within it : it reads the caches under the key and in the partition of its
request, and writes what it composed under the same key, after one retrieval. A response
marked as a hit is the decoded entry found last (`ServedFromCache`).
-/

namespace EnterpriseRag

open Program

/-- What a call has read, and whether it has retrieved. -/
structure CacheTrace where
  config : Option RagRuntimeConfig := none
  candidates : List String := []
  found : Option (String × String) := none
  retrieved : Bool := false

def CacheTrace.next (t : CacheTrace) : (op : RagOp) → op.Res → CacheTrace
  | .currentConfig, config => { t with config := some config }
  | .findCandidates _ _ _ _, .ok keys => { t with candidates := keys }
  | .cacheGet key, .ok (some raw) => { t with found := some (key, raw) }
  | .retrieve .request _ _ _ _, _ => { t with retrieved := true }
  | _, _ => t

/-- The calls between the evidence and the cache writes. -/
def RagOp.Composes : RagOp → Prop
  | .generate _ _ | .critique _ _ _ | .revise _ _ _ _ | .retrieve .reflection _ _ _ _ => True
  | op => op.Plain

/-- The calls of an additional retrieval. -/
def RagOp.Augments : RagOp → Prop
  | .embedTexts _ | .retrieve .reflection _ _ _ _ => True
  | _ => False

namespace RAGService

variable (svc : RAGService) (call : AnswerCall)

/-- `q` is the request of the call under the snapshot it read. -/
def Requests (t : CacheTrace) (q : RagRequest) : Prop :=
  ∃ config, t.config = some config ∧ svc.prepare config call = .ok q

/-- Where an operation may stand. -/
def Permitted (t : CacheTrace) : RagOp → Prop
  | .currentConfig => t.config = none
  | .cacheGet key => ∃ q, svc.Requests call t q ∧
      (key = q.cacheKey ∨ svc.semanticOn q ∧ key ∈ t.candidates)
  | .findCandidates _ cacheNamespace topK _ => ∃ q, svc.Requests call t q ∧ svc.semanticOn q ∧
      cacheNamespace = q.cacheNamespace ∧ topK = q.call.topK
  | .retrieve .request _ _ _ _ => t.retrieved = false
  | .cacheSet key value => ∃ q stages, svc.Requests call t q ∧ key = q.cacheKey ∧
      value = svc.modelDumpJson (svc.respond q stages) ∧ t.retrieved = true
  | .recordSemantic _ cacheNamespace topK key => ∃ q, svc.Requests call t q ∧ svc.semanticOn q ∧
      cacheNamespace = q.cacheNamespace ∧ topK = q.call.topK ∧ key = q.cacheKey
  | _ => True

/-- A response marked as a hit is the entry found last. -/
def ServedFromCache (t : CacheTrace) (x : Except Raised RagChatResponse) : Prop :=
  ∀ response, x = .ok response → response.cacheHit = true →
    ∃ key raw cached, t.found = some (key, raw) ∧ svc.modelValidateJson raw = .ok cached ∧
      response = { cached with cacheHit := true }

variable {svc call}

abbrev Permits (svc : RAGService) (call : AnswerCall) {α : Type}
    (Q : CacheTrace → Except Raised α → Prop) (t : CacheTrace) (p : RagProgram α) : Prop :=
  Keeps (svc.Permitted call) CacheTrace.next Q t p

/-- The end of a part that returns : `P` of the trace and the result. -/
def Ends {α : Type} (P : CacheTrace → α → Prop) (t : CacheTrace) (x : Except Raised α) : Prop :=
  ∀ a, x = .ok a → P t a

theorem Permits.ends_bind {α β : Type} {P : CacheTrace → α → Prop} {P' : CacheTrace → β → Prop}
    {p : RagProgram α} {f : α → RagProgram β} {t : CacheTrace}
    (hp : Permits svc call (Ends P) t p)
    (hok : ∀ t a, P t a → Permits svc call (Ends P') t (f a)) :
    Permits svc call (Ends P') t (p >>= f) :=
  hp.bind (fun _ _ _ _ h => nomatch h) fun t a h => hok t a (h a rfl)

theorem permitted_of_composes {t : CacheTrace} {op : RagOp} (h : op.Composes) :
    svc.Permitted call t op ∧ ∀ r, t.next op r = t := by
  cases op with
  | retrieve site strategy text embedding topK =>
    cases site with
    | request => exact h.elim
    | reflection => exact ⟨trivial, fun _ => rfl⟩
  | _ => first | exact ⟨trivial, fun _ => rfl⟩ | exact h.elim

theorem composes_of_plain {op : RagOp} (h : op.Plain) : op.Composes := by
  cases op <;> trivial

theorem permits_of_composes {α : Type} {p : RagProgram α} {t : CacheTrace}
    (h : p.Uses RagOp.Composes) : Permits svc call (fun t' _ => t' = t) t p := by
  refine h.keeps (fun t' op hop ht => ?_) rfl
  obtain ⟨hpermitted, hnext⟩ : svc.Permitted call t' op ∧ ∀ r, t'.next op r = t' :=
    permitted_of_composes hop
  exact ⟨hpermitted, fun r => (hnext r).trans ht⟩

theorem permits_of_plain {α : Type} {p : RagProgram α} {t : CacheTrace}
    (h : p.Uses RagOp.Plain) : Permits svc call (Ends fun t' _ => t' = t) t p :=
  (permits_of_composes (h.mono fun _ => composes_of_plain)).mono fun _ _ ht _ _ => ht

section Run

variable {q : RagRequest} {t : CacheTrace}

theorem permits_of_prepares {α : Type} {p : RagProgram α} (h : p.Uses RagOp.Prepares) :
    Permits svc call (Ends fun t' _ => t' = t) t p :=
  permits_of_plain (h.mono fun _ => plain_of_prepares)

theorem permits_of_guards {α : Type} {p : RagProgram α} (h : p.Uses RagOp.Guards) :
    Permits svc call (Ends fun t' _ => t' = t) t p :=
  permits_of_plain (h.mono fun _ => plain_of_guards)

/-! ## Retrieval and composition -/

/-- The request retrieves once. -/
theorem permits_retrieveStage {original : Option Embedding} (h : t.retrieved = false) :
    Permits svc call (Ends fun t' _ => t' = { t with retrieved := true }) t
      (svc.retrieveStage q original) := by
  have hretrieve : ∀ hyde original embedding,
      Permits svc call (Ends fun t' _ => t' = { t with retrieved := true }) t
      (do
        let chunks ← ask (.retrieve .request q.strategy q.call.question embedding q.candidateTopK) id
        return (hyde, original, chunks) :
          RagProgram (QueryTransformOutcome × Option Embedding × List RetrievedChunk)) := by
    intro hyde original embedding
    refine keeps_ask_bind h (fun _ _ _ _ h => nomatch h) ?_
    rintro _ chunks rfl _ -
    rfl
  rw [retrieveStage]
  refine (permits_of_prepares (uses_hydeStage (fun _ => trivial) fun _ => trivial)).ends_bind fun t' outcome ht => ?_
  subst ht
  obtain ⟨hyde, hypothetical⟩ := outcome
  dsimp only
  split
  · exact hretrieve hyde _ _
  · refine (permits_of_prepares
      (uses_questionEmbedding (fun _ => trivial) original)).ends_bind fun t' original ht => ?_
    subst ht
    exact hretrieve hyde original _

theorem permits_gather {original : Option Embedding} (h : t.retrieved = false) :
    Permits svc call (Ends fun t' _ => t' = { t with retrieved := true }) t
      (svc.gather q original) := by
  refine (permits_retrieveStage h).ends_bind fun t₁ retrieved h₁ => ?_
  refine (permits_of_prepares
    (uses_rerankStage (fun _ _ _ => trivial) _)).ends_bind fun t₂ reranked h₂ => ?_
  refine (permits_of_plain
    (uses_cragStage fun _ => trivial)).ends_bind fun t₃ corrected h₃ => ?_
  refine (permits_of_guards (uses_guardStage _)).ends_bind fun t₄ crag h₄ => ?_
  rintro _ -
  exact h₄.trans (h₃.trans (h₂.trans h₁))

theorem uses_draft {S : RagOp → Prop} {crag : CRAGOutcome}
    (hgenerate : S (.generate crag.evidence q.call.question)) : (draft q crag).Uses S := by
  rw [draft]
  split
  · exact uses_pure _
  refine Uses.bind (fun answer => ?_) (uses_ask hgenerate)
  refine Uses.bind (fun fabricated => ?_) (uses_orRaise _)
  split <;> exact uses_pure _

theorem uses_retrieveReflectionEvidence (query : String) :
    (svc.retrieveReflectionEvidence q query).Uses RagOp.Augments := by
  have hretrieve : ∀ embedding, (do
      let chunks ← ask (.retrieve .reflection q.strategy query embedding
        svc.reflectionRetrievalTopK) id
      return localEvidence chunks : RagProgram (List EvidenceChunk)).Uses RagOp.Augments :=
    fun _ => Uses.bind (fun _ => uses_pure _) (uses_ask trivial)
  rw [retrieveReflectionEvidence]
  split
  · refine Uses.bind (fun embedding => hretrieve embedding) ?_
    exact Uses.bind (fun _ => uses_pure _) (uses_ask trivial)
  · exact hretrieve none

theorem composes_of_augments {op : RagOp} (h : op.Augments) : op.Composes := by
  cases op with
  | retrieve site _ _ _ _ =>
    cases site with
    | request => exact h.elim
    | reflection => trivial
  | _ => trivial

/-- Reflection leaves the trace as it is. -/
theorem roundRule_composes {question : String} {maxRetrievals : ℕ} :
    RoundRule svc.selfReflection question maxRetrievals (svc.retrieveReflectionEvidence q)
      (svc.Permitted call) CacheTrace.next (fun t' _ _ => t' = t) (fun t' _ _ => t' = t)
      (fun t' _ _ => t' = t) (fun t' _ _ => t' = t) (fun t' => t' = t) where
  clock _ := ⟨trivial, fun _ => rfl⟩
  decide _ _ _ _ _ := ⟨trivial, fun _ => rfl⟩
  start h := h
  critique h := ⟨trivial, fun _ => h, fun _ => h⟩
  accept h := h
  decline h := h
  invalid h := h
  keep h := h
  augment := by
    rintro - t' answer evidence query rfl
    refine (permits_of_composes
      ((uses_retrieveReflectionEvidence query).mono fun _ => composes_of_augments)).mono fun t' x ht => ?_
    cases x <;> exact ht
  exhaust h := h
  revise h := ⟨trivial, fun _ => ⟨h, fun _ _ _ => h⟩⟩

theorem permits_reflectStage {crag : CRAGOutcome} {answer : String} {fabricated : Bool} :
    Permits svc call (Ends fun t' _ => t' = t) t (svc.reflectStage q crag answer fabricated) := by
  have hexecute : Permits svc call (Ends fun t' _ => t' = t) t
      (svc.selfReflection.execute q.call.question crag.evidence answer
        (svc.retrieveReflectionEvidence q) q.selfReflectionPlan) := by
    refine (roundRule_composes.keeps_execute rfl).mono fun t' x hx outcome hok => ?_
    subst hok
    rcases hx with hx | hx
    · exact hx.1
    · exact hx.1
  rw [reflectStage]
  split
  · refine hexecute.ends_bind fun t' _ ht => ?_
    rintro _ -
    exact ht
  · split
    · exact hexecute
    · rintro _ -
      rfl

theorem permits_compose {s : Stages} :
    Permits svc call (Ends fun t' _ => t' = t) t (svc.compose q s) := by
  refine Permits.ends_bind (P := fun t' _ => t' = t) ?_ fun t₁ drafted h₁ => ?_
  · exact (permits_of_composes (uses_draft trivial)).mono fun _ _ h _ _ => h
  refine permits_reflectStage.ends_bind fun t₂ outcome h₂ => ?_
  refine (permits_of_guards (uses_outputStage _)).ends_bind fun t₃ served h₃ => ?_
  rintro _ -
  exact h₃.trans (h₂.trans h₁)

/-! ## The caches -/

theorem permits_setCached {stages : Stages} (hq : svc.Requests call t q)
    (hretrieved : t.retrieved = true) :
    Permits svc call (Ends fun t' _ => t' = t) t
      (svc.setCached q.cacheKey (svc.respond q stages)) := by
  refine keeps_attempt_bind ⟨q, stages, hq, rfl, rfl, hretrieved⟩ fun r => ?_
  match r with
  | .ok () =>
    rintro _ -
    rfl
  | .error e =>
    dsimp only [id]
    split
    · rintro _ -
      rfl
    · exact fun _ h => nomatch h

theorem permits_recordSemanticCache {embedding : Embedding} (hq : svc.Requests call t q)
    (hon : svc.semanticOn q = true) :
    Permits svc call (Ends fun t' _ => t' = t) t (recordSemanticCache q embedding) := by
  refine keeps_attempt_bind ⟨q, hq, hon, rfl, rfl, rfl⟩ fun r => ?_
  match r with
  | .ok () =>
    rintro _ -
    rfl
  | .error e =>
    dsimp only [id]
    split
    · rintro _ -
      rfl
    · exact fun _ h => nomatch h

theorem permits_cacheResponse {stages : Stages} {original : Option Embedding}
    (hq : svc.Requests call t q) (hretrieved : t.retrieved = true) :
    Permits svc call (Ends fun t' _ => t' = t) t (svc.cacheResponse q stages original) := by
  rw [cacheResponse]
  split
  · rintro _ -
    rfl
  refine (permits_setCached hq hretrieved).ends_bind fun t' written ht => ?_
  subst ht
  split
  · split
    · rename_i hwritten
      exact permits_recordSemanticCache hq (by simp_all)
    · rintro _ -
      rfl
  · rintro _ -
    rfl

/-- A generated response is no hit. -/
theorem permits_generateAnswer {original : Option Embedding} (hq : svc.Requests call t q)
    (h : t.retrieved = false) :
    Permits svc call (svc.ServedFromCache) t (svc.generateAnswer q original) := by
  have hgenerated : Permits svc call (Ends fun _ response => response.cacheHit = false) t
      (svc.generateAnswer q original) := by
    refine (permits_gather h).ends_bind fun t₁ gathered h₁ => ?_
    refine permits_compose.ends_bind fun t₂ stages h₂ => ?_
    have ht₂ : t₂ = { t with retrieved := true } := h₂.trans h₁
    subst ht₂
    have hq₂ : svc.Requests call { t with retrieved := true } q := hq
    refine (permits_cacheResponse hq₂ rfl).ends_bind fun t₃ _ _ => ?_
    rintro _ hresponse
    obtain rfl := Except.ok.inj hresponse
    rfl
  refine hgenerated.mono fun t' x hx response hok hhit => ?_
  rw [hx response hok] at hhit
  exact nomatch hhit

/-- After a look-up : the entry found last is the one returned. -/
def Found (svc : RAGService) (t : CacheTrace) (config : Option RagRuntimeConfig)
    (found : Option RagChatResponse) : Prop :=
  t.config = config ∧ t.retrieved = false ∧ ∀ cached, found = some cached →
    ∃ key raw, t.found = some (key, raw) ∧ svc.modelValidateJson raw = .ok cached

theorem permits_getCached {key : String} (hq : svc.Requests call t q) (h : t.retrieved = false)
    (hkey : key = q.cacheKey ∨ svc.semanticOn q ∧ key ∈ t.candidates) :
    Permits svc call (Ends fun t' found => Found svc t' t.config found ∧
      t'.candidates = t.candidates) t (svc.getCached key) := by
  refine keeps_attempt_bind ⟨q, hq, hkey⟩ fun r => ?_
  match r with
  | .error e =>
    dsimp only [id]
    split
    · rintro _ hfound
      obtain rfl := Except.ok.inj hfound
      exact ⟨⟨rfl, h, fun _ h => nomatch h⟩, rfl⟩
    · exact fun _ h => nomatch h
  | .ok none =>
    rintro _ hfound
    obtain rfl := Except.ok.inj hfound
    exact ⟨⟨rfl, h, fun _ h => nomatch h⟩, rfl⟩
  | .ok (some raw) =>
    refine keeps_orRaise_bind (fun _ _ _ h => nomatch h) fun response hraw => ?_
    rintro _ hfound
    obtain rfl := Except.ok.inj hfound
    refine ⟨⟨rfl, h, fun cached hcached => ?_⟩, rfl⟩
    obtain rfl := Option.some.inj hcached
    exact ⟨key, raw, rfl, hraw⟩

theorem permits_firstLive (hon : svc.semanticOn q = true) :
    ∀ {keys : List String} {t : CacheTrace}, svc.Requests call t q → t.retrieved = false →
      (∀ key ∈ keys, key ∈ t.candidates) →
      Permits svc call (Ends fun t' found => Found svc t' t.config found) t (svc.firstLive keys)
  | [], t, _, h, _ => by
    rintro _ hfound
    obtain rfl := Except.ok.inj hfound
    exact ⟨rfl, h, fun _ h => nomatch h⟩
  | key :: keys, t, hq, h, hkeys => by
    refine (permits_getCached hq h (Or.inr ⟨hon, hkeys key List.mem_cons_self⟩)).ends_bind ?_
    rintro t' found ⟨hfound, hcandidates⟩
    obtain ⟨hconfig, hretrieved, hlive⟩ := hfound
    cases found with
    | some response =>
      rintro _ hresponse
      obtain rfl := Except.ok.inj hresponse
      exact ⟨hconfig, hretrieved, hlive⟩
    | none =>
      rw [← hconfig]
      refine permits_firstLive hon ?_ hretrieved fun key hkey => ?_
      · rw [Requests, hconfig]
        exact hq
      · rw [hcandidates]
        exact hkeys key (List.mem_cons_of_mem _ hkey)

theorem permits_checkSemanticCache {embedding : Embedding} (hq : svc.Requests call t q)
    (h : t.retrieved = false) (hon : svc.semanticOn q = true) :
    Permits svc call (Ends fun t' found => Found svc t' t.config found) t
      (svc.checkSemanticCache q embedding) := by
  refine keeps_attempt_bind ⟨q, hq, hon, rfl, rfl⟩ fun r => ?_
  match r with
  | .error e =>
    dsimp only [id]
    split
    · rintro _ hfound
      obtain rfl := Except.ok.inj hfound
      exact ⟨rfl, h, fun _ h => nomatch h⟩
    · exact fun _ h => nomatch h
  | .ok keys =>
    exact permits_firstLive (t := { t with candidates := keys }) hon hq h fun _ hkey => hkey

theorem permits_lookup (hq : svc.Requests call t q) (h : t.retrieved = false) :
    Permits svc call (Ends fun t' found => Found svc t' t.config found.1) t (svc.lookup q) := by
  refine (permits_getCached hq h (Or.inl rfl)).ends_bind ?_
  rintro t₁ found ⟨hfound, -⟩
  cases found with
  | some response =>
    rintro _ hresponse
    obtain rfl := Except.ok.inj hresponse
    exact hfound
  | none =>
    obtain ⟨hconfig, hretrieved, -⟩ := hfound
    have hq₁ : svc.Requests call t₁ q := by
      rw [Requests, hconfig]
      exact hq
    dsimp only
    split
    · rename_i hsemantic
      refine (permits_of_prepares (uses_embedOne (fun _ => trivial) _)).ends_bind fun t₂ embedding ht => ?_
      subst ht
      refine (permits_checkSemanticCache hq₁ hretrieved (by simp_all)).ends_bind ?_
      rintro t₃ found hfound _ hresponse
      obtain rfl := Except.ok.inj hresponse
      exact hconfig ▸ hfound
    · rintro _ hresponse
      obtain rfl := Except.ok.inj hresponse
      exact ⟨hconfig, hretrieved, fun _ h => nomatch h⟩

theorem permits_serve (hq : svc.Requests call t q) (h : t.retrieved = false) :
    Permits svc call svc.ServedFromCache t (svc.serve q) := by
  refine (permits_lookup hq h).bind (fun _ _ _ _ h => nomatch h) ?_
  rintro t' ⟨found, original⟩ hfound
  obtain ⟨hconfig, hretrieved, hlive⟩ := hfound _ rfl
  cases found with
  | some cached =>
    rintro _ hresponse -
    obtain rfl := Except.ok.inj hresponse
    obtain ⟨key, raw, hentry, hraw⟩ := hlive cached rfl
    exact ⟨key, raw, cached, hentry, hraw, rfl⟩
  | none =>
    refine permits_generateAnswer ?_ hretrieved
    rw [Requests, hconfig]
    exact hq

end Run

/-- A run of `answer` uses the caches as permitted. -/
theorem permits_answer (svc : RAGService) (call : AnswerCall) :
    Permits svc call svc.ServedFromCache {} (svc.answer call) := by
  refine ⟨rfl, fun config => ?_⟩
  refine keeps_orRaise_bind (fun _ _ _ h => nomatch h) fun q hq => ?_
  exact permits_serve ⟨config, rfl, hq⟩ rfl

end RAGService

end EnterpriseRag
