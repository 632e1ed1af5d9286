import EnterpriseRag.Rag.EvidenceGuard
import EnterpriseRag.Rag.SharedCaches

/-!
# The guardrails of a cached answer

The namespace of a request has no segment for the guardrail mode or the policy version. A
hit is returned as it is, so its answer passed the guards of the call that composed it.
In a run where no call can be served what another wrote under other guardrails, every hit
was composed under the guardrails of the call it is served to (`guardrails_respected`).
-/

namespace EnterpriseRag

open Program Transition

/-- The same guardrail mode and policy version. -/
def SameGuardrails (config config' : RagRuntimeConfig) : Prop :=
  config.1.guardrailMode = config'.1.guardrailMode ∧
    config.1.guardrailPolicyVersion = config'.1.guardrailPolicyVersion

namespace Serving

variable {svc : RAGService} {s : Serving}

/-- A call of request `q` composed the response and wrote it, and `x` found it. -/
def ComposedFor (svc : RAGService) (s : Serving) (x : RagCall) (response : RagChatResponse)
    (q : RagRequest) : Prop :=
  ∃ e w stages cached, x.served = some e ∧ s.WrittenBy svc e w q ∧
    svc.modelValidateJson (svc.modelDumpJson (svc.respond q stages)) = .ok cached ∧
    response = { cached with cacheHit := true }

/-- Every cached answer served was composed under the guardrails of the call it was served
to. -/
def GuardrailsRespected (svc : RAGService) (s : Serving) : Prop :=
  ∀ c x response config, s.calls c = some x → x.program = .pure response →
    response.cacheHit = true → x.trace.config = some config →
    ∃ q, s.ComposedFor svc x response q ∧ SameGuardrails config q.config

/-- No call can be served what one under other guardrails wrote. -/
def GuardrailsApart (svc : RAGService) (s : Serving) : Prop :=
  ∀ c x q c' x' q', s.calls c = some x → x.Requests svc q → s.calls c' = some x' →
    x'.Requests svc q' → x'.wroteAt.isSome → s.MayServe svc q q' →
    SameGuardrails q.config q'.config

theorem config_of_requests {x : RagCall} {q : RagRequest} {config : RagRuntimeConfig}
    (hq : x.Requests svc q) (hconfig : x.trace.config = some config) : q.config = config := by
  obtain ⟨config', hconfig', hprepare⟩ := hq
  obtain rfl := Option.some.inj (hconfig.symm.trans hconfig')
  exact (RAGService.plan_of_prepare hprepare).1

/-- In every run that keeps calls under different guardrails apart, cached answers respect
the guardrails. -/
theorem guardrails_respected {es : List Event} {t : Serving} (h : exec (step svc) init es = some t)
    (hapart : t.GuardrailsApart svc) : t.GuardrailsRespected svc := by
  intro c x response config hx hreturned hhit hconfig
  obtain ⟨q, e, w, q', stages, cached, hq, he, hw, hserve, hcached, hresponse⟩ :=
    (sound_run h).exists_writer hx hreturned hhit
  obtain ⟨t', hwrote, -⟩ := hw.wrote
  have hsame := hapart c x q e.writer w q' hx hq hw.writer hw.request (by simp [hwrote]) hserve
  rw [config_of_requests hq hconfig] at hsame
  exact ⟨q', ⟨e, w, stages, cached, he, hw, hcached, hresponse⟩, hsame⟩

/-- What a call reads is the configuration replied to it. -/
theorem config_performed {x : RagCall} {op : RagOp} {k : op.Res → RagProgram RagChatResponse}
    {reply : (op : RagOp) → op.Res} {config : RagRuntimeConfig}
    (h : (s.performed x op (s.cache.respond op (reply op)) k).trace.config = some config) :
    x.trace.config = some config ∨ config = reply .currentConfig := by
  cases op with
  | currentConfig => exact Or.inr (Option.some.inj h).symm
  | cacheGet key =>
    left
    revert h
    rcases s.cache.respond (.cacheGet key) (reply (.cacheGet key)) with _ | _ | _ <;> exact id
  | findCandidates embedding cacheNamespace topK threshold =>
    left
    revert h
    cases s.cache.respond (.findCandidates embedding cacheNamespace topK threshold)
      (reply (.findCandidates embedding cacheNamespace topK threshold)) <;> exact id
  | retrieve site strategy text embedding topK => cases site <;> exact Or.inl h
  | _ => exact Or.inl h

/-- The configuration replied in an event, if one is asked for, has the guardrails of
`base`. -/
def Event.Guards (base : RagRuntimeConfig) : Event → Prop
  | .perform _ reply _ => SameGuardrails (reply .currentConfig) base
  | _ => True

/-- As long as the guardrails do not change, calls are apart. -/
theorem guardrailsApart_of_guards {base : RagRuntimeConfig} {es : List Event} {t : Serving}
    (hes : ∀ e ∈ es, e.Guards base) (h : exec (step svc) init es = some t) :
    t.GuardrailsApart svc := by
  have hread : ∀ c x config, t.calls c = some x → x.trace.config = some config →
      SameGuardrails config base := by
    refine invariant_along (I := fun s : Serving => ∀ c x config, s.calls c = some x →
      x.trace.config = some config → SameGuardrails config base) (P := fun _ e => e.Guards base)
      ?_ (fun c x config hx => by simp [init] at hx) (along_of_forall_mem (fun e he _ => hes e he) _) h
    intro s e s' hs he hstep c' x' config hx' hconfig
    rcases step_cases hstep with ⟨c, args, rfl, -, rfl⟩ |
      ⟨c, reply, landed, x, op, k, rfl, hx, -, rfl⟩ | ⟨-, hcalls, -⟩
    · rcases mem_update hx' with ⟨-, rfl⟩ | hx'
      · exact nomatch hconfig
      · exact hs c' x' config hx' hconfig
    · rcases mem_update hx' with ⟨-, rfl⟩ | hx'
      · rcases config_performed hconfig with hconfig | rfl
        · exact hs c x config hx hconfig
        · exact he
      · exact hs c' x' config hx' hconfig
    · exact hs c' x' config (hcalls ▸ hx') hconfig
  intro c x q c' x' q' hx hq hx' hq' _ _
  obtain ⟨config, hconfig, hprepare⟩ := id hq
  obtain ⟨config', hconfig', hprepare'⟩ := id hq'
  rw [config_of_requests hq hconfig, config_of_requests hq' hconfig']
  obtain ⟨hmode, hversion⟩ := hread c x config hx hconfig
  obtain ⟨hmode', hversion'⟩ := hread c' x' config' hx' hconfig'
  exact ⟨hmode.trans hmode'.symm, hversion.trans hversion'.symm⟩

end Serving

/-! ## Two calls at the desk -/

/-- The desk's configuration in the mode. -/
def deskConfigIn (mode : GuardrailModeName) : RagRuntimeConfig :=
  ⟨{ deskConfig.1 with guardrailMode := mode }, by cases mode <;> decide +kernel⟩

def feesCall : AnswerCall where
  question := "Fees?"
  selfReflectiveEnabled := some false

/-- What the surroundings answer in the mode : the retrieval finds a chunk that gives orders. -/
def orderDay (mode : GuardrailModeName) : RagOracle :=
  deskDay (deskConfigIn mode) [orderChunk] [] "Two percent."

/-- The response the desk composes in the mode. -/
def composedIn (mode : GuardrailModeName) : Except Raised RagChatResponse :=
  (run (orderDay mode) [] (desk.answer feesCall)).1

/-- The desk with a cache that knows its two responses. -/
def cachingDesk : RAGService :=
  { desk with
    modelDumpJson := fun response => response.guardrail.mode.value
    modelValidateJson := fun raw =>
      if raw = "monitor" then composedIn .monitor else composedIn .enforce }

/-- Call `c` runs its next `n` operations in the mode. -/
def operations (c n : ℕ) (mode : GuardrailModeName) : List Serving.Event :=
  List.replicate n (.perform c (orderDay mode []) false)

/-- Two calls of the same question, the first in the mode and the second in enforce mode. -/
def twoCalls (mode : GuardrailModeName) : List Serving.Event :=
  .start 0 feesCall :: operations 0 6 mode ++ .start 1 feesCall :: operations 1 2 .enforce

/-- What call `c` made of a run at the desk : the mode it read, who wrote what it found, and
whether it returned a hit, in which mode that was composed and on how much evidence. -/
def outcomeOf (es : List Serving.Event) (c : ℕ) :
    Option (Option GuardrailModeName × Option ℕ × Option (Bool × GuardrailModeName × ℕ)) :=
  ((exec (Serving.step cachingDesk) .init es).bind (·.calls c)).map fun x =>
    (x.trace.config.map (·.1.guardrailMode), x.served.map (·.writer),
      match x.program with
      | .pure response =>
        some (response.cacheHit, response.guardrail.mode, response.finalEvidence.length)
      | _ => none)

theorem exists_outcome {es : List Serving.Event} {c : ℕ} {mode : Option GuardrailModeName}
    {writer : Option ℕ} {returned : Bool × GuardrailModeName × ℕ}
    (h : outcomeOf es c = some (mode, writer, some returned)) :
    ∃ t x response, exec (Serving.step cachingDesk) .init es = some t ∧ t.calls c = some x ∧
      x.program = .pure response ∧ x.trace.config.map (·.1.guardrailMode) = mode ∧
      x.served.map (·.writer) = writer ∧
      (response.cacheHit, response.guardrail.mode, response.finalEvidence.length) = returned := by
  obtain ⟨x, hx, houtcome⟩ := Option.map_eq_some_iff.1 h
  obtain ⟨t, ht, hx⟩ := Option.bind_eq_some_iff.1 hx
  obtain ⟨hmode, hrest⟩ := Prod.mk.inj houtcome
  obtain ⟨hwriter, hreturned⟩ := Prod.mk.inj hrest
  split at hreturned
  · rename_i response hprogram
    exact ⟨t, x, response, ht, hx, hprogram, hmode, hwriter, Option.some.inj hreturned⟩
  · exact nomatch hreturned

/-- Both calls in enforce mode : the second is served what the first composed without the
chunk that gives orders. -/
theorem guardrails_respected_enforce : ∃ t x response,
    exec (Serving.step cachingDesk) .init (twoCalls .enforce) = some t ∧ t.calls 1 = some x ∧
      x.program = .pure response ∧ response.cacheHit = true ∧ response.finalEvidence.length = 0 ∧
      t.GuardrailsRespected cachingDesk := by
  have houtcome : outcomeOf (twoCalls .enforce) 1 =
      some (some .enforce, some 0, some (true, .enforce, 0)) := by decide +kernel
  obtain ⟨t, x, response, ht, hx, hprogram, -, -, hreturned⟩ := exists_outcome houtcome
  obtain ⟨hhit, hrest⟩ := Prod.mk.inj hreturned
  obtain ⟨-, hevidence⟩ := Prod.mk.inj hrest
  have hguards : ∀ e ∈ twoCalls .enforce, e.Guards (deskConfigIn .enforce) := by
    intro e he
    simp only [twoCalls, operations, List.mem_cons, List.cons_append, List.mem_append,
      List.mem_replicate] at he
    rcases he with rfl | ⟨-, rfl⟩ | rfl | ⟨-, rfl⟩
    · trivial
    · exact ⟨rfl, rfl⟩
    · trivial
    · exact ⟨rfl, rfl⟩
  exact ⟨t, x, response, ht, hx, hprogram, hhit, hevidence,
    Serving.guardrails_respected ht (Serving.guardrailsApart_of_guards hguards ht)⟩

/-- The first call in monitor mode : the second is served its answer in enforce mode, with
the chunk that gives orders. -/
theorem monitored_answer_served : ∃ t x response,
    exec (Serving.step cachingDesk) .init (twoCalls .monitor) = some t ∧ t.calls 1 = some x ∧
      x.program = .pure response ∧ response.cacheHit = true ∧ response.finalEvidence.length = 1 ∧
      response.guardrail.mode = .monitor ∧ ¬t.GuardrailsRespected cachingDesk := by
  have houtcome : outcomeOf (twoCalls .monitor) 1 =
      some (some .enforce, some 0, some (true, .monitor, 1)) := by decide +kernel
  have houtcome₀ : outcomeOf (twoCalls .monitor) 0 =
      some (some .monitor, none, some (false, .monitor, 1)) := by decide +kernel
  obtain ⟨t, x, response, ht, hx, hprogram, hmode, hwriter, hreturned⟩ := exists_outcome houtcome
  obtain ⟨t', x₀, response₀, ht', hx₀, -, hmode₀, -⟩ := exists_outcome houtcome₀
  obtain rfl := Option.some.inj (ht.symm.trans ht')
  obtain ⟨hhit, hrest⟩ := Prod.mk.inj hreturned
  obtain ⟨hcomposed, hevidence⟩ := Prod.mk.inj hrest
  refine ⟨t, x, response, ht, hx, hprogram, hhit, hevidence, hcomposed, fun hrespected => ?_⟩
  obtain ⟨config, hconfig, hconfigMode⟩ := Option.map_eq_some_iff.1 hmode
  obtain ⟨config₀, hconfig₀, hconfigMode₀⟩ := Option.map_eq_some_iff.1 hmode₀
  obtain ⟨q, ⟨e, w, stages, cached, he, hw, -⟩, hsame, -⟩ :=
    hrespected 1 x response config hx hprogram hhit hconfig
  -- the entry found was written by the first call
  have hwriter₀ : e.writer = 0 := by
    rw [he] at hwriter
    exact Option.some.inj hwriter
  have hfirst := hw.writer
  rw [hwriter₀, hx₀] at hfirst
  obtain rfl := Option.some.inj hfirst
  rw [Serving.config_of_requests hw.request hconfig₀, hconfigMode, hconfigMode₀] at hsame
  exact nomatch hsame

end EnterpriseRag
