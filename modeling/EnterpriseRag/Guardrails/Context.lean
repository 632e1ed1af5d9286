import EnterpriseRag.Guardrails.Policy
import EnterpriseRag.Rag.Evidence

/-!
# The context guard

`filterEvidence` drops the evidence chunks whose text the injection scanner finds
something block-worthy in, and leaves one security event for all of them. `Keeps` is the
test a chunk passes; in enforce mode what the filter keeps is what passes it
(`filterEvidence_enforce`).
-/

namespace EnterpriseRag

structure ContextGuardPipeline where
  injectionScanner : Option (String → Except Raised (List ScanFinding))
  policy : GuardrailPolicy
  securityEvents : Bool

namespace ContextGuardPipeline

/-- The decision about each chunk. -/
def decisions (p : ContextGuardPipeline) (scan : String → Except Raised (List ScanFinding))
    (mode : GuardrailModeName) (evidence : List EvidenceChunk) :
    Except Raised (List (EvidenceChunk × GuardrailDecision)) :=
  evidence.mapM fun chunk => do
    return (chunk, p.policy.decide (← scan chunk.text) .context mode)

/-- The event for the decisions that dropped a chunk. -/
def droppedEvent (mode : GuardrailModeName) (dropped : List GuardrailDecision) : SecurityEvent where
  actor := none
  action := "context_chunks_dropped"
  stage := .context
  category := ((dropped.flatMap (·.findings)).head?).map (·.category)
  mode
  findings := dropped.flatMap summarizeFindings
  wouldBlock := dropped.any (·.wouldBlock)
  droppedChunkCount := some dropped.length

/-- `filter_evidence` : the chunks kept, and the event to record if some were not. -/
def filterEvidence (p : ContextGuardPipeline) (evidence : List EvidenceChunk)
    (mode : GuardrailModeName) : Except Raised (List EvidenceChunk × Option SecurityEvent) :=
  match p.injectionScanner with
  | none => .ok (evidence, none)
  | some scan => do
    let decided ← p.decisions scan mode evidence
    let dropped := (decided.map (·.2)).filter (·.blocked)
    return ((decided.filter (!·.2.blocked)).map (·.1),
      if dropped ≠ [] ∧ p.securityEvents then some (droppedEvent mode dropped) else none)

/-- The scanner, if there is one, finds nothing block-worthy in the chunk. -/
def Keeps (p : ContextGuardPipeline) (chunk : EvidenceChunk) : Prop :=
  ∀ scan, p.injectionScanner = some scan →
    ∃ findings, scan chunk.text = .ok findings ∧ ∀ f ∈ findings, p.policy.isBlockWorthy f = false

/-- What enforce mode keeps passes the test. -/
theorem filterEvidence_enforce {p : ContextGuardPipeline} {evidence kept : List EvidenceChunk}
    {event : Option SecurityEvent} (h : p.filterEvidence evidence .enforce = .ok (kept, event)) :
    ∀ chunk ∈ kept, p.Keeps chunk := by
  intro chunk hchunk scan hscan
  rw [filterEvidence, hscan] at h
  obtain ⟨decided, hdecided, h⟩ := bind_eq_ok.1 h
  obtain ⟨rfl, -⟩ := Prod.mk.inj (Except.ok.inj h)
  obtain ⟨⟨chunk, decision⟩, hmem, rfl⟩ := List.mem_map.1 hchunk
  obtain ⟨hmem, hallowed⟩ := List.mem_filter.1 hmem
  obtain ⟨i, hi, hget⟩ := List.getElem_of_mem hmem
  have hall := mapM_eq_ok.1 hdecided
  have hone := List.Forall₂.get hall (hall.length_eq ▸ hi) hi
  obtain ⟨findings, hfindings, hone⟩ := bind_eq_ok.1 hone
  rw [List.get_eq_getElem, List.get_eq_getElem, hget] at hone
  obtain ⟨rfl, rfl⟩ := Prod.mk.inj (Except.ok.inj hone)
  refine ⟨findings, hfindings, fun f hf => ?_⟩
  by_contra hworthy
  have hblocked := (p.policy.blocked_decide findings .context .enforce).2
    ⟨rfl, f, hf, by simpa using hworthy⟩
  simp [hblocked] at hallowed

end ContextGuardPipeline

end EnterpriseRag
