import EnterpriseRag.Guardrails.Contracts

/-!
# The guardrail policy

`decide` turns findings and a mode into a decision. Monitor mode allows everything and
keeps in `wouldBlock` what enforce mode would have done.
-/

namespace EnterpriseRag

structure GuardrailPolicy where
  alwaysBlock : List GuardrailCategory := [.promptInjection, .secrets, .maliciousUrl, .promptLeak]
  blockAboveThreshold : List (GuardrailCategory × ℚ) :=
    [(.toxicity, 75 / 100), (.bannedTopic, 6 / 10)]
  redactOnly : List GuardrailCategory := [.pii]
  deriving DecidableEq, Repr

def GuardrailDecision.blocked (d : GuardrailDecision) : Bool :=
  d.action = .block

namespace GuardrailPolicy

/-- `_is_block_worthy`. -/
def isBlockWorthy (p : GuardrailPolicy) (f : ScanFinding) : Bool :=
  f.category ∈ p.alwaysBlock || (p.blockAboveThreshold.lookup f.category).any (· ≤ f.score)

def decide (p : GuardrailPolicy) (findings : List ScanFinding) (stage : GuardrailStage)
    (mode : GuardrailModeName) : GuardrailDecision :=
  let wouldBlock := findings.any p.isBlockWorthy
  let wouldRedact := !wouldBlock && findings.any fun f => f.category ∈ p.redactOnly
  { stage
    action :=
      if mode = .monitor then .allow
      else if wouldBlock then .block
      else if wouldRedact then .redact
      else .allow
    mode
    findings
    wouldBlock }

/-- Nothing but a block-worthy finding blocks, and every such finding does in enforce mode. -/
theorem blocked_decide (p : GuardrailPolicy) (findings : List ScanFinding) (stage : GuardrailStage)
    (mode : GuardrailModeName) :
    (p.decide findings stage mode).blocked = true ↔
      mode = .enforce ∧ ∃ f ∈ findings, p.isBlockWorthy f = true := by
  rw [← List.any_eq_true]
  unfold GuardrailDecision.blocked decide
  cases mode <;> cases findings.any p.isBlockWorthy <;> simp
  split <;> simp

end GuardrailPolicy

/-- A row of the security events. -/
structure SecurityEvent where
  actor : Option String
  action : String
  stage : GuardrailStage
  category : Option GuardrailCategory
  mode : GuardrailModeName
  findings : List (GuardrailCategory × ℚ × String)
  wouldBlock : Bool
  droppedChunkCount : Option ℕ := none
  deriving DecidableEq, Repr

/-- `summarize_decision` : the findings without the texts they are about. -/
def summarizeFindings (d : GuardrailDecision) : List (GuardrailCategory × ℚ × String) :=
  d.findings.map fun f => (f.category, f.score, f.detector)

def GuardrailAction.value : GuardrailAction → String
  | .allow => "allow"
  | .redact => "redact"
  | .block => "block"

/-- The event an input or output decision leaves, if any. -/
def stageEvent (prefixed : String) (actor : Option String) (d : GuardrailDecision) :
    Option SecurityEvent :=
  if d.wouldBlock || d.action = .redact then
    some
      { actor
        action := prefixed ++ (if d.action = .allow then "would_block" else d.action.value)
        stage := d.stage
        category := (d.findings.head?).map (·.category)
        mode := d.mode
        findings := summarizeFindings d
        wouldBlock := d.wouldBlock }
  else none

end EnterpriseRag
