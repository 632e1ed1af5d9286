import EnterpriseRag.RagOps.Config

/-!
# Guardrail contracts

What a scanner finds in a text and what a guardrail decided to do with it.
-/

namespace EnterpriseRag

inductive GuardrailAction
  | allow
  | redact
  | block
  deriving DecidableEq, Repr

inductive GuardrailStage
  | input
  | context
  | output
  | tool
  | ingestion
  deriving DecidableEq, Repr

inductive GuardrailCategory
  | promptInjection
  | pii
  | secrets
  | toxicity
  | bannedTopic
  | maliciousUrl
  | promptLeak
  | unsafeRefusal
  | policy
  deriving DecidableEq, Repr

def GuardrailCategory.value : GuardrailCategory → String
  | .promptInjection => "prompt_injection"
  | .pii => "pii"
  | .secrets => "secrets"
  | .toxicity => "toxicity"
  | .bannedTopic => "banned_topic"
  | .maliciousUrl => "malicious_url"
  | .promptLeak => "prompt_leak"
  | .unsafeRefusal => "unsafe_refusal"
  | .policy => "policy"

structure ScanFinding where
  category : GuardrailCategory
  score : ℚ
  detector : String
  detail : Option String := none
  deriving DecidableEq, Repr

structure GuardrailDecision where
  stage : GuardrailStage
  action : GuardrailAction
  mode : GuardrailModeName
  findings : List ScanFinding := []
  wouldBlock : Bool := false
  deriving DecidableEq, Repr

end EnterpriseRag
