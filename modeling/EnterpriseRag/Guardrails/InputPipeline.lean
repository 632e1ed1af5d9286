import EnterpriseRag.Core.Exceptions
import EnterpriseRag.Guardrails.Canonicalizer
import EnterpriseRag.Guardrails.SensitiveData

/-!
# The input guard

`checkWithDecision` scans the canonical form of a question and decides. A question it
redacts goes on with a placeholder for each value, and the values stay in a vault that
`check_with_decision` makes and drops (`vault`).
-/

namespace EnterpriseRag

abbrev TextScanner := String → Except Raised (List ScanFinding)

structure InputGuardPipeline where
  unicode : UnicodeData
  deterministicScanners : List TextScanner
  mlScanner : Option TextScanner
  policy : GuardrailPolicy
  securityEvents : Bool

namespace InputGuardPipeline

variable (p : InputGuardPipeline)

/-- The decision about a question in canonical form. -/
def decide (text : String) (mode : GuardrailModeName) : Except Raised GuardrailDecision := do
  let findings ← (p.deterministicScanners ++ p.mlScanner.toList).mapM fun scan => scan text
  return p.policy.decide findings.flatten .input mode

/-- What goes on of a question in canonical form. -/
def sanitize (tokens : TokenSource) (text : String) (decision : GuardrailDecision) : String :=
  if decision.action = .redact then (tokenize p.unicode.isWord tokens text).1 else text

/-- `check_with_decision` : the event to record first, and what it returns or raises then. -/
def checkWithDecision (tokens : TokenSource) (text : String) (mode : GuardrailModeName)
    (actor : Option String) :
    Except Raised (Option SecurityEvent × Except Raised (String × GuardrailDecision)) := do
  let canonicalized := canonicalize p.unicode text 2
  let decision ← p.decide canonicalized mode
  return (if p.securityEvents then stageEvent "input_" actor decision else none,
    if decision.blocked then
      .error (.guardrailBlocked .input ((decision.findings.head?).map (·.category)))
    else .ok (p.sanitize tokens canonicalized decision, decision))

/-- The raw values `check_with_decision` stores when it redacts the question. -/
def vault (tokens : TokenSource) (text : String) : List (List Char) :=
  (tokenize p.unicode.isWord tokens (canonicalize p.unicode text 2)).2.map (·.2)

end InputGuardPipeline

end EnterpriseRag
