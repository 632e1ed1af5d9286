import EnterpriseRag.Guardrails.InputPipeline

/-!
# The scan of an upload

`scanDocument` puts the findings of all chunks together and decides once. A decision to
redact is let through.
-/

namespace EnterpriseRag

structure IngestionSecurityScanner where
  deterministicScanners : List TextScanner
  mlScanner : Option TextScanner
  policy : GuardrailPolicy
  securityEvents : Bool

namespace IngestionSecurityScanner

variable (p : IngestionSecurityScanner)

/-- What all scanners find in all chunks, chunk by chunk. -/
def findings (chunkTexts : List String) : Except Raised (List (List ScanFinding)) :=
  chunkTexts.mapM fun text => do
    let found ← (p.deterministicScanners ++ p.mlScanner.toList).mapM fun scan => scan text
    return found.flatten

/-- `_record`. -/
def event (actor : Option String) (d : GuardrailDecision) : SecurityEvent where
  actor
  action := if d.action = .allow then "ingestion_would_block" else "ingestion_scan_failed"
  stage := .ingestion
  category := (d.findings.head?).map (·.category)
  mode := d.mode
  findings := summarizeFindings d
  wouldBlock := d.wouldBlock

/-- `scan_document` : the event to record, and the decision. -/
def scanDocument (chunkTexts : List String) (mode : GuardrailModeName) (actor : Option String) :
    Except Raised (Option SecurityEvent × GuardrailDecision) := do
  let found ← p.findings chunkTexts
  let decision := p.policy.decide found.flatten .ingestion mode
  return (if decision.wouldBlock && p.securityEvents then some (event actor decision) else none,
    if decision.action = .redact then { decision with action := .allow } else decision)

end IngestionSecurityScanner

end EnterpriseRag
