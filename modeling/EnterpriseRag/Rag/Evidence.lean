import EnterpriseRag.Core.Exceptions

/-!
# Retrieved chunks and evidence

What retrieval returns and what CRAG makes of it : the evidence the answer is generated
from, checked against and reported with.
-/

namespace EnterpriseRag

structure RetrievedChunk where
  text : String
  source : String
  score : ℚ
  pageNumber : Option ℤ := none
  deriving DecidableEq, Repr

inductive EvidenceOrigin
  | policy
  | regulatoryWeb
  deriving DecidableEq, Repr

structure EvidenceChunk where
  text : String
  source : String
  pageNumber : Option ℤ
  retrievalScore : ℚ
  origin : EvidenceOrigin
  canonicalUrl : Option String := none
  retrievedAtIso : Option String := none
  deriving DecidableEq, Repr

/-- `local_evidence`. -/
def localEvidence (chunks : List RetrievedChunk) : List EvidenceChunk :=
  chunks.map fun chunk =>
    ⟨chunk.text, chunk.source, chunk.pageNumber, chunk.score, .policy, none, none⟩

/-- `value or default` of an optional text : an empty one does not count. -/
def orElseText (value : Option String) (default : String) : String :=
  match value with
  | some text => if text = "" then default else text
  | none => default

/-- `_evidence_as_retrieved_chunks`. -/
def evidenceAsRetrievedChunks (evidence : List EvidenceChunk) : List RetrievedChunk :=
  evidence.map fun item =>
    ⟨item.text, orElseText item.canonicalUrl item.source, item.retrievalScore, item.pageNumber⟩

/-- `_public_source_identifier`. -/
def publicSourceIdentifier (item : EvidenceChunk) : String :=
  if item.origin = .regulatoryWeb then item.canonicalUrl.getD item.source else item.source

end EnterpriseRag
