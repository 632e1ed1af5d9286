import EnterpriseRag.Rag.Service

/-!
# The corrective retriever

`ProductionCorrectiveRetriever.correct`, with the calls it makes to its grader, its refiner,
its scope policy, its formulator of queries and the web as operations of its own. An outcome
that does not abstain has as many pieces of evidence as the retriever was told to ask for
(`returns_correct`), and without leave to search the web it does not search
(`uses_correct`).
-/

namespace EnterpriseRag

structure ChunkGrade where
  index : ℕ
  relevance : ℚ
  supportsQuestion : Bool
  reasonCode : String
  deriving DecidableEq, Repr

structure RetrievalGrade where
  decision : CRAGDecision
  coverage : ℚ
  chunks : List ChunkGrade
  usageTokens : ℤ := 0
  deriving DecidableEq, Repr

structure WebEvidence where
  title : String
  text : String
  canonicalUrl : String
  domain : String
  retrievedAtIso : String
  score : ℚ
  deriving DecidableEq, Repr

/-- A call of the corrective retriever to a collaborator. -/
inductive CragOp
  | grade (question : String) (chunks : List RetrievedChunk)
  | refineLocal (question : String) (chunks : List RetrievedChunk) (grade : RetrievalGrade)
  | permitsPublicRegulatoryWeb (question : String)
  | formulate (question : String)
  | search (query : String)
  | refineWeb (question : String) (results : List WebEvidence)

/-- What a call returns or raises, the usage of tokens included. -/
abbrev CragOp.Res : CragOp → Type
  | .grade _ _ => Except Raised RetrievalGrade
  | .refineLocal _ _ _ => Except Raised (List EvidenceChunk × ℤ)
  | .permitsPublicRegulatoryWeb _ => Except Raised Bool
  | .formulate _ => Except Raised (String × ℤ)
  | .search _ => Except Raised (List WebEvidence)
  | .refineWeb _ _ => Except Raised (List EvidenceChunk × ℤ)

/-- The calls that search the web, or prepare or refine a search. -/
def CragOp.UsesWeb : CragOp → Prop
  | .formulate _ | .search _ | .refineWeb _ _ => True
  | _ => False

abbrev CragProgram := Program CragOp CragOp.Res Raised

abbrev CragEvent := Program.Event CragOp CragOp.Res

abbrev CragOracle := Program.Oracle CragOp CragOp.Res

/-- The retriever : whether it was given a web retriever and a formulator of queries, and how
much evidence is enough. -/
structure ProductionCorrectiveRetriever where
  web : Bool
  queryFormulator : Bool
  minEvidence : ℕ := 1
  deriving DecidableEq, Repr

open Program

namespace ProductionCorrectiveRetriever

variable (r : ProductionCorrectiveRetriever)

/-- The query to search with : the question, unless there is a formulator. -/
def searchQuery (question : String) (tokens : ℤ) : CragProgram (String × ℤ) :=
  if r.queryFormulator then do
    let (searchQuery, formulationTokens) ← ask (.formulate question) id
    return (searchQuery, tokens + formulationTokens)
  else return (question, tokens)

/-- The web may be searched. The scope is asked last. -/
def webAllowed (question : String) (allowWeb : Bool) : CragProgram Bool :=
  if allowWeb && r.web then ask (.permitsPublicRegulatoryWeb question) id else return false

/-- The correction from the web, of local evidence that is not enough. -/
def correctFromWeb (question : String) (grade : RetrievalGrade) (localChunks : List EvidenceChunk)
    (tokens : ℤ) : CragProgram CRAGOutcome := do
  let (searchQuery, tokens) ← r.searchQuery question tokens
  let results ← ask (.search searchQuery) id
  let (webEvidence, webTokens) ← ask (.refineWeb question results) id
  let tokens := tokens + webTokens
  if webEvidence = [] then
    return {
      evidence := localChunks
      decision := some grade.decision
      applied := true
      abstain := true
      webUsed := false
      bypassReason := some "web_correction_empty"
      usageTokens := tokens }
  else do
    let combined := localChunks ++ webEvidence
    let verification ← ask (.grade question (evidenceAsRetrievedChunks combined)) id
    let sufficient := verification.decision = .correct ∧ r.minEvidence ≤ combined.length
    return {
      evidence := combined
      decision := some grade.decision
      applied := true
      webUsed := true
      abstain := ¬sufficient
      bypassReason := if sufficient then none else some "corrected_evidence_insufficient"
      usageTokens := tokens + verification.usageTokens }

def correct (question : String) (chunks : List RetrievedChunk) (allowWeb : Bool) :
    CragProgram CRAGOutcome := do
  let grade ← ask (.grade question chunks) id
  let (localChunks, refinementTokens) ← ask (.refineLocal question chunks grade) id
  let tokens := grade.usageTokens + refinementTokens
  if r.minEvidence ≤ localChunks.length then
    return {
      evidence := localChunks
      decision := some grade.decision
      applied := true
      usageTokens := tokens }
  else do
    if ← r.webAllowed question allowWeb then r.correctFromWeb question grade localChunks tokens
    else
      return {
        evidence := localChunks
        decision := some grade.decision
        applied := true
        abstain := true
        bypassReason := some "external_correction_not_permitted"
        usageTokens := tokens }

/-- Enough evidence, or abstention. -/
def Sufficient (outcome : CRAGOutcome) : Prop :=
  outcome.fallback = false ∧ (outcome.abstain = false → r.minEvidence ≤ outcome.evidence.length)

variable {r} {question : String} {chunks : List RetrievedChunk} {allowWeb : Bool}

theorem returns_correctFromWeb {grade : RetrievalGrade} {localChunks : List EvidenceChunk}
    {tokens : ℤ} : (r.correctFromWeb question grade localChunks tokens).Returns r.Sufficient := by
  refine Returns.bind (fun query _ => ?_) (returns_true _)
  refine Returns.bind (fun results _ => ?_) (returns_true _)
  refine Returns.bind (fun web _ => ?_) (returns_true _)
  obtain ⟨webEvidence, webTokens⟩ := web
  dsimp only
  split
  · exact returns_pure ⟨rfl, fun h => nomatch h⟩
  · refine Returns.bind (fun verification _ => ?_) (returns_true _)
    refine returns_pure ⟨rfl, fun habstain => ?_⟩
    have hsufficient := not_not.1 (of_decide_eq_false habstain)
    exact hsufficient.2

/-- Whatever the collaborators do, there is enough evidence or the outcome abstains. -/
theorem returns_correct : (r.correct question chunks allowWeb).Returns r.Sufficient := by
  refine Returns.bind (fun grade _ => ?_) (returns_true _)
  refine Returns.bind (fun refined _ => ?_) (returns_true _)
  obtain ⟨localChunks, refinementTokens⟩ := refined
  dsimp only
  split
  · rename_i henough
    exact returns_pure ⟨rfl, fun _ => henough⟩
  · refine Returns.bind (fun webAllowed _ => ?_) (returns_true _)
    split
    · exact returns_correctFromWeb
    · exact returns_pure ⟨rfl, fun h => nomatch h⟩

/-- Without leave to search the web nothing is searched. -/
theorem uses_correct : (r.correct question chunks false).Uses fun op => ¬op.UsesWeb := by
  refine Uses.bind (fun grade => ?_) (uses_ask id)
  refine Uses.bind (fun refined => ?_) (uses_ask id)
  obtain ⟨localChunks, refinementTokens⟩ := refined
  dsimp only
  split
  · exact uses_pure _
  · exact uses_pure _

end ProductionCorrectiveRetriever

end EnterpriseRag
