import EnterpriseRag.Library.Program
import EnterpriseRag.Rag.Stages

/-!
# What a RAG answer asks of its collaborators

`RagOp` lists the calls `RAGService.answer` makes, `RagOp.Res` what each returns. Every
call but the reading of the snapshot and of the clock may raise. A prompt is the operation
that sends it : the answer LLM, the critic and the reviser are given the evidence named
there, of which the last two render as much as fits their budget.
-/

namespace EnterpriseRag

/-- The three registered strategies. -/
inductive RetrievalStrategy
  | dense
  | sparse
  | hybrid
  deriving DecidableEq, Repr

namespace RetrievalStrategy

def all : List RetrievalStrategy :=
  [.dense, .sparse, .hybrid]

def name : RetrievalStrategy → String
  | .dense => "dense"
  | .sparse => "sparse"
  | .hybrid => "hybrid"

def cacheNamespace : RetrievalStrategy → String
  | .dense => "dense:v1"
  | .sparse => "sparse:v1"
  | .hybrid => "hybrid:v2"

def requiresDenseEmbedding : RetrievalStrategy → Bool
  | .sparse => false
  | _ => true

end RetrievalStrategy

abbrev Embedding := List ℚ

/-- The request's own retrieval, or the one reflection may add. -/
inductive RetrievalSite
  | request
  | reflection
  deriving DecidableEq, Repr

/-- A call to a collaborator. The site of a retrieval says which line of the code makes it
and is not told to the collaborator. -/
inductive RagOp
  | currentConfig
  | cacheGet (key : String)
  | cacheSet (key value : String)
  | embedTexts (texts : List String)
  | findCandidates (embedding : Embedding) (cacheNamespace : String) (topK : ℕ) (threshold : ℚ)
  | recordSemantic (embedding : Embedding) (cacheNamespace : String) (topK : ℕ) (key : String)
  | transform (question : String)
  | retrieve (site : RetrievalSite) (strategy : RetrievalStrategy) (text : String)
      (embedding : Option Embedding) (topK : ℕ)
  | rerank (backend : RerankerBackendName) (question : String) (candidates : List RetrievedChunk)
      (topK : ℕ)
  | correct (question : String) (chunks : List RetrievedChunk) (allowWeb : Bool)
  | generate (evidence : List EvidenceChunk) (question : String)
  | critique (question : String) (evidence : List EvidenceChunk) (answer : String)
  | revise (question : String) (evidence : List EvidenceChunk) (answer : String)
      (critique : ReflectionCritique)
  | decide (critique : ReflectionCritique) (state : ReflectionState) (budget : ReflectionBudget)
      (deterministicUnsupportedClaims : List String)
  | perfCounter
  | scanOutput (prompt answer : String)
  | recordSecurityEvent (event : SecurityEvent)

/-- What a call returns or raises. -/
abbrev RagOp.Res : RagOp → Type
  | .currentConfig => RagRuntimeConfig
  | .cacheGet _ => Except Raised (Option String)
  | .cacheSet _ _ => Except Raised Unit
  | .embedTexts _ => Except Raised (List Embedding)
  | .findCandidates _ _ _ _ => Except Raised (List String)
  | .recordSemantic _ _ _ _ => Except Raised Unit
  | .transform _ => Except Raised QueryTransformOutcome
  | .retrieve _ _ _ _ _ => Except Raised (List RetrievedChunk)
  | .rerank _ _ _ _ => Except Raised ReRankOutcome
  | .correct _ _ _ => Except Raised CRAGOutcome
  | .generate _ _ => Except Raised String
  | .critique _ _ _ => Except Raised ReflectionCritique
  | .revise _ _ _ _ => Except Raised (String × ℤ)
  | .decide _ _ _ _ => Except Raised ReflectionAction
  | .perfCounter => ℚ
  | .scanOutput _ _ => Except Raised (List ScanFinding)
  | .recordSecurityEvent _ => Except Raised Unit

/-- The calls that touch no cache, retrieve nothing and send no evidence to a model. -/
def RagOp.Plain : RagOp → Prop
  | .embedTexts _ | .transform _ | .rerank _ _ _ _ | .correct _ _ _ | .decide _ _ _ _
  | .perfCounter | .scanOutput _ _ | .recordSecurityEvent _ => True
  | _ => False

/-- The calls that prepare a retrieval or rank what it found. -/
def RagOp.Prepares : RagOp → Prop
  | .embedTexts _ | .transform _ | .rerank _ _ _ _ => True
  | _ => False

/-- The calls of a guard. -/
def RagOp.Guards : RagOp → Prop
  | .scanOutput _ _ | .recordSecurityEvent _ => True
  | _ => False

/-- The calls of the reflection engine itself. -/
def RagOp.Reflects : RagOp → Prop
  | .critique _ _ _ | .revise _ _ _ _ | .decide _ _ _ _ | .perfCounter => True
  | _ => False

/-- The calls that read a cache. -/
def RagOp.ReadsCache : RagOp → Prop
  | .cacheGet _ | .findCandidates _ _ _ _ => True
  | _ => False

/-- The calls that write a cache. -/
def RagOp.writesCache : RagOp → Bool
  | .cacheSet _ _ | .recordSemantic _ _ _ _ => true
  | _ => false

/-- The calls made up to the evidence. -/
def RagOp.Gathers (op : RagOp) : Prop :=
  op.Plain ∨ ∃ strategy text embedding topK, op = .retrieve .request strategy text embedding topK

abbrev RagProgram := Program RagOp RagOp.Res Raised

abbrev RagEvent := Program.Event RagOp RagOp.Res

abbrev RagOracle := Program.Oracle RagOp RagOp.Res

/-- `try … except Exception`. -/
def RagProgram.exceptException {α : Type} (p : RagProgram α) (handler : Raised → RagProgram α) :
    RagProgram α :=
  p.tryCatch fun e => if e.isException then handler e else .raise e

/-! ## The response -/

structure RetrievedChunkPreview where
  chunk : RetrievedChunk
  rerankScore : Option ℚ := none
  originalRank : Option ℕ := none
  deriving DecidableEq, Repr

structure HyDEMetadata where
  enabled : Bool
  applied : Bool
  fallback : Bool
  backend : String
  hypothesisCount : ℕ
  usageTokens : ℤ
  bypassReason : Option String
  deriving DecidableEq, Repr

structure RerankingMetadata where
  enabled : Bool
  applied : Bool
  fallback : Bool
  backend : String
  candidateCount : ℕ
  usageTokens : Option ℤ
  deriving DecidableEq, Repr

structure CRAGMetadata where
  enabled : Bool
  applied : Bool
  decision : Option CRAGDecision
  fallback : Bool
  abstain : Bool
  webUsed : Bool
  evidenceCount : ℕ
  usageTokens : ℤ
  bypassReason : Option String
  deriving DecidableEq, Repr

structure SelfReflectionMetadata where
  enabled : Bool
  applied : Bool
  accepted : Bool
  finalAction : ReflectionAction
  iterations : ℕ
  additionalRetrievals : ℕ
  fallback : Bool
  abstain : Bool
  supportLevel : Option SupportLevel
  answerRelevance : Option ℚ
  citationCompleteness : Option ℚ
  utility : Option ℤ
  usageTokens : ℤ
  bypassReason : Option String
  deriving DecidableEq, Repr

/-- A response with the diagnostics of the RAG stages. A preview of evidence has the fields
of the evidence. -/
structure RagChatResponse extends ChatResponse where
  retrievalMode : String
  hyde : HyDEMetadata
  reranking : RerankingMetadata
  crag : CRAGMetadata
  selfReflection : SelfReflectionMetadata
  retrievedChunks : List RetrievedChunkPreview
  finalEvidence : List EvidenceChunk
  flaggedClaims : List String
  cacheHit : Bool := false
  conversationId : ℤ := 0
  deriving DecidableEq, Repr

end EnterpriseRag
