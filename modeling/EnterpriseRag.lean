import EnterpriseRag.Library.Transition
import EnterpriseRag.Library.Table
import EnterpriseRag.RagOps.Config
import EnterpriseRag.RagOps.Repository
import EnterpriseRag.RagOps.Propagation
import EnterpriseRag.Eval.CaseParity
import EnterpriseRag.Sql.Generation
import EnterpriseRag.Sql.KillSwitches
import EnterpriseRag.Corpus.Quarantine
import EnterpriseRag.Corpus.Decisions
import EnterpriseRag.Corpus.Replacement
import EnterpriseRag.Corpus.Interruption
import EnterpriseRag.Corpus.SingleIngestion
import EnterpriseRag.Corpus.ScanCoverage
import EnterpriseRag.Sql.Masking
import EnterpriseRag.Sql.ResultBounds
import EnterpriseRag.Sql.Truncation
import EnterpriseRag.Sql.ResultAccounting
import EnterpriseRag.Sql.Revalidation
import EnterpriseRag.Sql.Allowlist
import EnterpriseRag.Rag.EvidenceGuard
import EnterpriseRag.Rag.ServedCitations
import EnterpriseRag.Rag.CacheUse
import EnterpriseRag.Admin.Backend
import EnterpriseRag.Admin.Freshness
import EnterpriseRag.Admin.Migration
import EnterpriseRag.Chat.Confinement
import EnterpriseRag.Rag.ReflectionBounds
import EnterpriseRag.Rag.CacheKeyParse
import EnterpriseRag.Rag.Degradation
import EnterpriseRag.RagOps.AuditReplay
import EnterpriseRag.Library.TwoRuns
import EnterpriseRag.Rag.CorrectiveRetriever
import EnterpriseRag.Rag.Sufficiency
import EnterpriseRag.Rag.Shadow
import EnterpriseRag.Rag.Emergency
import EnterpriseRag.Rag.CacheFaults
import EnterpriseRag.Rag.Acceptance
import EnterpriseRag.Rag.PageReferences
import EnterpriseRag.Rag.Augmentation
import EnterpriseRag.Rag.EvidenceMonotone
import EnterpriseRag.Rag.ChatClient
import EnterpriseRag.Rag.StrictSchema
import EnterpriseRag.Rag.EmbeddingAlignment
import EnterpriseRag.Rag.RetrievalGrader
import EnterpriseRag.Rag.KnowledgeRefiner
import EnterpriseRag.Rag.FailSafeCorrection
import EnterpriseRag.Rag.WebRetriever
import EnterpriseRag.Rag.Reranking
import EnterpriseRag.Security.LimiterAgreement
import EnterpriseRag.Guardrails.RoundTrip
import EnterpriseRag.Guardrails.NumberPatterns
import EnterpriseRag.Guardrails.CleanPass
import EnterpriseRag.Guardrails.CardPass
import EnterpriseRag.Guardrails.Completeness
import EnterpriseRag.Guardrails.Coverage
import EnterpriseRag.Guardrails.Attribution
import EnterpriseRag.Guardrails.SmuggledPayloads
import EnterpriseRag.Rag.Prompts
import EnterpriseRag.Rag.QueryCache
import EnterpriseRag.Rag.SemanticCache
import EnterpriseRag.Rag.RagMetrics
import EnterpriseRag.Chat.Conversations
import EnterpriseRag.Security.Auth
import EnterpriseRag.Rag.Confidence
import EnterpriseRag.Sql.ReadOnlySession
import EnterpriseRag.Rag.HybridRetrieval
