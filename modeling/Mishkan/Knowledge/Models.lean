import Mishkan.Domain.Errors
import Mishkan.Foundations.Table

/-!
# Knowledge/Models — corpora, requests for knowledge mutations, and their operations

A request is read without its operation identity, as its fingerprint is taken; what the code checks
when it reads a row back from its payload is `Valid`.
-/

namespace Mishkan.Knowledge

inductive KnowledgeClass where
  | literal | episodic | semantic | structural
deriving DecidableEq

inductive KnowledgeOperationKind where
  | ingest | refresh | capture | promote
deriving DecidableEq

inductive KnowledgeOperationState where
  | queued | running | succeeded | failed | cancelRequested | cancelled | uncertain
deriving DecidableEq

inductive KnowledgeCorpusState where
  | empty | indexing | ready | stale | degraded | failed
deriving DecidableEq

def KnowledgeOperationState.value : KnowledgeOperationState → String
  | .queued => "queued"
  | .running => "running"
  | .succeeded => "succeeded"
  | .failed => "failed"
  | .cancelRequested => "cancel_requested"
  | .cancelled => "cancelled"
  | .uncertain => "uncertain"

/-! ## Corpora -/

structure KnowledgeCorpus where
  corpusId : Uuid
  projectId : String
  sourceId : String
  knowledgeClass : KnowledgeClass
  authorizedRepositories : List String := []
  indexedRevision : Option String := none
  snapshotReference : Option String := none
  state : KnowledgeCorpusState := .empty
  revision : Nat := 0
deriving DecidableEq

/-- The bounds of an indexed revision, and `ready_corpus_has_snapshot`. -/
structure KnowledgeCorpus.Valid (corpus : KnowledgeCorpus) : Prop where
  indexedRevision : ∀ r ∈ corpus.indexedRevision, 1 ≤ r.length ∧ r.length ≤ 512
  snapshot : corpus.state = .ready → corpus.snapshotReference ≠ none

instance (corpus : KnowledgeCorpus) : Decidable corpus.Valid :=
  decidable_of_iff ((∀ r ∈ corpus.indexedRevision, 1 ≤ r.length ∧ r.length ≤ 512) ∧
    (corpus.state = .ready → corpus.snapshotReference ≠ none)) ⟨fun h => ⟨h.1, h.2⟩,
      fun h => ⟨h.1, h.2⟩⟩

/-- The corpus is ready, with this snapshot and revision. -/
def KnowledgeCorpus.ReadyWith (corpus : KnowledgeCorpus)
    (snapshotReference indexedRevision : Option String) : Prop :=
  corpus.state = .ready ∧ corpus.snapshotReference = snapshotReference ∧
    corpus.indexedRevision = indexedRevision

instance (corpus : KnowledgeCorpus) (snapshotReference indexedRevision : Option String) :
    Decidable (corpus.ReadyWith snapshotReference indexedRevision) :=
  inferInstanceAs (Decidable (_ ∧ _ ∧ _))

/-- The corpus made ready with a snapshot and a revision. -/
def KnowledgeCorpus.made (corpus : KnowledgeCorpus)
    (snapshotReference indexedRevision : Option String) : KnowledgeCorpus :=
  { corpus with
    state := .ready
    snapshotReference := snapshotReference
    indexedRevision := indexedRevision }

/-! ## Requests -/

/-- The repository a request is about, and its revision: both or none are given. -/
structure RepositoryRevision where
  repositoryId : String
  revision : String
  bounded : 1 ≤ revision.length ∧ revision.length ≤ 512
deriving DecidableEq

structure KnowledgeIngestRequest where
  projectId : String
  sourceId : String
  corpusId : Uuid
  contentReference : String
  repository : Option RepositoryRevision := none
  requestedBy : String
deriving DecidableEq

structure KnowledgeRefreshRequest where
  projectId : String
  sourceId : String
  corpusId : Uuid
  repository : Option RepositoryRevision := none
  requestedBy : String
deriving DecidableEq

structure KnowledgeMemoryProposal where
  proposalId : Uuid
  projectId : String
  agentIdentity : String
  runId : String
  taskId : String
  acceptedResultId : String
  memory : String
  evidenceReferences : List String
deriving DecidableEq

structure KnowledgeMemoryCaptureRequest where
  sourceId : String
  requestedBy : String
  proposal : KnowledgeMemoryProposal
deriving DecidableEq

/-- What an operation is asked to do. -/
inductive KnowledgeRequest where
  | ingest (request : KnowledgeIngestRequest)
  | refresh (request : KnowledgeRefreshRequest)
  | capture (request : KnowledgeMemoryCaptureRequest)
deriving DecidableEq

namespace KnowledgeRequest

def kind : KnowledgeRequest → KnowledgeOperationKind
  | ingest _ => .ingest
  | refresh _ => .refresh
  | capture _ => .capture

def projectId : KnowledgeRequest → String
  | ingest r => r.projectId
  | refresh r => r.projectId
  | capture r => r.proposal.projectId

def sourceId : KnowledgeRequest → String
  | ingest r => r.sourceId
  | refresh r => r.sourceId
  | capture r => r.sourceId

def corpusId : KnowledgeRequest → Option Uuid
  | ingest r => some r.corpusId
  | refresh r => some r.corpusId
  | capture _ => none

/-- The revision of the repository, if the request names one. -/
def repositoryRevision : KnowledgeRequest → Option String
  | ingest r => r.repository.map (·.revision)
  | refresh r => r.repository.map (·.revision)
  | capture _ => none

/-- `_request_fingerprint`: the digest of all but the operation identity. -/
def fingerprint (request : KnowledgeRequest) : Digest KnowledgeRequest := ⟨request⟩

end KnowledgeRequest

/-! ## Operations -/

structure KnowledgeOperation where
  operationId : Uuid
  kind : KnowledgeOperationKind
  projectId : String
  sourceId : String
  corpusId : Option Uuid := none
  state : KnowledgeOperationState := .queued
  requestFingerprint : Digest KnowledgeRequest
  requestReference : String
  providerOperationId : Option String := none
  resultReferences : List String := []
  revision : Nat := 0
deriving DecidableEq

/-- The bounds of a provider's identity for an operation. -/
def ProviderIdentity.Valid (providerOperationId : Option String) : Prop :=
  ∀ p ∈ providerOperationId, 1 ≤ p.length ∧ p.length ≤ 1024

instance (providerOperationId : Option String) :
    Decidable (ProviderIdentity.Valid providerOperationId) :=
  inferInstanceAs (Decidable (∀ p ∈ providerOperationId, 1 ≤ p.length ∧ p.length ≤ 1024))

def KnowledgeOperation.Valid (operation : KnowledgeOperation) : Prop :=
  ProviderIdentity.Valid operation.providerOperationId

instance (operation : KnowledgeOperation) : Decidable operation.Valid :=
  inferInstanceAs (Decidable (ProviderIdentity.Valid _))

/-! ## What a provider reports -/

inductive ProviderSettlement where
  | succeeded | failed | cancelled | unknown
deriving DecidableEq

structure ProviderReconciliation where
  settlement : ProviderSettlement
  providerOperationId : Option String := none
  response : Option JsonObject := none
deriving DecidableEq

/-- `states` of `_settle`; an unknown settlement has none. -/
def ProviderSettlement.state? : ProviderSettlement → Option KnowledgeOperationState
  | succeeded => some .succeeded
  | failed => some .failed
  | cancelled => some .cancelled
  | unknown => none

structure GraphRefreshBuild where
  indexedRevision : String
  providerOperationId : Option String := none
deriving DecidableEq

/-! ## Rows -/

instance : Keyed KnowledgeOperation := .ofKey (·.operationId)

/-- Identifiers, and pairs of project and source, are unique. -/
instance : Keyed KnowledgeCorpus := .ofKeys fun c => (c.corpusId, c.projectId, c.sourceId)

end Mishkan.Knowledge
