import Mishkan.Config.Models
import Mishkan.Foundations.Pool
import Mishkan.Knowledge.Repository

/-!
# Knowledge/Operations — the calls on knowledge operations, step by step

`KnowledgeMutationService`: `ingest`, `capture_memory` and `refresh` begin an operation, send it to
its provider and record what came of it; `cancel` and `reconcile` settle it.  A frame is one
transaction, one artifact, or one exchange with the surroundings, and an `Answer` is what these give
back.  A frame inside a `try` knows the marks its handlers leave (`Frame.marks`), innermost first.
-/

namespace Mishkan.Knowledge

open Refusal

/-! ## Configuration -/

/-- What the service is set up with; `graphRefresh` says whether it has a graph port. -/
structure KnowledgeMutationService where
  sources : List (String × KnowledgeSourceConfig)
  adapters : List String
  networkProfiles : List String
  graphRefresh : Bool

namespace KnowledgeMutationService

def source? (service : KnowledgeMutationService) (sourceId : String) :
    Option KnowledgeSourceConfig :=
  (service.sources.find? (·.1 = sourceId)).map (·.2)

/-- `_source_runtime`, but for the credentials. -/
def sourceRuntime (service : KnowledgeMutationService) (sourceId : String) :
    Except Raised KnowledgeSourceConfig := do
  let source ← require ((service.source? sourceId).filter (·.enabled)) <|
    fault .toolUnavailable "knowledge source is unavailable"
  refuseIf (source.adapter ∉ service.adapters) <|
    fault .toolUnavailable "knowledge adapter is unavailable"
  refuseIf (∃ profile ∈ source.networkProfile, profile ∉ service.networkProfiles) <|
    fault .configuration "knowledge network profile is unavailable"
  return source

/-- The source of this name is a structural one. -/
def isStructural (service : KnowledgeMutationService) (sourceId : String) : Bool :=
  (service.source? sourceId).any (·.knowledgeClass = .structural)

/-- The provider of this source is the graph port. -/
def usesGraph (service : KnowledgeMutationService) (sourceId : String) : Bool :=
  service.isStructural sourceId && service.graphRefresh

end KnowledgeMutationService

/-! ## What the surroundings answer -/

/-- What a frame is given; a frame that is given something else raises. -/
inductive Answer where
  | done
  | raised
  /-- The artifact is stored under this reference. -/
  | stored (reference : String)
  /-- The request is stored, as the inspection leaves its text. -/
  | storedRequest (artifact : StoredArtifact)
  /-- The provider has carried the mutation out. -/
  | answered (providerOperationId : Option String)
  | built (build : GraphRefreshBuild)
  /-- `recover` finds no build. -/
  | notRecovered
  | settled (settlement : ProviderReconciliation)
deriving DecidableEq

/-- A failure of the surroundings. -/
def unanswered : Raised := .osError

/-- The mutations of a provider. -/
inductive ProviderCall where
  | add | cognify | capture | build
deriving DecidableEq

/-! ## Frames -/

/-- The transition to `uncertain` a handler makes, and what it records. -/
structure Mark where
  operation : KnowledgeOperation
  providerOperationId : Option String := none
  resultReferences : List String := []
deriving DecidableEq

/-- What a call knows of the operation it carries out. -/
structure Attempt where
  request : KnowledgeRequest
  operation : KnowledgeOperation
  corpus : Option KnowledgeCorpus := none
  snapshotReference : Option String := none
  indexedRevision : Option String := none
  providerOperationId : Option String := none
  resultReferences : List String := []
  marks : List Mark := []
deriving DecidableEq

inductive Frame where
  /-- `_prepare`, and what a mutation checks before it reads the corpus. -/
  | prepare (operationId : Uuid) (request : KnowledgeRequest) (policyFingerprint : Option String)
  | requireCorpus (operationId : Uuid) (request : KnowledgeRequest) (corpusId : Uuid)
  | resumeExisting (operationId : Uuid) (request : KnowledgeRequest)
      (corpus : Option KnowledgeCorpus)
  | requestArtifact (operationId : Uuid) (request : KnowledgeRequest)
      (corpus : Option KnowledgeCorpus)
  | createOperation (operationId : Uuid) (request : KnowledgeRequest)
      (corpus : Option KnowledgeCorpus) (reference : String)
  /-- The transition that `_begin` and `_resume_existing` make. -/
  | begin (request : KnowledgeRequest) (corpus : Option KnowledgeCorpus)
      (operation : KnowledgeOperation)
  | setIndexing (attempt : Attempt) (corpus : KnowledgeCorpus)
  | send (call : ProviderCall) (attempt : Attempt)
  | await (call : ProviderCall) (attempt : Attempt)
  | responseArtifact (attempt : Attempt)
  | graphArtifact (build : GraphRefreshBuild) (attempt : Attempt)
  | diffArtifact (build : GraphRefreshBuild) (graph : String) (attempt : Attempt)
  /-- The working reference of the graph, and its publication. -/
  | publish (attempt : Attempt)
  | putReady (attempt : Attempt)
  | succeed (attempt : Attempt)
  | markUncertain (mark : Mark) (outer : List Mark)
  | cancel (operationId : Uuid)
  | cancelQueued (operation : KnowledgeOperation)
  | requestCancel (operation : KnowledgeOperation)
  | cancelRuntime (requested : KnowledgeOperation)
  | askCancel (requested : KnowledgeOperation)
  | reconcile (operationId : Uuid) (expectedRevision : Nat)
  | reconcileRuntime (operation : KnowledgeOperation)
  | reconcileCorpus (operation : KnowledgeOperation) (corpusId : Uuid)
  | recover (operation : KnowledgeOperation) (corpus : KnowledgeCorpus)
  | askReconcile (operation : KnowledgeOperation)
  | finalize (operation : KnowledgeOperation) (settlement : ProviderReconciliation)
      (corpusId : Uuid)
  | putFinalized (operation : KnowledgeOperation) (settlement : ProviderReconciliation)
      (corpus : KnowledgeCorpus)
  /-- `_settle`, with the marks of the `try` it is made in. -/
  | settleResponse (operation : KnowledgeOperation) (settlement : ProviderReconciliation)
      (marks : List Mark)
  | settle (operation : KnowledgeOperation) (settlement : ProviderReconciliation)
      (resultReferences : List String) (marks : List Mark)
deriving DecidableEq

/-- What the handlers around a frame record, innermost first. -/
def Frame.marks : Frame → List Mark
  | .send _ attempt | .await _ attempt | .responseArtifact attempt | .graphArtifact _ attempt
  | .diffArtifact _ _ attempt | .publish attempt | .putReady attempt | .succeed attempt =>
    attempt.marks
  | .markUncertain _ outer => outer
  | .askCancel requested => [{ operation := requested }]
  | .settleResponse _ _ marks | .settle _ _ _ marks => marks
  | _ => []

/-! ## Steps of a mutation -/

/-- The first provider call of a request. -/
def KnowledgeMutationService.firstCall (service : KnowledgeMutationService) :
    KnowledgeRequest → ProviderCall
  | .ingest _ => .add
  | .capture _ => .capture
  | .refresh request => if service.isStructural request.sourceId then .build else .cognify

/-- What a mutation checks of its source. -/
def KnowledgeMutationService.admits (service : KnowledgeMutationService)
    (source : KnowledgeSourceConfig) (policyFingerprint : Option String) :
    KnowledgeRequest → Except Raised Unit
  | .ingest _ => refuseIf (source.knowledgeClass ≠ .semantic) <|
      fault .toolSchema "ingest requires a semantic source"
  | .capture _ => refuseIf (source.knowledgeClass ≠ .episodic) <|
      fault .toolSchema "memory capture requires an episodic source"
  | .refresh _ => do
    refuseIf (source.knowledgeClass = .structural ∧ ¬ service.graphRefresh) <|
      fault .toolUnavailable "Graphify refresh port is unavailable"
    refuseIf (source.knowledgeClass = .structural ∧ policyFingerprint = none) <|
      fault .policyConflict "Graphify refresh lacks authoritative policy evidence"

/-- What a mutation checks of its corpus, once its scope is right. -/
def KnowledgeMutationService.admitsCorpus (service : KnowledgeMutationService)
    (s : KnowledgeStore) (corpus : KnowledgeCorpus) : KnowledgeRequest → Except Raised Unit
  | .ingest request => refuseIf (¬ s.Available request.contentReference) <|
      fault .artifact "artifact does not exist"
  | .capture _ => return
  | .refresh request => do
    refuseIf ((service.source? request.sourceId).any (·.knowledgeClass = .semantic) ∧
        corpus.snapshotReference = none) <|
      fault .requiredDependency "semantic refresh requires a previously ingested immutable snapshot"
    refuseIf (∃ repository ∈ request.repository,
        repository.repositoryId ∉ corpus.authorizedRepositories) <|
      fault .authorityNotGranted "repository is not authorized for corpus"

/-- The operation a request begins. -/
def KnowledgeRequest.candidate (request : KnowledgeRequest) (operationId : Uuid)
    (requestReference : String) : KnowledgeOperation where
  operationId := operationId
  kind := request.kind
  projectId := request.projectId
  sourceId := request.sourceId
  corpusId := request.corpusId
  requestFingerprint := request.fingerprint
  requestReference := requestReference

/-- What the handler of a mutation records: a capture refers to its request. -/
def KnowledgeRequest.mark (request : KnowledgeRequest) (operation : KnowledgeOperation)
    (providerOperationId : Option String := none) : Mark where
  operation := operation
  providerOperationId := providerOperationId
  resultReferences := match request with
    | .capture _ => [operation.requestReference]
    | _ => []

/-- A mutation inside its `try`. -/
def KnowledgeRequest.attempt (request : KnowledgeRequest) (operation : KnowledgeOperation)
    (corpus : Option KnowledgeCorpus := none) : Attempt where
  request := request
  operation := operation
  corpus := corpus
  snapshotReference := match request with
    | .ingest r => some r.contentReference
    | _ => corpus.bind (·.snapshotReference)
  indexedRevision := request.repositoryRevision
  marks := [request.mark operation]

/-- The frame after an operation was begun. -/
def KnowledgeMutationService.dispatching (service : KnowledgeMutationService)
    (request : KnowledgeRequest) (corpus : Option KnowledgeCorpus)
    (operation : KnowledgeOperation) : Frame :=
  match corpus with
  | some corpus => .setIndexing (request.attempt operation) corpus
  | none => .send (service.firstCall request) (request.attempt operation)

/-- What a `try` checks before it sends the mutation. -/
def KnowledgeMutationService.sends (service : KnowledgeMutationService) (call : ProviderCall)
    (request : KnowledgeRequest) : Except Raised Unit := do
  let source ← require (service.source? request.sourceId) unanswered
  refuseIf (request.kind = .refresh ∧ call = .cognify ∧ source.knowledgeClass ≠ .semantic) <|
    fault .toolSchema "source does not support explicit refresh"
  refuseIf (call ≠ .build ∧ source.networkProfile = none) <|
    fault .configuration "knowledge operation requires network"

/-- Python's `a or b` of two optional texts. -/
def firstText (a b : Option String) : Option String := (a.filter (· ≠ "")).or b

namespace Attempt

/-- The attempt with the identity a provider gave it; after `add` it stays in the handler's mark. -/
def answered (attempt : Attempt) (call : ProviderCall) (providerOperationId : Option String) :
    Attempt :=
  match attempt.request, call with
  | .ingest _, .cognify =>
    { attempt with
      providerOperationId := firstText providerOperationId attempt.providerOperationId }
  | _, _ =>
    { attempt with
      providerOperationId := providerOperationId
      marks := [attempt.request.mark attempt.operation providerOperationId] }

/-- The attempt with the artifact of the response. -/
def responded (attempt : Attempt) (reference : String) : Attempt :=
  { attempt with
    resultReferences := match attempt.request with
      | .ingest r => [r.contentReference, reference]
      | .capture _ => [attempt.operation.requestReference, reference]
      | .refresh _ => [reference] }

/-- The attempt inside the `try` of `_complete_graph_refresh`. -/
def withGraph (attempt : Attempt) (build : GraphRefreshBuild) (graph diff : String) : Attempt :=
  { attempt with
    snapshotReference := some graph
    indexedRevision := some build.indexedRevision
    providerOperationId := build.providerOperationId
    resultReferences := [graph, diff]
    marks := ⟨attempt.operation, build.providerOperationId, [graph, diff]⟩ :: attempt.marks }

/-- The corpus the attempt makes ready. -/
def readyCorpus (attempt : Attempt) (corpus : KnowledgeCorpus) : KnowledgeCorpus :=
  corpus.made attempt.snapshotReference attempt.indexedRevision

end Attempt

/-! ## Steps of a settlement -/

/-- The graph a settlement names, and the revision it indexes. -/
def graphEvidence (operation : KnowledgeOperation) (request : KnowledgeRefreshRequest)
    (settlement : ProviderReconciliation) : Option (String × String) := do
  let response := settlement.response.getD []
  let named := (Json.lookup response "graph_reference").filter (·.truthy)
  let graph ← (named.or (operation.resultReferences.head?.map .str)).bind (·.asStr?)
  let indexed := (Json.lookup response "indexed_revision").filter (·.truthy)
  let revision ← (indexed.or (request.repository.map (.str ·.revision))).bind (·.asStr?)
  return (graph, revision)

/-- What `_finalize_reconciled_corpus` expects of the corpus: a snapshot, a revision, and the graph
this is evidence of. -/
def expectedContent (s : KnowledgeStore) (operation : KnowledgeOperation)
    (settlement : ProviderReconciliation) (corpus : KnowledgeCorpus) :
    Except Raised (Option String × Option String × Option (String × String)) :=
  match operation.kind, s.requestOf operation.requestReference with
  | .ingest, some (.ingest request) =>
    return (some request.contentReference, request.repository.map (·.revision), none)
  | .refresh, some (.refresh request) =>
    if corpus.knowledgeClass = .structural then do
      let (graph, revision) ← require (graphEvidence operation request settlement) <|
        fault .requiredDependency "Graphify reconciliation lacks published graph evidence"
      refuseIf (¬ s.Available graph) (fault .artifact "artifact does not exist")
      return (some graph, some revision, some (graph, revision))
    else return (corpus.snapshotReference, request.repository.map (·.revision), none)
  | _, _ => throw (.valueError "request_reference")

/-- The corpus that a cancellation of a graph refresh reads. -/
def KnowledgeMutationService.graphCorpus (service : KnowledgeMutationService) (s : KnowledgeStore)
    (operation : KnowledgeOperation) : Except Raised Unit :=
  if service.usesGraph operation.sourceId then do
    let corpusId ← require operation.corpusId (.valueError "corpus_id")
    let _ ← s.corpus corpusId
    return
  else return

/-- What is left to do once a settlement is known. -/
def settling (operation : KnowledgeOperation) (settlement : ProviderReconciliation)
    (marks : List Mark) : Frame :=
  if settlement.response = none then
    .settle operation settlement operation.resultReferences marks
  else .settleResponse operation settlement marks

/-- The frame after a reconciliation was answered; a capture and an operation of another kind have
no corpus to finalize. -/
def reconciled (operation : KnowledgeOperation) (settlement : ProviderReconciliation) : Frame :=
  match settlement.settlement, operation.corpusId with
  | .succeeded, some corpusId => .finalize operation settlement corpusId
  | _, _ => settling operation settlement []

namespace KnowledgeStore

/-- The start of a provider mutation is recorded. -/
def start (s : KnowledgeStore) (operationId : Uuid) : KnowledgeStore :=
  { s with started := s.started ++ [operationId] }

/-- What the provider reports is recorded. -/
def report (s : KnowledgeStore) (operationId : Uuid) (state : KnowledgeOperationState) :
    KnowledgeStore :=
  { s with reported := s.reported ++ [(operationId, state)] }

/-- The settlement the provider reports is recorded, unless it is unknown. -/
def reportSettlement (s : KnowledgeStore) (operationId : Uuid)
    (settlement : ProviderReconciliation) : KnowledgeStore :=
  { s with reported := s.reported ++ (settlement.settlement.state?.map (operationId, ·)).toList }

/-- A graph handed over for an operation is recorded. -/
def handOver (s : KnowledgeStore) (operationId : Uuid) (graph : Option (String × String)) :
    KnowledgeStore :=
  { s with graphs := s.graphs ++ (graph.map (operationId, ·)).toList }

end KnowledgeStore

/-! ## One step -/

/-- The step of a frame: the frame the call goes on with, if it does not return. -/
def Frame.next (service : KnowledgeMutationService) (s : KnowledgeStore) (answer : Answer) :
    Frame → Except Raised (Option Frame × KnowledgeStore)
  | .prepare operationId request policyFingerprint => do
    -- Policy, credentials and the checks of the content are the answer's.
    refuseIf (answer ≠ .done) unanswered
    let source ← service.sourceRuntime request.sourceId
    service.admits source policyFingerprint request
    return (some (match request.corpusId with
      | some corpusId => .requireCorpus operationId request corpusId
      | none => .resumeExisting operationId request none), s)
  | .requireCorpus operationId request corpusId => do
    refuseIf (answer ≠ .done) unanswered
    let corpus ← s.corpus corpusId
    refuseIf (corpus.projectId ≠ request.projectId ∨ corpus.sourceId ≠ request.sourceId) <|
      fault .authorityNotGranted "knowledge corpus scope differs"
    service.admitsCorpus s corpus request
    return (some (.resumeExisting operationId request (some corpus)), s)
  | .resumeExisting operationId request corpus => do
    refuseIf (answer ≠ .done) unanswered
    match s.operation? operationId with
    | none => return (some (.requestArtifact operationId request corpus), s)
    | some operation =>
      refuseIf (¬ operation.Valid) (.valueError "provider_operation_id")
      refuseIf (operation.requestFingerprint ≠ request.fingerprint) <|
        fault .duplicateResult "knowledge operation identity already contains different content"
      return (some (.begin request corpus operation), s)
  | .requestArtifact operationId request corpus =>
    match answer with
    | .storedRequest artifact => do
      let (_, s) ← s.putBytes artifact
      return (some (.createOperation operationId request corpus artifact.reference), s)
    | _ => throw unanswered
  | .createOperation operationId request corpus reference => do
    refuseIf (answer ≠ .done) unanswered
    let (operation, s) ← s.createOperation (request.candidate operationId reference)
    return (some (.begin request corpus operation), s)
  | .begin request corpus operation => do
    refuseIf (answer ≠ .done) unanswered
    match operation.state with
    | .queued =>
      let (operation, s) ← s.transitionOperation operation.operationId operation.revision .running
      return (some (service.dispatching request corpus operation), s)
    | .running =>
      let (_, s) ← s.transitionOperation operation.operationId operation.revision .uncertain
        operation.providerOperationId operation.resultReferences
      return (none, s)
    | _ => return (none, s)
  | .setIndexing attempt corpus => do
    refuseIf (answer ≠ .done) unanswered
    let (indexing, s) ← s.putCorpus { corpus with state := .indexing } corpus.revision
    return (some (.send (service.firstCall attempt.request)
      (attempt.request.attempt attempt.operation indexing)), s)
  | .send call attempt => do
    refuseIf (answer ≠ .done) unanswered
    service.sends call attempt.request
    return (some (.await call attempt),
      if call = service.firstCall attempt.request then s.start attempt.operation.operationId else s)
  | .await call attempt =>
    match call, answer with
    | .build, .built build =>
      return (some (.graphArtifact build attempt),
        s.report attempt.operation.operationId .succeeded)
    | .add, .answered providerOperationId =>
      return (some (.send .cognify (attempt.answered .add providerOperationId)), s)
    | .cognify, .answered providerOperationId =>
      return (some (.responseArtifact (attempt.answered .cognify providerOperationId)),
        s.report attempt.operation.operationId .succeeded)
    | .capture, .answered providerOperationId =>
      return (some (.responseArtifact (attempt.answered .capture providerOperationId)),
        s.report attempt.operation.operationId .succeeded)
    | _, _ => throw unanswered
  | .responseArtifact attempt =>
    match answer with
    | .stored reference => do
      let (_, s) ← s.putBytes { reference := reference }
      let attempt := attempt.responded reference
      return (some (if attempt.request.corpusId = none then .succeed attempt
        else .putReady attempt), s)
    | _ => throw unanswered
  | .graphArtifact build attempt =>
    match answer with
    | .stored graph => do
      let (_, s) ← s.putBytes { reference := graph }
      return (some (.diffArtifact build graph attempt),
        s.handOver attempt.operation.operationId (some (graph, build.indexedRevision)))
    | _ => throw unanswered
  | .diffArtifact build graph attempt =>
    match answer with
    | .stored diff => do
      let (_, s) ← s.putBytes { reference := diff }
      return (some (.publish (attempt.withGraph build graph diff)), s)
    | _ => throw unanswered
  | .publish attempt => do
    refuseIf (answer ≠ .done) unanswered
    let ready := attempt.corpus.any fun corpus =>
      corpus.ReadyWith attempt.snapshotReference attempt.indexedRevision
    return (some (if ready then .succeed attempt else .putReady attempt), s)
  | .putReady attempt => do
    refuseIf (answer ≠ .done) unanswered
    let corpus ← require attempt.corpus unanswered
    let (_, s) ← s.putCorpus (attempt.readyCorpus corpus) corpus.revision
    return (some (.succeed attempt), s)
  | .succeed attempt => do
    refuseIf (answer ≠ .done) unanswered
    let (_, s) ← s.transitionOperation attempt.operation.operationId attempt.operation.revision
      .succeeded attempt.providerOperationId attempt.resultReferences
    return (none, s)
  | .markUncertain mark _ => do
    refuseIf (answer ≠ .done) unanswered
    let (_, s) ← s.transitionOperation mark.operation.operationId mark.operation.revision
      .uncertain mark.providerOperationId mark.resultReferences
    return (none, s)
  | .cancel operationId => do
    refuseIf (answer ≠ .done) unanswered
    let operation ← s.operation operationId
    match operation.state with
    | .queued => return (some (.cancelQueued operation), s)
    | .running => return (some (.requestCancel operation), s)
    | _ => return (none, s)
  | .cancelQueued operation => do
    refuseIf (answer ≠ .done) unanswered
    let (_, s) ← s.transitionOperation operation.operationId operation.revision .cancelled
    return (none, s)
  | .requestCancel operation => do
    refuseIf (answer ≠ .done) unanswered
    let (requested, s) ← s.transitionOperation operation.operationId operation.revision
      .cancelRequested
    return (some (.cancelRuntime requested), s)
  | .cancelRuntime requested => do
    refuseIf (answer ≠ .done) unanswered
    let _ ← service.sourceRuntime requested.sourceId
    return (some (.askCancel requested), s)
  | .askCancel requested =>
    match answer with
    | .settled settlement => do
      service.graphCorpus s requested
      return (if settlement.settlement = .unknown then none
          else some (settling requested settlement [{ operation := requested }]),
        s.reportSettlement requested.operationId settlement)
    | _ => throw unanswered
  | .reconcile operationId expectedRevision => do
    refuseIf (answer ≠ .done) unanswered
    let operation ← s.operation operationId
    refuseIf (operation.revision ≠ expectedRevision) <|
      fault .revisionMismatch "knowledge operation revision differs"
    return (if operation.state = .uncertain then some (.reconcileRuntime operation) else none, s)
  | .reconcileRuntime operation => do
    refuseIf (answer ≠ .done) unanswered
    let _ ← service.sourceRuntime operation.sourceId
    if service.usesGraph operation.sourceId then
      let corpusId ← require operation.corpusId (.valueError "corpus_id")
      return (some (.reconcileCorpus operation corpusId), s)
    else return (some (.askReconcile operation), s)
  | .reconcileCorpus operation corpusId => do
    refuseIf (answer ≠ .done) unanswered
    let corpus ← s.corpus corpusId
    return (some (.recover operation corpus), s)
  | .recover operation corpus =>
    match answer with
    | .notRecovered => return (some (.askReconcile operation), s)
    | .built build =>
      match s.requestOf operation.requestReference with
      | some (.refresh request) =>
        return (some (.graphArtifact build
            { request := .refresh request, operation := operation, corpus := some corpus }),
          s.report operation.operationId .succeeded)
      | _ => throw (.valueError "request_reference")
    | _ => throw unanswered
  | .askReconcile operation =>
    match answer with
    | .settled settlement =>
      return (if settlement.settlement = .unknown then none
          else some (reconciled operation settlement),
        s.reportSettlement operation.operationId settlement)
    | _ => throw unanswered
  | .finalize operation settlement corpusId => do
    refuseIf (answer ≠ .done) unanswered
    let corpus ← s.corpus corpusId
    let (snapshot, revision, graph) ← expectedContent s operation settlement corpus
    let s := s.handOver operation.operationId graph
    if corpus.ReadyWith snapshot revision then
      return (some (settling operation settlement []), s)
    else
      refuseIf (corpus.state ≠ .indexing) <|
        fault .revisionMismatch "knowledge corpus cannot be finalized from its current state"
      return (some (.putFinalized operation settlement (corpus.made snapshot revision)), s)
  | .putFinalized operation settlement corpus => do
    refuseIf (answer ≠ .done) unanswered
    let (_, s) ← s.putCorpus corpus corpus.revision
    return (some (settling operation settlement []), s)
  | .settleResponse operation settlement marks =>
    match answer with
    | .stored reference => do
      let (_, s) ← s.putBytes { reference := reference }
      return (some (.settle operation settlement (operation.resultReferences ++ [reference])
        marks), s)
    | _ => throw unanswered
  | .settle operation settlement resultReferences _ => do
    refuseIf (answer ≠ .done) unanswered
    let state ← require settlement.settlement.state? unanswered
    let (_, s) ← s.transitionOperation operation.operationId operation.revision state
      (firstText settlement.providerOperationId operation.providerOperationId) resultReferences
    return (none, s)

/-- A step that raises goes to the handler around it, if there is one. -/
def Frame.advance (service : KnowledgeMutationService) (s : KnowledgeStore) (answer : Answer)
    (frame : Frame) : Option Frame × KnowledgeStore :=
  match frame.next service s answer with
  | .ok result => result
  | .error _ =>
    match frame.marks with
    | [] => (none, s)
    | mark :: outer => (some (.markUncertain mark outer), s)

/-! ## The service -/

/-- The entry points. -/
inductive Entry where
  | mutate (operationId : Uuid) (request : KnowledgeRequest) (policyFingerprint : Option String)
  | cancel (operationId : Uuid)
  | reconcile (operationId : Uuid) (expectedRevision : Nat)
deriving DecidableEq

def Entry.frame : Entry → Frame
  | .mutate operationId request policyFingerprint =>
    .prepare operationId request policyFingerprint
  | .cancel operationId => .cancel operationId
  | .reconcile operationId expectedRevision => .reconcile operationId expectedRevision

/-- The calls of the service, side by side. -/
def KnowledgeMutationService.program (service : KnowledgeMutationService) :
    Pool.Program KnowledgeStore Frame Entry Answer Empty where
  start s entry := (some entry.frame, s)
  advance _ s answer frame := frame.advance service s answer
  outside _ nothing := nomatch nothing

end Mishkan.Knowledge
