import Mishkan.Persistence.LocalRuns

/-!
# Workers/Coordination — remote placements, leases and completions

The worker repository writes the store of the run repository.  Its own tables are the placements,
the envelopes, the leases and the completions; the status of a task is shared.
-/

namespace Mishkan

open Refusal

/-- The bounds of the worker repository. -/
structure WorkerBounds where
  leaseSeconds : Nat
  maxWorkerConcurrency : Nat
  maxCompletionBytes : Nat
deriving DecidableEq

namespace WorkerBounds

/-- How long a lease lasts. -/
def leaseSpan (bounds : WorkerBounds) : Instant := bounds.leaseSeconds * second

end WorkerBounds

namespace Store

/-! ## Shared checks -/

def requireDigest (value : String) : Except Raised Unit :=
  refuseIf (value.length ≠ 64 ∨ ¬ value.toList.all (· ∈ "0123456789abcdef".toList)) <|
    fault .worker "worker lease credential digest is invalid"

def requireToken (lease : WorkerLeaseRow) (tokenDigest : String) : Except Raised Unit := do
  requireDigest tokenDigest
  refuseIf (lease.tokenDigest ≠ tokenDigest) <|
    fault .worker "worker lease credential is invalid"

def activeWorker (s : Store) (workerId : Uuid) : Except Raised WorkerIdentityRow :=
  require (s.others.workers.find? fun w => w.id = workerId ∧ w.state = .active) <|
    fault .worker "worker identity is not active"

/-- A preferred worker, if there is one, is active. -/
def requirePreferredWorker (s : Store) : Option Uuid → Except Raised Unit
  | none => .ok ()
  | some workerId => do
    let _ ← s.activeWorker workerId

/-- The advertisement of a worker whose heartbeat has not expired. -/
def freshHeartbeat (s : Store) (workerId : Uuid) (now : Instant) :
    Except Raised WorkerHeartbeat := do
  let row ← require
    (s.others.heartbeats.find? fun h => h.workerId = workerId ∧ now < h.expiresAt) <|
    fault .worker "worker heartbeat is unavailable or stale"
  return row.payload

/-- The number of active leases of a worker. -/
def activeLeaseCount (s : Store) (workerId : Uuid) : Nat :=
  (s.leases.select fun l => l.workerId = workerId ∧ l.state = .active).length

/-- How many leases a worker may hold. -/
def capacity (bounds : WorkerBounds) (advertisement : WorkerHeartbeat) : Nat :=
  min advertisement.resources.maxConcurrency bounds.maxWorkerConcurrency

def requireResourceCapacity (advertisement : WorkerHeartbeat) (limits : TaskResourceLimits) :
    Except Raised Unit := do
  refuseIf (∃ bytes ∈ limits.memoryBytes, advertisement.resources.availableMemoryBytes < bytes) <|
    fault .worker "worker memory does not satisfy task bounds"
  refuseIf (∃ cpus ∈ limits.cpuCount, advertisement.resources.logicalCpuCount < cpus) <|
    fault .worker "worker CPU does not satisfy task bounds"

/-- The envelope agrees with the run, the task and the plan it is issued under. -/
def validateEnvelopeAgainstAuthority (envelope : ImmutableTaskEnvelope) (run : Option RunRow)
    (task : Option TaskRow) (plan : Option PlanRow) : Except Raised (RunRow × TaskRow) := do
  let incomplete := fault .worker "remote task authority is incomplete"
  let run ← require run incomplete
  let task ← require task incomplete
  let plan ← require plan incomplete
  refuseIf (run.status ≠ .running ∨ run.cancellationRequested) <|
    fault .runInterrupted "run does not accept remote work"
  refuseIf (task.runId ≠ run.id ∨ task.taskKey ≠ envelope.taskId) <|
    fault .worker "remote task identity differs from accepted task"
  refuseIf (run.context.revision ≠ envelope.executionContextRevision) <|
    fault .revisionMismatch "execution-context revision differs from the immutable envelope"
  refuseIf (run.context.repositoryId ≠ envelope.repositoryId
      ∨ run.context.repositoryRevision ≠ envelope.repositoryRevision) <|
    fault .revisionMismatch "repository identity or revision differs from the immutable envelope"
  refuseIf (plan.fingerprint ≠ envelope.planFingerprint) <|
    fault .revisionMismatch "plan fingerprint changed"
  refuseIf (task.contract.modelDump ≠ envelope.taskContract) <|
    fault .revisionMismatch "task contract changed"
  return (run, task)

/-- The active, unexpired lease of a worker, and its envelope. -/
def activeLease (s : Store) (workerId leaseId : Uuid) (tokenDigest : String) (now : Instant) :
    Except Raised (WorkerLeaseRow × RemoteTaskEnvelopeRow) := do
  let _ ← s.activeWorker workerId
  let lease ← require ((s.lease? leaseId).filter (·.workerId = workerId)) <|
    fault .worker "worker lease is invalid"
  requireToken lease tokenDigest
  refuseIf (lease.state ≠ .active) <| fault .worker "worker lease is not active"
  refuseIf (lease.expiresAt ≤ now) <| fault .worker "worker lease has expired"
  let envelope ← require ((s.envelope? lease.envelopeId).filter (·.workerId = workerId)) <|
    fault .worker "worker envelope is invalid"
  return (lease, envelope)

/-! ## Writes -/

/-- Move one envelope to a state. -/
def moveEnvelope (s : Store) (id : Uuid) (state : RemoteEnvelopeState) : Store :=
  { s with
    envelopes := s.envelopes.update (·.id = id) (fun e => { e with state := state })
      (RemoteTaskEnvelopeRow.key_setState state) }

/-- Rewrite one lease. -/
def updateLease (s : Store) (id : Uuid) (f : WorkerLeaseRow → WorkerLeaseRow)
    (hf : ∀ l, Keyed.key (f l) = Keyed.key l) : Store :=
  { s with leases := s.leases.update (·.id = id) f hf }

/-- Rewrite the placements that match and count their revisions. -/
def updatePlacements (s : Store) (p : RemoteTaskPlacementRow → Bool)
    (f : RemoteTaskPlacementRow → RemoteTaskPlacementRow)
    (hf : ∀ r, Keyed.key (f r) = Keyed.key r) : Store :=
  { s with
    placements := s.placements.update p (fun r => { f r with revision := r.revision + 1 }) hf }

/-- Queue the placement of an envelope again. -/
def requeuePlacement (s : Store) (envelopeId : Uuid) : Store :=
  s.updatePlacements (·.currentEnvelopeId = some envelopeId)
    (fun r => { r with state := .queued, selectedWorkerId := none, currentEnvelopeId := none })
    fun _ => rfl

/-! ## Placement -/

def queuePlacement (s : Store) (now : Instant) (request : RemotePlacementRequest) :
    Except Raised (RemoteTaskPlacementRow × Store) := do
  refuseIf (request.deadline ≤ now) <| fault .worker "remote placement deadline has expired"
  let missing := fault .worker "remote placement task does not exist"
  let run ← require (s.run? request.runId) missing
  let task ← require (s.task? request.runId request.taskId) missing
  refuseIf (run.status ≠ .running ∨ run.cancellationRequested) <|
    fault .runInterrupted "run does not accept remote work"
  refuseIf (task.status ≠ .eligible) <|
    fault .revisionMismatch "task is not eligible for remote placement"
      [("state", .str task.status.value)]
  s.requirePreferredWorker request.preferredWorkerId
  match s.placements.find (·.taskRowId = task.id) with
  | some existing =>
    refuseIf (existing.requestFingerprint ≠ request.fingerprint) <|
      fault .duplicateResult "remote task already has a different placement request"
    return (existing, s)
  | none =>
    let row : RemoteTaskPlacementRow :=
      { id := request.id, runId := run.id, taskRowId := task.id, taskKey := task.taskKey,
        state := .queued, preferredWorkerId := request.preferredWorkerId,
        requestFingerprint := request.fingerprint, requestPayload := request, revision := 1,
        createdAt := request.createdAt }
    let placements ← require (s.placements.insert row) .integrityError
    return (row, { s with placements := placements }.addEvent run.id
      "worker.task_placement_queued" (some task.taskKey))

/-! ## Leases -/

/-- The row of a leased envelope. -/
def leasedRow (envelope : ImmutableTaskEnvelope) : RemoteTaskEnvelopeRow where
  id := envelope.id
  runId := envelope.runId
  taskRowId := envelope.taskRowId
  taskKey := envelope.taskId
  taskAttempt := envelope.taskAttempt
  workerId := envelope.workerId
  state := .leased
  fingerprint := envelope.fingerprint
  statefulEffects := envelope.statefulEffects
  payload := envelope
  deadline := envelope.deadline

/-- The row of a new lease on an envelope. -/
def leaseRow (bounds : WorkerBounds) (envelope : ImmutableTaskEnvelope) (id : Uuid)
    (claimId : Option Uuid) (tokenDigest : String) (now : Instant) : WorkerLeaseRow where
  id := id
  envelopeId := envelope.id
  workerId := envelope.workerId
  claimId := claimId
  tokenDigest := tokenDigest
  state := .active
  revision := 1
  issuedAt := now
  expiresAt := min envelope.deadline (now + bounds.leaseSpan)
  lastRenewedAt := now

/-- Insert an envelope with its lease, and move its task to leased. -/
def insertLease (s : Store) (envelope : ImmutableTaskEnvelope) (lease : WorkerLeaseRow) :
    Except Raised Store := do
  let envelopes ← require (s.envelopes.insert (leasedRow envelope)) .integrityError
  let leases ← require (s.leases.insert lease) .integrityError
  return { s with envelopes := envelopes, leases := leases }.beginAttempt envelope.taskRowId
    .leased envelope.taskAttempt

/-- What a worker's claim returns. -/
structure WorkerTaskClaim where
  claimId : Uuid
  envelope : ImmutableTaskEnvelope
  lease : WorkerLeaseRow

/-- The queued placements a worker may take, oldest first. -/
def queuedPlacements (s : Store) (workerId : Uuid) : List RemoteTaskPlacementRow :=
  (s.placements.select fun r => r.state = .queued
    ∧ (r.preferredWorkerId = none ∨ r.preferredWorkerId = some workerId)).insertionSort
      fun a b => a.createdAt < b.createdAt ∨ a.createdAt = b.createdAt ∧ a.id ≤ b.id

/-- The worker satisfies the requirements and the resource bounds of a placement. -/
def isCompatible (advertisement : WorkerHeartbeat) (request : RemotePlacementRequest) : Bool :=
  request.capabilityRequirements.all (·.satisfiedBy advertisement.capabilities)
    && (requireResourceCapacity advertisement request.resources).toOption.isSome

/-- Scan the queued placements for the first live and compatible one, and return it with the expired
ones that were passed on the way. -/
def selectPlacement (advertisement : WorkerHeartbeat) (now : Instant) :
    List RemoteTaskPlacementRow → List Uuid × Option RemoteTaskPlacementRow
  | [] => ([], none)
  | row :: rows =>
    if row.requestPayload.deadline ≤ now then
      let (expired, selected) := selectPlacement advertisement now rows
      (row.id :: expired, selected)
    else if isCompatible advertisement row.requestPayload then ([], some row)
    else selectPlacement advertisement now rows

/-- The envelope a claim issues for a placement. -/
def claimEnvelope (id workerId : Uuid) (now : Instant) (run : RunRow) (task : TaskRow)
    (plan : PlanRow) (request : RemotePlacementRequest) : ImmutableTaskEnvelope where
  id := id
  createdAt := now
  runId := run.id
  taskRowId := task.id
  taskId := task.taskKey
  taskAttempt := task.attemptCount + 1
  workerId := workerId
  executionContextRevision := run.context.revision
  repositoryId := run.context.repositoryId
  repositoryRevision := run.context.repositoryRevision
  planFingerprint := plan.fingerprint
  taskContract := task.contract.modelDump
  roleDefinitionFingerprint := request.roleDefinitionFingerprint
  inputs := request.inputs
  policyFingerprint := request.policyFingerprint
  pathScopes := request.pathScopes
  capabilityRequirements := request.capabilityRequirements
  resources := request.resources
  deadline := min request.deadline (now + request.resources.timeoutSeconds * second)
  statefulEffects := request.statefulEffects

/-- Bind the first compatible queued placement to one worker claim. -/
def claimNext (s : Store) (bounds : WorkerBounds) (workerId : Uuid) (request : WorkerClaimRequest)
    (envelopeId leaseId : Uuid) (now : Instant) :
    Except Raised (Option WorkerTaskClaim × Store) := do
  requireDigest request.leaseTokenDigest
  let _ ← s.activeWorker workerId
  match s.leases.find (·.claimId = some request.id) with
  | some previous =>
    requireToken previous request.leaseTokenDigest
    refuseIf (previous.workerId ≠ workerId) <|
      fault .worker "worker claim belongs to another identity"
    let row ← require (s.envelope? previous.envelopeId) <|
      fault .worker "claimed task envelope is missing"
    return (some ⟨request.id, row.payload, previous⟩, s)
  | none =>
    let advertisement ← s.freshHeartbeat workerId now
    if capacity bounds advertisement ≤ s.activeLeaseCount workerId then return (none, s)
    let (expired, selected) := selectPlacement advertisement now (s.queuedPlacements workerId)
    let s := s.updatePlacements (fun r => expired.contains r.id)
      (fun r => { r with state := .cancelled }) fun _ => rfl
    match selected with
    | none => return (none, s)
    | some placement =>
      let incomplete := fault .worker "remote placement authority is incomplete"
      let run ← require (s.run? placement.runId) incomplete
      let task ← require (s.taskRow? placement.taskRowId) incomplete
      let plan ← require (s.plan? placement.runId) incomplete
      let envelope := claimEnvelope envelopeId workerId now run task plan placement.requestPayload
      let _ ← validateEnvelopeAgainstAuthority envelope (some run) (some task) (some plan)
      refuseIf (task.status ≠ .eligible) <|
        fault .revisionMismatch "placed task is no longer eligible"
      let lease := leaseRow bounds envelope leaseId (some request.id) request.leaseTokenDigest now
      let s ← s.insertLease envelope lease
      let s := s.updatePlacements (·.id = placement.id) (fun r => { r with
        state := .leased, selectedWorkerId := some workerId, currentEnvelopeId := some envelopeId })
        fun _ => rfl
      return (some ⟨request.id, envelope, lease⟩,
        s.addEvent run.id "worker.task_claimed" (some task.taskKey))

/-- Lease one envelope to its worker. -/
def issueLease (s : Store) (bounds : WorkerBounds) (envelope : ImmutableTaskEnvelope)
    (leaseId : Uuid) (tokenDigest : String) (now : Instant) :
    Except Raised (WorkerLeaseRow × Store) := do
  requireDigest tokenDigest
  let envelope := { envelope with
    deadline := min envelope.deadline (now + envelope.resources.timeoutSeconds * second) }
  refuseIf (envelope.deadline ≤ now) <| fault .worker "remote task deadline has expired"
  let _ ← s.activeWorker envelope.workerId
  let advertisement ← s.freshHeartbeat envelope.workerId now
  refuseIf (advertisement.resources.maxConcurrency ≤ advertisement.resources.activeTasks) <|
    fault .worker "worker has no advertised task capacity"
  refuseIf (capacity bounds advertisement ≤ s.activeLeaseCount envelope.workerId) <|
    fault .worker "worker has reached its authoritative lease capacity"
  refuseIf (¬ envelope.capabilityRequirements.all (·.satisfiedBy advertisement.capabilities)) <|
    fault .worker "worker does not satisfy the immutable task requirements"
  requireResourceCapacity advertisement envelope.resources
  let (_, task) ← validateEnvelopeAgainstAuthority envelope (s.run? envelope.runId)
    (s.taskRow? envelope.taskRowId) (s.plan? envelope.runId)
  refuseIf (task.status ≠ .eligible) <|
    fault .revisionMismatch "task is not eligible for a remote lease"
      [("state", .str task.status.value)]
  refuseIf (envelope.taskAttempt ≠ task.attemptCount + 1) <|
    fault .revisionMismatch "remote task attempt is not the next accepted attempt"
  let lease := leaseRow bounds envelope leaseId none tokenDigest now
  -- a unique constraint that is hit is reported as a typed error here
  let s ← (s.insertLease envelope lease).mapError fun _ =>
    fault .duplicateResult "remote task envelope, lease, or token identity already exists"
  return (lease, s.addEvent envelope.runId "worker.task_leased" (some envelope.taskId))

def beginExecution (s : Store) (workerId leaseId : Uuid) (tokenDigest : String) (now : Instant) :
    Except Raised (WorkerLeaseRow × Store) := do
  let (lease, envelope) ← s.activeLease workerId leaseId tokenDigest now
  if envelope.state = .executing then return (lease, s)
  refuseIf (envelope.state ≠ .leased) <| fault .worker "remote task envelope cannot start"
  let task ← require ((s.taskRow? envelope.taskRowId).filter (·.status = .leased)) <|
    fault .worker "leased task state is inconsistent"
  let s := (s.moveEnvelope envelope.id .executing).moveTask task.id .executing
  return (lease, s.addEvent envelope.runId "worker.task_execution_started" (some envelope.taskKey))

def renewLease (s : Store) (bounds : WorkerBounds) (workerId leaseId : Uuid)
    (tokenDigest : String) (expectedRevision : Nat) (now : Instant) :
    Except Raised (WorkerLeaseRow × Store) := do
  let (lease, envelope) ← s.activeLease workerId leaseId tokenDigest now
  refuseIf (lease.revision ≠ expectedRevision) <|
    fault .revisionMismatch "worker lease revision changed"
      [("expected", .int expectedRevision), ("current", .int lease.revision)]
  let renewedUntil := min envelope.deadline (now + bounds.leaseSpan)
  refuseIf (renewedUntil ≤ now) <| fault .worker "remote task deadline has expired"
  let renewed : WorkerLeaseRow → WorkerLeaseRow := fun l => { l with
    revision := l.revision + 1, expiresAt := renewedUntil, lastRenewedAt := now }
  return (renewed lease, (s.updateLease lease.id renewed fun _ => rfl).addEvent envelope.runId
    "worker.lease_renewed" (some envelope.taskKey))

/-! ## Completions -/

/-- Why a submission is stale, if it is. -/
def completionStaleReason (envelope : ImmutableTaskEnvelope) (lease : WorkerLeaseRow)
    (submission : WorkerCompletionSubmission) (now : Instant) : Option String :=
  if lease.state ≠ .active then some "lease is not active"
  else if lease.expiresAt ≤ now then some "lease expired before completion delivery"
  else if submission.executionContextRevision ≠ envelope.executionContextRevision then
    some "execution-context revision differs from the immutable envelope"
  else if submission.repositoryRevision ≠ envelope.repositoryRevision then
    some "repository revision differs from the immutable envelope"
  else if envelope.statefulEffects ∧ submission.effectReport = .notApplicable then
    some "stateful task omitted effect-settlement evidence"
  else none

/-- The artifacts a submission refers to. -/
def completionArtifacts (submission : WorkerCompletionSubmission) : List Uuid :=
  submission.artifactIds ++ submission.effectEvidenceArtifactIds
    ++ submission.unifiedPatchArtifactId.toList

/-- Every artifact of a submission was committed under its lease and is available. -/
def validateCompletionArtifacts (s : Store) (lease : WorkerLeaseRow)
    (submission : WorkerCompletionSubmission) : Except Raised Unit :=
  refuseIf (¬ ∀ id ∈ completionArtifacts submission,
      (∃ upload ∈ s.others.uploads, upload.artifactId = some id ∧ upload.leaseId = lease.id
        ∧ upload.workerId = lease.workerId ∧ upload.state = "committed")
      ∧ ∃ artifact ∈ s.others.artifacts,
        artifact.id = id ∧ artifact.lifecycle = "available") <|
    fault .artifact "worker completion references an artifact outside its active lease"

/-- How a submission is received: only the first of an envelope that is not stale is delivered. -/
def receivedState (s : Store) (envelopeId : Uuid) (staleReason : Option String) :
    WorkerCompletionState :=
  if s.completions.rows.any (·.envelopeId = envelopeId) then .duplicate
  else if staleReason.isSome then .stale
  else .delivered

/-- The row of a received submission. -/
def receivedRow (submission : WorkerCompletionSubmission) (envelopeId leaseId workerId : Uuid)
    (state : WorkerCompletionState) (now : Instant) (staleReason : Option String) :
    WorkerCompletionRow where
  id := submission.id
  envelopeId := envelopeId
  leaseId := leaseId
  workerId := workerId
  fingerprint := submission.fingerprint
  state := state
  payload := submission
  receivedAt := now
  decidedAt := if state = .delivered then none else some now
  decisionReason := staleReason

def deliverCompletion (s : Store) (bounds : WorkerBounds) (workerId : Uuid)
    (submission : WorkerCompletionSubmission) (tokenDigest : String) (now : Instant) :
    Except Raised (WorkerCompletionRow × Store) := do
  refuseIf (bounds.maxCompletionBytes < submission.encodedBytes) <|
    fault .worker "worker completion exceeds configured bounds"
  match s.completion? submission.id with
  | some existing =>
    refuseIf (existing.fingerprint ≠ submission.fingerprint) <|
      fault .duplicateResult "worker completion identity was reused for different content"
    return (existing, s)
  | none =>
    let missing := fault .worker "completion lease or envelope does not exist"
    let envelope ← require (s.envelope? submission.envelopeId) missing
    let lease ← require (s.lease? submission.leaseId) missing
    refuseIf (envelope.workerId ≠ workerId ∨ lease.workerId ≠ workerId
        ∨ lease.envelopeId ≠ envelope.id) <|
      fault .worker "completion authority does not match worker"
    requireToken lease tokenDigest
    s.validateCompletionArtifacts lease submission
    let staleReason := completionStaleReason envelope.payload lease submission now
    let state := s.receivedState envelope.id staleReason
    let row := receivedRow submission envelope.id lease.id workerId state now staleReason
    let completions ← require (s.completions.insert row) .integrityError
    let s := { s with completions := completions }
    let event := "worker.completion_" ++ state.value
    if state ≠ .delivered then
      return (row, s.addEvent envelope.runId event (some envelope.taskKey))
    let task ← require ((s.taskRow? envelope.taskRowId).filter fun t =>
        t.status = .leased ∨ t.status = .executing) <|
      fault .worker "remote task state is inconsistent"
    let s := s.updateLease lease.id (fun l => { l with
      state := .completed, completedAt := some now }) fun _ => rfl
    let s := (s.moveEnvelope envelope.id .validating).moveTask task.id .validating
    return (row, s.addEvent envelope.runId event (some envelope.taskKey))

/-- Rewrite one completion. -/
def updateCompletion (s : Store) (id : Uuid) (f : WorkerCompletionRow → WorkerCompletionRow)
    (hf : ∀ c, Keyed.key (f c) = Keyed.key c) : Store :=
  { s with completions := s.completions.update (·.id = id) f hf }

/-- A completion that is accepted. -/
def accepted (now : Instant) (c : WorkerCompletionRow) : WorkerCompletionRow :=
  { c with state := .accepted, acceptedAt := some now, decidedAt := some now }

/-- A completion of a task that already has one. -/
def duplicated (now : Instant) (c : WorkerCompletionRow) : WorkerCompletionRow :=
  { c with
    state := .duplicate
    decidedAt := some now
    decisionReason := some "another valid completion was already accepted" }

/-- Accept one delivered result and release its dependents. -/
def acceptCompletion (s : Store) (resultId acceptanceId completionId : Uuid) (now : Instant)
    (result : InitializationResult) (review : ReviewDecision) :
    Except Raised (WorkerCompletionRow × Store) := do
  let completion ← require (s.completion? completionId) <|
    fault .worker "worker completion does not exist"
  let envelope ← require (s.envelope? completion.envelopeId) <|
    fault .worker "worker completion envelope is missing"
  let missing := fault .worker "worker completion task authority is missing"
  let task ← require (s.taskRow? envelope.taskRowId) missing
  let run ← require (s.run? envelope.runId) missing
  match s.taskAcceptance? task.id with
  | some existing =>
    if existing.completionId = completion.id then return (completion, s)
    return (duplicated now completion,
      s.updateCompletion completion.id (duplicated now) fun _ => rfl)
  | none =>
    refuseIf (completion.state ≠ .delivered) <|
      fault .worker "worker completion is not eligible for acceptance"
    refuseIf (completion.payload.result ≠ result.modelDump) <|
      fault .outputContract "validated result differs from the delivered worker result"
    refuseIf (result.taskId ≠ task.taskKey ∨ review.taskId ≠ task.taskKey) <|
      fault .outputContract "completion identifies another task"
    refuseIf (review.verdict ≠ .accepted) <|
      fault .outputContract "rejected review cannot be accepted"
    refuseIf run.cancellationRequested <|
      fault .runInterrupted "run cancellation blocks acceptance"
    refuseIf (result.repositoryRevision ≠ run.context.repositoryRevision) <|
      fault .revisionMismatch "completion repository revision differs from the accepted run"
    refuseIf (review.schemaVersion = .v11
        ∧ review.producerIdentity ≠ some task.contract.assignedRole) <|
      fault .roleConflict "review producer identity differs from the accepted task owner"
    refuseIf (¬ s.dependenciesAccepted run.id task.contract) <|
      fault .runInterrupted "task dependencies are not durably accepted"
    refuseIf (s.result? run.id task.taskKey ≠ none) <|
      fault .duplicateResult "task already has an accepted result outside this delivery"
    let results ← require (s.results.insert
      { id := resultId, runId := run.id, taskKey := task.taskKey, payload := result,
        acceptedAt := now }) .integrityError
    let acceptances ← require (s.acceptances.insert
      { id := acceptanceId, runId := run.id, taskKey := task.taskKey, resultId,
        reviewPayload := review, acceptedAt := now }) .integrityError
    let taskAcceptances ← require (s.taskAcceptances.insert
      { taskRowId := task.id, completionId := completion.id, envelopeId := envelope.id,
        acceptedAt := now }) .integrityError
    let s := { s with
      results := results, acceptances := acceptances, taskAcceptances := taskAcceptances }
    let s := (s.updateCompletion completion.id (accepted now) fun _ => rfl).moveEnvelope envelope.id
      .completed
    let s := s.updatePlacements (·.currentEnvelopeId = some envelope.id)
      (fun r => { r with state := .completed }) fun _ => rfl
    let s := (s.moveTask task.id .accepted).addEvent run.id "worker.completion_accepted"
      (some task.taskKey)
    return (accepted now completion, (s.releaseDependents run.id).completeRun run.id)

/-! ## Expiry and reconciliation -/

/-- The active leases that have expired. -/
def expiredLeases (s : Store) (now : Instant) : List WorkerLeaseRow :=
  s.leases.select fun l => l.state = .active ∧ l.expiresAt ≤ now

/-- Give up one lease: hold a stateful task for reconciliation, release any other. -/
def expireLease (s : Store) (lease : WorkerLeaseRow) : Store :=
  match s.envelope? lease.envelopeId with
  | none => s
  | some envelope =>
    let s := s.updateLease lease.id (fun l => { l with
      state := .expired, revision := l.revision + 1 }) fun _ => rfl
    let s := if envelope.statefulEffects then s.moveEnvelope envelope.id .reconciliationRequired
      else
        let s := s.moveTasks (fun t => t.id = envelope.taskRowId
          ∧ (t.status = .leased ∨ t.status = .executing)) .eligible
        (s.moveEnvelope envelope.id .expired).requeuePlacement envelope.id
    s.addEvent envelope.runId "worker.lease_expired" (some envelope.taskKey)

def expireLeases (s : Store) (now : Instant) : Except Raised (List Uuid × Store) :=
  let leases := (s.expiredLeases now).filter fun l => (s.envelope? l.envelopeId).isSome
  .ok (leases.map (·.id), leases.foldl expireLease s)

/-- Release a stateful task whose lease was lost, once its effects are proven settled. -/
def reconcileExpiredEnvelope (s : Store) (envelopeId : Uuid) (effectReport : EffectReportState) :
    Except Raised (Unit × Store) := do
  let envelope ← require
    ((s.envelope? envelopeId).filter (·.state = .reconciliationRequired)) <|
    fault .worker "remote task is not awaiting reconciliation"
  refuseIf (effectReport ≠ .proven) <|
    fault .worker "stateful task remains blocked until effects are proven settled"
  let task ← require ((s.taskRow? envelope.taskRowId).filter fun t =>
      t.status = .leased ∨ t.status = .executing) <|
    fault .worker "remote task state is inconsistent"
  let s := (s.moveEnvelope envelope.id .expired).requeuePlacement envelope.id
  return ((), (s.moveTask task.id .eligible).addEvent envelope.runId "worker.effects_reconciled"
    (some envelope.taskKey))

end Store

end Mishkan
