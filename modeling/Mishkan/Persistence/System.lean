import Mishkan.Foundations.Transition
import Mishkan.Workers.Coordination

/-!
# Persistence/System — the store under any order of operations

An `Op` is one transaction of one of the two repositories with its arguments, the identifiers it
draws and the clock it reads; `others` is any change another service makes to the tables it owns.
`step` commits a transaction that succeeds and rolls back one that does not, so `runFrom` is every
interleaving of the two repositories at the granularity of their transactions.
-/

namespace Mishkan

open Refusal Transition

/-- What the repositories are constructed with. -/
structure Deployment where
  safe : ContentInspector
  bounds : WorkerBounds

/-- One transaction. -/
inductive Op where
  | others (rows : OtherRows)
  | startOrResume (id : Uuid) (discovery : DiscoverySnapshot) (objective outcomeId : String)
  | acceptPlan (runId : Uuid) (plan : AcceptedPlan) (draw : Nat → Uuid)
  | markAwaitingApproval (runId : Uuid)
  | startRun (runId : Uuid)
  | claimTask (runId : Uuid) (taskId : String)
  | markValidating (runId : Uuid) (taskId : String)
  | markTaskFailure (runId : Uuid) (taskId : String) (rejected : Bool)
  | recordRejectedReview (id runId : Uuid) (result : InitializationResult) (review : ReviewDecision)
      (reviewSequence : Nat)
  | cancelRun (runId : Uuid)
  | settleCancellation (runId : Uuid)
  | reconcileInterrupted (runId : Uuid)
  | releaseInterrupted (runId : Uuid)
  | acceptResult (resultId acceptanceId runId : Uuid) (now : Instant)
      (result : InitializationResult) (review : ReviewDecision)
  | reservePlannedCall (reservation : Reservation)
  | markPlannedCallDispatching (invocationId : Uuid) (fingerprint : Digest PlannedRequest)
  | completePlannedCall (invocationId : Uuid) (fingerprint : Digest PlannedRequest)
      (result : ToolResultEnvelope) (settlement : EffectSettlement)
  | queuePlacement (now : Instant) (request : RemotePlacementRequest)
  | claimNext (workerId : Uuid) (request : WorkerClaimRequest) (envelopeId leaseId : Uuid)
      (now : Instant)
  | issueLease (envelope : ImmutableTaskEnvelope) (leaseId : Uuid) (tokenDigest : String)
      (now : Instant)
  | beginExecution (workerId leaseId : Uuid) (tokenDigest : String) (now : Instant)
  | renewLease (workerId leaseId : Uuid) (tokenDigest : String) (expectedRevision : Nat)
      (now : Instant)
  | deliverCompletion (workerId : Uuid) (submission : WorkerCompletionSubmission)
      (tokenDigest : String) (now : Instant)
  | acceptCompletion (resultId acceptanceId completionId : Uuid) (now : Instant)
      (result : InitializationResult) (review : ReviewDecision)
  | expireLeases (now : Instant)
  | reconcileExpiredEnvelope (envelopeId : Uuid) (effectReport : EffectReportState)

/-- The store after one transaction. -/
def step (deployment : Deployment) (s : Store) : Op → Store
  | .others rows => { s with others := rows }
  | .startOrResume id discovery objective outcomeId =>
    commit s (s.startOrResume deployment.safe id discovery objective outcomeId)
  | .acceptPlan runId plan draw => commit s (s.acceptPlan deployment.safe runId plan draw)
  | .markAwaitingApproval runId => commit s (s.markAwaitingApproval runId)
  | .startRun runId => commit s (s.startRun runId)
  | .claimTask runId taskId => commit s (s.claimTask runId taskId)
  | .markValidating runId taskId => commit s (s.markValidating runId taskId)
  | .markTaskFailure runId taskId rejected => commit s (s.markTaskFailure runId taskId rejected)
  | .recordRejectedReview id runId result review reviewSequence =>
    commit s (s.recordRejectedReview deployment.safe id runId result review reviewSequence)
  | .cancelRun runId => commit s (s.cancelRun runId)
  | .settleCancellation runId => commit s (s.settleCancellation runId)
  | .reconcileInterrupted runId => commit s (s.reconcileInterrupted runId)
  | .releaseInterrupted runId => commit s (s.releaseInterrupted runId)
  | .acceptResult resultId acceptanceId runId now result review =>
    commit s (s.acceptResult deployment.safe resultId acceptanceId runId now result review)
  | .reservePlannedCall reservation => commit s (s.reservePlannedCall reservation)
  | .markPlannedCallDispatching invocationId fingerprint =>
    commit s (s.markPlannedCallDispatching invocationId fingerprint)
  | .completePlannedCall invocationId fingerprint result settlement =>
    commit s (s.completePlannedCall deployment.safe invocationId fingerprint result settlement)
  | .queuePlacement now request => commit s (s.queuePlacement now request)
  | .claimNext workerId request envelopeId leaseId now =>
    commit s (s.claimNext deployment.bounds workerId request envelopeId leaseId now)
  | .issueLease envelope leaseId tokenDigest now =>
    commit s (s.issueLease deployment.bounds envelope leaseId tokenDigest now)
  | .beginExecution workerId leaseId tokenDigest now =>
    commit s (s.beginExecution workerId leaseId tokenDigest now)
  | .renewLease workerId leaseId tokenDigest expectedRevision now =>
    commit s (s.renewLease deployment.bounds workerId leaseId tokenDigest expectedRevision now)
  | .deliverCompletion workerId submission tokenDigest now =>
    commit s (s.deliverCompletion deployment.bounds workerId submission tokenDigest now)
  | .acceptCompletion resultId acceptanceId completionId now result review =>
    commit s (s.acceptCompletion resultId acceptanceId completionId now result review)
  | .expireLeases now => commit s (s.expireLeases now)
  | .reconcileExpiredEnvelope envelopeId effectReport =>
    commit s (s.reconcileExpiredEnvelope envelopeId effectReport)

/-- The store after a sequence of transactions. -/
def runFrom (deployment : Deployment) (s : Store) (ops : List Op) : Store :=
  run (step deployment) s ops

/-- The stores a new database can reach. -/
def Reachable (deployment : Deployment) (s : Store) : Prop :=
  ∃ ops, runFrom deployment .empty ops = s

/-! ## A small deployment

One repository, one worker and a plan of one task: the runs on which the theorems below are tried
start here. -/

/-- Bounds under which the small runs below take place. -/
def sampleDeployment : Deployment where
  safe := fun _ => true
  bounds := { leaseSeconds := 60, maxWorkerConcurrency := 4, maxCompletionBytes := 4096 }

def sampleDiscovery : DiscoverySnapshot where
  binding := .repository "repository" "revision"
  citedPaths := ["README.md"]
  fingerprint := "discovery"

def sampleTask : PlanTask where
  taskId := "build"
  title := "Build"
  purpose := "Build the project"
  assignedRole := "developer"
  tools := ["shell.run"]
  evidencePaths := ["README.md"]
  toolsNonempty := by decide
  toolsUnique := by decide
  evidenceNonempty := by decide
  evidenceUnique := by decide
  dependsOnUnique := List.nodup_nil
  callIdsUnique := by decide
  callsSelected := by simp

def samplePlan : AcceptedPlan where
  objective := "build"
  outcomeId := "built"
  repositoryRevision := some "revision"
  tasks := [sampleTask]
  tasksNonempty := by simp
  tasksBounded := by simp
  callsComplete := by simp
  legacyRevision := by simp
  explicitContext := by simp
  fingerprint := "plan"
  discoveryFingerprint := "discovery"
  lineageComplete := by simp

def sampleToken : String := "0123456789abcdef0123456789abcdef0123456789abcdef0123456789abcdef"

def otherToken : String := "fedcba9876543210fedcba9876543210fedcba9876543210fedcba9876543210"

/-- One active worker with a fresh heartbeat. -/
def sampleRows : OtherRows where
  workers := [⟨7, .active⟩]
  heartbeats := [⟨7, ⟨7, [], ⟨8, 1000, 4, 0⟩⟩, 1000 * second⟩]

def sampleEnvelope (id : Uuid) (attempt : Nat) (stateful : Bool) : ImmutableTaskEnvelope where
  id := id
  createdAt := 0
  runId := 1
  taskRowId := 11
  taskId := "build"
  taskAttempt := attempt
  workerId := 7
  executionContextRevision := "revision"
  repositoryId := some "repository"
  repositoryRevision := some "revision"
  planFingerprint := "plan"
  taskContract := sampleTask.modelDump
  roleDefinitionFingerprint := "role"
  inputs := []
  policyFingerprint := "policy"
  pathScopes := []
  capabilityRequirements := []
  resources := { timeoutSeconds := 600, maxResultBytes := 4096 }
  deadline := 600 * second
  statefulEffects := stateful

def sampleStart : List Op :=
  [.others sampleRows, .startOrResume 1 sampleDiscovery "build" "built",
    .acceptPlan 1 samplePlan (10 + ·), .startRun 1]

end Mishkan
