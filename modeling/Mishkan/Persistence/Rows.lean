import Mishkan.Foundations.Table
import Mishkan.Tools.GatewayModels
import Mishkan.Workers.Models

/-!
# Persistence/Rows — the rows of the durable store and their unique constraints

A payload column holds the value its JSON text is the dump of.  A fingerprint column holds the
digest.  The `updated_at` columns are read by no operation and have no field here.
-/

namespace Mishkan

/-! ## Lifecycles -/

/-- The states of a run. -/
inductive RunState where
  | planning | awaitingApproval | queued | running | blocked | cancelling | completed | failed
  | cancelled
deriving DecidableEq

/-- The states of a task. -/
inductive TaskState where
  | pending | eligible | leased | executing | validating | accepted | rejected | failed | cancelled
deriving DecidableEq

def TaskState.value : TaskState → String
  | .pending => "pending"
  | .eligible => "eligible"
  | .leased => "leased"
  | .executing => "executing"
  | .validating => "validating"
  | .accepted => "accepted"
  | .rejected => "rejected"
  | .failed => "failed"
  | .cancelled => "cancelled"

/-- A task that someone is working on. -/
def TaskState.isActive : TaskState → Bool
  | .leased | .executing | .validating => true
  | _ => false

/-- A task that has not begun. -/
def TaskState.isWaiting : TaskState → Bool
  | .pending | .eligible => true
  | _ => false

/-- The state of a planned call: reserved, dispatching, or the status of its terminal result. -/
inductive PlannedCallState where
  | reserved | dispatching
  | settled (status : CallStatus)
deriving DecidableEq

def PlannedCallState.value : PlannedCallState → String
  | .reserved => "reserved"
  | .dispatching => "dispatching"
  | .settled status => status.value

/-- A settled call that did not complete and is not uncertain. -/
def PlannedCallState.isRetryable : PlannedCallState → Bool
  | .settled .failed | .settled .cancelled | .settled .refused => true
  | _ => false

/-! ## Runs and plans -/

/-- What a run is resumed by: its binding, the discovery fingerprint, the objective and the
outcome. -/
structure ResumeSource where
  binding : PlanExecutionContext
  discoveryFingerprint : String
  objective : String
  outcomeId : String
deriving DecidableEq

/-- A run; there is one of a resume key. -/
structure RunRow where
  id : Uuid
  resumeKey : Digest ResumeSource
  context : PlanExecutionContext
  discoveryFingerprint : String
  objective : String
  outcomeId : String
  status : RunState
  revision : Nat := 0
  cancellationRequested : Bool := false
deriving DecidableEq

instance : Keyed RunRow := .ofKeys fun r => (r.id, r.resumeKey)

/-- The plan a run was given. -/
structure PlanRow where
  id : Uuid
  runId : Uuid
  fingerprint : String
  payload : AcceptedPlan
deriving DecidableEq

instance : Keyed PlanRow := .ofKeys fun r => (r.id, r.runId)

/-- A task of an accepted plan. -/
structure TaskRow where
  id : Uuid
  runId : Uuid
  taskKey : String
  position : Nat
  status : TaskState
  revision : Nat := 0
  attemptCount : Nat := 0
  contract : PlanTask
deriving DecidableEq

instance : Keyed TaskRow := .ofKeys fun r => (r.id, r.runId, r.taskKey)

/-- A call of a task attempt, and its terminal result. -/
structure PlannedToolCallRow where
  id : Uuid
  runId : Uuid
  taskAttemptId : String
  plannedCallId : String
  requestFingerprint : Digest PlannedRequest
  toolId : String
  toolVersion : String
  effectClass : EffectClass
  declaredEffects : List String
  state : PlannedCallState
  effectSettlement : Option EffectSettlement := none
  result : Option ToolResultEnvelope := none
deriving DecidableEq

instance : Keyed PlannedToolCallRow :=
  .ofKeys fun r => (r.id, r.runId, r.taskAttemptId, r.plannedCallId)

/-! ## Results and reviews -/

/-- The result a task was accepted with. -/
structure ResultRow where
  id : Uuid
  runId : Uuid
  taskKey : String
  payload : InitializationResult
  acceptedAt : Instant
deriving DecidableEq

instance : Keyed ResultRow := .ofKeys fun r => (r.id, r.runId, r.taskKey)

/-- The review that accepted a result. -/
structure AcceptanceRow where
  id : Uuid
  runId : Uuid
  taskKey : String
  resultId : Uuid
  reviewPayload : ReviewDecision
  acceptedAt : Instant
deriving DecidableEq

instance : Keyed AcceptanceRow := .ofKeys fun r => (r.id, r.runId, r.taskKey)

/-- A result that a review turned down. -/
structure ReviewRejectionRow where
  id : Uuid
  runId : Uuid
  taskKey : String
  taskAttempt : Nat
  reviewSequence : Nat
  resultPayload : InitializationResult
  reviewPayload : ReviewDecision
deriving DecidableEq

instance : Keyed ReviewRejectionRow :=
  .ofKeys fun r => (r.id, r.runId, r.taskKey, r.taskAttempt, r.reviewSequence)

/-! ## Remote work -/

/-- A task that waits for a worker, or has one. -/
structure RemoteTaskPlacementRow where
  id : Uuid
  runId : Uuid
  taskRowId : Uuid
  taskKey : String
  state : RemotePlacementState
  preferredWorkerId : Option Uuid
  selectedWorkerId : Option Uuid := none
  currentEnvelopeId : Option Uuid := none
  requestFingerprint : Digest RemotePlacementRequest
  requestPayload : RemotePlacementRequest
  revision : Nat
  createdAt : Instant
deriving DecidableEq

instance : Keyed RemoteTaskPlacementRow := .ofKeys fun r => (r.id, r.taskRowId)

/-- One attempt of a task that is handed to a worker. -/
structure RemoteTaskEnvelopeRow where
  id : Uuid
  runId : Uuid
  taskRowId : Uuid
  taskKey : String
  taskAttempt : Nat
  workerId : Uuid
  state : RemoteEnvelopeState
  fingerprint : Digest ImmutableTaskEnvelope
  statefulEffects : Bool
  payload : ImmutableTaskEnvelope
  deadline : Instant
deriving DecidableEq

instance : Keyed RemoteTaskEnvelopeRow where
  Key := Uuid × (Uuid × Nat) × Digest ImmutableTaskEnvelope
  key r := (r.id, (r.taskRowId, r.taskAttempt), r.fingerprint)
  clash k l := k.1 = l.1 || k.2.1 = l.2.1 || k.2.2 = l.2.2
  clash_symm := by grind

theorem RemoteTaskEnvelopeRow.key_setState (state : RemoteEnvelopeState)
    (e : RemoteTaskEnvelopeRow) : Keyed.key { e with state := state } = Keyed.key e := rfl

/-- The time a worker has for an envelope. -/
structure WorkerLeaseRow where
  id : Uuid
  envelopeId : Uuid
  workerId : Uuid
  claimId : Option Uuid := none
  tokenDigest : String
  state : WorkerLeaseState
  revision : Nat
  issuedAt : Instant
  expiresAt : Instant
  lastRenewedAt : Instant
  completedAt : Option Instant := none
deriving DecidableEq

/-- Two rows without a claim do not collide on it: `NULL` is distinct from itself. -/
instance : Keyed WorkerLeaseRow where
  Key := Uuid × Uuid × Option Uuid × String
  key r := (r.id, r.envelopeId, r.claimId, r.tokenDigest)
  clash k l := k.1 = l.1 || k.2.1 = l.2.1 || (k.2.2.1.isSome && k.2.2.1 = l.2.2.1)
    || k.2.2.2 = l.2.2.2
  clash_symm := by grind

/-- What a worker delivered for a lease. -/
structure WorkerCompletionRow where
  id : Uuid
  envelopeId : Uuid
  leaseId : Uuid
  workerId : Uuid
  fingerprint : Digest WorkerCompletionSubmission
  state : WorkerCompletionState
  payload : WorkerCompletionSubmission
  receivedAt : Instant
  acceptedAt : Option Instant := none
  decidedAt : Option Instant := none
  decisionReason : Option String := none
deriving DecidableEq

instance : Keyed WorkerCompletionRow := .ofKey (·.id)

/-- The completion a task was accepted with. -/
structure WorkerTaskAcceptanceRow where
  taskRowId : Uuid
  completionId : Uuid
  envelopeId : Uuid
  acceptedAt : Instant
deriving DecidableEq

instance : Keyed WorkerTaskAcceptanceRow := .ofKeys fun r => (r.taskRowId, r.completionId)

end Mishkan
