import Mishkan.Planning.Models

/-!
# Workers/Models — public records of bounded remote execution
-/

namespace Mishkan

inductive WorkerState where
  | active | revoked
deriving DecidableEq

inductive RemoteEnvelopeState where
  | leased | executing | validating | completed | expired | reconciliationRequired | cancelled
deriving DecidableEq

inductive WorkerLeaseState where
  | active | completed | expired | cancelled
deriving DecidableEq

inductive WorkerCompletionState where
  | delivered | accepted | rejected | duplicate | stale
deriving DecidableEq

def WorkerCompletionState.value : WorkerCompletionState → String
  | .delivered => "delivered"
  | .accepted => "accepted"
  | .rejected => "rejected"
  | .duplicate => "duplicate"
  | .stale => "stale"

inductive RemotePlacementState where
  | queued | leased | completed | cancelled
deriving DecidableEq

/-- What a worker, or an operator, reports about the effects of a task. -/
inductive EffectReportState where
  | notApplicable | proven | uncertain
deriving DecidableEq

/-! ## Capabilities and resources -/

structure CapabilityObservation where
  capabilityId : String
  version : String
  fingerprint : String
deriving DecidableEq

structure CapabilityRequirement where
  capabilityId : String
  acceptableVersions : List String := []
  requiredFingerprint : Option String := none
deriving DecidableEq

/-- Some observation has the capability, an acceptable version and the required fingerprint. -/
def CapabilityRequirement.satisfiedBy (requirement : CapabilityRequirement)
    (observations : List CapabilityObservation) : Bool :=
  observations.any fun observation =>
    observation.capabilityId = requirement.capabilityId
      && (requirement.acceptableVersions.isEmpty
        || requirement.acceptableVersions.contains observation.version)
      && (match requirement.requiredFingerprint with
        | none => true
        | some fingerprint => observation.fingerprint = fingerprint)

structure WorkerResourceSnapshot where
  logicalCpuCount : Nat
  availableMemoryBytes : Nat
  maxConcurrency : Nat
  activeTasks : Nat
deriving DecidableEq

structure WorkerHeartbeat where
  workerId : Uuid
  capabilities : List CapabilityObservation
  resources : WorkerResourceSnapshot
deriving DecidableEq

structure TaskPathScope where
  rootId : String
  relativePath : String
  permissions : List String
deriving DecidableEq

structure TaskResourceLimits where
  timeoutSeconds : Nat
  memoryBytes : Option Nat := none
  cpuCount : Option Nat := none
  maxResultBytes : Nat
deriving DecidableEq

structure TaskInputReference where
  name : String
  artifactId : Uuid
  digest : String
deriving DecidableEq

/-! ## Envelopes, placements and completions -/

/-- Coordinator-issued, worker-bound assignment. -/
structure ImmutableTaskEnvelope where
  id : Uuid
  createdAt : Instant
  runId : Uuid
  taskRowId : Uuid
  taskId : String
  taskAttempt : Nat
  workerId : Uuid
  executionContextRevision : String
  repositoryId : Option String
  repositoryRevision : Option String
  planFingerprint : String
  taskContract : Json
  roleDefinitionFingerprint : String
  inputs : List TaskInputReference
  policyFingerprint : String
  pathScopes : List TaskPathScope
  capabilityRequirements : List CapabilityRequirement
  resources : TaskResourceLimits
  deadline : Instant
  statefulEffects : Bool
deriving DecidableEq

/-- The fingerprint of an envelope, its identity and creation time excluded. -/
def ImmutableTaskEnvelope.fingerprint (envelope : ImmutableTaskEnvelope) :
    Digest ImmutableTaskEnvelope := ⟨{ envelope with id := 0, createdAt := 0 }⟩

/-- Governed request to make one accepted task remotely claimable. -/
structure RemotePlacementRequest where
  id : Uuid
  createdAt : Instant
  runId : Uuid
  taskId : String
  preferredWorkerId : Option Uuid := none
  roleDefinitionFingerprint : String
  inputs : List TaskInputReference
  policyFingerprint : String
  pathScopes : List TaskPathScope
  capabilityRequirements : List CapabilityRequirement
  resources : TaskResourceLimits
  deadline : Instant
  statefulEffects : Bool
deriving DecidableEq

/-- The fingerprint of a placement request, its identity and creation time excluded. -/
def RemotePlacementRequest.fingerprint (request : RemotePlacementRequest) :
    Digest RemotePlacementRequest := ⟨{ request with id := 0, createdAt := 0 }⟩

/-- Idempotent pull claim of a worker. -/
structure WorkerClaimRequest where
  id : Uuid
  createdAt : Instant
  leaseTokenDigest : String
deriving DecidableEq

structure WorkerCompletionSubmission where
  id : Uuid
  createdAt : Instant
  envelopeId : Uuid
  leaseId : Uuid
  executionContextRevision : String
  repositoryRevision : Option String
  result : Json
  artifactIds : List Uuid := []
  unifiedPatchArtifactId : Option Uuid := none
  effectEvidenceArtifactIds : List Uuid := []
  effectReport : EffectReportState
  /-- The length of its JSON encoding. -/
  encodedBytes : Nat
deriving DecidableEq

/-- The fingerprint of a submission: its identity, its creation time and the length they are printed
in excluded. -/
def WorkerCompletionSubmission.fingerprint (submission : WorkerCompletionSubmission) :
    Digest WorkerCompletionSubmission :=
  ⟨{ submission with id := 0, createdAt := 0, encodedBytes := 0 }⟩

end Mishkan
