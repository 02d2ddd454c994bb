import Mishkan.Planning.Models

/-!
# Tools/GatewayModels — targets, call results and the settlement of effects
-/

namespace Mishkan

inductive CallStatus where
  | completed | failed | cancelled | uncertain | refused
deriving DecidableEq

def CallStatus.value : CallStatus → String
  | .completed => "completed"
  | .failed => "failed"
  | .cancelled => "cancelled"
  | .uncertain => "uncertain"
  | .refused => "refused"

/-- Whether the external effect of a call is known to have happened. -/
inductive EffectSettlement where
  | absent | completed | uncertain
deriving DecidableEq

def EffectSettlement.value : EffectSettlement → String
  | .absent => "absent"
  | .completed => "completed"
  | .uncertain => "uncertain"

/-- `EffectSettlement(raw)`: the settlement a wire value names. -/
def EffectSettlement.ofValue? (raw : String) : Option EffectSettlement :=
  [.absent, .completed, .uncertain].find? (·.value = raw)

structure DeclaredTargets where
  paths : List String := []
  executables : List String := []
  networkDestinations : List String := []
  repositories : List String := []
  remotes : List String := []
  branches : List String := []
  environments : List String := []
  externalResources : List String := []
deriving DecidableEq

structure ToolResultEnvelope where
  id : Uuid
  callId : Uuid
  runId : Uuid
  taskAttemptId : String
  toolId : String
  toolVersion : String
  status : CallStatus
  output : Option JsonObject := none
  retryable : Bool := false
  errorCode : Option ErrorCode := none
  reason : String
deriving DecidableEq

/-- What a planned call's request fingerprint is taken of. -/
structure PlannedRequest where
  runId : Uuid
  taskAttemptId : String
  plannedCallId : String
  toolId : String
  toolVersion : String
  contractFingerprint : Digest ToolContract
  registryFingerprint : String
  planFingerprint : String
  policyFingerprint : String
  authorizationFingerprint : Digest AuthorizationRequest
  arguments : Json
  declaredTargets : DeclaredTargets
deriving DecidableEq

end Mishkan
