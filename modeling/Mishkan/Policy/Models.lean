import Mishkan.Domain.Errors

/-!
# Policy/Models — frozen contracts for policy, authorization and approval
-/

namespace Mishkan

inductive Decision where
  | allow | requireApproval | deny
deriving DecidableEq

/-- The wire value of a decision. -/
def Decision.value : Decision → String
  | .allow => "allow"
  | .requireApproval => "require_approval"
  | .deny => "deny"

structure ResourceRequest where
  timeoutSeconds : Nat
  memoryMb : Option Nat := none
  network : Bool := false
  concurrency : Nat := 1
deriving DecidableEq

structure PolicyScope where
  identities : List String := ["*"]
  objectiveClasses : List String := ["*"]
  repositories : List String := ["*"]
  outcomes : List String := ["*"]
  roles : List String := ["*"]
  capabilities : List String := ["*"]
  effectClasses : List String := ["*"]
  effects : List String := ["*"]
  paths : List String := ["*"]
  executables : List String := ["*"]
  arguments : List String := ["*"]
  networkDestinations : List String := ["*"]
  remotes : List String := ["*"]
  branches : List String := ["*"]
  environments : List String := ["*"]
  credentials : List String := ["*"]
  externalResources : List String := ["*"]
  isolationProfiles : List String := ["*"]
  maxTimeoutSeconds : Option Nat := none
  maxMemoryMb : Option Nat := none
  allowNetwork : Option Bool := none
  maxConcurrency : Option Nat := none
deriving DecidableEq

structure PolicyRule where
  ruleId : String
  priority : Int := 0
  decision : Decision
  scope : PolicyScope
deriving DecidableEq

structure PolicyDocument where
  sourceId : String
  revision : String
  priority : Int := 0
  effectiveFrom : Option Instant := none
  retiredAt : Option Instant := none
  rules : List PolicyRule
deriving DecidableEq

/-- The documents in force, with the fingerprint their loader gave them. -/
structure EffectivePolicy where
  documents : List PolicyDocument
  fingerprint : String
deriving DecidableEq

structure AuthorizationRequest where
  planFingerprint : String
  identity : String
  objectiveClass : String
  repository : String
  outcome : String
  role : String
  capability : String
  effectClass : String
  effects : List String := []
  paths : List String := []
  executables : List String := []
  arguments : List String := []
  networkDestinations : List String := []
  remotes : List String := []
  branches : List String := []
  environments : List String := []
  credentials : List String := []
  externalResources : List String := []
  isolationProfile : Option String := none
  resources : ResourceRequest
deriving DecidableEq

/-- The fingerprint of a request. -/
def AuthorizationRequest.fingerprint (request : AuthorizationRequest) :
    Digest AuthorizationRequest := ⟨request⟩

structure ApprovalEvidence where
  id : Uuid
  requestFingerprint : Digest AuthorizationRequest
  planFingerprint : String
  policyFingerprint : String
  approvedBy : String
  expiresAt : Option Instant := none
  revokedAt : Option Instant := none
deriving DecidableEq

/-- The approval is for this exact request and policy, not revoked and not expired at `now`. -/
def ApprovalEvidence.isActiveFor (evidence : ApprovalEvidence) (request : AuthorizationRequest)
    (policy : EffectivePolicy) (now : Instant) : Bool :=
  evidence.requestFingerprint = request.fingerprint
    && evidence.planFingerprint = request.planFingerprint
    && evidence.policyFingerprint = policy.fingerprint
    && evidence.revokedAt.isNone
    && (match evidence.expiresAt with
      | none => true
      | some expiry => now < expiry)

structure AuthorizationDecision where
  requestFingerprint : Digest AuthorizationRequest
  planFingerprint : String
  policyFingerprint : String
  policyRevisions : List String
  decision : Decision
  matchedRuleIds : List String
  matchedScope : Option PolicyScope := none
  decidedBy : String
  approvalId : Option Uuid := none
  reason : String
deriving DecidableEq

/-- A request of an engineer on a mission. -/
def engineerRequest (capability effectClass : String) : AuthorizationRequest where
  planFingerprint := "0000000000000000000000000000000000000000000000000000000000000000"
  identity := "role:Engineer"
  objectiveClass := "software-delivery"
  repository := "mishkan"
  outcome := "mission.delivery"
  role := "Engineer"
  capability := capability
  effectClass := effectClass
  resources := { timeoutSeconds := 60 }

end Mishkan
