import Mathlib.Data.List.Infix
import Mishkan.Foundations.Refusal
import Mishkan.Planning.Models

/-!
# Missions/Models — missions, Briefs, crews, assignments, run bindings and reports

A record carries what its validator enforces, so one that the validator would refuse cannot be
built.  The exception is the mission itself: its updates are unvalidated copies, so what is stored
is a plain record, `MissionRecord.Valid` is what its validator accepts, and reading one back is
`MissionRecord.modelValidate`.
-/

namespace Mishkan

open Refusal

/-- The two versions of a mission contract. -/
inductive ContractVersion where
  | v10 | v11
deriving DecidableEq

/-! ## Lifecycle -/

/-- Who or what a mission comes from. -/
inductive MissionOriginKind where
  | ceo | pm | cto | incident | projectEvidence | independentFinding | dependency | maintenance
  | organizationalProposal
deriving DecidableEq

inductive MissionState where
  | proposed | clarifying | planned | active | paused | blocked | evaluating | remediating
  | completed | failed | cancelled
deriving DecidableEq

def MissionState.value : MissionState → String
  | .proposed => "proposed"
  | .clarifying => "clarifying"
  | .planned => "planned"
  | .active => "active"
  | .paused => "paused"
  | .blocked => "blocked"
  | .evaluating => "evaluating"
  | .remediating => "remediating"
  | .completed => "completed"
  | .failed => "failed"
  | .cancelled => "cancelled"

/-- A state past clarification. -/
def MissionState.isAdvanced : MissionState → Bool
  | .proposed | .clarifying => false
  | _ => true

/-- A state a mission does not leave. -/
def MissionState.isTerminal : MissionState → Bool
  | .completed | .failed | .cancelled => true
  | _ => false

/-- How far a Brief is. -/
inductive MissionBriefStatus where
  | clarifying | awaitingConfirmation | confirmed | rejected
deriving DecidableEq

/-- What a member of a crew does. -/
inductive CrewAssignmentKind where
  | production | contributor | evaluation | reporting | audit
deriving DecidableEq

def CrewAssignmentKind.value : CrewAssignmentKind → String
  | .production => "production"
  | .contributor => "contributor"
  | .evaluation => "evaluation"
  | .reporting => "reporting"
  | .audit => "audit"

/-- How an assignment may change hands. -/
inductive AssignmentChangeKind where
  | inPlanLocal | formalReassignment | replanned
deriving DecidableEq

inductive MissionRunAcceptance where
  | pending | accepted | rejected
deriving DecidableEq

def MissionRunAcceptance.value : MissionRunAcceptance → String
  | .pending => "pending"
  | .accepted => "accepted"
  | .rejected => "rejected"

/-! ## Missions -/

/-- Where a mission comes from. -/
structure MissionOrigin where
  schemaVersion : ContractVersion := .v10
  originId : Uuid
  kind : MissionOriginKind
  actorId : String
  objective : String
  sourceReferences : List String := []
  templateId : Option String := none
  templateReference : Option MissionTemplateReference := none
  createdAt : Instant
  legacyLineage : schemaVersion = .v10 → templateReference = none
  exactLineage : schemaVersion = .v11 → templateId = templateReference.map (·.templateId)
deriving DecidableEq

/-- A mission, with the versions that are current. -/
structure MissionRecord where
  missionId : Uuid
  revision : Nat := 0
  state : MissionState := .proposed
  origin : MissionOrigin
  organizationId : String
  organizationVersion : String
  currentBriefVersion : Option Nat := none
  currentCrewVersion : Option Nat := none
  currentEnvironmentPlanVersion : Option Nat := none
  createdAt : Instant
  updatedAt : Instant
deriving DecidableEq

namespace MissionRecord

variable {r : MissionRecord}

/-- Every field is in its bounds. -/
def fieldsBounded (r : MissionRecord) : Bool :=
  1 ≤ r.organizationId.length && r.organizationId.length ≤ 128
    && 1 ≤ r.organizationVersion.length && r.organizationVersion.length ≤ 64
    && [r.currentBriefVersion, r.currentCrewVersion, r.currentEnvironmentPlanVersion].all
      (·.all (1 ≤ ·))

/-- What the validator of a mission accepts. -/
structure Valid (r : MissionRecord) : Prop where
  fields : r.fieldsBounded = true
  /-- Advanced mission states require a durable Mission Brief. -/
  brief : r.state.isAdvanced = true → r.currentBriefVersion ≠ none

instance : Decidable r.Valid :=
  decidable_of_iff (r.fieldsBounded = true ∧
    (r.state.isAdvanced = true → r.currentBriefVersion ≠ none))
    ⟨fun h => ⟨h.1, h.2⟩, fun h => ⟨h.1, h.2⟩⟩

/-- Read a stored payload. -/
def modelValidate (payload : MissionRecord) : Except Raised MissionRecord := do
  refuseIf (¬ payload.fieldsBounded = true) (.valueError "mission field is out of bounds")
  refuseIf (payload.state.isAdvanced = true ∧ payload.currentBriefVersion = none) <|
    .valueError "advanced mission states require a durable Mission Brief"
  return payload

/-- **A payload is read exactly when its validator accepts it.** -/
@[simp] theorem modelValidate_eq_ok {payload : MissionRecord} :
    payload.modelValidate = .ok r ↔ payload.Valid ∧ payload = r := by
  simp only [modelValidate, bind_eq_ok, refuseIf_eq_ok, pure_eq_ok, not_and, not_not,
    exists_and_left, exists_const, ← and_assoc]
  exact and_congr_left fun _ => ⟨fun h => ⟨h.1, h.2⟩, fun h => ⟨h.1, h.2⟩⟩

end MissionRecord

/-- A mission its validator has accepted. -/
abbrev ValidMission := { r : MissionRecord // r.Valid }

/-! ## Briefs -/

structure MissionEnvironmentIntent where
  knownLocations : List String := []
  targetPlatforms : List String := []
  targetArchitectures : List String := []
  existingDefinitionReferences : List String := []
  isolationRequirements : List String := []
  networkRequirements : List String := []
  credentialReferences : List String := []
  resourceConstraints : List String := []
  requiredEvidence : List String := []
  knownUnknowns : List String := []
  environmentDependent : Bool
  declared : environmentDependent = true → requiredEvidence ≠ [] ∨ knownUnknowns ≠ []
deriving DecidableEq

/-- Lower case, as far as the search for an ASCII word can tell: the two further characters whose
lower case has an ASCII letter are the Kelvin sign and the dotted capital I. -/
def lower (text : String) : List Char :=
  text.toList.flatMap fun c =>
    if c = Char.ofNat 0x212A then ['k']
    else if c = Char.ofNat 0x130 then ['i', Char.ofNat 0x307]
    else [c.toLower]

/-- The coverage names the words, in whatever case. -/
def NamesWords (coverage words : List String) : Prop :=
  ∀ word ∈ words, word.toList <:+: lower (" ".intercalate coverage)

instance (coverage words : List String) : Decidable (NamesWords coverage words) :=
  inferInstanceAs (Decidable (∀ _ ∈ _, _))

inductive ConfirmationIdentity where
  | pm | cto
deriving DecidableEq

inductive Disposition where
  | confirmed | rejected
deriving DecidableEq

/-- What PM or CTO says of a Brief or a crew. -/
structure ExecutiveConfirmation where
  confirmationId : Uuid
  identityId : ConfirmationIdentity
  disposition : Disposition
  rationale : String
  evidenceReferences : List String
  coverage : List String
  confirmedAt : Instant
  evidenceNonempty : evidenceReferences ≠ []
  coverageNonempty : coverage ≠ []
deriving DecidableEq

/-- A version of what a mission is to achieve. -/
structure MissionBrief where
  briefId : Uuid
  missionId : Uuid
  version : Nat
  organizationId : String
  organizationVersion : String
  status : MissionBriefStatus
  objective : String
  problem : String
  desiredOutcome : String
  scope : List String
  exclusions : List String
  acceptanceCriteria : List String
  constraints : List String
  risks : List String
  authorityScope : List String
  proposedCrew : List String
  evidenceRequirements : List String
  escalationConditions : List String
  environmentIntent : MissionEnvironmentIntent
  pmConfirmation : Option ExecutiveConfirmation := none
  ctoConfirmation : Option ExecutiveConfirmation := none
  createdAt : Instant
  versionPositive : 1 ≤ version
  crewUnique : proposedCrew.Nodup
  crewBounded : 2 ≤ proposedCrew.length
  pmAttributable : ∀ c ∈ pmConfirmation, c.identityId = .pm
  ctoAttributable : ∀ c ∈ ctoConfirmation, c.identityId = .cto
  /-- A confirmed Brief has both confirmations, each with its coverage. -/
  jointlyConfirmed : status = .confirmed → ∃ pm ∈ pmConfirmation, ∃ cto ∈ ctoConfirmation,
    pm.disposition = .confirmed ∧ cto.disposition = .confirmed
      ∧ NamesWords pm.coverage ["product", "developer-experience", "composition"]
      ∧ NamesWords cto.coverage ["technical", "platform", "security", "quality", "operability"]
  /-- A rejected Brief has a rejection. -/
  attributablyRejected : status = .rejected →
    (∃ c ∈ pmConfirmation, c.disposition = .rejected) ∨
      ∃ c ∈ ctoConfirmation, c.disposition = .rejected
deriving DecidableEq

/-! ## Crews -/

/-- Why an identity is chosen. -/
structure CrewSelectionEvidence where
  projectReferences : List String
  competenceReferences : List String
  availabilityReferences : List String
  conflictAssessment : String
  riskCoverage : List String
  independenceReferences : List String
deriving DecidableEq

structure MissionCrewMember where
  identityId : String
  assignmentKind : CrewAssignmentKind
  responsibility : String
  selectionEvidence : CrewSelectionEvidence
deriving DecidableEq

/-- A version of the crew of a mission. -/
structure MissionCrewRevision where
  crewId : Uuid
  missionId : Uuid
  version : Nat
  organizationId : String
  organizationVersion : String
  briefVersion : Nat
  missionLeadId : String
  members : List MissionCrewMember
  pmCompositionConfirmationId : Uuid
  ctoCoverageConfirmationId : Uuid
  revisionReason : String
  createdAt : Instant
  versionPositive : 1 ≤ version
  briefVersionPositive : 1 ≤ briefVersion
  identitiesUnique : (members.map (·.identityId)).Nodup
  /-- The lead is a member that does not report the mission. -/
  leadAssigned : ∃ m ∈ members, m.identityId = missionLeadId ∧ m.assignmentKind ≠ .reporting
deriving DecidableEq

/-- The member with an identity. -/
def MissionCrewRevision.member? (crew : MissionCrewRevision) (identityId : String) :
    Option MissionCrewMember :=
  crew.members.find? (·.identityId = identityId)

/-! ## Assignments -/

structure MissionResourceLimit where
  name : String
  value : Nat
  unit : String
deriving DecidableEq

/-- How an assignment replaces an earlier one. -/
structure MissionAssignmentChange where
  priorAssignmentId : Uuid
  priorAssignmentRevision : Nat
  requestedByIdentity : String
  changeKind : AssignmentChangeKind
  rationale : String
  contextReferences : List String
  evidenceReferences : List String
  authorityReference : String
  priorPlanFingerprint : String
  effectivePlanFingerprint : String
  replanningEvidenceReferences : List String := []
  ctoCoverageConfirmation : Option ExecutiveConfirmation := none
  pmReassignmentConfirmation : Option ExecutiveConfirmation := none
  ctoAffirmative : ∀ c ∈ ctoCoverageConfirmation, c.identityId = .cto ∧ c.disposition = .confirmed
  pmAffirmative : ∀ c ∈ pmReassignmentConfirmation, c.identityId = .pm ∧ c.disposition = .confirmed
  inPlan : changeKind = .inPlanLocal →
    priorPlanFingerprint = effectivePlanFingerprint ∧ replanningEvidenceReferences = []
  formal : changeKind = .formalReassignment → priorPlanFingerprint = effectivePlanFingerprint
  replanned : changeKind = .replanned →
    priorPlanFingerprint ≠ effectivePlanFingerprint ∧ replanningEvidenceReferences ≠ []
deriving DecidableEq

/-- The members a task is assigned to. -/
structure MissionTaskAssignment where
  schemaVersion : ContractVersion := .v10
  assignmentId : Uuid
  missionId : Uuid
  crewVersion : Nat
  taskId : String
  assignmentRevision : Nat := 1
  accountableOwner : String
  assignmentKind : CrewAssignmentKind
  contributors : List String := []
  expectedResult : String
  completionCriteria : List String
  dependencies : List String := []
  executionRunId : Option String := none
  executionTaskId : Option String := none
  environmentContextIds : List String := []
  authorityScope : List String
  exactTools : List String
  pathScopes : List String
  limits : List MissionResourceLimit
  requiredEvidence : List String
  requiresIndependentEvaluation : Bool := false
  change : Option MissionAssignmentChange := none
  createdAt : Instant
  revisionPositive : 1 ≤ assignmentRevision
  ownerNotContributor : accountableOwner ∉ contributors
  contributorsUnique : contributors.Nodup
  dependenciesUnique : dependencies.Nodup
  notSelfDependent : taskId ∉ dependencies
  contextsUnique : environmentContextIds.Nodup
  executionDeclared : executionRunId = none ↔ executionTaskId = none
  evaluatedProduction : requiresIndependentEvaluation = true → assignmentKind = .production
  initial : assignmentRevision = 1 → change = none
  revised : assignmentRevision ≠ 1 → schemaVersion = .v11 ∧ change ≠ none
deriving DecidableEq

/-! ## Run bindings -/

/-- A run that executes tasks of a mission. -/
structure MissionRunBinding where
  schemaVersion : ContractVersion := .v11
  bindingId : Uuid
  missionId : Uuid
  bindingKey : String
  bindingRevision : Nat := 1
  missionTaskId : String
  assignmentId : Option Uuid := none
  assignmentRevision : Option Nat := none
  runId : String
  executionTaskId : String
  planFingerprint : Option String := none
  executionContext : PlanExecutionContext
  dependsOnBindingKeys : List String := []
  authorityScope : List String
  pathScopes : List String
  resultReferences : List String := []
  acceptanceReferences : List String := []
  acceptance : MissionRunAcceptance := .pending
  recordedBy : String
  createdAt : Instant
  revisionPositive : 1 ≤ bindingRevision
  versionedLineage : schemaVersion = .v11 →
    assignmentId ≠ none ∧ assignmentRevision ≠ none ∧ planFingerprint ≠ none
  legacyLineage : schemaVersion = .v10 →
    assignmentId = none ∧ assignmentRevision = none ∧ planFingerprint = none
  dependenciesUnique : dependsOnBindingKeys.Nodup
  notSelfDependent : bindingKey ∉ dependsOnBindingKeys
  referencesUnique : resultReferences.Nodup ∧ acceptanceReferences.Nodup
  pendingUnsettled : acceptance = .pending → resultReferences = [] ∧ acceptanceReferences = []
  settledReferences : acceptance ≠ .pending → resultReferences ≠ [] ∧ acceptanceReferences ≠ []
deriving DecidableEq

/-! ## Reports and transitions -/

structure MissionRunReportTask where
  missionTaskId : String
  executionTaskId : String
  accountableOwner : String
  assignmentKind : CrewAssignmentKind
  resultReferences : List String
  acceptanceReferences : List String
  outcomeSummary : String
  evidenceReferences : List String
  residualRisks : List String := []
  failures : List String := []
  valuesUnique : ∀ values ∈ [resultReferences, acceptanceReferences, evidenceReferences,
    residualRisks, failures], values.Nodup
deriving DecidableEq

/-- The outcome of a bound run. -/
structure MissionRunReport where
  reportId : Uuid
  missionId : Uuid
  missionRevision : Nat
  runId : String
  executionContext : PlanExecutionContext
  planFingerprint : String
  reporterIdentity : String
  reportingMissionTaskId : String
  reportingExecutionTaskId : String
  taskResults : List MissionRunReportTask
  deliveredOutcomes : List String
  validationSummary : List String
  residualRisks : List String := []
  failures : List String := []
  unresolvedDecisions : List String := []
  createdAt : Instant
  tasksUnique : (taskResults.map (·.missionTaskId)).Nodup ∧
    (taskResults.map (·.executionTaskId)).Nodup
  /-- The reporting task is one of the results, by the reporter. -/
  reportingTask : ∃ item ∈ taskResults, item.missionTaskId = reportingMissionTaskId ∧
    item.executionTaskId = reportingExecutionTaskId ∧ item.assignmentKind = .reporting ∧
    item.accountableOwner = reporterIdentity
deriving DecidableEq

/-- A recorded change of state. -/
structure MissionTransition where
  transitionId : Uuid
  missionId : Uuid
  fromState : MissionState
  toState : MissionState
  actorOrCause : String
  reason : String
  decisionId : Option Uuid := none
  affectedScope : List String
  evidenceReferences : List String
  createdAt : Instant
  changesState : fromState ≠ toState
deriving DecidableEq

/-! ## Environment plans -/

/-- What is done for a context. -/
inductive EnvironmentOutcome where
  | reuseExisting | hostNative | generate | proposeProjectChange | unresolved
deriving DecidableEq

/-- A context an environment plan decides on, and the observation it was decided for. -/
structure MissionEnvironmentContextRequest where
  contextId : String
  observationId : Uuid
  observationFingerprint : String
  affectedTaskIds : List String
  tasksUnique : affectedTaskIds.Nodup
deriving DecidableEq

structure MissionEnvironmentDecision where
  contextId : String
  requestedOutcome : EnvironmentOutcome
  rationale : String
  rationaleBounded : 3 ≤ rationale.length ∧ rationale.length ≤ 8192
deriving DecidableEq

/-- The decisions on the contexts of a mission. -/
structure MissionEnvironmentPlan where
  planId : Uuid
  missionId : Uuid
  version : Nat
  missionRevision : Nat
  briefVersion : Nat
  crewVersion : Nat
  planningTaskId : String
  ownerIdentity : String
  contexts : List MissionEnvironmentContextRequest
  decisions : List MissionEnvironmentDecision
  versionPositive : 1 ≤ version
  decisionsUnique : (decisions.map (·.contextId)).Nodup
  /-- The decisions cover exactly the contexts. -/
  decisionsExact : ∀ id, id ∈ decisions.map (·.contextId) ↔ id ∈ contexts.map (·.contextId)
deriving DecidableEq

/-- The fingerprint of a plan leaves its identity out. -/
def MissionEnvironmentPlan.fingerprint (plan : MissionEnvironmentPlan) :
    Digest MissionEnvironmentPlan := ⟨{ plan with planId := 0 }⟩

structure MissionEnvironmentPlanAcceptance where
  plan : MissionEnvironmentPlan
  acceptedBy : String
  policyFingerprint : String
  acceptedAt : Instant
deriving DecidableEq

/-! ## Rosters -/

structure ProfessionalIdentityDefinition where
  identityId : String
  authorityLimits : List String
  missionLeadEligible : Bool := true
deriving DecidableEq

/-- The identities of an organization. -/
structure OrganizationRosterDefinition where
  organizationId : String
  organizationVersion : String
  branchIds : List String
  identities : List ProfessionalIdentityDefinition
  branchesUnique : branchIds.Nodup
  identitiesUnique : (identities.map (·.identityId)).Nodup
deriving DecidableEq

end Mishkan
