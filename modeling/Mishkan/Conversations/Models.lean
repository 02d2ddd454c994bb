import Mishkan.Missions.Models

/-!
# Conversations/Models — channels, decisions, escalations and interventions

A CEO intervention is addressed to one target.  Its kind fixes the targets it may have and the
mission state it results in, which is what its validator enforces.  The descriptive fields of a
record, which no operation reads apart from comparing records, are its `content`.
-/

namespace Mishkan

inductive ChannelClass where
  | executive | mission | branch | direct
deriving DecidableEq

inductive EscalationState where
  | open | answered
deriving DecidableEq

inductive DecisionStatus where
  | staged | accepted | rejected | inconclusive
deriving DecidableEq

inductive InterventionKind where
  | comment | answerEscalation | acceptProposal | rejectProposal | suspend | resume
  | requestReassignment | confirmReassignment | stop | acceptRisk
deriving DecidableEq

inductive InterventionTargetKind where
  | mission | task | proposal | assignment | risk | escalation
deriving DecidableEq

inductive InterventionResultState where
  | unchanged | answered | accepted | rejected | paused | active | reassignmentRequested
  | reassignmentConfirmed | cancelled | riskAccepted
deriving DecidableEq

/-! ## Channels and messages -/

structure ConversationChannel where
  conversationId : Uuid
  channelClass : ChannelClass
  participants : List String
  missionId : Option Uuid := none
  branchId : Option String := none
  createdBy : String
  content : Json := .null
  createdAt : Instant
  participantsUnique : participants.Nodup
  executiveScope : channelClass = .executive → missionId = none ∧ branchId = none
  missionScope : channelClass = .mission → missionId ≠ none
  branchScope : channelClass = .branch → branchId ≠ none

instance : DecidableEq ConversationChannel := fun a b =>
  decidable_of_iff
    (a.conversationId = b.conversationId ∧ a.channelClass = b.channelClass ∧
      a.participants = b.participants ∧ a.missionId = b.missionId ∧ a.branchId = b.branchId ∧
      a.createdBy = b.createdBy ∧ a.content = b.content ∧ a.createdAt = b.createdAt)
    (by cases a; cases b; simp)

structure ConversationMessage where
  messageId : Uuid
  conversationId : Uuid
  authorIdentity : String
  replyToMessageId : Option Uuid := none
  content : Json := .null
  createdAt : Instant
deriving DecidableEq

/-! ## Decisions -/

/-- The context of a decision: the statements of its risks, and the rest. -/
structure DecisionContext where
  risks : List String
  content : Json := .null
deriving DecidableEq

structure DecisionRecommendation where
  risks : List String
  content : Json := .null
deriving DecidableEq

structure MissionDecision where
  schemaVersion : ContractVersion := .v10
  decisionId : Uuid
  missionId : Uuid
  conversationId : Uuid
  actorId : String
  subject : String
  scope : List String
  evidenceReferences : List String
  authorityReference : String
  decisionStatus : Option DecisionStatus := none
  producerIdentity : Option String := none
  decidingIdentity : Option String := none
  changesDurableAuthority : Option Bool := none
  context : Option DecisionContext := none
  evidence : Json := .null
  criteria : Json := .null
  alternatives : Json := .null
  alternativesSearch : Option String := none
  recommendation : Option DecisionRecommendation := none
  supersedesDecisionId : Option Uuid := none
  content : Json := .null
  createdAt : Instant
  /-- A settled decision has staged lineage. -/
  settledLineage : schemaVersion = .v11 →
    decisionStatus = some .accepted ∨ decisionStatus = some .rejected → supersedesDecisionId ≠ none
  legacyLineage : schemaVersion = .v10 → decisionStatus = none ∧ supersedesDecisionId = none
deriving DecidableEq

/-! ## Escalations -/

structure EscalationOption where
  optionId : String
  risks : List String
  content : Json := .null
deriving DecidableEq

structure MissionEscalation where
  escalationId : Uuid
  missionId : Uuid
  conversationId : Uuid
  state : EscalationState := .open
  blockedScope : List String
  options : List EscalationOption
  answerInterventionId : Option Uuid := none
  content : Json := .null
  createdAt : Instant
  updatedAt : Instant
  scopeNonempty : blockedScope ≠ []
  optionsUnique : (options.map (·.optionId)).Nodup
  openUnanswered : state = .open → answerInterventionId = none
  answered : state = .answered → answerInterventionId ≠ none

instance : DecidableEq MissionEscalation := fun a b =>
  decidable_of_iff
    (a.escalationId = b.escalationId ∧ a.missionId = b.missionId ∧
      a.conversationId = b.conversationId ∧ a.state = b.state ∧ a.blockedScope = b.blockedScope ∧
      a.options = b.options ∧ a.answerInterventionId = b.answerInterventionId ∧
      a.content = b.content ∧ a.createdAt = b.createdAt ∧ a.updatedAt = b.updatedAt)
    (by cases a; cases b; simp)

/-- An escalation once an intervention has answered it. -/
def MissionEscalation.answer (interventionId : Uuid) (now : Instant) (e : MissionEscalation) :
    MissionEscalation where
  escalationId := e.escalationId
  missionId := e.missionId
  conversationId := e.conversationId
  state := .answered
  blockedScope := e.blockedScope
  options := e.options
  answerInterventionId := some interventionId
  content := e.content
  createdAt := e.createdAt
  updatedAt := now
  scopeNonempty := e.scopeNonempty
  optionsUnique := e.optionsUnique
  openUnanswered := by simp
  answered := by simp

/-! ## Interventions -/

/-- The targets an intervention may have. -/
def InterventionKind.allowedTargets : InterventionKind → List InterventionTargetKind
  | .comment => [.mission, .task, .proposal, .assignment, .risk, .escalation]
  | .answerEscalation => [.escalation]
  | .acceptProposal | .rejectProposal => [.proposal]
  | .suspend | .resume | .stop => [.mission, .task]
  | .requestReassignment | .confirmReassignment => [.task, .assignment]
  | .acceptRisk => [.risk]

/-- The target state an intervention results in. -/
def InterventionKind.resultingTargetState : InterventionKind → InterventionResultState
  | .comment => .unchanged
  | .answerEscalation => .answered
  | .acceptProposal => .accepted
  | .rejectProposal => .rejected
  | .suspend => .paused
  | .resume => .active
  | .requestReassignment => .reassignmentRequested
  | .confirmReassignment => .reassignmentConfirmed
  | .stop => .cancelled
  | .acceptRisk => .riskAccepted

/-- The mission state a lifecycle intervention results in. -/
def InterventionKind.missionResult : InterventionKind → Option MissionState
  | .suspend => some .paused
  | .resume => some .active
  | .stop => some .cancelled
  | _ => none

/-- Suspend, resume or stop. -/
def InterventionKind.isControl : InterventionKind → Bool
  | .suspend | .resume | .stop => true
  | _ => false

structure MissionIntervention where
  schemaVersion : ContractVersion := .v10
  interventionId : Uuid
  missionId : Uuid
  conversationId : Uuid
  kind : InterventionKind
  targetKind : InterventionTargetKind
  targetId : String
  scope : List String
  escalationId : Option Uuid := none
  selectedOptionId : Option String := none
  resultingTargetState : Option InterventionResultState := none
  resultingMissionState : Option MissionState := none
  content : Json := .null
  createdAt : Instant
  scopeNonempty : scope ≠ []
  targetAllowed : targetKind ∈ kind.allowedTargets
  answerTarget : kind = .answerEscalation → ∃ id, escalationId = some id ∧ targetId = id.text
  answerOption : kind = .answerEscalation → schemaVersion = .v11 → selectedOptionId ≠ none
  selectionAnswers : kind ≠ .answerEscalation → escalationId = none ∧ selectedOptionId = none
  legacyResult : schemaVersion = .v10 → resultingTargetState = none ∧ selectedOptionId = none
  targetResult : schemaVersion = .v11 → resultingTargetState = some kind.resultingTargetState
  missionResult : resultingMissionState =
    if targetKind = .mission then kind.missionResult else none

instance : DecidableEq MissionIntervention := fun a b =>
  decidable_of_iff
    (a.schemaVersion = b.schemaVersion ∧ a.interventionId = b.interventionId ∧
      a.missionId = b.missionId ∧ a.conversationId = b.conversationId ∧ a.kind = b.kind ∧
      a.targetKind = b.targetKind ∧ a.targetId = b.targetId ∧ a.scope = b.scope ∧
      a.escalationId = b.escalationId ∧ a.selectedOptionId = b.selectedOptionId ∧
      a.resultingTargetState = b.resultingTargetState ∧
      a.resultingMissionState = b.resultingMissionState ∧ a.content = b.content ∧
      a.createdAt = b.createdAt)
    (by cases a; cases b; simp)

end Mishkan
