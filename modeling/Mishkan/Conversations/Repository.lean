import Mishkan.Missions.Reports

/-!
# Conversations/Repository — communication and CEO interventions

`applyIntervention` is the second writer of a mission: it moves the state a mission intervention
results in and advances the revision.  The interventions of a target follow each other in time, and
the controls of a task — suspend, resume, stop — alternate until the task is stopped.
-/

namespace Mishkan

open Refusal

namespace MissionStore

/-- The message of a reused conversation record. -/
def reusedIdentity : String := "immutable record identity was reused with different content"

def requireChannel (s : MissionStore) (id : Uuid) : Except Raised ConversationChannel :=
  require (s.channels.find (·.conversationId = id)) <| fault .mission "conversation does not exist"

/-- The channel governs the mission: it is the executive one or the mission's. -/
def requireMissionChannel (s : MissionStore) (missionId conversationId : Uuid) :
    Except Raised ConversationChannel := do
  let _ ← s.requireMissionRow missionId
  let channel ← s.requireChannel conversationId
  refuseIf (channel.channelClass ≠ .executive ∧ channel.missionId ≠ some missionId) <|
    fault .mission "conversation does not govern the referenced mission"
  return channel

/-- The one recorded organization. -/
def organization (s : MissionStore) : Except Raised OrganizationRosterDefinition :=
  match s.organizations.rows with
  | [roster] => .ok roster
  | rows => .error <| fault .requiredDependency
      "conversation authority requires exactly one recorded organization"
      [("organization_count", .int rows.length)]

/-! ## Channels, messages, decisions and escalations -/

/-- The mission of a channel exists. -/
def requireChannelMission (s : MissionStore) (channel : ConversationChannel) :
    Except Raised Unit :=
  refuseIf (∃ missionId ∈ channel.missionId, s.mission? missionId = none) <|
    fault .mission "mission does not exist"

/-- There is no other executive channel. -/
def requireSoleExecutive (s : MissionStore) (channel : ConversationChannel) :
    Except Raised Unit :=
  match s.channels.find (·.channelClass = .executive) with
  | some prior =>
    refuseIf (channel.channelClass = .executive) <|
      fault .duplicateResult "the organization already has a durable Executive channel"
        [("conversation_id", .str prior.conversationId.text)]
  | none => .ok ()

def createChannel (s : MissionStore) (channel : ConversationChannel) :
    Except Raised (ConversationChannel × MissionStore) :=
  s.replayOr (s.channels.find (·.conversationId = channel.conversationId)) channel
      reusedIdentity do
    s.requireChannelMission channel
    let roster ← s.organization
    let known := "CEO" :: roster.identities.map (·.identityId)
    let unknown := channel.participants.filter (· ∉ known)
    refuseIf (unknown ≠ []) <|
      fault .roleConflict "conversation references unknown professional identities"
        [("unknown", .strings (unknown.insertionSort (· ≤ ·)))]
    refuseIf (channel.createdBy ∉ known) <|
      fault .roleConflict "conversation creator is not a known professional identity"
        [("created_by", .str channel.createdBy)]
    refuseIf (channel.channelClass = .branch ∧ ¬ ∃ id ∈ channel.branchId, id ∈ roster.branchIds) <|
      fault .roleConflict "conversation references an unknown organization branch"
        [("branch_id", .ofOption channel.branchId)]
    s.requireSoleExecutive channel
    let channels ← require (s.channels.insert channel) .integrityError
    return { s with channels := channels }

def postMessage (s : MissionStore) (message : ConversationMessage) :
    Except Raised (ConversationMessage × MissionStore) :=
  s.replayOr (s.messages.find (·.messageId = message.messageId)) message reusedIdentity do
    let channel ← s.requireChannel message.conversationId
    refuseIf (message.authorIdentity ∉ channel.participants) <|
      fault .authorityNotGranted "message author is not a participant in the conversation"
    refuseIf (∃ id ∈ message.replyToMessageId, ¬ ∃ replied ∈ s.messages, replied.messageId = id
        ∧ replied.conversationId = message.conversationId) <|
      fault .mission "reply target is not part of this conversation"
    let messages ← require (s.messages.insert message) .integrityError
    return { s with messages := messages }

/-- What a settled decision keeps of its staged recommendation. -/
def preserves (prior decision : MissionDecision) : Prop :=
  prior.missionId = decision.missionId ∧ prior.conversationId = decision.conversationId
    ∧ prior.producerIdentity = decision.producerIdentity ∧ prior.subject = decision.subject
    ∧ prior.scope = decision.scope ∧ prior.authorityReference = decision.authorityReference
    ∧ prior.changesDurableAuthority = decision.changesDurableAuthority
    ∧ prior.context = decision.context ∧ prior.evidence = decision.evidence
    ∧ prior.criteria = decision.criteria ∧ prior.alternatives = decision.alternatives
    ∧ prior.alternativesSearch = decision.alternativesSearch
    ∧ prior.recommendation = decision.recommendation

instance (prior decision : MissionDecision) : Decidable (preserves prior decision) :=
  inferInstanceAs (Decidable (_ ∧ _))

def requireDecisionLineage (s : MissionStore) (decision : MissionDecision) :
    Except Raised Unit :=
  if decision.schemaVersion ≠ .v11
      ∨ (decision.decisionStatus ≠ some .accepted ∧ decision.decisionStatus ≠ some .rejected) then
    .ok ()
  else do
    let prior ← require (s.decisions.find (some ·.decisionId = decision.supersedesDecisionId)) <|
      fault .decisionValidation
        "settled decision does not reference an existing staged recommendation"
    refuseIf (prior.schemaVersion ≠ .v11 ∨ prior.decisionStatus ≠ some .staged) <|
      fault .decisionValidation
        "settled decision lineage must reference a staged decision 1.1"
    refuseIf (¬ preserves prior decision) <|
      fault .decisionValidation "settled decision changes its staged recommendation or context"
    refuseIf (¬ ∀ reference ∈ prior.evidenceReferences,
        reference ∈ decision.evidenceReferences) <|
      fault .decisionValidation "settled decision dropped staged evidence lineage"
    refuseIf (∃ candidate ∈ s.decisions, candidate.missionId = decision.missionId
        ∧ candidate.schemaVersion = .v11
        ∧ candidate.supersedesDecisionId = decision.supersedesDecisionId) <|
      fault .decisionValidation "staged recommendation already has a durable disposition"

def recordDecision (s : MissionStore) (decision : MissionDecision) :
    Except Raised (MissionDecision × MissionStore) :=
  s.replayOr (s.decisions.find (·.decisionId = decision.decisionId)) decision reusedIdentity do
    let _ ← s.requireMissionChannel decision.missionId decision.conversationId
    s.requireDecisionLineage decision
    let decisions ← require (s.decisions.insert decision) <|
      fault .duplicateResult "staged recommendation already has a durable disposition"
    return { s with decisions := decisions }

def createEscalation (s : MissionStore) (escalation : MissionEscalation) :
    Except Raised (MissionEscalation × MissionStore) := do
  refuseIf (escalation.state ≠ .open) <| fault .mission "new escalation must begin open"
  s.replayOr (s.escalations.find (·.escalationId = escalation.escalationId)) escalation
      reusedIdentity do
    let _ ← s.requireMissionChannel escalation.missionId escalation.conversationId
    let escalations ← require (s.escalations.insert escalation) .integrityError
    return { s with escalations := escalations }

/-! ## Interventions -/

/-- The interventions of a mission, the oldest first. -/
def orderedInterventions (s : MissionStore) (missionId : Uuid) : List MissionIntervention :=
  (s.interventions.select (·.missionId = missionId)).insertionSort fun a b =>
    a.createdAt ≤ b.createdAt

/-- The interventions of one target. -/
def targetHistory (s : MissionStore) (missionId : Uuid) (targetKind : InterventionTargetKind)
    (targetId : String) : List MissionIntervention :=
  (s.orderedInterventions missionId).filter fun i =>
    i.targetKind = targetKind ∧ i.targetId = targetId

/-- The risks of a mission, as its Brief, decisions, escalations and reports state them. -/
def missionRisks (s : MissionStore) (missionId : Uuid) : List String :=
  (match (s.briefs.select (·.missionId = missionId)).insertionSort
      fun a b => b.version ≤ a.version with
    | brief :: _ => brief.risks
    | [] => [])
  ++ (s.decisions.select (·.missionId = missionId)).flatMap (fun d =>
    (d.context.map (·.risks)).getD [] ++ (d.recommendation.map (·.risks)).getD [])
  ++ (s.escalations.select (·.missionId = missionId)).flatMap (fun e =>
    e.options.flatMap (·.risks))
  ++ (s.reports.select (·.missionId = missionId)).flatMap (fun r =>
    r.residualRisks ++ r.taskResults.flatMap (·.residualRisks))

/-- The latest control of a task. -/
def latestControl (s : MissionStore) (missionId : Uuid) (taskId : String) :
    Option InterventionKind :=
  ((s.targetHistory missionId .task taskId).filter (·.kind.isControl)).getLast?.map (·.kind)

/-- A stopped task is not controlled again; resume and suspend alternate. -/
def requireControl (s : MissionStore) (i : MissionIntervention) : Except Raised Unit := do
  let latest := s.latestControl i.missionId i.targetId
  refuseIf (latest = some .stop) <|
    fault .mission "stopped mission task cannot be controlled again"
  refuseIf (i.kind = .resume ∧ latest ≠ some .suspend) <|
    fault .mission "only a suspended mission task can resume"
  refuseIf (i.kind = .suspend ∧ latest = some .suspend) <|
    fault .mission "mission task is already suspended"

def validateInterventionTarget (s : MissionStore) (i : MissionIntervention) :
    Except Raised Unit :=
  match i.targetKind with
  | .mission =>
    refuseIf (i.targetId ≠ i.missionId.text) <|
      fault .outputContract "mission intervention target differs from its mission identity"
  | .assignment =>
    refuseIf (¬ ∃ a ∈ s.assignments, a.assignmentId.text = i.targetId
        ∧ a.missionId = i.missionId) <|
      fault .mission "intervention assignment is absent or belongs to another mission"
  | .proposal => do
    let proposal ← require (s.decisions.find fun d =>
        d.decisionId.text = i.targetId ∧ d.missionId = i.missionId) <|
      fault .mission "intervention proposal is absent or belongs to another mission"
    refuseIf (proposal.schemaVersion ≠ .v11 ∨ proposal.decisionStatus ≠ some .staged) <|
      fault .decisionValidation
        "CEO proposal disposition requires a staged durable recommendation"
  | .risk =>
    refuseIf (i.targetId ∉ s.missionRisks i.missionId) <|
      fault .mission "intervention risk is not present in durable mission evidence"
  | .escalation =>
    refuseIf (¬ ∃ e ∈ s.escalations, e.escalationId.text = i.targetId
        ∧ e.missionId = i.missionId) <|
      fault .mission "intervention escalation is absent or belongs to another mission"
  | .task => do
    refuseIf (s.currentAssignment i.missionId i.targetId = none) <|
      fault .mission "intervention task is not assigned"
    if i.kind.isControl then s.requireControl i else .ok ()

def validateInterventionSequence (s : MissionStore) (i : MissionIntervention) :
    Except Raised Unit := do
  let prior := s.targetHistory i.missionId i.targetKind i.targetId
  refuseIf (∃ item ∈ prior, i.createdAt ≤ item.createdAt) <|
    fault .revisionMismatch "intervention timestamp does not follow its target history"
  refuseIf ((i.kind = .acceptProposal ∨ i.kind = .rejectProposal)
      ∧ ∃ item ∈ prior, item.kind = .acceptProposal ∨ item.kind = .rejectProposal) <|
    fault .duplicateResult "mission proposal already has a durable CEO disposition"
  refuseIf (i.kind = .acceptRisk ∧ ∃ item ∈ prior, item.kind = .acceptRisk) <|
    fault .duplicateResult "mission risk already has a durable CEO acceptance"
  let latest : Option InterventionKind := (prior.filter fun item =>
    item.kind = .requestReassignment ∨ item.kind = .confirmReassignment).getLast?.map (·.kind)
  refuseIf (i.kind = .requestReassignment ∧ latest = some .requestReassignment) <|
    fault .mission "reassignment request is already pending"
  refuseIf (i.kind = .confirmReassignment ∧ latest ≠ some .requestReassignment) <|
    fault .mission "reassignment confirmation requires a pending CEO request"

theorem answer_key (interventionId : Uuid) (now : Instant) (e : MissionEscalation) :
    Keyed.key (e.answer interventionId now) = Keyed.key e := rfl

/-- Settle the escalation an intervention answers. -/
def answerEscalation (s : MissionStore) (i : MissionIntervention) (now : Instant) :
    Except Raised MissionStore :=
  match i.escalationId with
  | none => .ok s
  | some escalationId => do
    let escalation ← require (s.escalations.find fun e =>
        e.escalationId = escalationId ∧ e.missionId = i.missionId) <|
      fault .mission "intervention escalation is absent or belongs to another mission"
    refuseIf (escalation.state ≠ .open) <| fault .mission "escalation is already settled"
    refuseIf (¬ ∃ id ∈ i.selectedOptionId, id ∈ escalation.options.map (·.optionId)) <|
      fault .mission "escalation answer does not select an available option"
    return { s with
      escalations := s.escalations.update (·.escalationId = escalationId)
        (·.answer i.interventionId now) (answer_key i.interventionId now) }

/-- The state an intervention moves its mission to, if it moves it. -/
def transitionState (mission : MissionRecord) (i : MissionIntervention) :
    Except Raised (Option MissionState) :=
  if i.targetKind ≠ .mission then .ok none
  else match i.resultingMissionState with
    | none => .ok none
    | some requested => do
      refuseIf (mission.state.isTerminal = true) <|
        fault .mission "terminal mission cannot be intervened upon"
      refuseIf (i.kind = .resume ∧ mission.state ≠ .paused ∧ mission.state ≠ .blocked) <|
        fault .mission "only paused or blocked missions can resume"
      return some requested

/-- A row with the record of an intervened mission: its columns of versions are left alone. -/
def intervene (record : MissionRecord) (row : MissionRow) : MissionRow :=
  { row with
    state := record.state
    revision := record.revision
    payload := record
    updatedAt := record.updatedAt }

theorem intervene_key (record : MissionRecord) (row : MissionRow) :
    Keyed.key (intervene record row) = Keyed.key row := rfl

def applyIntervention (s : MissionStore) (intervention : MissionIntervention)
    (expectedRevision : Nat) (now : Instant) :
    Except Raised (MissionIntervention × MissionStore) := do
  refuseIf (intervention.schemaVersion ≠ .v11) <|
    fault .version "new mission interventions require settlement contract 1.1"
  s.replayOr (s.interventions.find (·.interventionId = intervention.interventionId)) intervention
      reusedIdentity do
    let mission ← s.mission intervention.missionId
    refuseIf (mission.revision ≠ expectedRevision) <|
      fault .revisionMismatch "mission intervention expected revision is stale"
        [("expected", .int mission.revision), ("received", .int expectedRevision)]
    let _ ← s.requireMissionChannel intervention.missionId intervention.conversationId
    s.validateInterventionTarget intervention
    s.validateInterventionSequence intervention
    let s ← s.answerEscalation intervention now
    let nextState ← transitionState mission intervention
    let record := moved mission (nextState.getD mission.state) now
    let interventions ← require (s.interventions.insert intervention) .integrityError
    return { s with
      interventions := interventions
      missions := s.missions.update (·.id = intervention.missionId) (intervene record)
        (intervene_key record) }

/-! ## Queries -/

def interventionsOf (s : MissionStore) (missionId : Uuid) (limit : Nat) :
    Except Raised (List MissionIntervention) := do
  let _ ← s.requireMissionRow missionId
  return (s.orderedInterventions missionId).take limit

/-- The escalations of a mission, the oldest first. -/
def orderedEscalations (s : MissionStore) (missionId : Uuid) : List MissionEscalation :=
  (s.escalations.select (·.missionId = missionId)).insertionSort fun a b =>
    a.createdAt ≤ b.createdAt

def escalationsOf (s : MissionStore) (missionId : Uuid) (limit : Nat) :
    Except Raised (List MissionEscalation) := do
  let _ ← s.requireMissionRow missionId
  return (s.orderedEscalations missionId).take limit

section

variable {s : MissionStore} {missionId : Uuid} {mission : MissionRecord}

theorem interventionsOf_of_mission (h : s.mission missionId = .ok mission) (limit : Nat) :
    s.interventionsOf missionId limit = .ok ((s.orderedInterventions missionId).take limit) := by
  obtain ⟨row, hrow⟩ := requireMissionRow_of_mission h
  rw [interventionsOf, hrow]
  rfl

theorem escalationsOf_of_mission (h : s.mission missionId = .ok mission) (limit : Nat) :
    s.escalationsOf missionId limit = .ok ((s.orderedEscalations missionId).take limit) := by
  obtain ⟨row, hrow⟩ := requireMissionRow_of_mission h
  rw [escalationsOf, hrow]
  rfl

end

end MissionStore
end Mishkan
