import Mishkan.Foundations.Dynamic
import Mishkan.Foundations.Lines
import Mishkan.Foundations.JsonText
import Mishkan.Foundations.Replace
import Mishkan.Missions.System
import Mishkan.Missions.TeamEffectiveness

/-!
# Missions/TeamRepository — recording collaboration plans and team evidence

Each operation is one transaction over the tables of the missions, which it reads, and its own.
A record names the version of the plan it is recorded under, and the plan that is loaded to check it
is the one of that version (`plan`).  A `TeamOp` is one operation of either repository.
-/

namespace Mishkan

open Refusal Transition

/-! ## Tables -/

/-- Identity and version of a plan are unique. -/
instance : Keyed MissionCollaborationPlan := .ofKeys fun r => (r.planId, r.missionId, r.version)

instance : Keyed TeamHealthEvaluation := .ofKey (·.evaluationId)

instance : Keyed CrewAdaptationDecision := .ofKey (·.decisionId)

instance : Keyed MissionRetrospective := .ofKey (·.retrospectiveId)

instance : Keyed TeamSignal := .ofKey (·.signalId)

instance : Keyed MissionHandoff := .ofKey (·.handoffId)

/-- The tables of the missions and those of the team repository. -/
structure TeamStore where
  missions : MissionStore := {}
  plans : Table MissionCollaborationPlan := ∅
  healths : Table TeamHealthEvaluation := ∅
  adaptations : Table CrewAdaptationDecision := ∅
  retrospectives : Table MissionRetrospective := ∅
  signals : Table TeamSignal := ∅
  handoffs : Table MissionHandoff := ∅

/-! ## Reading identities -/

namespace Uuid

/-- The white space around the text of a number. -/
def isPadding (c : Char) : Bool := Lines.isSpace c && ¬ ('\x1c' ≤ c ∧ c ≤ '\x1f')

/-- The value of a digit of base 16. -/
def digit? (c : Char) : Option Nat := (Digits.decimal? c).or (Json.hexValue c)

/-- Digits with single underscores between them. -/
def digits? : List Char → Option (List Nat)
  | [] => none
  | [c] => (digit? c).map ([·])
  | c :: '_' :: rest => do return (← digit? c) :: (← digits? rest)
  | c :: rest => do return (← digit? c) :: (← digits? rest)

/-- `int(text, 16)` of a text without a minus sign. -/
def int16? (text : List Char) : Option Nat :=
  let body := (text.dropWhile isPadding).rdropWhile isPadding
  let body := if body.head? = some '+' then body.drop 1 else body
  let prefixed := ['0', 'x'] <+: body ∨ ['0', 'X'] <+: body
  let body := if prefixed then body.drop 2 else body
  let body := if prefixed ∧ body.head? = some '_' then body.drop 1 else body
  (digits? body).map fun digits => digits.foldl (fun n d => 16 * n + d) 0

/-- `UUID(text)`, if the text is one. -/
def ofText? (text : String) : Option Uuid :=
  let hex := Replace.replace id "urn:".toList [] text.toList
  let hex := Replace.replace id "uuid:".toList [] hex
  let hex := ((hex.dropWhile (· ∈ ['{', '}'])).rdropWhile (· ∈ ['{', '}'])).filter (· ≠ '-')
  if hex.length = 32 then int16? hex else none

end Uuid

/-- `executive.casefold().startswith("ceo")`: only ASCII letters fold to these. -/
def isChiefExecutive (executive : String) : Bool :=
  (executive.toList.take 3).map Char.toLower = ['c', 'e', 'o']

/-- Who an accepted decision is decided by. -/
def MissionDecision.executive (decision : MissionDecision) : String :=
  decision.decidingIdentity.getD decision.actorId

namespace TeamStore

/-! ## Shared reads and checks -/

/-- Record a value under an identity: replay it if the identity is durable, or do the work. -/
def idempotent {α : Type} [DecidableEq α] (s : TeamStore) (existing : Option α) (requested : α)
    (fresh : Except Raised TeamStore) : Except Raised (α × TeamStore) :=
  match existing with
  | some durable => do
    refuseIf (durable ≠ requested) <|
      fault .duplicateResult
        "durable team-evidence identity already contains different content"
    return (requested, s)
  | none => do
    let s ← fresh
    return (requested, s)

/-- The collaboration plan of a mission with a version, or the latest one. -/
def plan (s : TeamStore) (missionId : Uuid) (version : Option Nat) :
    Except Raised MissionCollaborationPlan :=
  let row := match version with
    | some version => s.plans.find fun p => p.missionId = missionId ∧ p.version = version
    | none => Latest.get? (·.missionId) (·.version) s.plans.rows missionId
  require row <| fault .mission "mission collaboration plan does not exist"

def nextPlanVersion (s : TeamStore) (missionId : Uuid) : Nat :=
  ((Latest.get? (·.missionId) (·.version) s.plans.rows missionId).map (·.version)).getD 0 + 1

/-- The mission, and its current Brief and crew. -/
def missionContext (s : TeamStore) (missionId : Uuid) :
    Except Raised (MissionRecord × MissionBrief × MissionCrewRevision) := do
  let mission ← s.missions.mission missionId
  let briefVersion ← require mission.currentBriefVersion <|
    fault .mission "mission has no current Brief and crew"
  let crewVersion ← require mission.currentCrewVersion <|
    fault .mission "mission has no current Brief and crew"
  let brief ← require (s.missions.brief? missionId briefVersion) <| .valueError "assertion"
  let crew ← require (s.missions.crew? missionId crewVersion) <| .valueError "assertion"
  return (mission, brief, crew)

/-- The latest assignments of the tasks, all of which have one. -/
def requireTasks (s : TeamStore) (missionId : Uuid) (taskIds : List String) (message : String) :
    Except Raised (List MissionTaskAssignment) := do
  let missing := taskIds.dedup.filter fun id => s.missions.currentAssignment missionId id = none
  refuseIf (missing ≠ []) <|
    fault .decisionValidation message
      [("missing_task_ids", .strings (missing.insertionSort (· ≤ ·)))]
  return taskIds.filterMap (s.missions.currentAssignment missionId)

/-- The message of unknown tasks. -/
def unknownTasks : String := "team evidence references unknown mission tasks"

/-- Every cited mission is completed, and every cited evaluation is one of it. -/
def validateHistoryCitations (s : TeamStore) (plan : MissionCollaborationPlan) :
    Except Raised Unit :=
  plan.historyCitations.forM fun citation => do
    refuseIf (¬ ∃ row ∈ s.missions.missions, row.id = citation.missionId
        ∧ row.state = .completed) <|
      fault .decisionValidation "collaboration history must reference a completed mission"
    citation.evaluationIds.forM fun evaluationId =>
      refuseIf (¬ ∃ evaluation ∈ s.healths, evaluation.evaluationId = evaluationId
          ∧ evaluation.missionId = citation.missionId) <|
        fault .decisionValidation "collaboration history evaluation lineage is invalid"

/-- An approval is an accepted decision of the mission by an executive. -/
def requireApproval (s : TeamStore) (missionId : Uuid) (reference : String) :
    Except Raised Unit := do
  refuseIf (¬ "decision:".toList <+: reference.toList) <|
    fault .decisionValidation "material adaptation approval must reference a mission decision"
  let decisionId ← require (Uuid.ofText? (String.ofList (reference.toList.drop 9))) <|
    fault .decisionValidation "material adaptation approval identity is invalid"
  let approval ← require
    ((s.missions.decisions.find (·.decisionId = decisionId)).filter (·.missionId = missionId)) <|
    fault .decisionValidation "material adaptation approval does not belong to the mission"
  refuseIf (approval.decisionStatus ≠ some .accepted) <|
    fault .decisionValidation "material adaptation requires an accepted mission decision"
  refuseIf (approval.executive ∉ ["PM", "CTO"] ∧ ¬ isChiefExecutive approval.executive) <|
    fault .authorityNotGranted "material adaptation requires PM, CTO, or CEO authority"

/-- The plan an adaptation ends with exists. -/
def requireAfterPlan (s : TeamStore) (decision : CrewAdaptationDecision) : Except Raised Unit :=
  if decision.afterPlanVersion ≠ decision.beforePlanVersion then do
    let _ ← s.plan decision.missionId (some decision.afterPlanVersion)
  else .ok ()

def validateAdaptationLineage (s : TeamStore) (decision : CrewAdaptationDecision) :
    Except Raised Unit := do
  let latest ← s.requireTasks decision.missionId decision.affectedTaskIds
    "crew adaptation references unknown mission tasks"
  refuseIf (¬ ∀ id ∈ decision.affectedAssignments, id ∈ latest.map (·.assignmentId)) <|
    fault .revisionMismatch "crew adaptation references stale or unrelated assignments"
  s.requireAfterPlan decision
  let mission ← require (s.missions.mission? decision.missionId) <| .valueError "assertion"
  refuseIf (mission.currentCrewVersion ≠ some decision.afterCrewVersion) <|
    fault .revisionMismatch "crew adaptation after-version is not the current governed crew"
  if decision.disposition = .approvalRequired then
    decision.approvalReferences.forM (s.requireApproval decision.missionId)

/-! ## Recording -/

def recordCollaborationPlan (s : TeamStore) (plan : MissionCollaborationPlan) :
    Except Raised (MissionCollaborationPlan × TeamStore) :=
  s.idempotent (s.plans.find (·.planId = plan.planId)) plan do
    let (mission, brief, crew) ← s.missionContext plan.missionId
    TeamEffectivenessValidator.collaborationPlan plan brief crew
    s.validateHistoryCitations plan
    refuseIf (plan.version ≠ s.nextPlanVersion plan.missionId) <|
      fault .revisionMismatch "collaboration plan version is stale or skips a revision"
    refuseIf (mission.currentBriefVersion ≠ some plan.briefVersion
        ∨ mission.currentCrewVersion ≠ some plan.crewVersion) <|
      fault .revisionMismatch "collaboration plan does not use current mission revisions"
    let plans ← require (s.plans.insert plan) .integrityError
    return { s with plans := plans }

/-- The evidence cursor of the latest health evaluation of a mission. -/
def latestCursor (s : TeamStore) (missionId : Uuid) : Option Nat :=
  ((s.healths.select (·.missionId = missionId)).map (·.evidenceCursor)).max?

def recordHealth (s : TeamStore) (evaluation : TeamHealthEvaluation) :
    Except Raised (TeamHealthEvaluation × TeamStore) :=
  s.idempotent (s.healths.find (·.evaluationId = evaluation.evaluationId)) evaluation do
    let plan ← s.plan evaluation.missionId (some evaluation.collaborationPlanVersion)
    TeamEffectivenessValidator.healthEvaluation evaluation plan
    refuseIf (∃ latest ∈ s.latestCursor evaluation.missionId, evaluation.evidenceCursor ≤ latest) <|
      fault .revisionMismatch "team-health evidence cursor must advance monotonically"
    let healths ← require (s.healths.insert evaluation) .integrityError
    return { s with healths := healths }

def recordAdaptation (s : TeamStore) (decision : CrewAdaptationDecision) :
    Except Raised (CrewAdaptationDecision × TeamStore) :=
  s.idempotent (s.adaptations.find (·.decisionId = decision.decisionId)) decision do
    let plan ← s.plan decision.missionId (some decision.beforePlanVersion)
    TeamEffectivenessValidator.adaptation decision plan
    s.validateAdaptationLineage decision
    let adaptations ← require (s.adaptations.insert decision) .integrityError
    return { s with adaptations := adaptations }

def recordRetrospective (s : TeamStore) (record : MissionRetrospective) :
    Except Raised (MissionRetrospective × TeamStore) :=
  s.idempotent (s.retrospectives.find (·.retrospectiveId = record.retrospectiveId)) record do
    let plan ← s.plan record.missionId (some record.collaborationPlanVersion)
    TeamEffectivenessValidator.retrospective record plan
    let retrospectives ← require (s.retrospectives.insert record) .integrityError
    return { s with retrospectives := retrospectives }

def recordSignal (s : TeamStore) (signal : TeamSignal) :
    Except Raised (TeamSignal × TeamStore) :=
  s.idempotent (s.signals.find (·.signalId = signal.signalId)) signal do
    let _ ← s.plan signal.missionId (some signal.collaborationPlanVersion)
    let _ ← s.requireTasks signal.missionId signal.taskIds unknownTasks
    let signals ← require (s.signals.insert signal) .integrityError
    return { s with signals := signals }

/-- The two ends of a handoff are of the plan, and its producer owns the task. -/
def requireHandoff (s : TeamStore) (handoff : MissionHandoff) (plan : MissionCollaborationPlan) :
    Except Raised Unit := do
  let identities := plan.responsibilities.map (·.identityId)
  refuseIf (handoff.fromIdentity ∉ identities ∨ handoff.toIdentity ∉ identities) <|
    fault .roleConflict "handoff identities are outside the collaboration plan"
  let assignments ← s.requireTasks handoff.missionId [handoff.taskId] unknownTasks
  let assignment ← require (assignments.find? (·.taskId = handoff.taskId)) <|
    .keyError handoff.taskId
  refuseIf (assignment.accountableOwner ≠ handoff.fromIdentity) <|
    fault .roleConflict "handoff producer is not the accountable owner of the task"

def recordHandoff (s : TeamStore) (handoff : MissionHandoff) :
    Except Raised (MissionHandoff × TeamStore) :=
  s.idempotent (s.handoffs.find (·.handoffId = handoff.handoffId)) handoff do
    let plan ← s.plan handoff.missionId (some handoff.collaborationPlanVersion)
    s.requireHandoff handoff plan
    let handoffs ← require (s.handoffs.insert handoff) .integrityError
    return { s with handoffs := handoffs }

end TeamStore

/-! ## Operations -/

inductive TeamOp where
  | recordCollaborationPlan (plan : MissionCollaborationPlan)
  | recordHealth (evaluation : TeamHealthEvaluation)
  | recordAdaptation (decision : CrewAdaptationDecision)
  | recordRetrospective (record : MissionRetrospective)
  | recordSignal (signal : TeamSignal)
  | recordHandoff (handoff : MissionHandoff)
  /-- An operation of the mission or the conversation repository. -/
  | mission (op : MissionOp)

/-- The store a transaction ends with, its result aside. -/
def TeamStore.ending {α : Type} (x : Except Raised (α × TeamStore)) :
    Except Raised (Unit × TeamStore) := x.map fun r => ((), r.2)

/-- How an operation ends. -/
def TeamStore.perform (s : TeamStore) : TeamOp → Except Raised (Unit × TeamStore)
  | .recordCollaborationPlan plan => ending (s.recordCollaborationPlan plan)
  | .recordHealth evaluation => ending (s.recordHealth evaluation)
  | .recordAdaptation decision => ending (s.recordAdaptation decision)
  | .recordRetrospective record => ending (s.recordRetrospective record)
  | .recordSignal signal => ending (s.recordSignal signal)
  | .recordHandoff handoff => ending (s.recordHandoff handoff)
  | .mission op => .ok ((), { s with missions := missionStep s.missions op })

/-- The store after an operation; one that is refused leaves it alone. -/
def teamStep (s : TeamStore) (op : TeamOp) : TeamStore := commit s (s.perform op)

end Mishkan
