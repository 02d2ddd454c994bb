import Mishkan.Missions.Repository

/-!
# Missions/Reports — run reports, environment plans and the queries of the mission repository

A query with a limit returns the first rows of its order.  Rows that tie in the order of a query
come in the order they were written.
-/

namespace Mishkan

open Refusal

namespace MissionStore

/-! ## Run reports -/

/-- The latest binding of an execution task of a run; of several keys, the last one. -/
def bindingOfTask (s : MissionStore) (missionId : Uuid) (runId executionTaskId : String) :
    Option MissionRunBinding :=
  ((latestBindings ((s.bindingsOf missionId).filter (·.runId = runId))).filter
    (·.executionTaskId = executionTaskId)).getLast?

/-- An item of a report is an accepted result of the assignment it names. -/
def requireReportTask (s : MissionStore) (report : MissionRunReport)
    (assignments : List MissionTaskAssignment) (item : MissionRunReportTask) :
    Except Raised Unit := do
  let details : JsonObject := [("execution_task_id", .str item.executionTaskId)]
  let contradiction := fault .mission
    "mission run report contradicts an accepted assignment or result binding" details
  let assignment ← require (MissionAssignmentGraphValidator.find assignments item.missionTaskId)
    contradiction
  let binding ← require (s.bindingOfTask report.missionId report.runId item.executionTaskId)
    contradiction
  refuseIf (assignment.executionRunId ≠ some report.runId
      ∨ assignment.executionTaskId ≠ some item.executionTaskId
      ∨ assignment.accountableOwner ≠ item.accountableOwner
      ∨ assignment.assignmentKind ≠ item.assignmentKind
      ∨ binding.missionTaskId ≠ item.missionTaskId
      ∨ binding.acceptance ≠ .accepted
      ∨ binding.resultReferences ≠ item.resultReferences
      ∨ binding.acceptanceReferences ≠ item.acceptanceReferences) contradiction
  refuseIf (¬ ∀ reference ∈ item.resultReferences ++ item.acceptanceReferences,
      reference ∈ item.evidenceReferences) <|
    fault .mission "mission run report omits accepted result evidence" details
  let acceptance ← require (s.runs.acceptances.find fun r =>
      r.runId.text = report.runId ∧ r.taskKey = item.executionTaskId) <|
    .keyError item.executionTaskId
  refuseIf (acceptance.reviewPayload.evaluatorIdentity = some report.reporterIdentity) <|
    fault .roleConflict "task acceptance evaluator cannot report that same task" details

/-- The same identifiers, in any order. -/
def sameIds (ids ids' : List String) : Prop := (∀ id ∈ ids, id ∈ ids') ∧ ∀ id ∈ ids', id ∈ ids

instance (ids ids' : List String) : Decidable (sameIds ids ids') :=
  inferInstanceAs (Decidable (_ ∧ _))

/-- The report covers exactly the tasks of the plan, all of them accepted. -/
def requireCoverage (s : MissionStore) (report : MissionRunReport) (plan : AcceptedPlan) :
    Except Raised Unit := do
  let expected := plan.tasks.map (·.taskId)
  let reported := report.taskResults.map (·.executionTaskId)
  refuseIf (¬ sameIds reported expected) <|
    fault .mission "mission run report does not cover the exact accepted plan tasks"
      [("missing", .strings ((expected.filter (· ∉ reported)).insertionSort (· ≤ ·))),
        ("unexpected", .strings ((reported.filter (· ∉ expected)).insertionSort (· ≤ ·)))]
  let results := (s.runs.results.select (·.runId.text = report.runId)).map (·.taskKey)
  let acceptances := (s.runs.acceptances.select (·.runId.text = report.runId)).map (·.taskKey)
  refuseIf (¬ (sameIds results expected ∧ sameIds acceptances expected)) <|
    fault .mission "mission run report requires every task result to be durably accepted"

def recordRunReport (s : MissionStore) (report : MissionRunReport) :
    Except Raised (MissionRunReport × MissionStore) :=
  s.replayOr (s.reports.find (·.reportId = report.reportId)) report reused do
    let mission ← s.mission report.missionId
    refuseIf (report.missionRevision ≠ mission.revision) <|
      fault .revisionMismatch "mission changed before its run report was recorded"
    refuseIf (mission.state ≠ .evaluating) <|
      fault .mission "mission run report requires the evaluating mission state"
    refuseIf (∃ r ∈ s.reports, r.missionId = report.missionId ∧ r.runId = report.runId) <|
      fault .duplicateResult "mission run already has another immutable report"
    let missing := fault .runInterrupted "reported run or plan does not exist"
    let run ← require (s.run? report.runId) missing
    let plan ← require (s.plan? report.runId) missing
    refuseIf (run.status ≠ .completed ∨ plan.tasks.length < 2) <|
      fault .mission "run report requires one completed multi-task run"
    refuseIf (report.planFingerprint ≠ plan.fingerprint) <|
      fault .revisionMismatch "mission run report references another accepted plan"
    refuseIf (report.executionContext ≠ run.context) <|
      fault .revisionMismatch "mission run report execution context differs from its run"
    let assignments :=
      MissionAssignmentGraphValidator.latest (s.assignmentsOf report.missionId)
    MissionAssignmentGraphValidator.validate assignments
    s.requireCoverage report plan
    report.taskResults.forM (s.requireReportTask report assignments)
    let reporting ← require
      (MissionAssignmentGraphValidator.find assignments report.reportingMissionTaskId) <|
      .keyError report.reportingMissionTaskId
    refuseIf (reporting.assignmentKind ≠ .reporting
        ∨ reporting.accountableOwner ≠ report.reporterIdentity
        ∨ reporting.executionRunId ≠ some report.runId
        ∨ reporting.executionTaskId ≠ some report.reportingExecutionTaskId) <|
      fault .roleConflict
        "mission run report is not attributable to its independent Reporter task"
    let reports ← require (s.reports.insert report) .integrityError
    return { s with reports := reports }

/-! ## Environment plans -/

/-- What an accepted environment plan leaves of its mission. -/
def withEnvironmentPlan (mission : MissionRecord) (version : Nat) (now : Instant) :
    MissionRecord :=
  { mission with
    revision := mission.revision + 1
    currentEnvironmentPlanVersion := some version
    updatedAt := now }

def acceptEnvironmentPlan (s : MissionStore) (acceptance : MissionEnvironmentPlanAcceptance)
    (expectedRevision : Nat) (now : Instant) :
    Except Raised (MissionEnvironmentPlanAcceptance × MissionStore) :=
  let plan := acceptance.plan
  s.replayOr (s.environmentPlans.find (·.plan.planId = plan.planId)) acceptance reused do
    let mission ← s.mission plan.missionId
    requireRevision mission expectedRevision
    refuseIf (plan.missionRevision ≠ mission.revision) <|
      fault .revisionMismatch "environment plan was authored against a stale mission revision"
    refuseIf (some plan.briefVersion ≠ mission.currentBriefVersion
        ∨ some plan.crewVersion ≠ mission.currentCrewVersion) <|
      fault .revisionMismatch "environment plan does not reference the current Brief and crew"
    let expectedVersion := mission.currentEnvironmentPlanVersion.getD 0 + 1
    refuseIf (plan.version ≠ expectedVersion) <|
      fault .revisionMismatch "environment plan version is stale or skips a revision"
        [("expected", .int expectedVersion), ("received", .int plan.version)]
    let crew ← s.crewRow plan.missionId plan.crewVersion
    refuseIf (¬ ∃ owner ∈ crew.member? plan.ownerIdentity,
        owner.assignmentKind = .production ∨ owner.assignmentKind = .contributor) <|
      fault .roleConflict "environment plan owner is not an eligible current crew member"
    let latest := MissionAssignmentGraphValidator.latest (s.assignmentsOf plan.missionId)
    refuseIf (¬ ∃ planning ∈ MissionAssignmentGraphValidator.find latest plan.planningTaskId,
        planning.accountableOwner = plan.ownerIdentity) <|
      fault .roleConflict "environment planning assignment does not belong to the plan owner"
    let unknown := (plan.contexts.flatMap (·.affectedTaskIds)).filter
      (· ∉ latest.map (·.taskId))
    refuseIf (unknown ≠ []) <|
      fault .plan "environment plan references unassigned dependent tasks"
        [("unknown_task_ids", .strings (unknown.dedup.insertionSort (· ≤ ·)))]
    refuseIf (∃ row ∈ s.environmentPlans,
        row.plan.missionId = plan.missionId ∧ row.plan.version = plan.version) <|
      fault .duplicateResult "environment plan version already has another immutable identity"
    let environmentPlans ← require (s.environmentPlans.insert acceptance) .integrityError
    return { s with environmentPlans := environmentPlans }.updateMissionRow plan.missionId
      (withEnvironmentPlan mission plan.version now)

/-! ## Queries -/

/-- The order of the assignments of a mission: by task, then by revision. -/
def assignmentOrder (a b : MissionTaskAssignment) : Prop :=
  a.taskId < b.taskId ∨ (a.taskId = b.taskId ∧ a.assignmentRevision ≤ b.assignmentRevision)

instance : DecidableRel assignmentOrder := fun _ _ => inferInstanceAs (Decidable (_ ∨ _))

/-- All assignments of a mission, in the order of the query. -/
def orderedAssignments (s : MissionStore) (missionId : Uuid) : List MissionTaskAssignment :=
  (s.assignmentsOf missionId).insertionSort assignmentOrder

def listAssignments (s : MissionStore) (missionId : Uuid) (limit : Nat) :
    Except Raised (List MissionTaskAssignment) := do
  let _ ← s.requireMissionRow missionId
  return (s.orderedAssignments missionId).take limit

/-- The order of the bindings of a mission: by key, then by revision. -/
def bindingOrder (a b : MissionRunBinding) : Prop :=
  a.bindingKey < b.bindingKey ∨ (a.bindingKey = b.bindingKey ∧
    a.bindingRevision ≤ b.bindingRevision)

instance : DecidableRel bindingOrder := fun _ _ => inferInstanceAs (Decidable (_ ∨ _))

/-- All bindings of a mission, in the order of the query. -/
def orderedBindings (s : MissionStore) (missionId : Uuid) : List MissionRunBinding :=
  (s.bindingsOf missionId).insertionSort bindingOrder

def runBindings (s : MissionStore) (missionId : Uuid) (limit : Nat) :
    Except Raised (List MissionRunBinding) := do
  let _ ← s.requireMissionRow missionId
  return (s.orderedBindings missionId).take limit

/-- All reports of a mission, the oldest first. -/
def orderedReports (s : MissionStore) (missionId : Uuid) : List MissionRunReport :=
  (s.reports.select (·.missionId = missionId)).insertionSort fun a b => a.createdAt ≤ b.createdAt

def runReports (s : MissionStore) (missionId : Uuid) (limit : Nat) :
    Except Raised (List MissionRunReport) := do
  let _ ← s.requireMissionRow missionId
  return (s.orderedReports missionId).take limit

def listMissions (s : MissionStore) (limit : Nat) : Except Raised (List MissionRecord) := do
  refuseIf (¬ (1 ≤ limit ∧ limit ≤ 1000)) <|
    fault .outputContract "mission query limit is out of bounds"
  let rows := (s.missions.rows.insertionSort fun a b => b.updatedAt ≤ a.updatedAt).take limit
  rows.mapM (·.payload.modelValidate)

def environmentPlan (s : MissionStore) (missionId : Uuid) (version : Option Nat) :
    Except Raised MissionEnvironmentPlanAcceptance := do
  let mission ← s.mission missionId
  let selected ← require ((version.filter (· ≠ 0)).or mission.currentEnvironmentPlanVersion) <|
    fault .mission "mission has no accepted environment plan"
  require (s.environmentPlans.find fun row =>
      row.plan.missionId = missionId ∧ row.plan.version = selected) <|
    fault .mission "environment plan revision does not exist"

section

variable {s : MissionStore} {id : Uuid} {record : MissionRecord}

/-- What can be read back has a row. -/
theorem requireMissionRow_of_mission (h : s.mission id = .ok record) :
    ∃ row, s.requireMissionRow id = .ok row := by
  obtain ⟨row, hrow, -⟩ := bind_eq_ok.mp h
  exact ⟨row, hrow⟩

/-- The queries of a mission that can be read back are answered. -/
theorem listAssignments_of_mission (h : s.mission id = .ok record) (limit : Nat) :
    s.listAssignments id limit = .ok ((s.orderedAssignments id).take limit) := by
  obtain ⟨row, hrow⟩ := requireMissionRow_of_mission h
  rw [listAssignments, hrow]
  rfl

theorem runBindings_of_mission (h : s.mission id = .ok record) (limit : Nat) :
    s.runBindings id limit = .ok ((s.orderedBindings id).take limit) := by
  obtain ⟨row, hrow⟩ := requireMissionRow_of_mission h
  rw [runBindings, hrow]
  rfl

theorem runReports_of_mission (h : s.mission id = .ok record) (limit : Nat) :
    s.runReports id limit = .ok ((s.orderedReports id).take limit) := by
  obtain ⟨row, hrow⟩ := requireMissionRow_of_mission h
  rw [runReports, hrow]
  rfl

end

end MissionStore
end Mishkan
