import Mishkan.Missions.Readiness
import Mishkan.Conversations.Repository

/-!
# Missions/Execution — the mission-scoped gate of task claims and of completion

A check that fails names a state and adds its blockers; the last one decides the state.  Every list
is read through a query with a limit of 1000 rows.
-/

namespace Mishkan

open Refusal

inductive MissionTaskGateState where
  | eligible | paused | blocked | cancelled
deriving DecidableEq

structure MissionTaskEligibility where
  missionId : Uuid
  missionRevision : Nat
  taskId : String
  assignmentRevision : Nat
  state : MissionTaskGateState
  eligible : Bool
  executionRunId : Option String
  executionTaskId : Option String
  runTaskState : Option TaskState
  environment : MissionTaskEnvironmentReadiness
  blockingEscalationIds : List Uuid
  blockers : List String
deriving DecidableEq

structure MissionTaskAcceptanceStatus where
  taskId : String
  assignmentRevision : Nat
  assignmentKind : CrewAssignmentKind
  executionRunId : Option String
  executionTaskId : Option String
  runState : Option RunState
  runTaskState : Option TaskState
  missionRunAcceptance : Option MissionRunAcceptance
  environmentReady : Bool
  accepted : Bool
deriving DecidableEq

structure MissionCompletionReadiness where
  missionId : Uuid
  missionRevision : Nat
  missionState : MissionState
  ready : Bool
  tasks : List MissionTaskAcceptanceStatus
  blockers : List String
deriving DecidableEq

/-- What a failed check says: the state it sets, and its blockers. -/
structure Finding where
  state : MissionTaskGateState
  blockers : List String
deriving DecidableEq

/-- The finding of a check, if it fails. -/
def finding (p : Prop) [Decidable p] (state : MissionTaskGateState) (blockers : List String) :
    List Finding :=
  if p then [⟨state, blockers⟩] else []

@[simp] theorem finding_eq_nil {p : Prop} [Decidable p] {state : MissionTaskGateState}
    {blockers : List String} : finding p state blockers = [] ↔ ¬ p := by
  by_cases h : p <;> simp [finding, h]

/-- Keep the first of equal elements. -/
def distinct (items : List String) : List String := items.eraseDups

@[simp] theorem distinct_eq_nil {items : List String} : distinct items = [] ↔ items = [] := by
  cases items <;> simp [distinct, List.eraseDups_cons]

/-- The element of a list of one. -/
def theOnly {α : Type} : List α → Option α
  | [a] => some a
  | _ => none

variable (uuid5 : Uuid → String → Uuid) (available : Bool)

namespace MissionStore

/-! ## Durable runs -/

def taskRow? (s : MissionStore) (runId executionTaskId : String) : Option TaskRow :=
  s.runs.tasks.find fun t => t.runId.text = runId ∧ t.taskKey = executionTaskId

/-- The state of a task of a run. -/
def taskState? (s : MissionStore) (runId executionTaskId : String) : Option TaskState :=
  (s.taskRow? runId executionTaskId).map (·.status)

def requireRun (s : MissionStore) (runId : String) : Except Raised RunRow :=
  require (s.run? runId) <|
    fault .runInterrupted "run state does not exist" [("run_id", .str runId)]

def taskCount (s : MissionStore) (runId : String) : Except Raised Nat := do
  let _ ← s.requireRun runId
  return ((s.plan? runId).map (·.tasks.length)).getD 0

/-! ## Evidence -/

/-- The assignments the gate reads, the latest of every task. -/
def latestAssignments (s : MissionStore) (missionId : Uuid) :
    Except Raised (List MissionTaskAssignment) := do
  let assignments ← s.listAssignments missionId 1000
  return MissionAssignmentGraphValidator.latest assignments

/-- The binding is of exactly this revision of the assignment. -/
def BindingOf (a : MissionTaskAssignment) (b : MissionRunBinding) : Prop :=
  b.schemaVersion = .v11 ∧ b.missionTaskId = a.taskId ∧ b.assignmentId = some a.assignmentId
    ∧ b.assignmentRevision = some a.assignmentRevision ∧ some b.runId = a.executionRunId
    ∧ some b.executionTaskId = a.executionTaskId

instance (a : MissionTaskAssignment) (b : MissionRunBinding) : Decidable (BindingOf a b) :=
  inferInstanceAs (Decidable (_ ∧ _))

/-- The one latest binding of an assignment. -/
def bindingForAssignment (s : MissionStore) (missionId : Uuid) (a : MissionTaskAssignment) :
    Except Raised (Option MissionRunBinding) := do
  let bindings ← s.runBindings missionId 1000
  return theOnly ((latestBindings bindings).filter fun b => BindingOf a b)

/-- The scope names the task, its mission or one of its environment contexts. -/
def scopeMatches (scope : List String) (a : MissionTaskAssignment) : Prop :=
  ∃ item ∈ [a.taskId, "task:" ++ a.taskId, a.missionId.text, "mission:" ++ a.missionId.text]
      ++ a.environmentContextIds ++ a.environmentContextIds.map ("environment-context:" ++ ·),
    item ∈ scope

instance (scope : List String) (a : MissionTaskAssignment) : Decidable (scopeMatches scope a) :=
  inferInstanceAs (Decidable (∃ _ ∈ _, _))

/-- A control of a task that is addressed to this task, or whose scope matches it. -/
def isScopedControl (a : MissionTaskAssignment) (i : MissionIntervention) : Prop :=
  i.targetKind = .task ∧ (i.targetId = a.taskId ∨ scopeMatches i.scope a)
    ∧ i.kind.isControl = true

instance (a : MissionTaskAssignment) (i : MissionIntervention) : Decidable (isScopedControl a i) :=
  inferInstanceAs (Decidable (_ ∧ _))

def latestScopedIntervention (s : MissionStore) (missionId : Uuid) (a : MissionTaskAssignment) :
    Except Raised (Option MissionIntervention) := do
  let interventions ← s.interventionsOf missionId 1000
  return (interventions.filter fun i => isScopedControl a i).getLast?

/-- The open escalations that cover a task. -/
def blockingEscalations (s : MissionStore) (missionId : Uuid) (a : MissionTaskAssignment) :
    Except Raised (List MissionEscalation) := do
  let escalations ← s.escalationsOf missionId 1000
  return escalations.filter fun e => e.state = .open ∧ scopeMatches e.blockedScope a

/-! ## The gate of a claim -/

/-- The states of a mission that release work. -/
def runnableMissionStates : List MissionState := [.active, .evaluating, .remediating]

def missionFindings (mission : MissionRecord) (a : MissionTaskAssignment) : List Finding :=
  (if mission.state = .cancelled then [⟨.cancelled, ["mission is cancelled"]⟩]
    else finding (mission.state ∉ runnableMissionStates)
      (if mission.state = .paused then .paused else .blocked)
      ["mission state " ++ mission.state.value ++ " does not release task execution"])
  ++ finding (some a.crewVersion ≠ mission.currentCrewVersion) .blocked
    ["task assignment does not reference the current Mission Crew"]

/-- What the latest scoped control says of the task. -/
def interventionFindings (control : Option MissionIntervention) : List Finding :=
  match control with
  | none => []
  | some i =>
    finding (i.kind = .suspend ∨ i.kind = .stop)
      (if i.kind = .suspend then .paused else .cancelled)
      ["task is governed by CEO intervention " ++ i.interventionId.text]

def bindingFindings (binding : Option MissionRunBinding) : List Finding :=
  match binding with
  | none =>
    [⟨.blocked, ["task has no exact durable mission run binding for its assignment revision"]⟩]
  | some binding =>
    finding (binding.acceptance ≠ .pending) .blocked
      ["mission run binding is already " ++ binding.acceptance.value]

/-- What the assignment of a dependency says of the task. -/
def dependencyFindings (s : MissionStore) (latest : List MissionTaskAssignment)
    (dependencyId : String) : List Finding :=
  match MissionAssignmentGraphValidator.find latest dependencyId with
  | none => [⟨.blocked, ["mission task dependency " ++ dependencyId ++ " is not assigned"]⟩]
  | some dependency =>
    match dependency.executionRunId, dependency.executionTaskId with
    | some runId, some executionTaskId =>
      finding (s.taskState? runId executionTaskId ≠ some .accepted) .blocked
        ["mission task dependency " ++ dependencyId ++ " is not durably accepted"]
    | _, _ =>
      [⟨.blocked, ["mission task dependency " ++ dependencyId ++ " has no durable run binding"]⟩]

/-- The run tasks of the dependencies that are bound to the same run. -/
def sameRunDependencies (latest : List MissionTaskAssignment) (a : MissionTaskAssignment) :
    List String :=
  a.dependencies.filterMap fun dependencyId => do
    let dependency ← MissionAssignmentGraphValidator.find latest dependencyId
    let runId ← dependency.executionRunId
    let executionTaskId ← dependency.executionTaskId
    if some runId = a.executionRunId then some executionTaskId else none

/-- What the contract of the run task says of the task. -/
def contractFindings (s : MissionStore) (latest : List MissionTaskAssignment)
    (a : MissionTaskAssignment) (contract : PlanTask) : List Finding :=
  finding (contract.assignedRole ≠ a.accountableOwner) .blocked
    ["bound run task owner differs from the mission assignment"]
  ++ finding (¬ sameIds contract.tools a.exactTools) .blocked
    ["bound run task tools differ from the mission assignment"]
  ++ a.dependencies.flatMap (s.dependencyFindings latest)
  ++ finding (¬ sameIds contract.dependsOn (sameRunDependencies latest a)) .blocked
    ["bound run dependency graph differs from the mission assignment"]

/-- What the run task says of the task; one that does not exist has no state. -/
def runTaskFindings (s : MissionStore) (latest : List MissionTaskAssignment)
    (a : MissionTaskAssignment) (row : Option TaskRow) : List Finding :=
  (match row with
    | none => [⟨.blocked, ["bound durable run task does not exist"]⟩]
    | some row => s.contractFindings latest a row.contract)
  ++ finding (row.map (·.status) ≠ some .eligible) .blocked
    ["bound run task is not eligible after durable dependency evaluation"]

/-- The run task an assignment is bound to. -/
def boundTask? (s : MissionStore) (a : MissionTaskAssignment) : Option TaskRow :=
  match a.executionRunId, a.executionTaskId with
  | some runId, some executionTaskId => s.taskRow? runId executionTaskId
  | _, _ => none

def executionFindings (s : MissionStore) (latest : List MissionTaskAssignment)
    (a : MissionTaskAssignment) (binding : Option MissionRunBinding) : List Finding :=
  match a.executionRunId, a.executionTaskId with
  | some _, some _ => bindingFindings binding ++ s.runTaskFindings latest a (s.boundTask? a)
  | _, _ => [⟨.blocked, ["task has no explicit durable run-task binding"]⟩]

def inspect (s : MissionStore) (missionId : Uuid) (taskId : String) :
    Except Raised MissionTaskEligibility := do
  let mission ← s.mission missionId
  let latest ← s.latestAssignments missionId
  let a ← require (MissionAssignmentGraphValidator.find latest taskId) <|
    fault .mission "mission task assignment does not exist"
  let readiness ← s.inspectReadiness uuid5 available missionId
  let environment ← require (readiness.tasks.find? (·.taskId = taskId)) <|
    fault .mission "mission task has no environment-readiness projection"
  let binding ← s.bindingForAssignment missionId a
  let control ← s.latestScopedIntervention missionId a
  let escalations ← s.blockingEscalations missionId a
  let findings := missionFindings mission a ++ interventionFindings control
    ++ finding (escalations ≠ []) .paused
      ["task scope is blocked by an unresolved executive escalation"]
    ++ finding (¬ environment.environmentReady = true) .blocked environment.blockers
    ++ s.executionFindings latest a binding
  let state := (findings.getLast?.map (·.state)).getD .eligible
  let blockers := findings.flatMap (·.blockers)
  return { missionId := mission.missionId
           missionRevision := mission.revision
           taskId := a.taskId
           assignmentRevision := a.assignmentRevision
           state := state
           eligible := state = .eligible ∧ blockers = []
           executionRunId := a.executionRunId
           executionTaskId := a.executionTaskId
           runTaskState := (s.boundTask? a).map (·.status)
           environment := environment
           blockingEscalationIds := escalations.map (·.escalationId)
           blockers := distinct blockers }

/-! ## The gate of completion -/

/-- The message of a failed validation, if it is a typed one. -/
def graphBlockers (latest : List MissionTaskAssignment) : Except Raised (List String) :=
  match MissionAssignmentGraphValidator.validate latest with
  | .ok () => .ok []
  | .error (.mishkan error) => .ok [error.message]
  | .error e => .error e

/-- A blocker, if a condition fails. -/
def blocker (p : Prop) [Decidable p] (message : String) : List String :=
  if p then [message] else []

@[simp] theorem blocker_eq_nil {p : Prop} [Decidable p] {message : String} :
    blocker p message = [] ↔ ¬ p := by
  by_cases h : p <;> simp [blocker, h]

/-- A run of several tasks is reported. -/
def reportBlockers (s : MissionStore) (reported : List String) (runId : String) :
    Except Raised (List String) := do
  let count ← s.taskCount runId
  return blocker (1 < count ∧ runId ∉ reported)
    ("multi-task run " ++ runId ++ " has no versioned mission report")

/-- What completion reads of the run task of an assignment. -/
def runBlockers (s : MissionStore) (a : MissionTaskAssignment)
    (binding : Option MissionRunBinding) : List String :=
  match a.executionRunId, a.executionTaskId with
  | some runId, some executionTaskId =>
    (match binding with
      | none => ["task " ++ a.taskId ++ " has no exact mission run binding for its assignment "
          ++ "revision"]
      | some binding => blocker (binding.acceptance ≠ .accepted)
          ("task " ++ a.taskId ++ " mission run binding is not accepted"))
    ++ blocker (s.run? runId = none) ("task " ++ a.taskId ++ " bound run does not exist")
    ++ blocker (s.taskState? runId executionTaskId ≠ some .accepted)
      ("task " ++ a.taskId ++ " is not durably accepted")
    ++ blocker ((s.run? runId).map (·.status) ≠ some .completed)
      ("task " ++ a.taskId ++ " bound run is not complete")
  | _, _ => ["task " ++ a.taskId ++ " has no durable run binding"]

def taskBlockers (s : MissionStore) (mission : MissionRecord) (a : MissionTaskAssignment)
    (binding : Option MissionRunBinding) (environmentReady : Bool) : List String :=
  s.runBlockers a binding
  ++ blocker (¬ environmentReady = true)
    ("task " ++ a.taskId ++ " environment is not currently ready")
  ++ blocker (some a.crewVersion ≠ mission.currentCrewVersion)
    ("task " ++ a.taskId ++ " assignment does not reference the current crew")

/-- The state of the run of an assignment that is bound to a task of it. -/
def boundRunState? (s : MissionStore) (a : MissionTaskAssignment) : Option RunState :=
  match a.executionRunId, a.executionTaskId with
  | some runId, some _ => (s.run? runId).map (·.status)
  | _, _ => none

def acceptanceStatus (s : MissionStore) (mission : MissionRecord) (a : MissionTaskAssignment)
    (binding : Option MissionRunBinding) (environmentReady : Bool) :
    MissionTaskAcceptanceStatus :=
  let taskState := (s.boundTask? a).map (·.status)
  let runState := s.boundRunState? a
  let acceptance := binding.map (·.acceptance)
  { taskId := a.taskId
    assignmentRevision := a.assignmentRevision
    assignmentKind := a.assignmentKind
    executionRunId := a.executionRunId
    executionTaskId := a.executionTaskId
    runState := runState
    runTaskState := taskState
    missionRunAcceptance := acceptance
    environmentReady := environmentReady
    accepted := taskState = some .accepted ∧ runState = some .completed
      ∧ acceptance = some .accepted ∧ environmentReady = true
      ∧ some a.crewVersion = mission.currentCrewVersion }

/-- The readiness of the environment of a task; of a task that is not listed, none. -/
def environmentReady (readiness : MissionEnvironmentReadiness) (taskId : String) : Bool :=
  (readiness.tasks.find? (·.taskId = taskId)).any (·.environmentReady)

def inspectCompletion (s : MissionStore) (missionId : Uuid) :
    Except Raised MissionCompletionReadiness := do
  let mission ← s.mission missionId
  let latest ← s.latestAssignments missionId
  let bindings ← latest.mapM (s.bindingForAssignment missionId)
  let graph ← graphBlockers latest
  let readiness ← s.inspectReadiness uuid5 available missionId
  let reports ← s.runReports missionId 1000
  let boundRuns := (latest.filterMap (·.executionRunId)).dedup.insertionSort (· ≤ ·)
  let unreported ← boundRuns.mapM (s.reportBlockers (reports.map (·.runId)))
  let blockers := graph
    ++ blocker (mission.state ≠ .evaluating) "mission must be evaluating before completion"
    ++ unreported.flatten
    ++ (latest.zip bindings).flatMap fun (a, binding) =>
      s.taskBlockers mission a binding (environmentReady readiness a.taskId)
  let tasks := (latest.zip bindings).map fun (a, binding) =>
    s.acceptanceStatus mission a binding (environmentReady readiness a.taskId)
  return { missionId := mission.missionId
           missionRevision := mission.revision
           missionState := mission.state
           ready := distinct blockers = [] ∧ tasks ≠ []
           tasks := tasks
           blockers := distinct blockers }

end MissionStore
end Mishkan
