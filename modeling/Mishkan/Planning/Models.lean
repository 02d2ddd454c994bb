import Mishkan.Tools.Models

/-!
# Planning/Models — plans, results and reviews

Each record carries what its validator enforces, so a value that the validator would refuse cannot
be built: the tools of a task are distinct and cover its calls, a versioned plan has a call for
every tool it selects, a versioned result names its execution context.
-/

namespace Mishkan

/-- Which identity an execution context has. -/
inductive ContextKind where
  | repository | prospectiveWorkspace
deriving DecidableEq

def ContextKind.value : ContextKind → String
  | .repository => "repository"
  | .prospectiveWorkspace => "prospective_workspace"

/-- What a plan executes against.  The remaining columns of the record are functions of these, which
is what its validator enforces. -/
inductive PlanExecutionContext where
  | repository (repositoryId revision : String)
  | prospectiveWorkspace (workspaceId discoveryRevision : String)
deriving DecidableEq

namespace PlanExecutionContext

def kind : PlanExecutionContext → ContextKind
  | repository _ _ => .repository
  | prospectiveWorkspace _ _ => .prospectiveWorkspace

def contextId : PlanExecutionContext → String
  | repository id _ | prospectiveWorkspace id _ => id

def revision : PlanExecutionContext → String
  | repository _ rev | prospectiveWorkspace _ rev => rev

def repositoryId : PlanExecutionContext → Option String
  | repository id _ => some id
  | prospectiveWorkspace _ _ => none

def repositoryRevision : PlanExecutionContext → Option String
  | repository _ rev => some rev
  | prospectiveWorkspace _ _ => none

def prospectiveWorkspaceId : PlanExecutionContext → Option String
  | repository _ _ => none
  | prospectiveWorkspace id _ => some id

def discoveryRevision : PlanExecutionContext → Option String
  | repository _ _ => none
  | prospectiveWorkspace _ rev => some rev

def modelDump (c : PlanExecutionContext) : Json :=
  .obj [("kind", .str c.kind.value), ("context_id", .str c.contextId),
    ("revision", .str c.revision), ("repository_id", .ofOption c.repositoryId),
    ("repository_revision", .ofOption c.repositoryRevision),
    ("prospective_workspace_id", .ofOption c.prospectiveWorkspaceId),
    ("discovery_revision", .ofOption c.discoveryRevision)]

end PlanExecutionContext

/-- The discovery a plan is proposed against: its binding, cited paths and fingerprint. -/
structure DiscoverySnapshot where
  binding : PlanExecutionContext
  citedPaths : List String
  fingerprint : String
deriving DecidableEq

/-! ## Plans -/

/-- One exact call accepted before task execution. -/
structure PlannedToolCall where
  callId : String
  toolId : String
  arguments : JsonObject
deriving DecidableEq

structure PlanTask where
  taskId : String
  title : String
  purpose : String
  assignedRole : String
  tools : List String
  toolCalls : List PlannedToolCall := []
  evidencePaths : List String
  dependsOn : List String := []
  toolsNonempty : tools ≠ []
  toolsUnique : tools.Nodup
  evidenceNonempty : evidencePaths ≠ []
  evidenceUnique : evidencePaths.Nodup
  dependsOnUnique : dependsOn.Nodup
  callIdsUnique : (toolCalls.map (·.callId)).Nodup
  callsSelected : ∀ call ∈ toolCalls, call.toolId ∈ tools

instance : DecidableEq PlanTask := fun a b =>
  decidable_of_iff
    (a.taskId = b.taskId ∧ a.title = b.title ∧ a.purpose = b.purpose ∧
      a.assignedRole = b.assignedRole ∧ a.tools = b.tools ∧ a.toolCalls = b.toolCalls ∧
      a.evidencePaths = b.evidencePaths ∧ a.dependsOn = b.dependsOn)
    (by cases a; cases b; simp)

/-- The JSON form of a task, as `model_dump(mode="json")` writes it. -/
def PlanTask.modelDump (task : PlanTask) : Json :=
  .obj [("task_id", .str task.taskId), ("title", .str task.title), ("purpose", .str task.purpose),
    ("assigned_role", .str task.assignedRole), ("tools", .strings task.tools),
    ("tool_calls", .arr (task.toolCalls.map fun call =>
      .obj [("call_id", .str call.callId), ("tool_id", .str call.toolId),
        ("arguments", .obj call.arguments)])),
    ("evidence_paths", .strings task.evidencePaths), ("depends_on", .strings task.dependsOn)]

/-- The versions of the plan schema. -/
inductive PlanVersion where
  | v10 | v11 | v12
deriving DecidableEq

structure PlanCandidate where
  schemaVersion : PlanVersion := .v10
  objective : String
  outcomeId : String
  repositoryRevision : Option String := none
  executionContext : Option PlanExecutionContext := none
  tasks : List PlanTask
  tasksNonempty : tasks ≠ []
  tasksBounded : tasks.length ≤ 12
  /-- From 1.1 on, every selected tool has one or more exact calls. -/
  callsComplete : schemaVersion ≠ .v10 →
    ∀ task ∈ tasks, task.toolCalls ≠ [] ∧
      ∀ tool ∈ task.tools, ∃ call ∈ task.toolCalls, call.toolId = tool
  legacyRevision : schemaVersion ≠ .v12 → repositoryRevision ≠ none
  explicitContext : schemaVersion = .v12 →
    ∃ context, executionContext = some context ∧ repositoryRevision = context.repositoryRevision
deriving DecidableEq

/-- The exact identity of the mission guidance a plan used. -/
structure MissionTemplateReference where
  templateId : String
  version : String
  source : String
  provenance : List String
  catalogueId : String
  catalogueRevision : String
  definitionFingerprint : String
  provenanceNonempty : provenance ≠ []
deriving Repr

instance : DecidableEq MissionTemplateReference := fun a b =>
  decidable_of_iff
    (a.templateId = b.templateId ∧ a.version = b.version ∧ a.source = b.source ∧
      a.provenance = b.provenance ∧ a.catalogueId = b.catalogueId ∧
      a.catalogueRevision = b.catalogueRevision ∧
      a.definitionFingerprint = b.definitionFingerprint)
    (by cases a; cases b; simp)

/-- The identity of the roster, and of the mission if there is one, a plan was made under. -/
structure PlanOrganizationBinding where
  organizationId : String
  organizationVersion : String
  organizationFingerprint : String
  missionId : Option Uuid := none
  missionOriginId : Option Uuid := none
  missionTemplateReference : Option MissionTemplateReference := none
  lineageNeedsMission : missionId = none →
    missionOriginId = none ∧ missionTemplateReference = none := by simp
  templateNeedsOrigin : missionTemplateReference ≠ none → missionOriginId ≠ none := by simp
deriving DecidableEq

structure AcceptedPlan extends PlanCandidate where
  fingerprint : String
  discoveryFingerprint : String
  registry : Option RegistrySnapshot := none
  toolBindings : List ToolBinding := []
  policyFingerprint : Option String := none
  approvals : List ApprovalEvidence := []
  authorizations : List AuthorizationDecision := []
  organizationBinding : Option PlanOrganizationBinding := none
  lineageComplete : schemaVersion ≠ .v10 →
    registry ≠ none ∧ toolBindings ≠ [] ∧ policyFingerprint ≠ none ∧ authorizations ≠ []
deriving DecidableEq

/-! ## Results and reviews -/

/-- The versions of the result and review schemas. -/
inductive EvidenceVersion where
  | v10 | v11
deriving DecidableEq

def EvidenceVersion.value : EvidenceVersion → String
  | .v10 => "1.0"
  | .v11 => "1.1"

structure InitializationResult where
  schemaVersion : EvidenceVersion := .v10
  repositoryRevision : Option String := none
  executionContext : Option PlanExecutionContext := none
  taskId : String
  summary : String
  citedPaths : List String
  findings : List String
  legacyRevision : schemaVersion = .v10 → repositoryRevision ≠ none
  explicitContext : schemaVersion = .v11 →
    ∃ context, executionContext = some context ∧ repositoryRevision = context.repositoryRevision
deriving DecidableEq

/-- The JSON form of a result, as `model_dump(mode="json")` writes it. -/
def InitializationResult.modelDump (result : InitializationResult) : Json :=
  .obj [("schema_version", .str result.schemaVersion.value),
    ("repository_revision", .ofOption result.repositoryRevision),
    ("execution_context", match result.executionContext with
      | some context => context.modelDump
      | none => .null),
    ("task_id", .str result.taskId), ("summary", .str result.summary),
    ("cited_paths", .strings result.citedPaths), ("findings", .strings result.findings)]

inductive Verdict where
  | accepted | rejected
deriving DecidableEq

structure ReviewDecision where
  schemaVersion : EvidenceVersion := .v10
  taskId : String
  producerIdentity : Option String := none
  evaluatorIdentity : Option String := none
  verdict : Verdict
  summary : String
  checkedCitations : List String
  issues : List String := []
  legacyLineage : schemaVersion = .v10 → producerIdentity = none ∧ evaluatorIdentity = none
  separatedLineage : schemaVersion = .v11 →
    producerIdentity ≠ none ∧ evaluatorIdentity ≠ none ∧ producerIdentity ≠ evaluatorIdentity
deriving DecidableEq

end Mishkan
