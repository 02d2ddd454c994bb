import Mishkan.Missions.AssignmentGraph
import Mishkan.Missions.Store

/-!
# Missions/Repository — the mission repository

Each operation is one transaction.  Recording a record whose identity is durable compares the two
and changes nothing; otherwise the mission is read back through its validator, the record is checked
against it, and the two are written together.  The clock is an argument.
-/

namespace Mishkan

open Refusal

/-- The permitted moves of a mission. -/
def missionTransitions : MissionState → List MissionState
  | .proposed => [.clarifying, .cancelled]
  | .clarifying => [.planned, .blocked, .cancelled]
  | .planned => [.active, .paused, .blocked, .cancelled]
  | .active => [.paused, .blocked, .evaluating, .failed, .cancelled]
  | .paused => [.active, .blocked, .cancelled]
  | .blocked => [.active, .paused, .failed, .cancelled]
  | .evaluating => [.remediating, .completed, .failed, .paused]
  | .remediating => [.active, .evaluating, .failed, .cancelled]
  | .completed | .failed | .cancelled => []

namespace MissionStore

/-! ## Shared checks and reads -/

/-- Record a value under an identity: replay it if the identity is durable, or do the work. -/
def replayOr {α : Type} [DecidableEq α] (s : MissionStore) (existing : Option α) (requested : α)
    (message : String) (fresh : Except Raised MissionStore) : Except Raised (α × MissionStore) :=
  match existing with
  | some durable => do
    refuseIf (durable ≠ requested) <| fault .duplicateResult message
    return (requested, s)
  | none => do
    let s ← fresh
    return (requested, s)

/-- **A recorded identity is a replay or the work done.** -/
theorem replayOr_eq_ok {α : Type} [DecidableEq α] {s s' : MissionStore} {existing : Option α}
    {requested r : α} {message : String} {fresh : Except Raised MissionStore} :
    s.replayOr existing requested message fresh = .ok (r, s') ↔ r = requested ∧
      ((existing = some requested ∧ s' = s) ∨ (existing = none ∧ fresh = .ok s')) := by
  cases existing with
  | none =>
    simp only [replayOr, bind_eq_ok, return_eq_ok, reduceCtorEq, false_and, true_and, false_or]
    grind
  | some durable =>
    simp only [replayOr, bind_eq_ok, refuseIf_eq_ok, return_eq_ok, reduceCtorEq, false_and,
      or_false, Option.some.injEq, not_not, exists_const]
    grind

/-- The message of a reused identity. -/
def reused : String := "durable mission identity already contains different content"

def requireMissionRow (s : MissionStore) (id : Uuid) : Except Raised MissionRow :=
  require (s.mission? id) <| fault .mission "mission does not exist"

/-- Read a mission back. -/
def mission (s : MissionStore) (id : Uuid) : Except Raised MissionRecord := do
  let row ← s.requireMissionRow id
  row.payload.modelValidate

def requireRevision (mission : MissionRecord) (expectedRevision : Nat) : Except Raised Unit :=
  refuseIf (mission.revision ≠ expectedRevision) <|
    fault .revisionMismatch "mission revision changed before mutation"
      [("expected", .int expectedRevision), ("current", .int mission.revision)]

def requireOrganization (s : MissionStore) (organizationId organizationVersion : String) :
    Except Raised OrganizationRosterDefinition :=
  require (s.organizations.find fun o => o.organizationId = organizationId
    ∧ o.organizationVersion = organizationVersion) <|
    fault .mission "mission organization version is not registered"

def briefRow (s : MissionStore) (missionId : Uuid) (version : Nat) : Except Raised MissionBrief :=
  require (s.brief? missionId version) <| fault .mission "Mission Brief revision does not exist"

def crewRow (s : MissionStore) (missionId : Uuid) (version : Nat) :
    Except Raised MissionCrewRevision :=
  require (s.crew? missionId version) <| fault .mission "Mission Crew revision does not exist"

/-- A row with another record projected onto its columns. -/
def project (record : MissionRecord) (row : MissionRow) : MissionRow :=
  { row with
    state := record.state
    revision := record.revision
    currentBriefVersion := record.currentBriefVersion
    currentCrewVersion := record.currentCrewVersion
    currentEnvironmentPlanVersion := record.currentEnvironmentPlanVersion
    payload := record
    updatedAt := record.updatedAt }

theorem project_key (record : MissionRecord) (row : MissionRow) :
    Keyed.key (project record row) = Keyed.key row := rfl

def updateMissionRow (s : MissionStore) (id : Uuid) (record : MissionRecord) : MissionStore :=
  { s with missions := s.missions.update (·.id = id) (project record) (project_key record) }

/-! ## Organizations and missions -/

def recordOrganization (s : MissionStore) (organization : OrganizationRosterDefinition) :
    Except Raised (OrganizationRosterDefinition × MissionStore) :=
  s.replayOr (s.organizations.find fun o => o.organizationId = organization.organizationId
      ∧ o.organizationVersion = organization.organizationVersion) organization reused do
    let organizations ← require (s.organizations.insert organization) .integrityError
    return { s with organizations := organizations }

/-- The row of a new mission: it has no current versions yet. -/
def proposedRow (durable : MissionRecord) : MissionRow where
  id := durable.missionId
  state := durable.state
  revision := durable.revision
  organizationId := durable.organizationId
  organizationVersion := durable.organizationVersion
  currentBriefVersion := none
  currentCrewVersion := none
  currentEnvironmentPlanVersion := none
  payload := durable
  updatedAt := durable.updatedAt

def createMission (s : MissionStore) (record : MissionRecord) :
    Except Raised (MissionRecord × MissionStore) := do
  refuseIf (record.revision ≠ 0 ∨ record.state ≠ .proposed) <|
    fault .mission "new mission must begin as an unpersisted proposed record"
  let durable := { record with revision := 1 }
  let _ ← s.requireOrganization durable.organizationId durable.organizationVersion
  s.replayOr ((s.mission? durable.missionId).map (·.payload)) durable reused do
    let missions ← require (s.missions.insert (proposedRow durable)) .integrityError
    return { s with missions := missions }

/-! ## Briefs and crews -/

/-- What a new Brief leaves of its mission. -/
def withBrief (mission : MissionRecord) (version : Nat) (now : Instant) : MissionRecord :=
  { mission with
    revision := mission.revision + 1
    state := .clarifying
    currentBriefVersion := some version
    updatedAt := now }

def recordBrief (s : MissionStore) (brief : MissionBrief) (expectedRevision : Nat)
    (now : Instant) : Except Raised (MissionBrief × MissionStore) :=
  s.replayOr (s.briefs.find (·.briefId = brief.briefId)) brief reused do
    let mission ← s.mission brief.missionId
    requireRevision mission expectedRevision
    refuseIf (mission.state.isTerminal = true) <|
      fault .mission "terminal mission cannot accept a new Brief"
    refuseIf (brief.organizationId ≠ mission.organizationId
        ∨ brief.organizationVersion ≠ mission.organizationVersion) <|
      fault .mission "Mission Brief organization does not match"
    let expectedVersion := mission.currentBriefVersion.getD 0 + 1
    refuseIf (brief.version ≠ expectedVersion) <|
      fault .revisionMismatch "Mission Brief version is stale or skips a revision"
        [("expected", .int expectedVersion), ("received", .int brief.version)]
    let roster ← s.requireOrganization mission.organizationId mission.organizationVersion
    let unknown := brief.proposedCrew.filter (· ∉ roster.identities.map (·.identityId))
    refuseIf (unknown ≠ []) <|
      fault .mission "Mission Brief proposes unknown professional identities"
        [("unknown", .strings (unknown.insertionSort (· ≤ ·)))]
    refuseIf ((s.brief? brief.missionId brief.version).isSome = true) <|
      fault .duplicateResult "Mission Brief version already has another immutable identity"
    let briefs ← require (s.briefs.insert brief) .integrityError
    return { s with briefs := briefs }.updateMissionRow brief.missionId
      (withBrief mission brief.version now)

/-- What an identity may be assigned to: an independent responsibility needs an authority of its
own. -/
def requireAssignmentAuthority (kind : CrewAssignmentKind) (authorityLimits : List String) :
    Except Raised Unit :=
  let required : Option String := match kind with
    | .evaluation => some "evaluation."
    | .reporting => some "reporting."
    | .audit => some "audit."
    | .production | .contributor => none
  match required with
  | none => .ok ()
  | some required =>
    refuseIf (∀ authority ∈ authorityLimits, ¬ required.toList <+: authority.toList) <|
      fault .roleConflict
        "professional profile does not cover the assigned independent responsibility"
        [("assignment_kind", .str kind.value)]

/-- Every member is a known identity that may hold what it is assigned. -/
def requireMembers (roster : OrganizationRosterDefinition) (crew : MissionCrewRevision) :
    Except Raised Unit :=
  crew.members.forM fun member => do
    let identity ← require (roster.identities.find? (·.identityId = member.identityId)) <|
      fault .mission "Mission Crew identity is unknown"
    refuseIf (member.identityId = crew.missionLeadId ∧ ¬ identity.missionLeadEligible = true) <|
      fault .roleConflict "selected professional identity cannot hold Mission Lead responsibility"
    requireAssignmentAuthority member.assignmentKind identity.authorityLimits

/-- What a new crew leaves of its mission. -/
def withCrew (mission : MissionRecord) (version : Nat) (now : Instant) : MissionRecord :=
  { mission with
    revision := mission.revision + 1
    currentCrewVersion := some version
    updatedAt := now }

def recordCrew (s : MissionStore) (crew : MissionCrewRevision) (expectedRevision : Nat)
    (now : Instant) : Except Raised (MissionCrewRevision × MissionStore) :=
  s.replayOr (s.crews.find (·.crewId = crew.crewId)) crew reused do
    let mission ← s.mission crew.missionId
    requireRevision mission expectedRevision
    refuseIf (crew.organizationId ≠ mission.organizationId
        ∨ crew.organizationVersion ≠ mission.organizationVersion) <|
      fault .mission "Mission Crew organization does not match"
    refuseIf (some crew.briefVersion ≠ mission.currentBriefVersion) <|
      fault .revisionMismatch "Mission Crew does not reference the current Mission Brief"
    let brief ← s.briefRow crew.missionId crew.briefVersion
    refuseIf (brief.status ≠ .confirmed) <|
      fault .mission "Mission Crew requires a jointly confirmed Mission Brief"
    let pm ← require brief.pmConfirmation <|
      fault .mission "Mission Brief confirmations are incomplete"
    let cto ← require brief.ctoConfirmation <|
      fault .mission "Mission Brief confirmations are incomplete"
    refuseIf (crew.pmCompositionConfirmationId ≠ pm.confirmationId
        ∨ crew.ctoCoverageConfirmationId ≠ cto.confirmationId) <|
      fault .mission "Mission Crew confirmation lineage does not match its Brief"
    let expectedVersion := mission.currentCrewVersion.getD 0 + 1
    refuseIf (crew.version ≠ expectedVersion) <|
      fault .revisionMismatch "Mission Crew version is stale or skips a revision"
        [("expected", .int expectedVersion), ("received", .int crew.version)]
    refuseIf (¬ ((∀ member ∈ crew.members, member.identityId ∈ brief.proposedCrew)
        ∧ ∀ id ∈ brief.proposedCrew, id ∈ crew.members.map (·.identityId))) <|
      fault .mission "Mission Crew must match the current PM/CTO-confirmed composition"
    let roster ← s.requireOrganization mission.organizationId mission.organizationVersion
    requireMembers roster crew
    refuseIf ((s.crew? crew.missionId crew.version).isSome = true) <|
      fault .duplicateResult "Mission Crew version already has another immutable identity"
    let crews ← require (s.crews.insert crew) .integrityError
    return { s with crews := crews }.updateMissionRow crew.missionId
      (withCrew mission crew.version now)

/-! ## Assignments -/

/-- The crew kinds that may contribute to work of a kind. -/
def allowedContributorKinds : CrewAssignmentKind → List CrewAssignmentKind
  | .production | .contributor => [.production, .contributor]
  | .evaluation | .audit => [.evaluation, .audit]
  | .reporting => [.reporting]

/-- Some item of the coverage contains the word. -/
def covers (coverage : List String) (word : String) : Prop :=
  ∃ item ∈ coverage, word.toList <:+: lower item

instance (coverage : List String) (word : String) : Decidable (covers coverage word) :=
  inferInstanceAs (Decidable (∃ _ ∈ _, _))

/-- The fields of an assignment that only replanning changes. -/
structure AssignmentContract where
  taskId : String
  assignmentKind : CrewAssignmentKind
  expectedResult : String
  completionCriteria : List String
  dependencies : List String
  executionRunId : Option String
  executionTaskId : Option String
  environmentContextIds : List String
  authorityScope : List String
  exactTools : List String
  pathScopes : List String
  limits : List MissionResourceLimit
  requiredEvidence : List String
  requiresIndependentEvaluation : Bool
deriving DecidableEq

def contractOf (a : MissionTaskAssignment) : AssignmentContract :=
  { a with }

def requireAssignmentChangeGovernance (assignment prior : MissionTaskAssignment)
    (crew : MissionCrewRevision) : Except Raised Unit := do
  let change ← require assignment.change <|
    fault .mission "revised assignment is missing its governed change lineage"
  refuseIf (change.priorAssignmentId ≠ prior.assignmentId
      ∨ change.priorAssignmentRevision ≠ prior.assignmentRevision) <|
    fault .revisionMismatch "assignment change does not reference the exact prior assignment"
  refuseIf (change.requestedByIdentity ≠ crew.missionLeadId) <|
    fault .authorityNotGranted "only the current Mission Lead may request an assignment change"
  refuseIf (contractOf prior ≠ contractOf assignment ∧ change.changeKind ≠ .replanned) <|
    fault .plan "assignment change outside the accepted task contract requires replanning"
  let ownerOrCompositionChanged := prior.accountableOwner ≠ assignment.accountableOwner
    ∨ prior.crewVersion ≠ assignment.crewVersion
  if ownerOrCompositionChanged then
    refuseIf (change.changeKind = .inPlanLocal) <|
      fault .authorityNotGranted
        "local Mission Lead authority cannot change formal ownership or composition"
    let cto ← require change.ctoCoverageConfirmation <|
      fault .authorityNotGranted "formal reassignment requires CTO coverage then PM confirmation"
    let pm ← require change.pmReassignmentConfirmation <|
      fault .authorityNotGranted "formal reassignment requires CTO coverage then PM confirmation"
    refuseIf (¬ ∀ word ∈ ["technical", "security", "quality"], covers cto.coverage word) <|
      fault .roleConflict
        "CTO reassignment confirmation omits technical, security, or quality coverage"
    refuseIf (cto.confirmedAt > pm.confirmedAt) <|
      fault .authorityNotGranted
        "PM reassignment confirmation must follow CTO coverage confirmation"
  else
    refuseIf (change.changeKind = .formalReassignment) <|
      fault .mission "formal reassignment must change accountable ownership or crew composition"
  refuseIf (contractOf prior = contractOf assignment ∧ ¬ ownerOrCompositionChanged
      ∧ prior.contributors = assignment.contributors) <|
    fault .mission "assignment revision does not change anything"

/-- A revised assignment is governed; the first one needs no change. -/
def requireGoverned (assignment : MissionTaskAssignment) (prior : Option MissionTaskAssignment)
    (crew : MissionCrewRevision) : Except Raised Unit :=
  match prior with
  | some prior => requireAssignmentChangeGovernance assignment prior crew
  | none => .ok ()

/-- The latest assignment of a task of a mission. -/
def currentAssignment (s : MissionStore) (missionId : Uuid) (taskId : String) :
    Option MissionTaskAssignment :=
  Latest.get? (·.taskId) (·.assignmentRevision) (s.assignmentsOf missionId) taskId

def recordAssignment (s : MissionStore) (assignment : MissionTaskAssignment) :
    Except Raised (MissionTaskAssignment × MissionStore) :=
  s.replayOr (s.assignments.find (·.assignmentId = assignment.assignmentId)) assignment reused do
    let mission ← s.mission assignment.missionId
    refuseIf (some assignment.crewVersion ≠ mission.currentCrewVersion) <|
      fault .revisionMismatch "task assignment does not reference the current Mission Crew"
    let crew ← s.crewRow assignment.missionId assignment.crewVersion
    let brief ← s.briefRow assignment.missionId crew.briefVersion
    refuseIf (assignment.environmentContextIds ≠ []
        ∧ ¬ brief.environmentIntent.environmentDependent = true) <|
      fault .plan ("task cannot declare environment contexts when the Brief has no "
        ++ "environment-dependent work")
    let unknown := (assignment.accountableOwner :: assignment.contributors).filter fun id =>
      (crew.member? id).isNone
    refuseIf (unknown ≠ []) <|
      fault .mission "task assignment contains identities outside the current Mission Crew"
        [("unknown", .strings (unknown.insertionSort (· ≤ ·)))]
    let owner ← require (crew.member? assignment.accountableOwner) <|
      .keyError assignment.accountableOwner
    refuseIf (owner.assignmentKind ≠ assignment.assignmentKind) <|
      fault .roleConflict "task responsibility differs from its accountable crew assignment"
        [("task_id", .str assignment.taskId), ("task_kind", .str assignment.assignmentKind.value),
          ("crew_kind", .str owner.assignmentKind.value)]
    let conflicting := assignment.contributors.filter fun id => ¬ ∃ member ∈ crew.member? id,
      member.assignmentKind ∈ allowedContributorKinds assignment.assignmentKind
    refuseIf (conflicting ≠ []) <|
      fault .roleConflict "task contributors violate responsibility separation"
        [("task_id", .str assignment.taskId),
          ("conflicting_identity_ids", .strings (conflicting.insertionSort (· ≤ ·)))]
    let prior := s.currentAssignment assignment.missionId assignment.taskId
    let expectedRevision := 1 + (prior.map (·.assignmentRevision)).getD 0
    refuseIf (assignment.assignmentRevision ≠ expectedRevision) <|
      fault .revisionMismatch "task assignment revision is stale or skips a revision"
        [("expected", .int expectedRevision), ("received", .int assignment.assignmentRevision)]
    requireGoverned assignment prior crew
    let assignments ← require (s.assignments.insert assignment) .integrityError
    return { s with assignments := assignments }

/-! ## Lifecycle -/

/-- The gate of the active state: the current crew is of the current Brief, and the assignments are
of the current crew and valid. -/
def requireActivation (s : MissionStore) (mission : MissionRecord) (crewVersion : Nat) :
    Except Raised Unit := do
  let currentCrew ← s.crewRow mission.missionId crewVersion
  refuseIf (some currentCrew.briefVersion ≠ mission.currentBriefVersion) <|
    fault .revisionMismatch "current Mission Crew does not reference the current Mission Brief"
  let assignments := s.assignmentsOf mission.missionId
  let latest := MissionAssignmentGraphValidator.latest assignments
  let stale := latest.filter (some ·.crewVersion ≠ mission.currentCrewVersion)
  refuseIf (stale ≠ []) <|
    fault .revisionMismatch "mission task assignments do not reference the current Mission Crew"
      [("task_ids", .strings ((stale.map (·.taskId)).insertionSort (· ≤ ·)))]
  MissionAssignmentGraphValidator.validate assignments

/-- Only the active state is gated. -/
def requireGate (s : MissionStore) (mission : MissionRecord) (state : MissionState) :
    Except Raised Unit :=
  match state, mission.currentCrewVersion with
  | .active, some crewVersion => s.requireActivation mission crewVersion
  | _, _ => .ok ()

/-- What a transition leaves of its mission. -/
def moved (mission : MissionRecord) (state : MissionState) (now : Instant) : MissionRecord :=
  { mission with
    state := state
    revision := mission.revision + 1
    updatedAt := now }

def transition (s : MissionStore) (transition : MissionTransition) (expectedRevision : Nat)
    (now : Instant) : Except Raised (MissionTransition × MissionStore) :=
  s.replayOr (s.transitions.find (·.transitionId = transition.transitionId)) transition reused do
    let mission ← s.mission transition.missionId
    requireRevision mission expectedRevision
    refuseIf (transition.fromState ≠ mission.state) <|
      fault .revisionMismatch "mission transition starts from a stale state"
        [("expected", .str mission.state.value), ("received", .str transition.fromState.value)]
    refuseIf (transition.toState ∉ missionTransitions mission.state) <|
      fault .mission "mission lifecycle transition is not permitted"
        [("from", .str mission.state.value), ("to", .str transition.toState.value)]
    refuseIf (transition.toState ≠ .clarifying ∧ transition.toState ≠ .cancelled
        ∧ (mission.currentBriefVersion = none ∨ mission.currentCrewVersion = none)) <|
      fault .mission "mission cannot advance without a current Brief and Mission Crew"
    s.requireGate mission transition.toState
    let transitions ← require (s.transitions.insert transition) .integrityError
    return { s with transitions := transitions }.updateMissionRow transition.missionId
      (moved mission transition.toState now)

/-! ## Run bindings -/

/-- The run with an identifier, by its text. -/
def run? (s : MissionStore) (runId : String) : Option RunRow :=
  s.runs.runs.find (·.id.text = runId)

/-- The accepted plan of a run. -/
def plan? (s : MissionStore) (runId : String) : Option AcceptedPlan :=
  (s.runs.plans.find (·.runId.text = runId)).map (·.payload)

/-- The bindings of a mission, in the order they were recorded. -/
def bindingsOf (s : MissionStore) (missionId : Uuid) : List MissionRunBinding :=
  s.bindings.select (·.missionId = missionId)

/-- Key and revision identify a binding of a mission. -/
theorem bindingsOf_inj {s : MissionStore} {id : Uuid} : ∀ a ∈ s.bindingsOf id,
    ∀ b ∈ s.bindingsOf id, a.bindingKey = b.bindingKey → a.bindingRevision = b.bindingRevision →
      a = b := by
  intro a ha b hb hkey hrevision
  obtain ⟨ha, hida⟩ := Table.mem_select.mp ha
  obtain ⟨hb, hidb⟩ := Table.mem_select.mp hb
  simp only [decide_eq_true_eq] at hida hidb
  exact Table.eq_of_clash ha hb (by simp [Keyed.clash, Keyed.key, hida, hidb, hkey, hrevision])

/-- The latest binding of every key. -/
def latestBindings (bindings : List MissionRunBinding) : List MissionRunBinding :=
  Latest.latest (·.bindingKey) (·.bindingRevision) bindings

/-- What a settlement may not rewrite. -/
structure BindingLineage where
  schemaVersion : ContractVersion
  missionId : Uuid
  bindingKey : String
  missionTaskId : String
  assignmentId : Option Uuid
  assignmentRevision : Option Nat
  runId : String
  executionTaskId : String
  planFingerprint : Option String
  executionContext : PlanExecutionContext
  dependsOnBindingKeys : List String
  authorityScope : List String
  pathScopes : List String
deriving DecidableEq

def lineageOf (b : MissionRunBinding) : BindingLineage := { b with }

def requireRunBindingTransition (prior current : MissionRunBinding) : Except Raised Unit := do
  refuseIf (lineageOf prior ≠ lineageOf current) <|
    fault .revisionMismatch "mission run settlement cannot rewrite its accepted binding lineage"
  refuseIf (prior.acceptance ≠ .pending) <|
    fault .duplicateResult "settled mission run binding is terminal"
  refuseIf (current.acceptance = .pending) <|
    fault .revisionMismatch "mission run binding revision must settle its pending relationship"

/-- A further revision of a binding settles the one before it. -/
def requireSettles (prior : Option MissionRunBinding) (current : MissionRunBinding) :
    Except Raised Unit :=
  match prior with
  | some prior => requireRunBindingTransition prior current
  | none => .ok ()

/-- The contract of a tool is not of class read. -/
def changesWorkspace (registry : RegistrySnapshot) (toolId : String) : Bool :=
  match registry.require toolId with
  | .ok contract => contract.effectClass ≠ .read
  | .error _ => false

/-- The plan binds exactly the assigned tools, at the versions of its registry. -/
def requireExactToolResolution (plan : AcceptedPlan) (executionTaskId : String)
    (assignment : MissionTaskAssignment) : Except Raised Unit := do
  let registry ← require plan.registry <|
    fault .plan "mission execution requires an immutable tool registry snapshot"
  let bindings := plan.toolBindings.filter fun item =>
    item.taskId = executionTaskId ∧ item.role = assignment.accountableOwner
  let boundIds := bindings.map (·.toolId)
  refuseIf (¬ (boundIds.Nodup ∧ (∀ id ∈ boundIds, id ∈ assignment.exactTools)
      ∧ ∀ id ∈ assignment.exactTools, id ∈ boundIds)) <|
    fault .authorityNotGranted
      "mission task does not have one exact resolved binding for every assigned tool"
  bindings.forM fun item => do
    let contract ← (registry.require item.toolId).mapError fun _ =>
      fault .plan "mission tool binding is absent from its immutable registry snapshot"
    refuseIf (item.toolVersion ≠ contract.version
        ∨ item.contractFingerprint ≠ contract.provenanceFingerprint
        ∨ item.registryFingerprint ≠ registry.fingerprint) <|
      fault .plan
        "mission tool identity or version differs from its immutable registry snapshot"
  refuseIf (assignment.assignmentKind = .production
      ∧ (assignment.exactTools.any (changesWorkspace registry)) = true
      ∧ ¬ assignment.requiresIndependentEvaluation = true) <|
    fault .roleConflict
      "workspace-changing production requires independent downstream evaluation"

/-- The bindings a binding depends on are known, and with it they have no cycle. -/
def requireRunBindingDependencies (s : MissionStore) (binding : MissionRunBinding) :
    Except Raised Unit := do
  let latest := latestBindings (s.bindingsOf binding.missionId)
  let keys := latest.map (·.bindingKey)
  let missing := binding.dependsOnBindingKeys.filter (· ∉ keys)
  refuseIf (missing ≠ []) <|
    fault .plan "mission run binding references unknown mission-level dependencies"
      [("missing_binding_keys", .strings (missing.insertionSort (· ≤ ·)))]
  DepthFirst.requireAcyclic
    (fun key => .ok <| if key = binding.bindingKey then binding.dependsOnBindingKeys else
      ((latest.find? (·.bindingKey = key)).map (·.dependsOnBindingKeys)).getD [])
    (fault .plan "mission run dependencies contain a cycle")
    (if binding.bindingKey ∈ keys then keys else keys ++ [binding.bindingKey])

/-- A settled binding is backed by the evidence of its run. -/
def requireRunBindingSettlement (s : MissionStore) (binding : MissionRunBinding)
    (assignment : MissionTaskAssignment) : Except Raised Unit :=
  let reference := fun kind => kind ++ ":" ++ binding.runId ++ ":" ++ binding.executionTaskId
  match binding.acceptance with
  | .pending => .ok ()
  | .accepted => do
    refuseIf (reference "run-result" ∉ binding.resultReferences) <|
      fault .outputContract "mission run settlement omits its exact durable result reference"
    let result := s.runs.results.find fun r =>
      r.runId.text = binding.runId ∧ r.taskKey = binding.executionTaskId
    let acceptance := s.runs.acceptances.find fun r =>
      r.runId.text = binding.runId ∧ r.taskKey = binding.executionTaskId
    let unbacked := fault .decisionValidation
      "mission run acceptance is not backed by durable task acceptance"
    let _ ← require result unbacked
    let acceptance ← require acceptance unbacked
    refuseIf (reference "run-acceptance" ∉ binding.acceptanceReferences) unbacked
    let review := acceptance.reviewPayload
    refuseIf (review.schemaVersion ≠ .v11
        ∨ review.producerIdentity ≠ some assignment.accountableOwner) <|
      fault .roleConflict
        "mission task acceptance lacks exact separated producer and evaluator lineage"
        [("execution_task_id", .str binding.executionTaskId)]
  | .rejected => do
    refuseIf (reference "run-result" ∉ binding.resultReferences) <|
      fault .outputContract "mission run settlement omits its exact durable result reference"
    let rejection := s.runs.rejections.find fun r =>
      r.runId.text = binding.runId ∧ r.taskKey = binding.executionTaskId
    refuseIf (rejection = none ∨ reference "run-rejection" ∉ binding.acceptanceReferences) <|
      fault .decisionValidation
        "mission run rejection is not backed by durable review evidence"

/-- The plan of the run was made for this mission. -/
def requirePlanLineage (mission : MissionRecord) (plan : AcceptedPlan) : Except Raised Unit := do
  let foreign := fault .plan
    "accepted run plan does not carry this mission and organization identity"
  let organization ← require plan.organizationBinding foreign
  refuseIf (organization.organizationId ≠ mission.organizationId
      ∨ organization.organizationVersion ≠ mission.organizationVersion
      ∨ organization.missionId ≠ some mission.missionId) foreign
  refuseIf (mission.origin.schemaVersion = .v11
      ∧ (organization.missionOriginId ≠ some mission.origin.originId
        ∨ organization.missionTemplateReference ≠ mission.origin.templateReference)) <|
    fault .plan "accepted run plan does not preserve the exact mission origin and template"

/-- The binding is what its assignment and the plan task say. -/
def requireAssignedBinding (binding : MissionRunBinding) (assignment : MissionTaskAssignment)
    (plan : AcceptedPlan) (task : PlanTask) : Except Raised Unit :=
  refuseIf (binding.schemaVersion ≠ .v11
      ∨ binding.assignmentId ≠ some assignment.assignmentId
      ∨ binding.assignmentRevision ≠ some assignment.assignmentRevision
      ∨ assignment.executionRunId ≠ some binding.runId
      ∨ assignment.executionTaskId ≠ some binding.executionTaskId
      ∨ assignment.accountableOwner ≠ task.assignedRole
      ∨ assignment.exactTools ≠ task.tools
      ∨ binding.planFingerprint ≠ some plan.fingerprint
      ∨ assignment.authorityScope ≠ binding.authorityScope
      ∨ assignment.pathScopes ≠ binding.pathScopes) <|
    fault .authorityNotGranted
      "mission run binding exceeds or contradicts its accepted task assignment"

def recordRunBinding (s : MissionStore) (binding : MissionRunBinding) :
    Except Raised (MissionRunBinding × MissionStore) :=
  s.replayOr (s.bindings.find (·.bindingId = binding.bindingId)) binding reused do
    let mission ← s.mission binding.missionId
    let run ← require (s.run? binding.runId) <|
      fault .mission "mission run binding references no run"
    refuseIf (binding.executionContext ≠ run.context) <|
      fault .revisionMismatch
        "mission run binding context differs from the exact durable run context"
    let plan ← require (s.plan? binding.runId) <|
      fault .plan "mission run binding requires an accepted plan"
    requirePlanLineage mission plan
    let task ← require (plan.tasks.find? (·.taskId = binding.executionTaskId)) <|
      fault .plan "mission run binding references no exact accepted plan task"
    let assignment ← require (s.currentAssignment binding.missionId binding.missionTaskId) <|
      fault .mission "mission run binding references no current mission task assignment"
    requireAssignedBinding binding assignment plan task
    requireExactToolResolution plan task.taskId assignment
    let prior := Latest.get? (·.bindingKey) (·.bindingRevision) (s.bindingsOf binding.missionId)
      binding.bindingKey
    let expectedRevision := 1 + (prior.map (·.bindingRevision)).getD 0
    refuseIf (binding.bindingRevision ≠ expectedRevision) <|
      fault .revisionMismatch "mission run binding revision is stale or skips a revision"
        [("expected", .int expectedRevision), ("received", .int binding.bindingRevision)]
    requireSettles prior binding
    s.requireRunBindingDependencies binding
    s.requireRunBindingSettlement binding assignment
    refuseIf (∃ row ∈ s.bindingsOf binding.missionId, row.runId = binding.runId
        ∧ row.bindingKey ≠ binding.bindingKey ∧ row.executionTaskId = binding.executionTaskId) <|
      fault .mission "one run task cannot be bound to multiple mission tasks"
    let bindings ← require (s.bindings.insert binding) .integrityError
    return { s with bindings := bindings }

end MissionStore
end Mishkan
