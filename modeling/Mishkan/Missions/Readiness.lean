import Mishkan.Missions.Reports

/-!
# Missions/Readiness — task readiness from accepted environment evidence

A context of a task is ready when the current environment plan decides on it, the decision is
resolved by a compatible binding, and the newest verification for the accepted observation is a
verified one.  The state of a binding is the one its repository reports, after any invalidation.

`uuid5` is the name-based identifier of a namespace and a name, and `available` says whether an
environment repository is configured.
-/

namespace Mishkan

open Refusal

inductive EnvironmentReadinessState where
  | notRequired | awaitingPlan | unresolved | serviceUnavailable | awaitingBinding | incompatible
  | stale | awaitingVerification | verificationFailed | verificationUncertain | eligible
deriving DecidableEq

structure EnvironmentContextReadiness where
  contextId : String
  state : EnvironmentReadinessState
  planId : Option Uuid := none
  planVersion : Option Nat := none
  bindingId : Option Uuid := none
  bindingRevision : Option Nat := none
  verificationId : Option Uuid := none
  reason : String
deriving DecidableEq

structure MissionTaskEnvironmentReadiness where
  taskId : String
  assignmentRevision : Nat
  state : EnvironmentReadinessState
  environmentReady : Bool
  contexts : List EnvironmentContextReadiness
  blockers : List String
deriving DecidableEq

structure MissionEnvironmentReadiness where
  missionId : Uuid
  missionRevision : Nat
  environmentPlanVersion : Option Nat
  tasks : List MissionTaskEnvironmentReadiness
  readyTaskIds : List String
  blockedTaskIds : List String
deriving DecidableEq

/-! ## Binding requests -/

/-- What readiness reads of the request for a binding. -/
structure EnvironmentBindingRequest where
  requestId : Uuid
  observationFingerprint : String
deriving DecidableEq

variable (uuid5 : Uuid → String → Uuid) (available : Bool)

/-- The request of a context.  A context that is listed twice counts as it is listed last, and a
request bounds its rationale more tightly than the decision it is taken from. -/
def MissionEnvironmentPlan.bindingRequest (plan : MissionEnvironmentPlan) (contextId : String) :
    Except Raised EnvironmentBindingRequest := do
  let missing := .valueError "mission environment plan does not contain the requested context"
  let context ← require (plan.contexts.reverse.find? (·.contextId = contextId)) missing
  let decision ← require (plan.decisions.find? (·.contextId = contextId)) missing
  refuseIf (4096 < decision.rationale.length) <|
    .valueError "rationale should have at most 4096 characters"
  return { requestId := uuid5 plan.planId ("context:" ++ contextId)
           observationFingerprint := context.observationFingerprint }

namespace MissionStore

/-! ## Environment queries -/

def bindingForRequest (s : MissionStore) (requestId : Uuid) : Option EnvironmentBinding :=
  s.environments.bindings.find? (·.requestId = requestId)

/-- All verifications of a binding, in the order they were recorded. -/
def orderedVerifications (s : MissionStore) (bindingId : Uuid) : List EnvironmentVerification :=
  (s.environments.verifications.filter (·.bindingId = bindingId)).insertionSort fun a b =>
    a.recordedAt ≤ b.recordedAt

def verificationsForBinding (s : MissionStore) (bindingId : Uuid) (limit : Nat) :
    List EnvironmentVerification :=
  (s.orderedVerifications bindingId).take limit

/-! ## Contexts -/

/-- What the verifications of a compatible binding say of a context. -/
def verifiedReadiness (readiness : EnvironmentContextReadiness)
    (verifications : List EnvironmentVerification) (fingerprint : String) :
    EnvironmentContextReadiness :=
  match verifications.reverse.find? (·.contextFingerprint = fingerprint) with
  | none =>
    { readiness with
      state := .awaitingVerification
      reason := "compatible binding has no current location-bound verification" }
  | some current =>
    if current.settlement = .verified then
      { readiness with
        verificationId := some current.verificationId
        state := .eligible
        reason := "accepted binding has current verified environment evidence" }
    else
      { readiness with
        verificationId := some current.verificationId
        state :=
          if current.settlement = .failed then .verificationFailed else .verificationUncertain
        reason := "environment verification settled as " ++ current.settlement.value }

/-- What the binding of a context says of it. -/
def boundReadiness (s : MissionStore) (readiness : EnvironmentContextReadiness)
    (binding : EnvironmentBinding) (fingerprint : String) : EnvironmentContextReadiness :=
  let readiness := { readiness with
    bindingId := some binding.bindingId
    bindingRevision := some binding.revision
    reason := binding.reason }
  match binding.state with
  | .stale => { readiness with state := .stale }
  | .incompatible => { readiness with state := .incompatible }
  | .unresolved => { readiness with state := .unresolved }
  | .compatible =>
    verifiedReadiness readiness (s.verificationsForBinding binding.bindingId 1000) fingerprint

/-- What the repository says of the request of a context. -/
def requestedReadiness (s : MissionStore) (readiness : EnvironmentContextReadiness)
    (request : EnvironmentBindingRequest) : EnvironmentContextReadiness :=
  match s.bindingForRequest request.requestId with
  | none =>
    { readiness with
      state := .awaitingBinding
      reason := "the accepted outcome has no resolved binding" }
  | some binding => s.boundReadiness readiness binding request.observationFingerprint

/-- What an accepted plan that covers a context says of it. -/
def plannedReadiness (s : MissionStore) (plan : MissionEnvironmentPlan)
    (decision : MissionEnvironmentDecision) (contextId : String) :
    Except Raised EnvironmentContextReadiness :=
  let readiness : EnvironmentContextReadiness :=
    { contextId := contextId
      planId := some plan.planId
      planVersion := some plan.version
      state := .unresolved
      reason := "the accepted agent-authored decision remains unresolved" }
  if decision.requestedOutcome = .unresolved then .ok readiness
  else if ¬ available = true then .ok
    { readiness with
      state := .serviceUnavailable
      reason := "the environment evidence repository is unavailable" }
  else do
    let request ← plan.bindingRequest uuid5 contextId
    return s.requestedReadiness readiness request

/-- A context no plan covers. -/
def uncovered (contextId : String) : EnvironmentContextReadiness where
  contextId := contextId
  state := .awaitingPlan
  reason := "no current accepted plan covers this declared task context"

def contextReadiness (s : MissionStore) (acceptance : Option MissionEnvironmentPlanAcceptance)
    (contextId : String) : Except Raised EnvironmentContextReadiness :=
  match acceptance with
  | none => .ok (uncovered contextId)
  | some acceptance =>
    match acceptance.plan.decisions.find? (·.contextId = contextId) with
    | none => .ok (uncovered contextId)
    | some decision =>
      if contextId ∈ acceptance.plan.contexts.map (·.contextId) then
        s.plannedReadiness uuid5 available acceptance.plan decision contextId
      else .ok (uncovered contextId)

/-! ## Tasks -/

def taskReadiness (s : MissionStore) (acceptance : Option MissionEnvironmentPlanAcceptance)
    (a : MissionTaskAssignment) : Except Raised MissionTaskEnvironmentReadiness :=
  if a.environmentContextIds = [] then .ok
    { taskId := a.taskId
      assignmentRevision := a.assignmentRevision
      state := .notRequired
      environmentReady := true
      contexts := []
      blockers := [] }
  else do
    let contexts ← a.environmentContextIds.mapM (s.contextReadiness uuid5 available acceptance)
    let pending := contexts.filter (·.state ≠ .eligible)
    return { taskId := a.taskId
             assignmentRevision := a.assignmentRevision
             state := (pending.head?.map (·.state)).getD .eligible
             environmentReady := pending.isEmpty
             contexts := contexts
             blockers := pending.map (·.reason) }

/-- The accepted plan of the current Brief and crew. -/
def currentAcceptance (s : MissionStore) (missionId : Uuid) (mission : MissionRecord) :
    Except Raised (Option MissionEnvironmentPlanAcceptance) :=
  match mission.currentEnvironmentPlanVersion with
  | none => .ok none
  | some _ => do
    let recorded ← s.environmentPlan missionId none
    return (some recorded).filter fun acceptance =>
      some acceptance.plan.briefVersion = mission.currentBriefVersion
        ∧ some acceptance.plan.crewVersion = mission.currentCrewVersion

def inspectReadiness (s : MissionStore) (missionId : Uuid) :
    Except Raised MissionEnvironmentReadiness := do
  let mission ← s.mission missionId
  let assignments ← s.listAssignments missionId 1000
  let acceptance ← s.currentAcceptance missionId mission
  let latest := MissionAssignmentGraphValidator.latest assignments
  let tasks ← (latest.insertionSort fun a b => a.taskId ≤ b.taskId).mapM
    (s.taskReadiness uuid5 available acceptance)
  return { missionId := mission.missionId
           missionRevision := mission.revision
           environmentPlanVersion := acceptance.map (·.plan.version)
           tasks := tasks
           readyTaskIds := (tasks.filter (·.environmentReady)).map (·.taskId)
           blockedTaskIds := (tasks.filter (¬ ·.environmentReady)).map (·.taskId) }

/-! ## What readiness certifies -/

/-- The newest verification for an observation is a verified one; the verifications are listed in
the order they were recorded. -/
def NewestVerified (verifications : List EnvironmentVerification) (fingerprint : String) : Prop :=
  ∃ v ∈ verifications.reverse.find? (·.contextFingerprint = fingerprint), v.settlement = .verified

/-- A plan has a context verified: its decision is resolved, by a compatible binding, and the newest
verification for the accepted observation is a verified one. -/
def ContextVerified (s : MissionStore) (verifications : Uuid → List EnvironmentVerification)
    (plan : MissionEnvironmentPlan) (contextId : String) : Prop :=
  available = true ∧ ∃ decision ∈ plan.decisions.find? (·.contextId = contextId),
    decision.requestedOutcome ≠ .unresolved ∧
      ∃ request, plan.bindingRequest uuid5 contextId = .ok request ∧
        ∃ binding ∈ s.bindingForRequest request.requestId, binding.state = .compatible ∧
          NewestVerified (verifications binding.bindingId) request.observationFingerprint

/-- The verifications the gate sees. -/
def seen (s : MissionStore) (bindingId : Uuid) : List EnvironmentVerification :=
  s.verificationsForBinding bindingId 1000

section

variable {s : MissionStore} {uuid5 available}
  {acceptance : Option MissionEnvironmentPlanAcceptance} {a : MissionTaskAssignment}
  {contextId fingerprint : String} {readiness : EnvironmentContextReadiness}
  {verifications : List EnvironmentVerification}

theorem verifiedReadiness_eligible :
    (verifiedReadiness readiness verifications fingerprint).state = .eligible ↔
      NewestVerified verifications fingerprint := by
  unfold verifiedReadiness NewestVerified
  cases verifications.reverse.find? (·.contextFingerprint = fingerprint) with
  | none => simp
  | some current =>
    by_cases hverified : current.settlement = .verified
    · simp [hverified]
    · by_cases hfailed : current.settlement = .failed <;> simp [hverified, hfailed]

theorem boundReadiness_eligible {binding : EnvironmentBinding} :
    (s.boundReadiness readiness binding fingerprint).state = .eligible ↔
      binding.state = .compatible ∧ NewestVerified (s.seen binding.bindingId) fingerprint := by
  unfold boundReadiness
  cases binding.state with
  | compatible => simp only [verifiedReadiness_eligible, seen, true_and]
  | stale => simp
  | incompatible => simp
  | unresolved => simp

theorem requestedReadiness_eligible {request : EnvironmentBindingRequest} :
    (s.requestedReadiness readiness request).state = .eligible ↔
      ∃ binding ∈ s.bindingForRequest request.requestId, binding.state = .compatible ∧
        NewestVerified (s.seen binding.bindingId) request.observationFingerprint := by
  unfold requestedReadiness
  cases s.bindingForRequest request.requestId with
  | none => simp
  | some binding => simp [boundReadiness_eligible]

/-- **A context is ready exactly when a plan has it verified**, as far as the gate sees. -/
theorem contextReadiness_eligible :
    (∃ r, s.contextReadiness uuid5 available acceptance contextId = .ok r ∧ r.state = .eligible) ↔
      ∃ acc ∈ acceptance, s.ContextVerified uuid5 available s.seen acc.plan contextId := by
  unfold contextReadiness ContextVerified
  cases acceptance with
  | none => simp [uncovered]
  | some acc =>
    cases hdecision : acc.plan.decisions.find? (·.contextId = contextId) with
    | none => simp [uncovered, hdecision]
    | some decision =>
      have hmem : contextId ∈ acc.plan.contexts.map (·.contextId) := by
        rw [← acc.plan.decisionsExact]
        exact List.mem_map.mpr ⟨decision, List.mem_of_find?_eq_some hdecision,
          by simpa using List.find?_some hdecision⟩
      simp only [if_pos hmem, plannedReadiness, hdecision, Option.mem_def, Option.some.injEq,
        exists_eq_left']
      by_cases hunresolved : decision.requestedOutcome = .unresolved
      · simp [hunresolved]
      by_cases havailable : available = true
      · simp only [if_neg hunresolved, havailable, not_true, if_false, bind_eq_ok, pure_eq_ok,
          true_and]
        constructor
        · rintro ⟨_, ⟨request, hrequest, rfl⟩, hstate⟩
          exact ⟨hunresolved, request, hrequest, requestedReadiness_eligible.mp hstate⟩
        · rintro ⟨-, request, hrequest, hbinding⟩
          exact ⟨_, ⟨request, hrequest, rfl⟩, requestedReadiness_eligible.mpr hbinding⟩
      · simp [hunresolved, havailable]

/-- **A task is ready exactly when each of its contexts is.** -/
theorem taskReadiness_ready :
    (∃ r, s.taskReadiness uuid5 available acceptance a = .ok r ∧ r.environmentReady = true) ↔
      ∀ contextId ∈ a.environmentContextIds,
        ∃ acc ∈ acceptance, s.ContextVerified uuid5 available s.seen acc.plan contextId := by
  simp only [← contextReadiness_eligible, ← exists_mapM_iff]
  unfold taskReadiness
  split
  · rename_i hnone
    simp [hnone, pure_eq_ok]
  · simp only [bind_eq_ok, pure_eq_ok]
    constructor
    · rintro ⟨_, ⟨contexts, hcontexts, rfl⟩, hready⟩
      refine ⟨contexts, hcontexts, ?_⟩
      simpa using hready
    · rintro ⟨contexts, hcontexts, hready⟩
      refine ⟨_, ⟨contexts, hcontexts, rfl⟩, ?_⟩
      simpa using hready

/-- What readiness says of a task is of its assignment. -/
theorem taskReadiness_taskId {r : MissionTaskEnvironmentReadiness}
    (h : s.taskReadiness uuid5 available acceptance a = .ok r) : r.taskId = a.taskId := by
  unfold taskReadiness at h
  split at h
  · cases h
    rfl
  · simp only [bind_eq_ok, pure_eq_ok] at h
    obtain ⟨_, -, rfl⟩ := h
    rfl

/-- The accepted plan of the current Brief and crew. -/
def CurrentPlan (s : MissionStore) (id : Uuid) (mission : MissionRecord)
    (acc : MissionEnvironmentPlanAcceptance) : Prop :=
  acc ∈ s.environmentPlans ∧ acc.plan.missionId = id
    ∧ some acc.plan.version = mission.currentEnvironmentPlanVersion
    ∧ some acc.plan.briefVersion = mission.currentBriefVersion
    ∧ some acc.plan.crewVersion = mission.currentCrewVersion

/-- The current environment plan, if there is one, is on record. -/
def PlanRecorded (s : MissionStore) (id : Uuid) (mission : MissionRecord) : Prop :=
  ∀ version ∈ mission.currentEnvironmentPlanVersion,
    ∃ acc ∈ s.environmentPlans, acc.plan.missionId = id ∧ acc.plan.version = version

variable {id : Uuid} {mission : MissionRecord}

/-- Mission and version identify an environment plan. -/
theorem environmentPlan_eq_ok {acc : MissionEnvironmentPlanAcceptance}
    (hmission : s.mission id = .ok mission) : s.environmentPlan id none = .ok acc ↔
      acc ∈ s.environmentPlans ∧ acc.plan.missionId = id
        ∧ some acc.plan.version = mission.currentEnvironmentPlanVersion := by
  have hfind : ∀ version, (s.environmentPlans.find fun row =>
      row.plan.missionId = id ∧ row.plan.version = version) = some acc ↔
        acc ∈ s.environmentPlans ∧ acc.plan.missionId = id ∧ acc.plan.version = version := by
    intro version
    rw [Table.find_decide]
    simp +contextual [Keyed.clash, Keyed.key]
  simp only [environmentPlan, hmission, bind_eq_ok, require_eq_ok, Option.filter_none,
    Option.none_or, hfind]
  constructor
  · rintro ⟨_, ⟨⟩, version, hversion, hacc, hid, rfl⟩
    exact ⟨hacc, hid, hversion.symm⟩
  · rintro ⟨hacc, hid, hversion⟩
    exact ⟨mission, rfl, acc.plan.version, hversion.symm, hacc, hid, rfl⟩

/-- **The gate finds the current plan**, wherever it finds an answer. -/
theorem mem_currentAcceptance (hmission : s.mission id = .ok mission)
    (h : s.currentAcceptance id mission = .ok acceptance) {acc : MissionEnvironmentPlanAcceptance} :
    acc ∈ acceptance ↔ s.CurrentPlan id mission acc := by
  unfold currentAcceptance at h
  unfold CurrentPlan
  split at h
  · rename_i hnone
    cases h
    simp [hnone]
  · simp only [bind_eq_ok, pure_eq_ok, environmentPlan_eq_ok hmission] at h
    obtain ⟨recorded, ⟨hrec, hid, hversion⟩, rfl⟩ := h
    rw [Option.mem_filter_iff, Option.mem_def, Option.some.injEq, decide_eq_true_eq]
    constructor
    · rintro ⟨rfl, hbrief, hcrew⟩
      exact ⟨hrec, hid, hversion, hbrief, hcrew⟩
    · rintro ⟨hacc, hid', hversion', hbrief, hcrew⟩
      have hsame : recorded = acc := by
        refine Table.eq_of_clash hrec hacc ?_
        simp [Keyed.clash, Keyed.key, hid, hid', Option.some.inj (hversion.trans hversion'.symm)]
      exact ⟨hsame, hbrief, hcrew⟩

theorem exists_currentAcceptance (hmission : s.mission id = .ok mission) :
    (∃ acceptance, s.currentAcceptance id mission = .ok acceptance) ↔
      s.PlanRecorded id mission := by
  unfold currentAcceptance PlanRecorded
  cases hversion : mission.currentEnvironmentPlanVersion with
  | none => simp
  | some version =>
    simp only [bind_eq_ok, pure_eq_ok, environmentPlan_eq_ok hmission, hversion, Option.mem_def,
      Option.some.injEq, forall_eq']
    constructor
    · rintro ⟨_, acc, hacc, -⟩
      exact ⟨acc, hacc⟩
    · rintro ⟨acc, hacc⟩
      exact ⟨_, acc, hacc, rfl⟩

/-- The assignments the gate sees, the latest of every task. -/
def seenAssignments (s : MissionStore) (id : Uuid) : List MissionTaskAssignment :=
  MissionAssignmentGraphValidator.latest ((s.orderedAssignments id).take 1000)

/-- What readiness says of the tasks of a mission, it says of their assignments. -/
theorem inspectReadiness_task (hmission : s.mission id = .ok mission)
    {readiness : MissionEnvironmentReadiness}
    (h : s.inspectReadiness uuid5 available id = .ok readiness) :
    ∃ acceptance, s.currentAcceptance id mission = .ok acceptance ∧
      ∀ a ∈ s.seenAssignments id, ∃ t, readiness.tasks.find? (·.taskId = a.taskId) = some t ∧
        s.taskReadiness uuid5 available acceptance a = .ok t := by
  simp only [inspectReadiness, hmission, listAssignments_of_mission hmission, bind_eq_ok,
    pure_eq_ok] at h
  obtain ⟨_, ⟨⟩, _, ⟨⟩, acceptance, hacceptance, tasks, htasks, rfl⟩ := h
  refine ⟨acceptance, hacceptance, fun a ha => ?_⟩
  obtain ⟨t, ht, hready⟩ := mapM_of_mem htasks ((List.mem_insertionSort _).mpr ha)
  cases hfind : tasks.find? (·.taskId = a.taskId) with
  | none => simpa [taskReadiness_taskId hready] using List.find?_eq_none.mp hfind t ht
  | some t' =>
    -- the task that is found is of the same assignment, since no two are of one task
    refine ⟨t', rfl, ?_⟩
    obtain ⟨a', ha', hready'⟩ := mem_of_mapM htasks (List.mem_of_find?_eq_some hfind)
    have htask : a'.taskId = a.taskId := by
      rw [← taskReadiness_taskId hready']
      simpa using List.find?_some hfind
    rwa [Latest.eq_of_key ((List.mem_insertionSort _).mp ha') ha htask] at hready'

/-- **Readiness finds every task ready** exactly when the current plan is on record and has every
context verified. -/
theorem inspectReadiness_ready (hmission : s.mission id = .ok mission) :
    (∃ readiness, s.inspectReadiness uuid5 available id = .ok readiness ∧
      ∀ a ∈ s.seenAssignments id,
        (readiness.tasks.find? (·.taskId = a.taskId)).any (·.environmentReady) = true) ↔
    s.PlanRecorded id mission ∧ ∀ a ∈ s.seenAssignments id, ∀ contextId ∈ a.environmentContextIds,
      ∃ acc, s.CurrentPlan id mission acc ∧
        s.ContextVerified uuid5 available s.seen acc.plan contextId := by
  constructor
  · rintro ⟨readiness, hreadiness, hready⟩
    obtain ⟨acceptance, hacceptance, htasks⟩ := inspectReadiness_task hmission hreadiness
    refine ⟨(exists_currentAcceptance hmission).mp ⟨acceptance, hacceptance⟩, fun a ha => ?_⟩
    obtain ⟨t, hfind, ht⟩ := htasks a ha
    have htready : t.environmentReady = true := by simpa [hfind] using hready a ha
    intro contextId hcontext
    obtain ⟨acc, hacc, hverified⟩ := taskReadiness_ready.mp ⟨t, ht, htready⟩ contextId hcontext
    exact ⟨acc, (mem_currentAcceptance hmission hacceptance).mp hacc, hverified⟩
  · rintro ⟨hrecorded, hverified⟩
    obtain ⟨acceptance, hacceptance⟩ := (exists_currentAcceptance hmission).mpr hrecorded
    obtain ⟨tasks, htasks, hready⟩ := exists_mapM_iff.mpr fun a
        (ha : a ∈ (s.seenAssignments id).insertionSort fun a b => a.taskId ≤ b.taskId) =>
      taskReadiness_ready.mpr fun contextId hcontext => by
        obtain ⟨acc, hacc, h⟩ := hverified a ((List.mem_insertionSort _).mp ha) contextId hcontext
        exact ⟨acc, (mem_currentAcceptance hmission hacceptance).mpr hacc, h⟩
    have hok : ∃ readiness, s.inspectReadiness uuid5 available id = .ok readiness ∧
        readiness.tasks = tasks := by
      simp only [inspectReadiness, hmission, listAssignments_of_mission hmission,
        bind_eq_ok, pure_eq_ok]
      exact ⟨_, ⟨mission, rfl, _, rfl, acceptance, hacceptance, tasks, htasks, rfl⟩, rfl⟩
    obtain ⟨readiness, hreadiness, rfl⟩ := hok
    refine ⟨readiness, hreadiness, fun a ha => ?_⟩
    obtain ⟨_, -, hfound⟩ := inspectReadiness_task hmission hreadiness
    obtain ⟨t, hfind, -⟩ := hfound a ha
    rw [hfind]
    exact hready t (List.mem_of_find?_eq_some hfind)

end

end MissionStore
end Mishkan
