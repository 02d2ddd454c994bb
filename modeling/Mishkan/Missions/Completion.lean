import Mathlib.Data.List.Dedup
import Mishkan.Missions.Execution
import Mishkan.Missions.Lifecycle
import Mishkan.Persistence.System

/-!
# Missions/Completion — when a mission is reported ready for completion

`Complete` says, over the rows it is given, what a complete mission is.  Completion is reported
exactly when the first 1000 rows of every query are those of a complete mission
(`inspectCompletion_ready`).  A mission that is reported ready is complete, and a complete one is
reported, exactly when the rows that decide are among these (`completion_ready_iff`); they are in
particular where no query has more than 1000 rows (`rowsSeen_of_bounded`).
-/

namespace Mishkan

open Refusal Transition MissionStore List MissionAssignmentGraphValidator Latest

variable (uuid5 : Uuid → String → Uuid) (available : Bool)

/-! ## Complete missions -/

/-- The rows a mission is judged by. -/
structure Evidence where
  assignments : List MissionTaskAssignment
  bindings : List MissionRunBinding
  reports : List MissionRunReport
  verifications : Uuid → List EnvironmentVerification

/-- All rows of a mission. -/
def recorded (s : MissionStore) (id : Uuid) : Evidence where
  assignments := s.orderedAssignments id
  bindings := s.orderedBindings id
  reports := s.orderedReports id
  verifications := s.orderedVerifications

/-- The first 1000 rows of every query. -/
def visible (s : MissionStore) (id : Uuid) : Evidence where
  assignments := (s.orderedAssignments id).take 1000
  bindings := (s.orderedBindings id).take 1000
  reports := (s.orderedReports id).take 1000
  verifications := s.seen

theorem recorded_verifications (s : MissionStore) (id bindingId : Uuid) :
    (recorded s id).verifications bindingId = s.orderedVerifications bindingId := rfl

/-- The latest assignment of a task is done: it is of the current crew, its binding is accepted, its
run task is accepted and its run completed, and reported if it has several tasks, and its contexts
are verified. -/
structure TaskComplete (s : MissionStore) (id : Uuid) (mission : MissionRecord) (e : Evidence)
    (a : MissionTaskAssignment) : Prop where
  crew : some a.crewVersion = mission.currentCrewVersion
  binding : ∃ b, IsLatest (·.bindingKey) (·.bindingRevision) e.bindings b ∧ BindingOf a b
    ∧ b.acceptance = .accepted
  run : ∃ runId executionTaskId, a.executionRunId = some runId
    ∧ a.executionTaskId = some executionTaskId
    ∧ s.taskState? runId executionTaskId = some .accepted
    ∧ (s.run? runId).map (·.status) = some .completed
    ∧ (1 < ((s.plan? runId).map (·.tasks.length)).getD 0 → ∃ r ∈ e.reports, r.runId = runId)
  contexts : ∀ contextId ∈ a.environmentContextIds, ∃ acc, s.CurrentPlan id mission acc ∧
    s.ContextVerified uuid5 available e.verifications acc.plan contextId

/-- The mission is evaluating, its assignments are a valid graph, and each latest one is done. -/
structure Complete (s : MissionStore) (id : Uuid) (mission : MissionRecord) (e : Evidence) :
    Prop where
  evaluating : mission.state = .evaluating
  graph : validate e.assignments = .ok ()
  tasks : ∀ a, IsLatest (·.taskId) (·.assignmentRevision) e.assignments a →
    TaskComplete uuid5 available s id mission e a

/-! ## Bindings of one run task -/

/-- All bindings of one run task of a mission have one key, and a settled binding is the last of its
key. -/
structure BindingsOrdered (s : MissionStore) : Prop where
  sole : ∀ b ∈ s.bindings, ∀ b' ∈ s.bindings, b.missionId = b'.missionId → b.runId = b'.runId →
    b.executionTaskId = b'.executionTaskId → b.bindingKey = b'.bindingKey
  last : ∀ b ∈ s.bindings, b.acceptance ≠ .pending → ∀ b' ∈ s.bindings,
    b'.missionId = b.missionId → b'.bindingKey = b.bindingKey →
      b'.bindingRevision ≤ b.bindingRevision

theorem bindingsOrdered_step {s : MissionStore} {op : MissionOp} (hs : BindingsOrdered s) :
    BindingsOrdered (missionStep s op) := by
  have hchange := missionStep_change s op
  generalize missionStep s op = s' at hchange ⊢
  cases hchange with
  | quiet h => exact ⟨h.bindings ▸ hs.sole, h.bindings ▸ hs.last⟩
  | @bound binding _ bindings _ _ hrevision hsettles hsole hinsert =>
    have hmem : ∀ b, b ∈ bindings ↔ b ∈ s.bindings ∨ b = binding := fun b =>
      Table.mem_of_insert hinsert
    have hof : ∀ b, b ∈ s.bindingsOf binding.missionId ↔
        b ∈ s.bindings ∧ b.missionId = binding.missionId := by
      simp [bindingsOf]
    have hnew : ∀ b ∈ s.bindings, b.missionId = binding.missionId → b.runId = binding.runId →
        b.executionTaskId = binding.executionTaskId → b.bindingKey = binding.bindingKey :=
      fun b hb hid => hsole b ((hof b).mpr ⟨hb, hid⟩)
    -- an earlier binding of the key is older, and no settled one comes before the new one
    have hprior : ∀ b ∈ s.bindings, b.missionId = binding.missionId →
        b.bindingKey = binding.bindingKey →
          b.bindingRevision < binding.bindingRevision ∧ b.acceptance = .pending := by
      intro b hb hid hkey
      have hbOf := (hof b).mpr ⟨hb, hid⟩
      cases hget : get? (·.bindingKey) (·.bindingRevision)
          (s.bindingsOf binding.missionId) binding.bindingKey with
      | none => exact absurd hkey (get?_eq_none.mp hget b hbOf)
      | some prior =>
        obtain ⟨hlatest, hpriorKey⟩ := get?_eq_some.mp hget
        obtain ⟨hpriorOf, hmax⟩ := isLatest_of_mem hlatest
        obtain ⟨hpriorMem, hpriorId⟩ := (hof prior).mp hpriorOf
        have hle : b.bindingRevision ≤ prior.bindingRevision :=
          hmax b hbOf (hkey.trans hpriorKey.symm)
        rw [hget, Option.map_some, Option.getD_some] at hrevision
        refine ⟨by omega, by_contra fun hsettled => ?_⟩
        have hge := hs.last b hb hsettled prior hpriorMem (hpriorId.trans hid.symm)
          (hpriorKey.trans hkey.symm)
        refine hsettled ?_
        rw [bindingsOf_inj b hbOf prior hpriorOf (hkey.trans hpriorKey.symm)
          (Nat.le_antisymm hle hge)]
        exact (hsettles prior hget).2
    refine ⟨fun b hb b' hb' hid hrun htask => ?_, fun b hb hsettled b' hb' hid hkey => ?_⟩
    · rcases (hmem b).mp hb with hb | rfl
      · rcases (hmem b').mp hb' with hb' | rfl
        · exact hs.sole b hb b' hb' hid hrun htask
        · exact hnew b hb hid hrun htask
      · rcases (hmem b').mp hb' with hb' | rfl
        · exact (hnew b' hb' hid.symm hrun.symm htask.symm).symm
        · rfl
    · rcases (hmem b).mp hb with hb | rfl
      · rcases (hmem b').mp hb' with hb' | rfl
        · exact hs.last b hb hsettled b' hb' hid hkey
        · exact absurd (hprior b hb hid.symm hkey.symm).2 hsettled
      · rcases (hmem b').mp hb' with hb' | rfl
        · exact Nat.le_of_lt (hprior b' hb' hid hkey).1
        · exact Nat.le_refl _
  | _ => exact ⟨hs.sole, hs.last⟩

theorem bindingsOrdered_run (ops : List MissionOp) : BindingsOrdered (missionRun .empty ops) :=
  run_induction (I := BindingsOrdered) (fun _ _ => bindingsOrdered_step)
    ⟨fun _ h => absurd h Table.not_mem_empty, fun _ h => absurd h Table.not_mem_empty⟩ ops

/-! ## What is reported -/

section

variable {s : MissionStore} {id : Uuid} {mission : MissionRecord} {a : MissionTaskAssignment}
  {b : MissionRunBinding} {uuid5 available}

theorem theOnly_eq_some {α : Type} {l : List α} {x : α} (hnodup : l.Nodup)
    (hsame : ∀ y ∈ l, ∀ z ∈ l, y = z) : theOnly l = some x ↔ x ∈ l := by
  rcases l with _ | ⟨y, _ | ⟨z, l⟩⟩
  · simp [theOnly]
  · simp [theOnly, eq_comm]
  · have hyz : y = z := hsame y (by simp) z (by simp)
    simp [hyz] at hnodup

/-- The binding the gate finds for an assignment. -/
def seenBinding (s : MissionStore) (id : Uuid) (a : MissionTaskAssignment) :
    Option MissionRunBinding :=
  theOnly ((latestBindings ((s.orderedBindings id).take 1000)).filter fun b => BindingOf a b)

theorem bindingForAssignment_of_mission (hmission : s.mission id = .ok mission) :
    s.bindingForAssignment id a = .ok (seenBinding s id a) := by
  rw [bindingForAssignment, runBindings_of_mission hmission]
  rfl

theorem mem_orderedBindings : b ∈ s.orderedBindings id ↔ b ∈ s.bindings ∧ b.missionId = id := by
  simp [orderedBindings, bindingsOf, mem_insertionSort]

theorem mem_latestBindings : b ∈ latestBindings (visible s id).bindings ↔
    IsLatest (·.bindingKey) (·.bindingRevision) (visible s id).bindings b := by
  refine mem_latest_iff fun b hb b' hb' => ?_
  exact bindingsOf_inj b ((mem_insertionSort _).mp (mem_of_mem_take hb)) b'
    ((mem_insertionSort _).mp (mem_of_mem_take hb'))

/-- **The gate finds a binding exactly when it is the latest visible one of the assignment.** -/
theorem seenBinding_eq_some (hs : BindingsOrdered s) : seenBinding s id a = some b ↔
    IsLatest (·.bindingKey) (·.bindingRevision) (visible s id).bindings b ∧
      BindingOf a b := by
  rw [seenBinding, theOnly_eq_some, mem_filter, decide_eq_true_eq]
  · exact and_congr_left fun _ => mem_latestBindings
  · exact (List.Nodup.of_map _ nodup_keys).filter _
  · intro y hy z hz
    obtain ⟨hy, hya⟩ := mem_filter.mp hy
    obtain ⟨hz, hza⟩ := mem_filter.mp hz
    obtain ⟨-, -, -, -, hyrun, hytask⟩ := of_decide_eq_true hya
    obtain ⟨-, -, -, -, hzrun, hztask⟩ := of_decide_eq_true hza
    obtain ⟨hymem, hyid⟩ :=
      mem_orderedBindings.mp (mem_of_mem_take (mem_latestBindings.mp hy).1)
    obtain ⟨hzmem, hzid⟩ :=
      mem_orderedBindings.mp (mem_of_mem_take (mem_latestBindings.mp hz).1)
    exact eq_of_key hy hz (hs.sole y hymem z hzmem (hyid.trans hzid.symm)
      (Option.some.inj (hyrun.trans hzrun.symm)) (Option.some.inj (hytask.trans hztask.symm)))

theorem mem_seenAssignments : a ∈ s.seenAssignments id ↔
    IsLatest (·.taskId) (·.assignmentRevision) (visible s id).assignments a := by
  refine mem_latest_iff fun a ha a' ha' => ?_
  exact assignmentsOf_inj a ((mem_insertionSort _).mp (mem_of_mem_take ha)) a'
    ((mem_insertionSort _).mp (mem_of_mem_take ha'))

theorem validate_seenAssignments : validate (s.seenAssignments id) =
      validate (visible s id).assignments := by
  have hlatest : latest (s.seenAssignments id) =
      s.seenAssignments id := latest_latest
  rw [validate, hlatest]
  rfl

theorem graphBlockers_eq_nil {l : List MissionTaskAssignment} :
    graphBlockers l = .ok [] ↔ validate l = .ok () := by
  unfold graphBlockers
  cases validate l with
  | ok => simp
  | error e => cases e <;> simp

theorem reportBlockers_eq_nil {reported : List String} {runId : String} :
    s.reportBlockers reported runId = .ok [] ↔ (∃ run, s.run? runId = some run) ∧
      (1 < ((s.plan? runId).map (·.tasks.length)).getD 0 → runId ∈ reported) := by
  simp only [reportBlockers, taskCount, requireRun, bind_eq_ok, require_eq_ok, pure_eq_ok,
    blocker_eq_nil, not_and, not_not]
  constructor
  · rintro ⟨_, ⟨run, hrun, rfl⟩, hreported⟩
    exact ⟨⟨run, hrun⟩, hreported⟩
  · rintro ⟨⟨run, hrun⟩, hreported⟩
    exact ⟨_, ⟨run, hrun, rfl⟩, hreported⟩

/-- The run task of an assignment blocks nothing when it is accepted under an accepted binding, and
its run is completed. -/
theorem runBlockers_eq_nil {binding : Option MissionRunBinding} :
    s.runBlockers a binding = [] ↔ (∃ b ∈ binding, b.acceptance = .accepted) ∧
      ∃ runId executionTaskId, a.executionRunId = some runId ∧
        a.executionTaskId = some executionTaskId ∧
        s.taskState? runId executionTaskId = some .accepted ∧
        (s.run? runId).map (·.status) = some .completed := by
  unfold runBlockers
  cases a.executionRunId with
  | none => simp
  | some runId =>
    cases a.executionTaskId with
    | none => simp
    | some executionTaskId =>
      cases binding with
      | none => simp
      | some b =>
        simp only [append_eq_nil_iff, blocker_eq_nil, not_not, Option.mem_def,
          Option.some.injEq, exists_eq_left']
        constructor
        · rintro ⟨⟨⟨hb, -⟩, htask⟩, hrun⟩
          exact ⟨hb, runId, executionTaskId, rfl, rfl, htask, hrun⟩
        · rintro ⟨hb, _, _, ⟨⟩, ⟨⟩, htask, hrun⟩
          refine ⟨⟨⟨hb, fun hnone => ?_⟩, htask⟩, hrun⟩
          simp [hnone] at hrun

/-- Nothing blocks an assignment exactly when it is done, as far as the gate sees; its run aside,
which the reports are checked for. -/
theorem taskBlockers_eq_nil (hs : BindingsOrdered s) {ready : Bool} :
    s.taskBlockers mission a (seenBinding s id a) ready = [] ↔
      (∃ b, IsLatest (·.bindingKey) (·.bindingRevision) (visible s id).bindings b ∧
        BindingOf a b ∧ b.acceptance = .accepted) ∧
      (∃ runId executionTaskId, a.executionRunId = some runId ∧
        a.executionTaskId = some executionTaskId ∧
        s.taskState? runId executionTaskId = some .accepted ∧
        (s.run? runId).map (·.status) = some .completed) ∧
      ready = true ∧ some a.crewVersion = mission.currentCrewVersion := by
  simp only [taskBlockers, append_eq_nil_iff, blocker_eq_nil, not_not, runBlockers_eq_nil,
    Option.mem_def, seenBinding_eq_some hs, and_assoc]

/-- A valid graph has assignments. -/
theorem ne_nil_of_validate {l : List MissionTaskAssignment}
    (h : validate l = .ok ()) :
    latest l ≠ [] := by
  obtain ⟨_, hne, -⟩ := bind_eq_ok.mp h
  exact refuseIf_eq_ok.mp hne

/-- The verdict is read off the blockers: of the graph, the state, the reports and the tasks. -/
theorem inspectCompletion_eq_ok (hmission : s.mission id = .ok mission) :
    (∃ r, s.inspectCompletion uuid5 available id = .ok r ∧ r.ready = true) ↔
      validate (s.seenAssignments id) = .ok () ∧
      mission.state = .evaluating ∧ s.seenAssignments id ≠ [] ∧
      (∀ a ∈ s.seenAssignments id, ∀ runId ∈ a.executionRunId,
        s.reportBlockers ((visible s id).reports.map (·.runId)) runId = .ok []) ∧
      ∃ readiness, s.inspectReadiness uuid5 available id = .ok readiness ∧
        ∀ a ∈ s.seenAssignments id, s.taskBlockers mission a (seenBinding s id a)
          (environmentReady readiness a.taskId) = [] := by
  have hbindings : (s.seenAssignments id).mapM (s.bindingForAssignment id) =
      .ok ((s.seenAssignments id).map (seenBinding s id)) :=
    mapM_of_forall fun _ _ => bindingForAssignment_of_mission hmission
  have hlatest : s.latestAssignments id = .ok (s.seenAssignments id) := by
    rw [latestAssignments, listAssignments_of_mission hmission]
    rfl
  have hzip : (s.seenAssignments id).zip ((s.seenAssignments id).map (seenBinding s id)) =
      (s.seenAssignments id).map fun a => (a, seenBinding s id a) :=
    map_prod_left_eq_zip.symm
  have hruns : ∀ runId, runId ∈ ((s.seenAssignments id).filterMap
      (·.executionRunId)).dedup.insertionSort (· ≤ ·) ↔
        ∃ a ∈ s.seenAssignments id, a.executionRunId = some runId := by
    simp [mem_insertionSort, mem_dedup]
  simp only [inspectCompletion, hmission, hlatest, hbindings, runReports_of_mission hmission, hzip,
    ok_bind]
  simp only [bind_eq_ok, pure_eq_ok]
  constructor
  · rintro ⟨_, ⟨graph, hgraph, readiness, hreadiness, unreported, hunreported, rfl⟩, hready⟩
    simp only [decide_eq_true_eq, distinct_eq_nil, append_eq_nil_iff, blocker_eq_nil, not_not,
      flatten_eq_nil_iff, flatMap_eq_nil_iff, forall_mem_map, ne_eq,
      map_eq_nil_iff] at hready
    obtain ⟨⟨⟨⟨rfl, hstate⟩, hreported⟩, htasks⟩, hne⟩ := hready
    refine ⟨graphBlockers_eq_nil.mp hgraph, hstate, hne, fun a ha runId hrun => ?_, readiness,
      hreadiness, htasks⟩
    obtain ⟨_, hok, rfl⟩ := exists_mapM_iff.mp ⟨unreported, hunreported, hreported⟩ runId
      ((hruns runId).mpr ⟨a, ha, hrun⟩)
    exact hok
  · rintro ⟨hgraph, hstate, hne, hreports, readiness, hreadiness, htasks⟩
    obtain ⟨unreported, hunreported, hreported⟩ :=
      (exists_mapM_iff (P := (· = []))).mpr fun runId hrun => by
        obtain ⟨a, ha, hrun⟩ := (hruns runId).mp hrun
        exact ⟨[], hreports a ha runId hrun, rfl⟩
    refine ⟨_, ⟨_, graphBlockers_eq_nil.mpr hgraph, readiness, hreadiness, unreported,
      hunreported, rfl⟩, ?_⟩
    simp only [decide_eq_true_eq, distinct_eq_nil, append_eq_nil_iff, blocker_eq_nil, not_not,
      flatten_eq_nil_iff, flatMap_eq_nil_iff, forall_mem_map, ne_eq,
      map_eq_nil_iff]
    exact ⟨⟨⟨⟨trivial, hstate⟩, hreported⟩, htasks⟩, hne⟩

/-- **Completion is reported exactly when the visible rows are those of a complete mission**, whose
current environment plan is on record. -/
theorem inspectCompletion_ready (hs : BindingsOrdered s) (hmission : s.mission id = .ok mission) :
    (∃ r, s.inspectCompletion uuid5 available id = .ok r ∧ r.ready = true) ↔
      s.PlanRecorded id mission ∧ Complete uuid5 available s id mission (visible s id) := by
  rw [inspectCompletion_eq_ok hmission]
  simp only [taskBlockers_eq_nil hs, reportBlockers_eq_nil, validate_seenAssignments]
  constructor
  · rintro ⟨hgraph, hstate, -, hreports, readiness, hreadiness, htasks⟩
    obtain ⟨hrecorded, hverified⟩ := (inspectReadiness_ready hmission).mp
      ⟨readiness, hreadiness, fun a ha => (htasks a ha).2.2.1⟩
    refine ⟨hrecorded, hstate, hgraph, fun a ha => ?_⟩
    have ha := mem_seenAssignments.mpr ha
    obtain ⟨hbinding, ⟨runId, executionTaskId, hrun, htask, hstatus, hcompleted⟩, -, hcrew⟩ :=
      htasks a ha
    refine ⟨hcrew, hbinding, ⟨runId, executionTaskId, hrun, htask, hstatus, hcompleted,
      fun hlt => ?_⟩,
      hverified a ha⟩
    exact mem_map.mp ((hreports a ha runId hrun).2 hlt)
  · rintro ⟨hrecorded, hstate, hgraph, htasks⟩
    have htask := fun a (ha : a ∈ s.seenAssignments id) => htasks a (mem_seenAssignments.mp ha)
    obtain ⟨readiness, hreadiness, hready⟩ := (inspectReadiness_ready hmission).mpr
      ⟨hrecorded, fun a ha => (htask a ha).contexts⟩
    refine ⟨hgraph, hstate, ne_nil_of_validate hgraph, fun a ha runId hrun => ?_, readiness,
      hreadiness, fun a ha => ?_⟩
    · obtain ⟨runId', _, hrun', -, -, hcompleted, hreport⟩ := (htask a ha).run
      obtain rfl : runId = runId' := Option.some.inj (hrun.symm.trans hrun')
      obtain ⟨run, hrow, -⟩ := Option.map_eq_some_iff.mp hcompleted
      exact ⟨⟨run, hrow⟩, fun hlt => mem_map.mpr (hreport hlt)⟩
    · obtain ⟨hcrew, hbinding, ⟨runId, executionTaskId, hrun, htask', hstatus, hcompleted, -⟩, -⟩ :=
        htask a ha
      exact ⟨hbinding, ⟨runId, executionTaskId, hrun, htask', hstatus, hcompleted⟩, hready a ha,
        hcrew⟩

end

/-! ## Rows beyond the first 1000 -/

/-- What decides about an assignment is among the first 1000 rows: the accepted binding of it and
the report of its run are, if they are on record, and the newest verification of a context beyond
the first 1000, if there is one, says what the newest of these says. -/
structure TaskSeen (s : MissionStore) (id : Uuid) (mission : MissionRecord)
    (a : MissionTaskAssignment) : Prop where
  binding : ∀ b ∈ s.orderedBindings id, BindingOf a b → b.acceptance = .accepted →
    b ∈ (s.orderedBindings id).take 1000
  report : ∀ r ∈ s.orderedReports id, a.executionRunId = some r.runId →
    1 < ((s.plan? r.runId).map (·.tasks.length)).getD 0 → r ∈ (s.orderedReports id).take 1000
  contexts : ∀ contextId ∈ a.environmentContextIds, ∀ acc, s.CurrentPlan id mission acc →
    ∀ request, acc.plan.bindingRequest uuid5 contextId = .ok request →
    ∀ bound ∈ s.bindingForRequest request.requestId,
    ∀ v ∈ ((s.orderedVerifications bound.bindingId).drop 1000).reverse.find?
      (·.contextFingerprint = request.observationFingerprint),
    (v.settlement = .verified ↔
      NewestVerified (s.seen bound.bindingId) request.observationFingerprint)

/-- The rows that decide about a mission are among the first 1000.  Its current environment plan is
on record, and all its assignments are a valid graph exactly when the first 1000 are.  The latest
assignment of a task is among these, with what decides about it, or it is done; an assignment that
is taken for the latest, while a newer one is beyond the first 1000, is done as well. -/
structure RowsSeen (s : MissionStore) (id : Uuid) (mission : MissionRecord) : Prop where
  plan : s.PlanRecorded id mission
  graph : validate ((s.orderedAssignments id).take 1000) = .ok () ↔
    validate (s.orderedAssignments id) = .ok ()
  latest : ∀ a, IsLatest (·.taskId) (·.assignmentRevision) (s.orderedAssignments id) a →
    a ∈ (s.orderedAssignments id).take 1000 → TaskSeen uuid5 s id mission a
  unseen : ∀ a, IsLatest (·.taskId) (·.assignmentRevision) (s.orderedAssignments id) a →
    a ∉ (s.orderedAssignments id).take 1000 →
      TaskComplete uuid5 available s id mission (recorded s id) a
  outdated : ∀ a,
    IsLatest (·.taskId) (·.assignmentRevision) ((s.orderedAssignments id).take 1000) a →
    ¬ IsLatest (·.taskId) (·.assignmentRevision) (s.orderedAssignments id) a →
      TaskComplete uuid5 available s id mission (visible s id) a

section

variable {s : MissionStore} {id : Uuid} {mission : MissionRecord} {a : MissionTaskAssignment}
  {b : MissionRunBinding} {uuid5 available}

/-- The first of all verifications decide like all of them exactly when the newest of the others, if
there is one, says the same. -/
theorem newestVerified_take_iff {l : List EnvironmentVerification} {fingerprint : String} {n : ℕ} :
    (NewestVerified (l.take n) fingerprint ↔ NewestVerified l fingerprint) ↔
      ∀ v ∈ (l.drop n).reverse.find? (·.contextFingerprint = fingerprint),
        (v.settlement = .verified ↔ NewestVerified (l.take n) fingerprint) := by
  have hfind : l.reverse.find? (·.contextFingerprint = fingerprint) =
      ((l.drop n).reverse.find? (·.contextFingerprint = fingerprint)).or
        ((l.take n).reverse.find? (·.contextFingerprint = fingerprint)) := by
    rw [← List.find?_append, ← reverse_append, take_append_drop]
  have hall : NewestVerified l fingerprint ↔
      ∃ v ∈ l.reverse.find? (·.contextFingerprint = fingerprint), v.settlement = .verified := .rfl
  rw [hall, hfind]
  cases (l.drop n).reverse.find? (·.contextFingerprint = fingerprint) with
  | none => simp [NewestVerified]
  | some v => simp [iff_comm]

section

variable {verifications verifications' : Uuid → List EnvironmentVerification}
  {plan : MissionEnvironmentPlan} {contextId : String}

/-- The newest verifications of a verified context are verified ones. -/
theorem MissionStore.ContextVerified.newest
    (h : s.ContextVerified uuid5 available verifications plan contextId) :
    ∀ request, plan.bindingRequest uuid5 contextId = .ok request →
      ∀ bound ∈ s.bindingForRequest request.requestId,
        NewestVerified (verifications bound.bindingId) request.observationFingerprint := by
  obtain ⟨-, -, -, -, request, hrequest, bound, hbound, -, hnewest⟩ := h
  intro request' hrequest' bound' hbound'
  obtain rfl : request = request' := Except.ok.inj (hrequest.symm.trans hrequest')
  obtain rfl : bound = bound' := Option.some.inj (hbound.symm.trans hbound')
  exact hnewest

/-- A context is verified by other verifications if the newest of these are verified ones. -/
theorem MissionStore.ContextVerified.of_newest
    (h : s.ContextVerified uuid5 available verifications plan contextId)
    (hnewest : ∀ request, plan.bindingRequest uuid5 contextId = .ok request →
      ∀ bound ∈ s.bindingForRequest request.requestId,
        NewestVerified (verifications bound.bindingId) request.observationFingerprint →
        NewestVerified (verifications' bound.bindingId) request.observationFingerprint) :
    s.ContextVerified uuid5 available verifications' plan contextId := by
  obtain ⟨havailable, decision, hdecision, hresolved, request, hrequest, bound, hbound, hstate,
    hverified⟩ := h
  exact ⟨havailable, decision, hdecision, hresolved, request, hrequest, bound, hbound, hstate,
    hnewest request hrequest bound hbound hverified⟩

end

/-- There is one current plan. -/
theorem currentPlan_inj {acc acc' : MissionEnvironmentPlanAcceptance}
    (h : s.CurrentPlan id mission acc) (h' : s.CurrentPlan id mission acc') : acc = acc' := by
  obtain ⟨hmem, hid, hversion, -⟩ := h
  obtain ⟨hmem', hid', hversion', -⟩ := h'
  refine Table.eq_of_clash hmem hmem' ?_
  simp [Keyed.clash, Keyed.key, hid, hid', Option.some.inj (hversion.trans hversion'.symm)]

/-- There is one report of a run. -/
theorem reportsOf_inj {r r' : MissionRunReport} (hr : r ∈ s.orderedReports id)
    (hr' : r' ∈ s.orderedReports id) (h : r.runId = r'.runId) : r = r' := by
  simp only [orderedReports, mem_insertionSort, Table.mem_select, decide_eq_true_eq] at hr hr'
  exact Table.eq_of_clash hr.1 hr'.1 (by simp [Keyed.clash, Keyed.key, hr.2, hr'.2, h])

/-- A settled binding is the latest of its key. -/
theorem isLatest_of_settled (hs : BindingsOrdered s) (hb : b ∈ s.orderedBindings id)
    (hsettled : b.acceptance ≠ .pending) :
    IsLatest (·.bindingKey) (·.bindingRevision) (s.orderedBindings id) b := by
  obtain ⟨hmem, hid⟩ := mem_orderedBindings.mp hb
  refine ⟨hb, fun b' hb' hkey => ?_⟩
  obtain ⟨hmem', hid'⟩ := mem_orderedBindings.mp hb'
  exact hs.last b hmem hsettled b' hmem' (hid'.trans hid.symm) hkey

/-- Two accepted bindings of an assignment are one. -/
theorem acceptedBinding_inj (hs : BindingsOrdered s) {b' : MissionRunBinding}
    (hb : b ∈ s.orderedBindings id) (hb' : b' ∈ s.orderedBindings id) (ha : BindingOf a b)
    (ha' : BindingOf a b') (haccepted : b.acceptance = .accepted)
    (haccepted' : b'.acceptance = .accepted) : b = b' := by
  obtain ⟨hmem, hid⟩ := mem_orderedBindings.mp hb
  obtain ⟨hmem', hid'⟩ := mem_orderedBindings.mp hb'
  obtain ⟨-, -, -, -, hrun, htask⟩ := ha
  obtain ⟨-, -, -, -, hrun', htask'⟩ := ha'
  have hkey : b.bindingKey = b'.bindingKey := hs.sole b hmem b' hmem' (hid.trans hid'.symm)
    (Option.some.inj (hrun.trans hrun'.symm)) (Option.some.inj (htask.trans htask'.symm))
  have hle := (isLatest_of_settled hs hb' (by simp [haccepted'])).2 b hb hkey
  have hge := (isLatest_of_settled hs hb (by simp [haccepted])).2 b' hb' hkey.symm
  exact bindingsOf_inj b ((mem_insertionSort _).mp hb) b' ((mem_insertionSort _).mp hb') hkey
    (Nat.le_antisymm hle hge)

/-- A task is done over other rows with its accepted binding, its report and its verified contexts
among them. -/
theorem TaskComplete.imp {e e' : Evidence} (h : TaskComplete uuid5 available s id mission e a)
    (hbinding : ∀ b, IsLatest (·.bindingKey) (·.bindingRevision) e.bindings b →
      BindingOf a b → b.acceptance = .accepted →
        IsLatest (·.bindingKey) (·.bindingRevision) e'.bindings b)
    (hreport : ∀ r ∈ e.reports, a.executionRunId = some r.runId →
      1 < ((s.plan? r.runId).map (·.tasks.length)).getD 0 → r ∈ e'.reports)
    (hcontexts : ∀ contextId ∈ a.environmentContextIds, ∀ acc, s.CurrentPlan id mission acc →
      s.ContextVerified uuid5 available e.verifications acc.plan contextId →
        s.ContextVerified uuid5 available e'.verifications acc.plan contextId) :
    TaskComplete uuid5 available s id mission e' a := by
  obtain ⟨hcrew, ⟨b, hb, hof, haccepted⟩, ⟨runId, executionTaskId, hrun, htask, hstate, hstatus,
    hreported⟩, hverified⟩ := h
  refine ⟨hcrew, ⟨b, hbinding b hb hof haccepted, hof, haccepted⟩, ⟨runId, executionTaskId, hrun,
    htask, hstate, hstatus, fun hlt => ?_⟩, fun contextId hcontext => ?_⟩
  · obtain ⟨r, hr, rfl⟩ := hreported hlt
    exact ⟨r, hreport r hr hrun hlt, rfl⟩
  · obtain ⟨acc, hacc, hverified⟩ := hverified contextId hcontext
    exact ⟨acc, hacc, hcontexts contextId hcontext acc hacc hverified⟩

/-- **A task is done over the first rows exactly when it is over all**, if what decides is among
them. -/
theorem TaskSeen.complete_iff (hs : BindingsOrdered s) (h : TaskSeen uuid5 s id mission a) :
    TaskComplete uuid5 available s id mission (visible s id) a ↔
      TaskComplete uuid5 available s id mission (recorded s id) a := by
  have hnewest := fun contextId hcontext acc hacc request hrequest bound hbound =>
    newestVerified_take_iff.mpr
      (h.contexts contextId hcontext acc hacc request hrequest bound hbound)
  constructor <;> intro hcomplete
  · refine hcomplete.imp (fun b hb _ haccepted => ?_) (fun r hr _ _ => mem_of_mem_take hr)
      fun contextId hcontext acc hacc hverified => ?_
    · exact isLatest_of_settled hs (mem_of_mem_take hb.1) (by simp [haccepted])
    · exact hverified.of_newest fun request hrequest bound hbound =>
        (hnewest contextId hcontext acc hacc request hrequest bound hbound).mp
  · refine hcomplete.imp (fun b hb hof haccepted => ?_) (fun r hr hrun hlt =>
      h.report r hr hrun hlt)
      fun contextId hcontext acc hacc hverified => ?_
    · exact isLatest_take hb (h.binding b hb.1 hof haccepted)
    · exact hverified.of_newest fun request hrequest bound hbound =>
        (hnewest contextId hcontext acc hacc request hrequest bound hbound).mpr

/-- What decides about a task that is done over the first rows and over all is among them. -/
theorem taskSeen_of_complete (hs : BindingsOrdered s)
    (hvisible : TaskComplete uuid5 available s id mission (visible s id) a)
    (hrecorded : TaskComplete uuid5 available s id mission (recorded s id) a) :
    TaskSeen uuid5 s id mission a where
  binding b hb hof haccepted := by
    obtain ⟨b', ⟨hb', -⟩, hof', haccepted'⟩ := hvisible.binding
    rwa [acceptedBinding_inj hs hb (mem_of_mem_take hb') hof hof' haccepted haccepted']
  report r hr hrun hlt := by
    obtain ⟨runId, -, hrun', -, -, -, hreport⟩ := hvisible.run
    obtain rfl : runId = r.runId := Option.some.inj (hrun'.symm.trans hrun)
    obtain ⟨r', hr', hrunId⟩ := hreport hlt
    rwa [reportsOf_inj hr (mem_of_mem_take hr') hrunId.symm]
  contexts contextId hcontext acc hacc request hrequest bound hbound := by
    obtain ⟨acc', hacc', hseen⟩ := hvisible.contexts contextId hcontext
    obtain ⟨acc'', hacc'', hall⟩ := hrecorded.contexts contextId hcontext
    obtain rfl := currentPlan_inj hacc hacc'
    obtain rfl := currentPlan_inj hacc hacc''
    exact newestVerified_take_iff.mp (iff_of_true (hseen.newest request hrequest bound hbound)
      (hall.newest request hrequest bound hbound))

/-- **The first rows are those of a complete mission exactly when all are**, if those that decide
are among them. -/
theorem RowsSeen.complete_iff (hs : BindingsOrdered s)
    (h : RowsSeen uuid5 available s id mission) :
    Complete uuid5 available s id mission (visible s id) ↔
      Complete uuid5 available s id mission (recorded s id) := by
  constructor
  · rintro ⟨hstate, hgraph, htasks⟩
    refine ⟨hstate, h.graph.mp hgraph, fun a ha => ?_⟩
    by_cases hmem : a ∈ (s.orderedAssignments id).take 1000
    · exact ((h.latest a ha hmem).complete_iff hs).mp
        (htasks a (isLatest_take ha hmem))
    · exact h.unseen a ha hmem
  · rintro ⟨hstate, hgraph, htasks⟩
    refine ⟨hstate, h.graph.mpr hgraph, fun a ha => ?_⟩
    by_cases hlatest : IsLatest (·.taskId) (·.assignmentRevision) (s.orderedAssignments id) a
    · exact ((h.latest a hlatest ha.1).complete_iff hs).mpr (htasks a hlatest)
    · exact h.outdated a ha hlatest

/-- The rows that decide about a mission that is complete over the first rows and over all are among
them. -/
theorem rowsSeen_of_complete (hs : BindingsOrdered s) (hplan : s.PlanRecorded id mission)
    (hvisible : Complete uuid5 available s id mission (visible s id))
    (hrecorded : Complete uuid5 available s id mission (recorded s id)) :
    RowsSeen uuid5 available s id mission where
  plan := hplan
  graph := iff_of_true hvisible.graph hrecorded.graph
  latest a ha hmem := taskSeen_of_complete hs
    (hvisible.tasks a (isLatest_take ha hmem)) (hrecorded.tasks a ha)
  unseen a ha _ := hrecorded.tasks a ha
  outdated a ha _ := hvisible.tasks a ha

/-- **Where no query has more than 1000 rows, all that decide are seen.** -/
theorem rowsSeen_of_bounded (hplan : s.PlanRecorded id mission)
    (hassignments : (s.orderedAssignments id).length ≤ 1000)
    (hbindings : (s.orderedBindings id).length ≤ 1000)
    (hreports : (s.orderedReports id).length ≤ 1000)
    (hverifications : ∀ bindingId, (s.orderedVerifications bindingId).length ≤ 1000) :
    RowsSeen uuid5 available s id mission where
  plan := hplan
  graph := by rw [take_of_length_le hassignments]
  latest a _ _ :=
    { binding := fun b hb _ _ => by rwa [take_of_length_le hbindings]
      report := fun r hr _ _ => by rwa [take_of_length_le hreports]
      contexts := fun _ _ _ _ _ _ bound _ => by
        simp [drop_eq_nil_of_le (hverifications bound.bindingId)] }
  unseen a ha hmem := absurd ha.1 (by rwa [take_of_length_le hassignments] at hmem)
  outdated a ha hlatest := absurd ha (by rwa [take_of_length_le hassignments])

end

/-! ## Runs -/

/-- The mission is complete, over the rows given. -/
def MissionComplete (s : MissionStore) (id : Uuid) (e : Evidence) : Prop :=
  ∃ mission, s.mission id = .ok mission ∧ Complete uuid5 available s id mission e

/-- The mission is reported ready for completion. -/
def ReportedReady (s : MissionStore) (id : Uuid) : Prop :=
  ∃ r, s.inspectCompletion uuid5 available id = .ok r ∧ r.ready = true

/-- The rows that decide about the mission are among the first 1000 of every query. -/
def MissionSeen (s : MissionStore) (id : Uuid) : Prop :=
  ∃ mission, s.mission id = .ok mission ∧ RowsSeen uuid5 available s id mission

/-- **Completion is reported exactly for complete missions**, as far as the rows that decide are
among the first 1000 of every query: a mission that is reported ready is complete exactly when they
are, and so is a complete mission reported ready. -/
theorem completion_ready_iff (ops : List MissionOp) (id : Uuid) :
    let s := missionRun .empty ops
    (ReportedReady uuid5 available s id →
      (MissionComplete uuid5 available s id (recorded s id) ↔ MissionSeen uuid5 available s id)) ∧
    (MissionComplete uuid5 available s id (recorded s id) →
      (ReportedReady uuid5 available s id ↔ MissionSeen uuid5 available s id)) := by
  intro s
  have hs : BindingsOrdered s := bindingsOrdered_run ops
  constructor
  · rintro ⟨r, hr, hready⟩
    obtain ⟨mission, hmission, -⟩ := bind_eq_ok.mp hr
    obtain ⟨hplan, hvisible⟩ := (inspectCompletion_ready hs hmission).mp ⟨r, hr, hready⟩
    constructor
    · rintro ⟨mission', hmission', hrecorded⟩
      obtain rfl : mission = mission' := Except.ok.inj (hmission.symm.trans hmission')
      exact ⟨mission, hmission, rowsSeen_of_complete hs hplan hvisible hrecorded⟩
    · rintro ⟨mission', hmission', hseen⟩
      obtain rfl : mission = mission' := Except.ok.inj (hmission.symm.trans hmission')
      exact ⟨mission, hmission, (hseen.complete_iff hs).mp hvisible⟩
  · rintro ⟨mission, hmission, hrecorded⟩
    rw [ReportedReady, inspectCompletion_ready hs hmission]
    constructor
    · rintro ⟨hplan, hvisible⟩
      exact ⟨mission, hmission, rowsSeen_of_complete hs hplan hvisible hrecorded⟩
    · rintro ⟨mission', hmission', hseen⟩
      obtain rfl : mission = mission' := Except.ok.inj (hmission.symm.trans hmission')
      exact ⟨hseen.plan, (hseen.complete_iff hs).mpr hrecorded⟩

/-! ## The defect

One mission with one task, whose environment was verified 1000 times and has failed since. -/

namespace Build

def contract : ToolContract where
  toolId := "repository.read"
  version := "1.0.0"
  effectClass := .read
  adapter := "native.repository.read"
  inputSchema := .obj []
  resultSchema := .obj []
  targetScopes := []
  targetArguments := []
  resources := { timeoutSeconds := 60 }
  scopesDeclared := ToolContract.noScopes

def task : PlanTask :=
  { sampleTask with
    assignedRole := "pm"
    tools := ["repository.read"]
    toolsNonempty := by decide
    toolsUnique := by decide
    callsSelected := by decide }

def plan : AcceptedPlan :=
  { samplePlan with
    tasks := [task]
    tasksNonempty := by simp
    tasksBounded := by simp
    callsComplete := by simp [samplePlan]
    registry := some ⟨[contract], "registry"⟩
    toolBindings := [⟨"build", "pm", "repository.read", "1.0.0", contract.provenanceFingerprint,
      "registry", [], []⟩]
    organizationBinding := some
      { organizationId := "mishkan"
        organizationVersion := "1"
        organizationFingerprint := "organization"
        missionId := some 1 }
    lineageComplete := by simp [samplePlan] }

/-- The durable run of the plan. -/
def runs (status : RunState) (taskStatus : TaskState) : Store where
  runs := ⟨[{
    id := 1
    resumeKey := ⟨.repository "repository" "revision", "discovery", "build", "built"⟩
    context := .repository "repository" "revision"
    discoveryFingerprint := "discovery"
    objective := "build"
    outcomeId := "built"
    status := status }], pairwise_singleton _ _⟩
  plans := ⟨[⟨2, 1, "plan", plan⟩], pairwise_singleton _ _⟩
  tasks := ⟨[{
    id := 3
    runId := 1
    taskKey := "build"
    position := 0
    status := taskStatus
    contract := task }], pairwise_singleton _ _⟩
  results := ⟨[{
    id := 4
    runId := 1
    taskKey := "build"
    payload :=
      { repositoryRevision := some "revision"
        taskId := "build"
        summary := "built"
        citedPaths := []
        findings := []
        legacyRevision := by simp
        explicitContext := by simp }
    acceptedAt := 6 }], pairwise_singleton _ _⟩
  acceptances := ⟨[{
    id := 5
    runId := 1
    taskKey := "build"
    resultId := 4
    reviewPayload :=
      { schemaVersion := .v11
        taskId := "build"
        producerIdentity := some "pm"
        evaluatorIdentity := some "cto"
        verdict := .accepted
        summary := "good"
        checkedCitations := []
        legacyLineage := by simp
        separatedLineage := by simp }
    acceptedAt := 7 }], pairwise_singleton _ _⟩

/-- The binding of the assignment to its run task. -/
def binding : MissionRunBinding where
  bindingId := 40
  missionId := 1
  bindingKey := "build"
  missionTaskId := "build"
  assignmentId := some 30
  assignmentRevision := some 1
  runId := Uuid.text 1
  executionTaskId := "build"
  planFingerprint := some "plan"
  executionContext := .repository "repository" "revision"
  authorityScope := ["workspace"]
  pathScopes := []
  recordedBy := "pm"
  createdAt := 5
  revisionPositive := one_le_one
  versionedLineage := by simp
  legacyLineage := by simp
  dependenciesUnique := nodup_nil
  notSelfDependent := by simp
  referencesUnique := by simp
  pendingUnsettled := by simp
  settledReferences := by simp

/-- The settlement of the binding. -/
def settlement : MissionRunBinding :=
  { binding with
    bindingId := 41
    bindingRevision := 2
    resultReferences := ["run-result:" ++ Uuid.text 1 ++ ":build"]
    acceptanceReferences := ["run-acceptance:" ++ Uuid.text 1 ++ ":build"]
    acceptance := .accepted
    revisionPositive := by decide
    referencesUnique := by simp
    pendingUnsettled := by simp
    settledReferences := by simp }

/-- Its one task is done and accepted, and the mission evaluates. -/
def evaluating : List MissionOp := crewed ++ activation ++
  [.outside (runs .completed .accepted) {}, .recordRunBinding binding,
    .recordRunBinding settlement, move 62 .active .evaluating 6 (by decide)]

/-- A verification of the toolchain. -/
def verification (settlement : EnvironmentSettlement) (n : Nat) : EnvironmentVerification where
  verificationId := 1000 + n
  bindingId := 70
  contextFingerprint := "observation"
  settlement := settlement
  recordedAt := n

/-- The toolchain is verified so often, and then fails. -/
def verifications (n : Nat) : List EnvironmentVerification :=
  (List.range n).map (verification .verified) ++ [verification .failed n]

/-- The identifier of every binding request. -/
def requestId (_ : Uuid) (_ : String) : Uuid := 71

def environments (n : Nat) : EnvironmentRows where
  bindings := [⟨70, 71, 1, .compatible, "installed"⟩]
  verifications := verifications n

/-- The completed mission, after the failure. -/
def failed : List MissionOp :=
  evaluating ++ [.outside (runs .completed .accepted) (environments 1000)]

end Build

open Build in
/-- **A mission whose environment has failed is reported ready for completion.** -/
theorem failed_environment_ready :
    ¬ ∀ (uuid5 : Uuid → String → Uuid) (available : Bool) (ops : List MissionOp) (id : Uuid),
      ReportedReady uuid5 available (missionRun .empty ops) id ↔
      MissionComplete uuid5 available (missionRun .empty ops) id
        (recorded (missionRun .empty ops) id) := by
  intro h
  have hready : ((missionRun .empty failed).inspectCompletion requestId true 1).toOption.any
      (·.ready) = true := by
    decide +kernel
  obtain ⟨r, hr, hready⟩ := Option.any_eq_true _ _ |>.mp hready
  obtain ⟨m, -, hcomplete⟩ := (h requestId true failed 1).mp ⟨r, toOption_eq_some.mp hr, hready⟩
  have hlatest : IsLatest (·.taskId) (·.assignmentRevision)
      ((missionRun .empty failed).orderedAssignments 1) assignment := by
    decide +kernel
  obtain ⟨acc, ⟨hacc, -⟩, hverified⟩ := (hcomplete.tasks assignment hlatest).contexts "toolchain"
    (mem_singleton_self _)
  have hplans : (missionRun .empty failed).environmentPlans.rows = [Build.environmentPlan] := by
    decide +kernel
  rw [Table.mem_def, hplans] at hacc
  obtain rfl := mem_singleton.mp hacc
  have hbound : (missionRun .empty failed).bindingForRequest 71 =
      some ⟨70, 71, 1, .compatible, "installed"⟩ := by
    decide +kernel
  have hnewest : ((missionRun .empty failed).orderedVerifications 70).reverse.find?
      (·.contextFingerprint = "observation") = some (verification .failed 1000) := by
    decide +kernel
  have hfailed :
      ¬ NewestVerified ((missionRun .empty failed).orderedVerifications 70) "observation" := by
    rintro ⟨v, hv, hsettled⟩
    rw [hnewest] at hv
    rw [← Option.some.inj hv] at hsettled
    cases hsettled
  have hrequest : Build.environmentPlan.plan.bindingRequest requestId "toolchain" =
      .ok ⟨71, "observation"⟩ := rfl
  have hall := hverified.newest _ hrequest _ hbound
  rw [recorded_verifications] at hall
  exact hfailed hall

end Mishkan
