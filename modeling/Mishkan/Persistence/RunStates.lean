import Mishkan.Persistence.Standing
import Mishkan.Workers.Acceptance

/-!
# Persistence/RunStates — the statuses of a run under the run repository

Every transaction of the run repository turns the standing of each run (`localOp_turned`), as long
as it is `Careful`: no plan is accepted for a cancelled run, no recovery finds a completed or
cancelled run with unresolved effects, and none resumes a run that has no plan.  So a careful run of
the repository keeps the two laws of the statuses, `StatusesKept` and `RunningRunnable`.
-/

namespace Mishkan

open Refusal Transition Store Table Store

variable {s s' : Store}

/-! ## The standing of a run -/

namespace Store

/-- Some task of the run is being worked on. -/
def hasActive (s : Store) (runId : Uuid) : Bool :=
  s.tasks.rows.any fun t => t.runId = runId ∧ t.status.isActive

/-- The standing of a run in a store. -/
def standing (s : Store) (run : RunRow) : Standing where
  status := run.status
  requested := run.cancellationRequested
  planned := (s.plan? run.id).isSome
  unaccepted := s.hasUnaccepted run.id
  active := s.hasActive run.id

variable {runId : Uuid}

theorem hasActive_iff :
    s.hasActive runId = true ↔ ∃ t ∈ s.tasks, t.runId = runId ∧ t.status.isActive = true := by
  simp [hasActive, mem_def]

theorem hasUnaccepted_iff :
    s.hasUnaccepted runId = true ↔ ∃ t ∈ s.tasks, t.runId = runId ∧ t.status ≠ .accepted := by
  simp [hasUnaccepted, mem_def]

theorem isSome_plan?_iff :
    (s.plan? runId).isSome = true ↔ ∃ p ∈ s.plans, p.runId = runId := by
  simp [Option.isSome_iff_exists]

/-- The standing of a run reads its row, the plans and the tasks. -/
theorem standing_congr (hplans : s'.plans = s.plans) (htasks : s'.tasks = s.tasks) (run : RunRow) :
    s'.standing run = s.standing run := by
  simp only [standing, plan?, hasUnaccepted, hasActive, hplans, htasks]

/-! ### Moved tasks -/

variable {p : TaskRow → Bool} {status : TaskState}

/-- A move that accepts no task of a run, and moves none that is accepted, leaves what of the run is
unaccepted. -/
theorem hasUnaccepted_moveTasks (h : ∀ t ∈ s.tasks, p t = true → t.runId = runId →
    t.status ≠ .accepted ∧ status ≠ .accepted) :
    (s.moveTasks p status).hasUnaccepted runId = s.hasUnaccepted runId := by
  rw [Bool.eq_iff_iff, hasUnaccepted_iff, hasUnaccepted_iff]
  constructor
  · rintro ⟨t, ht, hrun, hopen⟩
    obtain ⟨t₀, ht₀, ⟨-, rfl⟩ | ⟨hpt, rfl⟩⟩ := mem_moveTasks ht
    · exact ⟨t, ht₀, hrun, hopen⟩
    · exact ⟨t₀, ht₀, hrun, (h t₀ ht₀ hpt hrun).1⟩
  · rintro ⟨t, ht, hrun, hopen⟩
    by_cases hpt : p t = true
    · have hmem : { t with status := status, revision := t.revision + 1 } ∈
          (s.moveTasks p status).tasks := by
        simp only [moveTasks, mem_update]
        exact ⟨t, ht, if_pos hpt⟩
      exact ⟨_, hmem, hrun, (h t ht hpt hrun).2⟩
    · have hmem : t ∈ (s.moveTasks p status).tasks := by
        simp only [moveTasks, mem_update]
        exact ⟨t, ht, if_neg hpt⟩
      exact ⟨t, hmem, hrun, hopen⟩

/-- Whoever works on a run works on something unaccepted. -/
theorem hasUnaccepted_of_hasActive (h : s.hasActive runId = true) :
    s.hasUnaccepted runId = true := by
  obtain ⟨t, ht, hrun, hactive⟩ := hasActive_iff.mp h
  refine hasUnaccepted_iff.mpr ⟨t, ht, hrun, fun haccepted => ?_⟩
  simp [haccepted, TaskState.isActive] at hactive

/-- Whoever works after a move of tasks worked before, or on a task that was moved. -/
theorem of_hasActive_moveTasks (h : (s.moveTasks p status).hasActive runId = true) :
    s.hasActive runId = true ∨
      status.isActive = true ∧ ∃ t ∈ s.tasks, p t = true ∧ t.runId = runId := by
  obtain ⟨t, ht, hrun, hactive⟩ := hasActive_iff.mp h
  obtain ⟨t₀, ht₀, ⟨-, rfl⟩ | ⟨hpt, rfl⟩⟩ := mem_moveTasks ht
  · exact .inl (hasActive_iff.mpr ⟨t, ht₀, hrun, hactive⟩)
  · exact .inr ⟨hactive, t₀, ht₀, hpt, hrun⟩

/-- The standings differ in that some work may be taken away. -/
def Relieves (s later : Store) : Prop := ∀ run : RunRow,
  later.standing run = { s.standing run with active := later.hasActive run.id } ∧
    (later.hasActive run.id = true → s.hasActive run.id = true)

/-- **A move of unaccepted tasks to a state nobody works in** only takes work away. -/
theorem relieves_moveTasks (h : ∀ t ∈ s.tasks, p t = true → t.status ≠ .accepted)
    (hstatus : status ≠ .accepted) (hidle : status.isActive = false) :
    s.Relieves (s.moveTasks p status) := by
  intro run
  have h : ∀ t ∈ s.tasks, p t = true → t.runId = run.id →
      t.status ≠ .accepted ∧ status ≠ .accepted := fun t ht hp _ => ⟨h t ht hp, hstatus⟩
  refine ⟨?_, fun hactive => ?_⟩
  · simp only [standing, hasUnaccepted_moveTasks h]
    rfl
  · obtain hbefore | ⟨hstatus, -⟩ := of_hasActive_moveTasks hactive
    · exact hbefore
    · simp [hidle] at hstatus

end Store

/-! ## What a transaction does to the standings -/

/-- A run that was just created. -/
def Standing.fresh : Standing where
  status := .planning
  requested := false
  planned := false
  unaccepted := false
  active := false

/-- Every run of the later store is new, or its standing turned. -/
def Turned (s s' : Store) : Prop :=
  ∀ run' ∈ s'.runs, (s'.standing run' = .fresh ∧ ∀ run ∈ s.runs, run.id ≠ run'.id) ∨
    ∃ run ∈ s.runs, run.id = run'.id ∧ Turn (s.standing run) (s'.standing run')

/-- A turn that changes nothing. -/
theorem Turn.same (a : Standing) : Turn a a := .worked fun h => h

theorem Store.Relieves.turn (h : s.Relieves s') (run : RunRow) :
    Turn (s.standing run) (s'.standing run) := by
  rw [(h run).1]
  exact .worked (h run).2

namespace Turned

/-- The rows of the runs stay as they are. -/
theorem of_runs (hruns : s'.runs = s.runs)
    (h : ∀ run ∈ s.runs, Turn (s.standing run) (s'.standing run)) : Turned s s' := by
  intro run hrun
  rw [hruns] at hrun
  exact .inr ⟨run, hrun, rfl, h run hrun⟩

/-- Nothing the standings depend on has changed. -/
theorem of_eq (hruns : s'.runs = s.runs) (hplans : s'.plans = s.plans)
    (htasks : s'.tasks = s.tasks) : Turned s s' := by
  refine of_runs hruns fun run _ => ?_
  rw [standing_congr hplans htasks]
  exact .same _

/-- A transaction that rolls back turns nothing. -/
theorem refl (s : Store) : Turned s s := .of_eq rfl rfl rfl

/-- What returns at once turns nothing. -/
theorem of_return {α : Type} {a b : α} (h : (pure (a, s) : Except Raised _) = .ok (b, s')) :
    Turned s s' := by
  cases h
  exact refl s

/-- The row of one run is rewritten. -/
theorem of_update {runId : Uuid} (f : RunRow → RunRow) (hf : ∀ r, Keyed.key (f r) = Keyed.key r)
    (hruns : s'.runs = s.runs.update (·.id = runId) f hf) (hid : ∀ r, (f r).id = r.id)
    (hother : ∀ run ∈ s.runs, run.id ≠ runId → Turn (s.standing run) (s'.standing run))
    (hself : ∀ run ∈ s.runs, run.id = runId → Turn (s.standing run) (s'.standing (f run))) :
    Turned s s' := by
  intro run' hrun'
  rw [hruns, mem_update] at hrun'
  obtain ⟨run, hrun, rfl⟩ := hrun'
  refine .inr ⟨run, hrun, ?_⟩
  by_cases h : run.id = runId
  · simp only [h, decide_true, if_true, hid, true_and]
    exact hself run hrun h
  · simp only [h, decide_false, Bool.false_eq_true, if_false, true_and]
    exact hother run hrun h

/-- One run is given a status. -/
theorem of_status {run : RunRow} (hrun : run ∈ s.runs) {status : RunState}
    (hruns : s'.runs = s.runs.update (·.id = run.id)
      (fun r => { r with status := status, revision := r.revision + 1 }) fun _ => rfl)
    (hother : ∀ r ∈ s.runs, r.id ≠ run.id → Turn (s.standing r) (s'.standing r))
    (hself : Turn (s.standing run) { s'.standing run with status := status }) : Turned s s' := by
  refine .of_update _ _ hruns (fun _ => rfl) hother fun r hr hid => ?_
  obtain rfl := run_eq hr hrun hid
  exact hself

end Turned

/-! ## The condition -/

/-- The store after the calls that are safe to retry are settled. -/
def Store.settleRetrySafeCalls (s : Store) (runId : Uuid) : Store :=
  { s with
    calls := s.calls.update (isRetrySafe runId) settleRetrySafe
      settleRetrySafe_key }

/-- The plan is one the repository accepts for the context of the run. -/
def FitsRun (safe : ContentInspector) (plan : AcceptedPlan) (run : RunRow) : Prop :=
  safe (.plan plan) = true ∧ FitsContext plan run

/-- **The condition on a transaction**: it accepts no plan for a cancelled run that has none,
recovers no completed or cancelled run with unresolved effects, and resumes no blocked run that has
no plan. -/
def Careful (deployment : Deployment) (s : Store) : Op → Prop
  | .acceptPlan runId plan _ => ∀ run ∈ s.runs, run.id = runId → s.plan? runId = none →
      FitsRun deployment.safe plan run → run.status ≠ .cancelled
  | .reconcileInterrupted runId =>
    (s.settleRetrySafeCalls runId).unresolvedDurableEffects runId ≠ [] →
      ∀ run ∈ s.runs, run.id = runId → run.status.isTerminal = false
  | .releaseInterrupted runId => ∀ run ∈ s.runs, run.id = runId → run.status = .blocked →
      run.cancellationRequested = false → s.plan? runId ≠ none
  | _ => True

/-- The transactions of the run repository, with what other services do between them. -/
def Op.isLocal : Op → Bool
  | .queuePlacement .. | .claimNext .. | .issueLease .. | .beginExecution .. | .renewLease ..
  | .deliverCompletion .. | .acceptCompletion .. | .expireLeases ..
  | .reconcileExpiredEnvelope .. =>
    false
  | _ => true

/-- Plans belong to runs. -/
def Housed (s : Store) : Prop := ∀ p ∈ s.plans, ∃ run ∈ s.runs, run.id = p.runId

/-! ## The operations -/

/-- A run that is not there has neither a plan nor a task. -/
theorem standing_new (hs : Sound s) (hhoused : Housed s) {run : RunRow}
    (hnew : ∀ r ∈ s.runs, r.id ≠ run.id) (hstatus : run.status = .planning)
    (hopen : run.cancellationRequested = false) : s.standing run = .fresh := by
  have hplan : ¬ ∃ p ∈ s.plans, p.runId = run.id := by
    rintro ⟨p, hp, hrun⟩
    obtain ⟨r, hr, hid⟩ := hhoused p hp
    exact hnew r hr (hid.trans hrun)
  have htask : ∀ t ∈ s.tasks, t.runId ≠ run.id := by
    intro t ht hrun
    obtain ⟨p, hp, hprun⟩ := hs.planned t ht
    exact hplan ⟨p, hp, hprun.trans hrun⟩
  have hplanned : (s.plan? run.id).isSome = false := by
    rwa [Bool.eq_false_iff, ne_eq, isSome_plan?_iff]
  have hunaccepted : s.hasUnaccepted run.id = false := by
    rw [Bool.eq_false_iff, ne_eq, hasUnaccepted_iff]
    exact fun ⟨t, ht, hrun, _⟩ => htask t ht hrun
  have hactive : s.hasActive run.id = false := by
    rw [Bool.eq_false_iff, ne_eq, hasActive_iff]
    exact fun ⟨t, ht, hrun, _⟩ => htask t ht hrun
  simp only [standing, hstatus, hopen, hplanned, hunaccepted, hactive, Standing.fresh]

variable {a : RunSnapshot}

variable {safe : ContentInspector}

theorem startOrResume_turned (hs : Sound s) (hhoused : Housed s)
    {id : Uuid} {discovery : DiscoverySnapshot} {objective outcomeId : String}
    (h : s.startOrResume safe id discovery objective outcomeId = .ok (a, s')) : Turned s s' := by
  simp only [startOrResume, bind_eq_ok] at h
  obtain ⟨-, -, h⟩ := h
  split at h
  · exact .of_return h
  · simp only [bind_eq_ok, require_eq_ok, return_eq_ok] at h
    obtain ⟨runs, hruns, -, rfl⟩ := h
    intro run hrun
    obtain hold | rfl := (mem_of_insert hruns).mp hrun
    · exact .inr ⟨run, hold, rfl, .same _⟩
    · have hnew : ∀ r ∈ s.runs, r.id ≠ id := fun r hr hid =>
        not_clash_of_insert hruns hr (by simp [Keyed.clash, Keyed.key, hid])
      exact .inl ⟨standing_new hs hhoused hnew rfl rfl, hnew⟩

variable {deployment : Deployment}

variable {runId : Uuid}

theorem acceptPlan_turned {plan : AcceptedPlan} {draw : Nat → Uuid}
    (hcareful : Careful deployment s (.acceptPlan runId plan draw))
    (h : s.acceptPlan deployment.safe runId plan draw = .ok (a, s')) : Turned s s' := by
  simp only [acceptPlan, bind_eq_ok, requireRun_eq_ok, refuseIf_eq_ok] at h
  obtain ⟨_, hsafe, run, ⟨hrun, rfl⟩, -, hcontext, -, hkind, h⟩ := h
  split at h
  · simp only [bind_eq_ok, refuseIf_eq_ok, return_eq_ok] at h
    obtain ⟨-, -, -, rfl⟩ := h
    exact .of_eq rfl rfl rfl
  rename_i hnone
  simp only [bind_eq_ok, require_eq_ok, return_eq_ok] at h
  obtain ⟨plans, hplans, tasks, htasks, events, -, -, rfl⟩ := h
  have hlive : run.status ≠ .cancelled := by
    refine hcareful run hrun rfl hnone ⟨?_, ?_, ?_⟩
    · simpa [requireSafeContent] using hsafe
    · simpa using hcontext
    · simpa using hkind
  have hrows : ∀ t ∈ plan.tasks.mapIdx
      (fun i task => plannedRow run.id (draw (i + 1)) i task),
      t.runId = run.id ∧ t.status.isActive = false ∧ t.status ≠ .accepted := by
    intro t ht
    obtain ⟨i, hi, rfl⟩ := List.mem_mapIdx.mp ht
    refine ⟨rfl, ?_⟩
    by_cases hd : plan.tasks[i].dependsOn = [] <;> simp [plannedRow, hd, TaskState.isActive]
  set later : Store := { s with plans := plans, tasks := tasks } with hlater
  -- nobody works on a task that was just planned
  have hactive : ∀ id, later.hasActive id = s.hasActive id := by
    intro id
    rw [Bool.eq_iff_iff, hasActive_iff, hasActive_iff]
    constructor
    · rintro ⟨t, ht, hid, hwork⟩
      obtain ht | ht := (mem_of_insertAll htasks).mp ht
      · exact ⟨t, ht, hid, hwork⟩
      · simp [(hrows t ht).2.1] at hwork
    · rintro ⟨t, ht, hid, hwork⟩
      exact ⟨t, (mem_of_insertAll htasks).mpr (.inl ht), hid, hwork⟩
  refine .of_status hrun rfl (fun r hr hne => ?_) ?_
  · have hunaccepted : later.hasUnaccepted r.id = s.hasUnaccepted r.id := by
      rw [Bool.eq_iff_iff, hasUnaccepted_iff, hasUnaccepted_iff]
      constructor
      · rintro ⟨t, ht, hid, hopen⟩
        obtain ht | ht := (mem_of_insertAll htasks).mp ht
        · exact ⟨t, ht, hid, hopen⟩
        · exact absurd (hid.symm.trans (hrows t ht).1) hne
      · rintro ⟨t, ht, hid, hopen⟩
        exact ⟨t, (mem_of_insertAll htasks).mpr (.inl ht), hid, hopen⟩
    have hplanned : (later.plan? r.id).isSome = (s.plan? r.id).isSome := by
      rw [Bool.eq_iff_iff, isSome_plan?_iff, isSome_plan?_iff]
      constructor
      · rintro ⟨p, hp, hid⟩
        obtain hp | rfl := (mem_of_insert hplans).mp hp
        · exact ⟨p, hp, hid⟩
        · exact absurd hid.symm hne
      · rintro ⟨p, hp, hid⟩
        exact ⟨p, (mem_of_insert hplans).mpr (.inl hp), hid⟩
    have hsame : later.standing r = s.standing r := by
      simp only [standing, hactive, hunaccepted, hplanned]
    change Turn (s.standing r) (later.standing r)
    rw [hsame]
    exact .same _
  · have hunaccepted : later.hasUnaccepted run.id = true := by
      obtain ⟨task, htask⟩ := List.exists_mem_of_ne_nil _ plan.tasksNonempty
      obtain ⟨i, hi, rfl⟩ := List.mem_iff_getElem.mp htask
      have hmem : plannedRow run.id (draw (i + 1)) i plan.tasks[i] ∈ plan.tasks.mapIdx
          (fun i task => plannedRow run.id (draw (i + 1)) i task) :=
        List.mem_mapIdx.mpr ⟨i, hi, rfl⟩
      refine hasUnaccepted_iff.mpr
        ⟨_, (mem_of_insertAll htasks).mpr (.inr hmem), (hrows _ hmem).1, (hrows _ hmem).2.2⟩
    have hplanned : (later.plan? run.id).isSome = true :=
      isSome_plan?_iff.mpr ⟨_, (mem_of_insert hplans).mpr (.inr rfl), rfl⟩
    have hturn := Turn.planned (a := s.standing run) (by simp [standing, hnone]) hlive
    have hstanding : { later.standing run with status := .queued } =
        { s.standing run with status := .queued, planned := true, unaccepted := true } := by
      simp only [standing, hactive, hunaccepted, hplanned]
    change Turn (s.standing run) { later.standing run with status := .queued }
    rw [hstanding]
    exact hturn

theorem markAwaitingApproval_turned {a : Unit}
    (h : s.markAwaitingApproval runId = .ok (a, s')) : Turned s s' := by
  simp only [markAwaitingApproval, bind_eq_ok, requireRun_eq_ok] at h
  obtain ⟨run, ⟨hrun, rfl⟩, h⟩ := h
  split at h
  · exact .of_return h
  · simp only [bind_eq_ok, refuseIf_eq_ok, return_eq_ok, not_not] at h
    obtain ⟨-, hstatus, -, rfl⟩ := h
    exact .of_status hrun rfl (fun r _ _ => .same _) (Turn.awaiting (a := s.standing run) hstatus)

theorem startRun_turned {a : Unit} (h : s.startRun runId = .ok (a, s')) :
    Turned s s' := by
  simp only [startRun, bind_eq_ok, requireRun_eq_ok] at h
  obtain ⟨run, ⟨hrun, rfl⟩, h⟩ := h
  split at h
  · exact .of_return h
  · simp only [bind_eq_ok, refuseIf_eq_ok, return_eq_ok, not_not] at h
    obtain ⟨-, hstatus, -, rfl⟩ := h
    exact .of_status hrun rfl (fun r _ _ => .same _) (Turn.started (a := s.standing run) hstatus)

variable {taskId : String}

theorem claimTask_turned {a : Nat}
    (h : s.claimTask runId taskId = .ok (a, s')) : Turned s s' := by
  simp only [claimTask, bind_eq_ok, requireRun_eq_ok, requireTask_eq_ok, refuseIf_eq_ok,
    return_eq_ok, not_not, not_or] at h
  obtain ⟨run, ⟨hrun, rfl⟩, t, ⟨ht, htrun, -⟩, -, ⟨-, hrunning⟩, -, heligible, -, rfl⟩ := h
  set claimed : TaskRow → TaskRow := fun t' => { t' with
    status := .executing, attemptCount := t.attemptCount + 1, revision := t'.revision + 1 }
  set later : Store := s.beginAttempt t.id .executing (t.attemptCount + 1)
  have hback : ∀ t' ∈ later.tasks, t' ∈ s.tasks ∨ t' = claimed t := by
    intro t' ht'
    simp only [later, beginAttempt, mem_update] at ht'
    obtain ⟨t₀, ht₀, rfl⟩ := ht'
    by_cases hid : t₀.id = t.id
    · obtain rfl := task_eq ht₀ ht hid
      exact .inr (by simp [claimed])
    · exact .inl (by simpa [hid] using ht₀)
  have hforth : ∀ t' ∈ s.tasks, t' = t ∨ t' ∈ later.tasks := by
    intro t' ht'
    by_cases hid : t'.id = t.id
    · exact .inl (task_eq ht' ht hid)
    · refine .inr ?_
      simp only [later, beginAttempt, mem_update]
      exact ⟨t', ht', by simp [hid]⟩
  have hclaimed : claimed t ∈ later.tasks := by
    simp only [later, beginAttempt, mem_update]
    exact ⟨t, ht, by simp [claimed]⟩
  -- the claimed task was unaccepted and still is
  have hunaccepted : ∀ id, later.hasUnaccepted id = s.hasUnaccepted id := by
    intro id
    rw [Bool.eq_iff_iff, hasUnaccepted_iff, hasUnaccepted_iff]
    constructor
    · rintro ⟨t', ht', hid, hopen⟩
      obtain ht' | rfl := hback t' ht'
      · exact ⟨t', ht', hid, hopen⟩
      · exact ⟨t, ht, hid, by simp [heligible]⟩
    · rintro ⟨t', ht', hid, hopen⟩
      obtain rfl | ht' := hforth t' ht'
      · exact ⟨_, hclaimed, hid, by simp [claimed]⟩
      · exact ⟨t', ht', hid, hopen⟩
  refine .of_runs rfl fun r hr => ?_
  change Turn (s.standing r) (later.standing r)
  by_cases hid : r.id = run.id
  · obtain rfl := run_eq hr hrun hid
    have hactive : later.hasActive r.id = true := hasActive_iff.mpr ⟨_, hclaimed, htrun, rfl⟩
    have hopen : s.hasUnaccepted r.id = true :=
      hasUnaccepted_iff.mpr ⟨t, ht, htrun, by simp [heligible]⟩
    have hstanding : later.standing r = { s.standing r with active := true } := by
      simp only [standing, hunaccepted, hactive]
      rfl
    rw [hstanding]
    exact Turn.claimed (a := s.standing r) hrunning hopen
  · have hactive : later.hasActive r.id = true → s.hasActive r.id = true := by
      rw [hasActive_iff, hasActive_iff]
      rintro ⟨t', ht', htid, hwork⟩
      obtain ht' | rfl := hback t' ht'
      · exact ⟨t', ht', htid, hwork⟩
      · exact absurd (htid.symm.trans htrun) hid
    have hstanding : later.standing r = { s.standing r with active := later.hasActive r.id } := by
      simp only [standing, hunaccepted]
      rfl
    rw [hstanding]
    exact .worked hactive

theorem markValidating_turned {a : Unit}
    (h : s.markValidating runId taskId = .ok (a, s')) : Turned s s' := by
  simp only [markValidating, bind_eq_ok, requireTask_eq_ok, refuseIf_eq_ok, return_eq_ok,
    not_not] at h
  obtain ⟨t, ⟨ht, -⟩, -, hstatus, -, rfl⟩ := h
  set later : Store := s.moveTask t.id .validating
  refine .of_runs rfl fun r _ => ?_
  change Turn (s.standing r) (later.standing r)
  have hone : ∀ t' ∈ s.tasks, decide (t'.id = t.id) = true → t' = t :=
    fun t' ht' hid => task_eq ht' ht (by simpa using hid)
  have hunaccepted : later.hasUnaccepted r.id = s.hasUnaccepted r.id := by
    refine hasUnaccepted_moveTasks fun t' ht' hid _ => ?_
    rw [hone t' ht' hid, hstatus]
    decide
  have hactive : later.hasActive r.id = true → s.hasActive r.id = true := by
    intro hwork
    obtain hbefore | ⟨-, t', ht', hid, hrun⟩ := of_hasActive_moveTasks hwork
    · exact hbefore
    · refine hasActive_iff.mpr ⟨t', ht', hrun, ?_⟩
      rw [hone t' ht' hid, hstatus]
      rfl
  have hstanding : later.standing r = { s.standing r with active := later.hasActive r.id } := by
    simp only [standing, hunaccepted]
    rfl
  rw [hstanding]
  exact .worked hactive

theorem markTaskFailure_turned {rejected : Bool} {a : Unit}
    (h : s.markTaskFailure runId taskId rejected = .ok (a, s')) : Turned s s' := by
  simp only [markTaskFailure, bind_eq_ok, requireRun_eq_ok, requireTask_eq_ok, refuseIf_eq_ok,
    return_eq_ok] at h
  obtain ⟨run, ⟨hrun, rfl⟩, t, ⟨ht, htrun, -⟩, -, hstatus, -, rfl⟩ := h
  have hwork : t.status.isActive = true := by
    have hcases : t.status = .executing ∨ t.status = .validating := by
      simpa only [ne_eq, not_and_or, not_not] using hstatus
    rcases hcases with h | h <;> simp [h, TaskState.isActive]
  set state : TaskState := if rejected then .rejected else .failed
  have hstate : state.isActive = false ∧ state ≠ .accepted := by
    cases rejected <;> simp [state, TaskState.isActive]
  set later : Store := s.moveTask t.id state
  have hmove : s.Relieves later := by
    refine relieves_moveTasks (fun t' ht' hid haccepted => ?_) hstate.2 hstate.1
    rw [task_eq ht' ht (by simpa using hid)] at haccepted
    simp [haccepted, TaskState.isActive] at hwork
  refine .of_status hrun rfl (fun r _ _ => hmove.turn r) ?_
  have hactive : (s.standing run).active = true := hasActive_iff.mpr ⟨t, ht, htrun, hwork⟩
  change Turn (s.standing run) { later.standing run with status := .failed }
  rw [(hmove run).1]
  exact .failed hactive

theorem recordRejectedReview_turned {id runId : Uuid}
    {result : InitializationResult} {review : ReviewDecision} {reviewSequence : Nat}
    {a : ReviewRejectionRow}
    (h : s.recordRejectedReview safe id runId result review reviewSequence = .ok (a, s')) :
    Turned s s' := by
  simp only [recordRejectedReview, bind_eq_ok] at h
  obtain ⟨_, -, _, -, _, -, _, -, _, -, _, -, h⟩ := h
  split at h
  · simp only [bind_eq_ok, return_eq_ok] at h
    obtain ⟨-, -, -, rfl⟩ := h
    exact .of_eq rfl rfl rfl
  · simp only [bind_eq_ok, return_eq_ok] at h
    obtain ⟨_, -, -, rfl⟩ := h
    exact .of_eq rfl rfl rfl

theorem cancelRun_turned (h : s.cancelRun runId = .ok (a, s')) : Turned s s' := by
  simp only [cancelRun, bind_eq_ok, requireRun_eq_ok] at h
  obtain ⟨run, ⟨hrun, rfl⟩, h⟩ := h
  split at h
  · exact .of_return h
  rename_i hlive
  obtain ⟨-, rfl⟩ := return_eq_ok.mp h
  set waiting : TaskRow → Bool := fun t => t.runId = run.id ∧ t.status.isWaiting with hwaiting
  set status : RunState :=
    if (s.tasks.select fun t => t.runId = run.id ∧ t.status.isActive) = [] then .cancelled
    else .cancelling with hstatus
  set later : Store := s.moveTasks waiting .cancelled
  have hmove : s.Relieves later := by
    refine relieves_moveTasks (fun t _ hp haccepted => ?_) (by decide) rfl
    simp [hwaiting, haccepted, TaskState.isWaiting] at hp
  refine .of_update (fun r => { r with
      cancellationRequested := true, status := status, revision := r.revision + 1 })
    (fun _ => rfl) rfl (fun _ => rfl) (fun r _ _ => hmove.turn r) fun r hr hid => ?_
  obtain rfl := run_eq hr hrun hid
  -- no task in work is among the cancelled ones
  have hactive : later.hasActive r.id = s.hasActive r.id := by
    rw [Bool.eq_iff_iff]
    refine ⟨(hmove r).2, fun hwork => ?_⟩
    obtain ⟨t, ht, htrun, htwork⟩ := hasActive_iff.mp hwork
    refine hasActive_iff.mpr ⟨t, ?_, htrun, htwork⟩
    simp only [later, moveTasks, mem_update]
    refine ⟨t, ht, if_neg ?_⟩
    cases hts : t.status <;> simp [hwaiting, hts, TaskState.isWaiting, TaskState.isActive]
      at htwork ⊢
  have hstanding : later.standing { r with
      cancellationRequested := true, status := status, revision := r.revision + 1 } =
      { s.standing r with requested := true, status := status } := by
    have hthis := (hmove r).1
    simp only [standing, Standing.mk.injEq] at hthis ⊢
    exact ⟨trivial, trivial, hthis.2.2.1, hthis.2.2.2.1, hactive⟩
  have hterminal : (s.standing r).status.isTerminal = false := by
    cases hs : r.status <;> simp_all [standing, RunState.isTerminal]
  change Turn (s.standing r) (later.standing { r with
    cancellationRequested := true, status := status, revision := r.revision + 1 })
  rw [hstanding, hstatus]
  split
  · rename_i hnil
    refine .cancelled hterminal ?_
    change s.hasActive r.id = false
    rw [Bool.eq_false_iff, ne_eq, hasActive_iff]
    rintro ⟨t, ht, htrun, hwork⟩
    rw [List.eq_nil_iff_forall_not_mem] at hnil
    exact hnil t (mem_select.mpr ⟨ht, by simp [htrun, hwork]⟩)
  · exact .cancelling hterminal

theorem settleCancellation_turned
    (h : s.settleCancellation runId = .ok (a, s')) : Turned s s' := by
  simp only [settleCancellation, bind_eq_ok, requireRun_eq_ok, refuseIf_eq_ok, not_not] at h
  obtain ⟨run, ⟨hrun, rfl⟩, -, hrequested, h⟩ := h
  split at h
  · exact .of_return h
  obtain ⟨-, rfl⟩ := return_eq_ok.mp h
  set unsettled : TaskRow → Bool := fun t =>
    t.runId = run.id ∧ (t.status.isWaiting ∨ t.status.isActive) with hunsettled
  set later : Store := s.moveTasks unsettled .cancelled
  have hmove : s.Relieves later := by
    refine relieves_moveTasks (fun t _ hp haccepted => ?_) (by decide) rfl
    simp [hunsettled, haccepted, TaskState.isWaiting, TaskState.isActive] at hp
  refine .of_status hrun rfl (fun r _ _ => hmove.turn r) ?_
  have hidle : later.hasActive run.id = false := by
    rw [Bool.eq_false_iff, ne_eq, hasActive_iff]
    rintro ⟨t, ht, htrun, hwork⟩
    obtain ⟨t₀, -, ⟨hp, rfl⟩ | ⟨-, rfl⟩⟩ := mem_moveTasks ht
    · simp [hunsettled, htrun, hwork] at hp
    · simp [TaskState.isActive] at hwork
  change Turn (s.standing run) { later.standing run with status := .cancelled }
  rw [(hmove run).1, hidle]
  exact .settled hrequested

theorem reconcileInterrupted_turned {a : List String}
    (hcareful : Careful deployment s (.reconcileInterrupted runId))
    (h : s.reconcileInterrupted runId = .ok (a, s')) : Turned s s' := by
  simp only [reconcileInterrupted, bind_eq_ok, requireRun_eq_ok] at h
  obtain ⟨run, ⟨hrun, rfl⟩, h⟩ := h
  have hblocked : (s.settleRetrySafeCalls run.id).unresolvedDurableEffects run.id ≠ [] →
      ∀ {calls outbox}, Turned s
        (({ s with calls := calls, outbox := outbox }.moveRun run.id .blocked).addEvent run.id
          "run.blocked") := by
    intro hunresolved calls outbox
    exact .of_status hrun rfl (fun r _ _ => .same _)
      (Turn.blocked (a := s.standing run) (hcareful hunresolved run hrun rfl))
  split at h <;> split at h <;> cases h
  · rename_i hcond
    exact hblocked hcond.1
  · exact .of_eq rfl rfl rfl
  · rename_i hcond
    exact hblocked hcond.1
  · exact .of_eq rfl rfl rfl

theorem releaseInterrupted_turned {a : List String}
    (hcareful : Careful deployment s (.releaseInterrupted runId))
    (h : s.releaseInterrupted runId = .ok (a, s')) : Turned s s' := by
  simp only [releaseInterrupted, bind_eq_ok, requireRun_eq_ok] at h
  obtain ⟨run, ⟨hrun, rfl⟩, h⟩ := h
  split at h
  · exact .of_return h
  rename_i hopen
  rw [Bool.not_eq_true] at hopen
  set later : Store := s.moveTasks (s.isReleasable run.id) .eligible
  have hmove : s.Relieves later := by
    refine relieves_moveTasks (fun t _ hp haccepted => ?_) (by decide) rfl
    simp [isReleasable, haccepted] at hp
  have hreleased : ∀ {outbox}, Turned s { later with outbox := outbox } :=
    .of_runs rfl fun r _ => hmove.turn r
  have hresumed : run.status = .blocked ∨ run.status = .failed → ∀ {outbox},
      Turned s { later.moveRun run.id .running with outbox := outbox } := by
    intro hstatus outbox
    refine .of_status hrun rfl (fun r _ _ => hmove.turn r) ?_
    change Turn (s.standing run) { later.standing run with status := .running }
    rw [(hmove run).1]
    refine .resumed hopen ?_ (hmove run).2
    rcases hstatus with hblocked | hfailed
    · exact .inr ⟨hblocked, Option.isSome_iff_ne_none.mpr (hcareful run hrun rfl hblocked hopen)⟩
    · exact .inl hfailed
  split at h <;> split at h <;> simp only [return_eq_ok] at h <;>
    obtain ⟨-, rfl⟩ := h
  · rename_i hstatus
    exact hresumed hstatus
  · exact hreleased
  · rename_i hstatus
    exact hresumed hstatus
  · exact hreleased

theorem acceptResult_turned (hs : Sound s)
    {resultId acceptanceId runId : Uuid} {now : Instant} {result : InitializationResult}
    {review : ReviewDecision}
    (h : s.acceptResult safe resultId acceptanceId runId now result review = .ok (a, s')) :
    Turned s s' := by
  simp only [acceptResult, bind_eq_ok, requireRun_eq_ok, require_eq_ok, refuseIf_eq_ok,
    task?_eq_some] at h
  obtain ⟨-, -, run, ⟨hrun, rfl⟩, t, ⟨ht, htrun, -⟩, -, -, h⟩ := h
  split at h
  · simp only [bind_eq_ok, refuseIf_eq_ok, return_eq_ok] at h
    obtain ⟨-, -, -, -, -, rfl⟩ := h
    exact .of_eq rfl rfl rfl
  simp only [bind_eq_ok, refuseIf_eq_ok, require_eq_ok, return_eq_ok, not_not, Bool.not_eq_true,
    Bool.not_eq_false] at h
  obtain ⟨-, hopen, -, -, -, hvalidating, -, -, -, -, results, -, acceptances, -, -, rfl⟩ := h
  set accepted : Store :=
    ({ s with results := results, acceptances := acceptances }.moveTask t.id .accepted).addEvent
      run.id "task.result_accepted" (some result.taskId)
  set later : Store := accepted.releaseDependents run.id with hlater
  have hone : ∀ t' ∈ s.tasks, decide (t'.id = t.id) = true → t' = t :=
    fun t' ht' hid => task_eq ht' ht (by simpa using hid)
  -- accepting the result takes its task from those that are unaccepted, and no other
  have haccepted : ∀ r : RunRow, r.id ≠ run.id →
      accepted.hasUnaccepted r.id = s.hasUnaccepted r.id := by
    intro r hne
    refine hasUnaccepted_moveTasks (p := fun t' => t'.id = t.id) fun t' ht' hid hr => ?_
    rw [hone t' ht' hid, htrun] at hr
    exact absurd hr.symm hne
  have hactive : ∀ r : RunRow, accepted.hasActive r.id = true → s.hasActive r.id = true := by
    intro r hwork
    obtain ⟨t', ht', hr, htwork⟩ := hasActive_iff.mp hwork
    obtain ⟨t₀, ht₀, ⟨-, rfl⟩ | ⟨-, rfl⟩⟩ := mem_moveTasks ht'
    · exact hasActive_iff.mpr ⟨t', ht₀, hr, htwork⟩
    · simp [TaskState.isActive] at htwork
  have hmove : accepted.Relieves later := by
    refine relieves_moveTasks (fun t' _ hp hstatus => ?_) (by decide) rfl
    simp [hstatus] at hp
  have hother : ∀ r ∈ s.runs, r.id ≠ run.id → Turn (s.standing r) (later.standing r) := by
    intro r _ hne
    have hstanding : later.standing r = { s.standing r with active := later.hasActive r.id } := by
      rw [(hmove r).1]
      simp only [standing, haccepted r hne]
      rfl
    rw [hstanding]
    exact .worked fun hwork => hactive r ((hmove r).2 hwork)
  have hunaccepted : s.hasUnaccepted run.id = true :=
    hasUnaccepted_iff.mpr ⟨t, ht, htrun, by simp [hvalidating]⟩
  unfold completeRun
  split
  · rename_i hleft
    refine .of_runs rfl fun r hr => ?_
    by_cases hid : r.id = run.id
    · obtain rfl := run_eq hr hrun hid
      have hstanding : later.standing r = { s.standing r with active := later.hasActive r.id } := by
        simp only [standing, hunaccepted, hleft]
        rfl
      rw [hstanding]
      exact .worked fun hwork => hactive r ((hmove r).2 hwork)
    · exact hother r hr hid
  · rename_i hall
    rw [Bool.not_eq_true] at hall
    refine .of_status hrun rfl hother ?_
    have hidle : later.hasActive run.id = false := by
      rw [Bool.eq_false_iff]
      intro hwork
      rw [hasUnaccepted_of_hasActive hwork] at hall
      cases hall
    have hplanned : (s.plan? run.id).isSome = true := by
      obtain ⟨p, hp, hprun⟩ := hs.planned t ht
      exact isSome_plan?_iff.mpr ⟨p, hp, hprun.trans htrun⟩
    have hstanding : { later.standing run with status := .completed } =
        { s.standing run with status := .completed, unaccepted := false, active := false } := by
      simp only [standing, hidle, hall]
      rfl
    change Turn (s.standing run) { later.standing run with status := .completed }
    rw [hstanding]
    exact .completed hopen hplanned

/-- A change of the journal turns nothing. -/
theorem journalled_turned
    (h : ∃ calls outbox, s' = { s with calls := calls, outbox := outbox }) : Turned s s' := by
  obtain ⟨calls, outbox, rfl⟩ := h
  exact .of_eq rfl rfl rfl

/-- **A careful transaction of the run repository turns every run.** -/
theorem localOp_turned (hs : Sound s) (hhoused : Housed s) {op : Op}
    (hlocal : op.isLocal = true) (hcareful : Careful deployment s op) :
    Turned s (step deployment s op) := by
  cases op with
  | others rows => exact .of_eq rfl rfl rfl
  | startOrResume =>
    exact commit_cases (.refl s) fun _ _ h => startOrResume_turned hs hhoused h
  | acceptPlan => exact commit_cases (.refl s) fun _ _ h => acceptPlan_turned hcareful h
  | markAwaitingApproval =>
    exact commit_cases (.refl s) fun _ _ h => markAwaitingApproval_turned h
  | startRun => exact commit_cases (.refl s) fun _ _ h => startRun_turned h
  | claimTask => exact commit_cases (.refl s) fun _ _ h => claimTask_turned h
  | markValidating => exact commit_cases (.refl s) fun _ _ h => markValidating_turned h
  | markTaskFailure => exact commit_cases (.refl s) fun _ _ h => markTaskFailure_turned h
  | recordRejectedReview =>
    exact commit_cases (.refl s) fun _ _ h => recordRejectedReview_turned h
  | cancelRun => exact commit_cases (.refl s) fun _ _ h => cancelRun_turned h
  | settleCancellation => exact commit_cases (.refl s) fun _ _ h => settleCancellation_turned h
  | reconcileInterrupted =>
    exact commit_cases (.refl s) fun _ _ h => reconcileInterrupted_turned hcareful h
  | releaseInterrupted =>
    exact commit_cases (.refl s) fun _ _ h => releaseInterrupted_turned hcareful h
  | acceptResult => exact commit_cases (.refl s) fun _ _ h => acceptResult_turned hs h
  | reservePlannedCall =>
    exact commit_cases (.refl s) fun _ _ h => journalled_turned (reservePlannedCall_only h)
  | markPlannedCallDispatching =>
    exact commit_cases (.refl s) fun _ _ h => journalled_turned (markPlannedCallDispatching_only h)
  | completePlannedCall =>
    exact commit_cases (.refl s) fun _ _ h => journalled_turned (completePlannedCall_only h)
  | _ => simp [Op.isLocal] at hlocal

/-! ## Runs -/

theorem Housed.move {G : Permits} (hhoused : Housed s) (h : Move G s s') : Housed s' := by
  have hkept : ∀ p ∈ s.plans, ∃ run ∈ s'.runs, run.id = p.runId := by
    intro p hp
    obtain ⟨run, hrun, hid⟩ := hhoused p hp
    obtain ⟨run', hrun', hstep⟩ := h.run_forward hrun
    exact ⟨run', hrun', hstep.identity.1.trans hid⟩
  intro p hp
  by_cases hold : p ∈ s.plans
  · exact hkept p hold
  · cases h with
    | planAccepted hrun hplan hplans =>
      obtain hp | rfl := (mem_of_insert hplans).mp hp
      · exact absurd hp hold
      · rw [hplan]
        obtain ⟨run', hrun', hstep⟩ := (Move.planAccepted (G := anyRelease) hrun hplan hplans ‹_›
          ‹_› trivial).run_forward hrun
        exact ⟨run', hrun', hstep.identity.1⟩
    | aside h =>
      rw [h.plans] at hp
      exact absurd hp hold
    | _ => exact absurd hp hold

/-- The invariants of a careful run. -/
structure Governed (s : Store) : Prop where
  sound : Sound s
  housed : Housed s
  orderly : ∀ run ∈ s.runs, (s.standing run).Orderly

theorem governed_empty : Governed .empty where
  sound := sound_empty
  housed _ hp := absurd hp not_mem_empty
  orderly _ hrun := absurd hrun not_mem_empty

theorem Standing.orderly_fresh : Standing.fresh.Orderly := by
  constructor <;> simp [Standing.fresh]

theorem Governed.step (hs : Governed s) {op : Op}
    (hlocal : op.isLocal = true) (hcareful : Careful deployment s op) :
    Governed (step deployment s op) where
  sound := hs.sound.step op
  housed := (step_moves deployment hs.sound.addressed (permitsOp_any s op)).lift
    (fun _ _ hhoused h => hhoused.move h) hs.housed
  orderly run' hrun' := by
    obtain ⟨hfresh, -⟩ | ⟨run, hrun, -, hturn⟩ :=
      localOp_turned hs.sound hs.housed hlocal hcareful run' hrun'
    · rw [hfresh]
      exact Standing.orderly_fresh
    · exact hturn.orderly (hs.orderly run hrun)

/-- A run that is completed or cancelled before a transaction has the same status after it. -/
def StatusesKept (s s' : Store) : Prop :=
  ∀ run ∈ s.runs, run.status = .completed ∨ run.status = .cancelled →
    ∃ run' ∈ s'.runs, run'.id = run.id ∧ run'.status = run.status

/-- A running run has an accepted plan and a task that is not accepted. -/
def RunningRunnable (s : Store) : Prop :=
  ∀ run ∈ s.runs, run.status = .running →
    (∃ p ∈ s.plans, p.runId = run.id) ∧ ∃ t ∈ s.tasks, t.runId = run.id ∧ t.status ≠ .accepted

instance (s s' : Store) : Decidable (StatusesKept s s') :=
  inferInstanceAs (Decidable (∀ run ∈ s.runs, _))

instance (s : Store) : Decidable (RunningRunnable s) :=
  inferInstanceAs (Decidable (∀ run ∈ s.runs, _))

/-- No run of the store is lost by a transaction. -/
theorem Sound.run_kept (hs : Sound s) (op : Op) :
    ∀ run ∈ s.runs, ∃ run' ∈ (Mishkan.step deployment s op).runs, run'.id = run.id := by
  refine (step_moves deployment hs.addressed (permitsOp_any s op)).rel (I := fun _ => True)
    (R := fun s s' => ∀ run ∈ s.runs, ∃ run' ∈ s'.runs, run'.id = run.id)
    (fun _ run hrun => ⟨run, hrun, rfl⟩) (fun h h' run hrun => ?_) (fun _ _ _ _ => trivial)
    (fun _ _ _ h run hrun => ?_) trivial
  · obtain ⟨run', hrun', hid⟩ := h run hrun
    obtain ⟨run'', hrun'', hid'⟩ := h' run' hrun'
    exact ⟨run'', hrun'', hid'.trans hid⟩
  · obtain ⟨run', hrun', hstep⟩ := h.run_forward hrun
    exact ⟨run', hrun', hstep.identity.1⟩

theorem Governed.statusesKept (hs : Governed s) {op : Op}
    (hlocal : op.isLocal = true) (hcareful : Careful deployment s op) :
    StatusesKept s (Mishkan.step deployment s op) := by
  intro run hrun hover
  obtain ⟨run', hrun', hid⟩ := hs.sound.run_kept op run hrun
  have hterminal : (s.standing run).status.isTerminal = true := by
    rcases hover with h | h <;> simp [standing, h, RunState.isTerminal]
  refine ⟨run', hrun', hid, ?_⟩
  obtain ⟨-, hnew⟩ | ⟨run₀, hrun₀, hid₀, hturn⟩ :=
    localOp_turned hs.sound hs.housed hlocal hcareful run' hrun'
  · exact absurd hid.symm (hnew run hrun)
  · obtain rfl := run_eq hrun₀ hrun (hid₀.trans hid)
    exact hturn.status_kept (hs.orderly run₀ hrun) hterminal

theorem Governed.runnable (hs : Governed s) : RunningRunnable s := by
  intro run hrun hrunning
  obtain ⟨hplanned, hunaccepted⟩ := (hs.orderly run hrun).runnable hrunning
  exact ⟨isSome_plan?_iff.mp hplanned, hasUnaccepted_iff.mp hunaccepted⟩

theorem StatusesKept.refl (s : Store) : StatusesKept s s := fun run hrun _ => ⟨run, hrun, rfl, rfl⟩

theorem StatusesKept.trans {s₁ s₂ s₃ : Store} (h : StatusesKept s₁ s₂) (h' : StatusesKept s₂ s₃) :
    StatusesKept s₁ s₃ := by
  intro run hrun hover
  obtain ⟨run', hrun', hid, hstatus⟩ := h run hrun hover
  rw [← hstatus] at hover
  obtain ⟨run'', hrun'', hid', hstatus'⟩ := h' run' hrun' hover
  exact ⟨run'', hrun'', hid'.trans hid, hstatus'.trans hstatus⟩

/-- The transaction is one of the run repository, and careful. -/
def LocalStep (deployment : Deployment) (s : Store) (op : Op) : Prop :=
  op.isLocal = true ∧ Careful deployment s op

instance (safe : ContentInspector) (plan : AcceptedPlan) (run : RunRow) :
    Decidable (FitsRun safe plan run) := inferInstanceAs (Decidable (_ ∧ _))

instance (deployment : Deployment) (s : Store) (op : Op) : Decidable (Careful deployment s op) := by
  cases op <;> dsimp only [Careful] <;> infer_instance

instance (deployment : Deployment) (s : Store) (op : Op) :
    Decidable (LocalStep deployment s op) := inferInstanceAs (Decidable (_ ∧ _))

/-- The run statuses behave along a run and what follows it: a run that is completed or cancelled
after the first keeps its status, and a run that is running then can be run. -/
def RunStatesHold (deployment : Deployment) (ops later : List Op) : Prop :=
  let s := runFrom deployment .empty ops
  StatusesKept s (runFrom deployment s later) ∧ RunningRunnable s

instance (deployment : Deployment) (ops later : List Op) :
    Decidable (RunStatesHold deployment ops later) := inferInstanceAs (Decidable (_ ∧ _))

/-- **The statuses of a run of the repository.**  Along every run whose transactions are careful, a
completed or cancelled run keeps its status ever after, and a running run has an accepted plan and a
task that is not accepted. -/
theorem runStates_hold {deployment : Deployment} {ops later : List Op}
    (hcareful : Along (step deployment) (LocalStep deployment) .empty (ops ++ later)) :
    RunStatesHold deployment ops later := by
  obtain ⟨hfirst, hlater⟩ := Along.append.mp hcareful
  have hs : Governed (runFrom deployment .empty ops) :=
    run_of_guarded (fun _ _ hs h => hs.step h.1 h.2) governed_empty hfirst
  refine ⟨?_, hs.runnable⟩
  exact run_rel_of_guarded (R := StatusesKept) .refl .trans (fun _ _ hs h => hs.step h.1 h.2)
    (fun _ _ hs h => hs.statusesKept h.1 h.2) hs hlater

/-- An execution session of the first run, in the given state. -/
def sampleSession (state : String) : OtherRows where
  executionSessions := [⟨5, some 1, state, none, some (.obj [])⟩]

/-- The first run, from its start to the acceptance of its only task. -/
def sampleCompletion : List Op :=
  sampleStart ++ [.claimTask 1 "build", .markValidating 1 "build",
    .acceptResult 50 51 1 second (sampleResult "repository") sampleReview]

/-- The condition on a run that is planned, started, interrupted, recovered and completed. -/
theorem runStates_hold_completed :
    RunStatesHold sampleDeployment sampleCompletion
      [.recordRejectedReview 60 1 (sampleResult "repository") sampleReview 0, .cancelRun 1,
        .reconcileInterrupted 1, .releaseInterrupted 1] :=
  runStates_hold (by decide +kernel)

/-- A run cancelled while it was planning is queued by the plan accepted later; a completed run with
an uncertain session is blocked by its recovery, and running again, with every task accepted, after
the session has settled; so is, without a plan, a run that was still planning. -/
theorem runStates_broken :
    ¬ RunStatesHold sampleDeployment
        [.startOrResume 1 sampleDiscovery "build" "built", .cancelRun 1]
        [.acceptPlan 1 samplePlan (10 + ·)] ∧
    ¬ RunStatesHold sampleDeployment sampleCompletion
        [.others (sampleSession "uncertain"), .reconcileInterrupted 1] ∧
    ¬ RunStatesHold sampleDeployment
        (sampleCompletion ++ [.others (sampleSession "uncertain"), .reconcileInterrupted 1,
          .others (sampleSession "finished"), .reconcileInterrupted 1, .releaseInterrupted 1]) [] ∧
    ¬ RunStatesHold sampleDeployment
        [.startOrResume 1 sampleDiscovery "build" "built", .others (sampleSession "uncertain"),
          .reconcileInterrupted 1, .others (sampleSession "finished"), .reconcileInterrupted 1,
          .releaseInterrupted 1] [] := by
  decide +kernel

end Mishkan
