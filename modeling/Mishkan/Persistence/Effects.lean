import Mishkan.Persistence.Chains

/-!
# Persistence/Effects — what a move does to the tasks, the runs and the results

A move rewrites the tasks row by row, or appends those of a new plan (`Move.tasks`).  `TaskStep` and
`RunStep` say everything that can happen to one task and to one run; invariants about tasks and runs
are derived from them and never look at the moves again.
-/

namespace Mishkan

open Refusal Transition Table

variable {G : Permits} {s s' : Store}

/-! ## Tasks -/

/-- What a move does to one task. -/
inductive TaskStep (G : Permits) (s s' : Store) (t : TaskRow) : TaskRow → Prop
  | same : TaskStep G s s' t t
  | moved {status : TaskState} (h : TaskMove G s t status) :
      TaskStep G s s' t { t with status := status, revision := t.revision + 1 }
  | claimed (h : t.status = .eligible) : TaskStep G s s' t { t with
      status := .executing, attemptCount := t.attemptCount + 1, revision := t.revision + 1 }
  | leased (h : t.status = .eligible) {attempt : Nat} : TaskStep G s s' t { t with
      status := .leased, attemptCount := attempt, revision := t.revision + 1 }
  | accepted (hopen : RunOpen s t.runId) (hdeps : s.dependenciesAccepted t.runId t.contract)
      (hr : ∃ r ∈ s'.results, r.runId = t.runId ∧ r.taskKey = t.taskKey)
      (ha : ∃ a ∈ s'.acceptances, a.runId = t.runId ∧ a.taskKey = t.taskKey) :
      TaskStep G s s' t { t with status := .accepted, revision := t.revision + 1 }
  | begun (h : t.status = .leased) :
      TaskStep G s s' t { t with status := .executing, revision := t.revision + 1 }
  | delivered (h : t.status = .leased ∨ t.status = .executing) :
      TaskStep G s s' t { t with status := .validating, revision := t.revision + 1 }
  | returned (h : t.status = .leased ∨ t.status = .executing) {e : RemoteTaskEnvelopeRow}
      (he : e ∈ s.envelopes) (htask : e.taskRowId = t.id) {l : WorkerLeaseRow} (hl : l ∈ s.leases)
      (hactive : l.state = .active) (hle : l.envelopeId = e.id) (hG : G s (.expired e))
      (hexpired : ∀ e' ∈ s'.envelopes, e'.id = e.id → e'.state = .expired) :
      TaskStep G s s' t { t with status := .eligible, revision := t.revision + 1 }
  | reconciled (h : t.status = .leased ∨ t.status = .executing) {e : RemoteTaskEnvelopeRow}
      (he : e ∈ s.envelopes) (htask : e.taskRowId = t.id)
      (hstate : e.state = .reconciliationRequired) (hG : G s (.reconciled e))
      (hexpired : ∀ e' ∈ s'.envelopes, e'.id = e.id → e'.state = .expired) :
      TaskStep G s s' t { t with status := .eligible, revision := t.revision + 1 }

namespace TaskStep

variable {t t' : TaskRow}

/-- A step keeps what a task is. -/
theorem identity (h : TaskStep G s s' t t') :
    t'.id = t.id ∧ t'.runId = t.runId ∧ t'.taskKey = t.taskKey ∧ t'.contract = t.contract := by
  cases h <;> exact ⟨rfl, rfl, rfl, rfl⟩

/-- **Accepted is absorbing.** -/
theorem accepted_of (h : TaskStep G s s' t t') (ht : t.status = .accepted) :
    t'.status = .accepted := by
  cases h with
  | same => exact ht
  | accepted => rfl
  | moved h => cases h <;> simp_all [TaskState.isWaiting, TaskState.isActive]
  | claimed h | leased h | begun h => simp_all
  | delivered h | returned h | reconciled h => simp_all

end TaskStep

/-- The tasks are rewritten row by row. -/
def TasksRewritten (G : Permits) (s s' : Store) : Prop :=
  ∃ g : TaskRow → TaskRow, s'.tasks.rows = s.tasks.rows.map g ∧
    ∀ t ∈ s.tasks, TaskStep G s s' t (g t)

/-- The tasks of a first plan are appended. -/
def TasksPlanned (G : Permits) (s s' : Store) : Prop :=
  ∃ runId rows, s'.tasks.rows = s.tasks.rows ++ rows ∧ G s (.plan runId) ∧
    (∀ p ∈ s.plans, p.runId ≠ runId) ∧ (∃ p ∈ s'.plans, p.runId = runId) ∧
    ∀ t ∈ rows, t.runId = runId ∧
      (t.status = .pending ∨ t.status = .eligible ∧ t.contract.dependsOn = [])

theorem TasksRewritten.of_eq (h : s'.tasks = s.tasks) : TasksRewritten G s s' :=
  ⟨id, by simp [h], fun _ _ => .same⟩

/-- An update of the tasks that match rewrites them row by row. -/
theorem TasksRewritten.update {p : TaskRow → Bool} {f : TaskRow → TaskRow}
    (h : s'.tasks.rows = s.tasks.rows.map fun t => if p t then f t else t)
    (hstep : ∀ t ∈ s.tasks, p t = true → TaskStep G s s' t (f t)) : TasksRewritten G s s' := by
  refine ⟨fun t => if p t then f t else t, h, fun t ht => ?_⟩
  dsimp only
  split
  · rename_i hp
    exact hstep t ht hp
  · exact .same

/-- An update of one task. -/
theorem TasksRewritten.updateOne {t : TaskRow} (ht : t ∈ s.tasks) {f : TaskRow → TaskRow}
    (h : s'.tasks.rows = s.tasks.rows.map fun r => if decide (r.id = t.id) then f r else r)
    (hstep : TaskStep G s s' t (f t)) : TasksRewritten G s s' := by
  refine .update h fun t' ht' hid => ?_
  rwa [Store.task_eq ht' ht (by simpa using hid)]

/-- An envelope that was moved is in the state it was moved to. -/
theorem state_of_moveEnvelope (s : Store) {id : Uuid} {state : RemoteEnvelopeState} :
    ∀ e ∈ (s.moveEnvelope id state).envelopes, e.id = id → e.state = state := by
  intro e he hid
  obtain ⟨e₀, -, ⟨hne, rfl⟩ | ⟨-, rfl⟩⟩ := mem_moveEnvelope he
  · exact absurd hid hne
  · rfl

/-- **What a move does to the tasks.** -/
theorem Move.tasks (h : Move G s s') : TasksRewritten G s s' ∨ TasksPlanned G s s' := by
  cases h with
  | aside h => exact .inl (.of_eq h.tasks)
  | planAccepted hrun hplan hplans htasks hrows hG =>
    refine .inr ⟨_, _, rows_of_insertAll htasks, hG, fun p hp hid => ?_, ?_, hrows⟩
    · exact not_clash_of_insert hplans hp (by simp [Keyed.clash, Keyed.key, hplan, hid])
    · exact ⟨_, (mem_of_insert hplans).mpr (.inr rfl), hplan⟩
  | tasksMoved h => exact .inl (.update rfl fun t ht hp => .moved (h t ht hp))
  | taskClaimed ht h => exact .inl (.updateOne ht rfl (.claimed h))
  | resultAccepted ht hopen hdeps hresult hacceptance hr ha =>
    refine .inl (.updateOne ht rfl (.accepted hopen hdeps ⟨_, ?_, hr⟩ ⟨_, ?_, ha⟩))
    · exact (mem_of_insert hresult).mpr (.inr rfl)
    · exact (mem_of_insert hacceptance).mpr (.inr rfl)
  | leaseIssued ht h => exact .inl (.updateOne ht rfl (.leased h))
  | executionBegun he hstate ht htask h => exact .inl (.updateOne ht rfl (.begun h))
  | completionDelivered hinsert he hc hl hle hactive ht htask h =>
    exact .inl (.updateOne ht rfl (.delivered h))
  | leaseReturned hl hactive he hle hstateless hG =>
    refine .inl (.update rfl fun t ht hp => ?_)
    simp only [decide_eq_true_eq] at hp
    exact .returned hp.2 he hp.1.symm hl hactive hle hG (state_of_moveEnvelope _)
  | envelopeReconciled he hstate ht htask h hG =>
    exact .inl (.updateOne ht rfl (.reconciled h he htask.symm hstate hG (state_of_moveEnvelope s)))
  | _ => exact .inl (.of_eq rfl)

/-- A task that was there is still there, one step on. -/
theorem Move.task_forward (h : Move G s s') {t : TaskRow} (ht : t ∈ s.tasks) :
    ∃ t' ∈ s'.tasks, TaskStep G s s' t t' := by
  obtain ⟨g, hrows, hg⟩ | ⟨_, rows, hrows, -⟩ := h.tasks
  · exact ⟨g t, by rw [mem_def, hrows]; exact List.mem_map_of_mem ht, hg t ht⟩
  · exact ⟨t, by rw [mem_def, hrows]; exact List.mem_append_left _ ht, .same⟩

/-- A task is a new one of a first plan, or was there one step before. -/
theorem Move.task_backward (h : Move G s s') {t' : TaskRow} (ht' : t' ∈ s'.tasks) :
    (∃ t ∈ s.tasks, TaskStep G s s' t t') ∨
      (t' ∉ s.tasks ∧ G s (.plan t'.runId) ∧ (∀ p ∈ s.plans, p.runId ≠ t'.runId) ∧
        (∃ p ∈ s'.plans, p.runId = t'.runId) ∧
        (t'.status = .pending ∨ t'.status = .eligible ∧ t'.contract.dependsOn = [])) := by
  obtain ⟨g, hrows, hg⟩ | ⟨runId, rows, hrows, hG, hno, hplan, hnew⟩ := h.tasks
  · rw [mem_def, hrows, List.mem_map] at ht'
    obtain ⟨t, ht, rfl⟩ := ht'
    exact .inl ⟨t, ht, hg t ht⟩
  · by_cases hold : t' ∈ s.tasks
    · exact .inl ⟨t', hold, .same⟩
    · rw [mem_def, hrows, List.mem_append] at ht'
      obtain ⟨rfl, hstatus⟩ := hnew t' (ht'.resolve_left hold)
      exact .inr ⟨hold, hG, hno, hplan, hstatus⟩

/-! ## Runs -/

/-- What a move does to one run. -/
inductive RunStep (G : Permits) (s s' : Store) (run : RunRow) : RunRow → Prop
  | same : RunStep G s s' run run
  | moved {status : RunState} (h : RunMove s run status) (htasks : s'.tasks = s.tasks) :
      RunStep G s s' run { run with status := status, revision := run.revision + 1 }
  | cancelled {status : RunState} (hstatus : status = .cancelled ∨ status = .cancelling)
      (hlive : run.status ≠ .completed) : RunStep G s s' run { run with
        cancellationRequested := true, status := status, revision := run.revision + 1 }
  | queued (hG : G s (.plan run.id)) (hno : ∀ p ∈ s.plans, p.runId ≠ run.id) :
      RunStep G s s' run { run with status := .queued, revision := run.revision + 1 }

theorem RunStep.identity {run run' : RunRow} (h : RunStep G s s' run run') :
    run'.id = run.id ∧ run'.context = run.context := by
  cases h <;> exact ⟨rfl, rfl⟩

/-- A request for cancellation is never withdrawn. -/
theorem RunStep.requested {run run' : RunRow} (h : RunStep G s s' run run')
    (hrun : run.cancellationRequested = true) : run'.cancellationRequested = true := by
  cases h <;> simp [hrun]

/-- The runs are rewritten row by row. -/
def RunsRewritten (G : Permits) (s s' : Store) : Prop :=
  ∃ g : RunRow → RunRow, s'.runs.rows = s.runs.rows.map g ∧
    ∀ run ∈ s.runs, RunStep G s s' run (g run)

theorem RunsRewritten.of_eq (h : s'.runs = s.runs) : RunsRewritten G s s' :=
  ⟨id, by simp [h], fun _ _ => .same⟩

/-- An update of one run. -/
theorem RunsRewritten.updateOne {run : RunRow} (hrun : run ∈ s.runs) {f : RunRow → RunRow}
    (h : s'.runs.rows = s.runs.rows.map fun r => if decide (r.id = run.id) then f r else r)
    (hstep : RunStep G s s' run (f run)) : RunsRewritten G s s' := by
  refine ⟨_, h, fun r hr => ?_⟩
  split
  · rename_i hid
    rwa [Store.run_eq hr hrun (by simpa using hid)]
  · exact .same

/-- **What a move does to the runs**: it rewrites them, or inserts one that is planning. -/
theorem Move.runs (h : Move G s s') : RunsRewritten G s s' ∨
    ∃ run, s'.runs.rows = s.runs.rows ++ [run] ∧ run.status = .planning
      ∧ run.cancellationRequested = false := by
  cases h with
  | aside h => exact .inl (.of_eq h.runs)
  | runInserted h hstatus hopen => exact .inr ⟨_, (insert_eq_some.mp h).1, hstatus, hopen⟩
  | planAccepted hrun hplan hplans htasks hrows hG =>
    refine .inl (.updateOne hrun rfl (.queued hG fun p hp hid => ?_))
    exact not_clash_of_insert hplans hp (by simp [Keyed.clash, Keyed.key, hplan, hid])
  | runMoved hrun h => exact .inl (.updateOne hrun rfl (.moved h rfl))
  | runCancelled hrun hstatus hlive => exact .inl (.updateOne hrun rfl (.cancelled hstatus hlive))
  | _ => exact .inl (.of_eq rfl)

/-- A run that was there is still there, one step on. -/
theorem Move.run_forward (h : Move G s s') {run : RunRow} (hrun : run ∈ s.runs) :
    ∃ run' ∈ s'.runs, RunStep G s s' run run' := by
  obtain ⟨g, hrows, hg⟩ | ⟨_, hrows, -⟩ := h.runs
  · exact ⟨g run, by rw [mem_def, hrows]; exact List.mem_map_of_mem hrun, hg run hrun⟩
  · exact ⟨run, by rw [mem_def, hrows]; exact List.mem_append_left _ hrun, .same⟩

/-- A run is new and planning, or was there one step before. -/
theorem Move.run_backward (h : Move G s s') {run' : RunRow} (hrun' : run' ∈ s'.runs) :
    (∃ run ∈ s.runs, RunStep G s s' run run') ∨
      (run'.status = .planning ∧ run'.cancellationRequested = false) := by
  obtain ⟨g, hrows, hg⟩ | ⟨run, hrows, hnew⟩ := h.runs
  · rw [mem_def, hrows, List.mem_map] at hrun'
    obtain ⟨run, hrun, rfl⟩ := hrun'
    exact .inl ⟨run, hrun, hg run hrun⟩
  · rw [mem_def, hrows, List.mem_append, List.mem_singleton] at hrun'
    obtain hrun' | rfl := hrun'
    · exact .inl ⟨run', hrun', .same⟩
    · exact .inr hnew

/-! ## Results -/

/-- **What a move does to the results**: it keeps them, or appends one with its acceptance, and the
task of the new rows is accepted. -/
theorem Move.results (h : Move G s s') : (s'.results = s.results ∧ s'.acceptances = s.acceptances) ∨
      ∃ r a, s.results.insert r = some s'.results ∧ s.acceptances.insert a = some s'.acceptances ∧
        a.runId = r.runId ∧ a.taskKey = r.taskKey ∧
        ∃ t ∈ s'.tasks, t.runId = r.runId ∧ t.taskKey = r.taskKey ∧ t.status = .accepted := by
  cases h with
  | aside h => exact .inl ⟨h.results, h.acceptances⟩
  | @resultAccepted t ht hopen hdeps r results a acceptances hresult hacceptance hr ha =>
    refine .inr ⟨r, a, hresult, hacceptance, ha.1.trans hr.1.symm, ha.2.trans hr.2.symm,
      { t with status := .accepted, revision := t.revision + 1 }, ?_, hr.1.symm, hr.2.symm, rfl⟩
    simp only [Store.moveTask, Store.moveTasks, mem_update]
    exact ⟨t, ht, by simp⟩
  | _ => exact .inl ⟨rfl, rfl⟩

/-- **A result row is never changed or removed.** -/
theorem Move.result_kept (h : Move G s s') {r : ResultRow} (hr : r ∈ s.results) :
    r ∈ s'.results := by
  obtain ⟨hsame, -⟩ | ⟨_, _, hinsert, -⟩ := h.results
  · rwa [hsame]
  · exact (mem_of_insert hinsert).mpr (.inl hr)

theorem Move.acceptance_kept (h : Move G s s') {a : AcceptanceRow} (ha : a ∈ s.acceptances) :
    a ∈ s'.acceptances := by
  obtain ⟨-, hsame⟩ | ⟨_, _, -, hinsert, -⟩ := h.results
  · rwa [hsame]
  · exact (mem_of_insert hinsert).mpr (.inl ha)

/-- A plan row is never removed. -/
theorem Move.plan_kept (h : Move G s s') {p : PlanRow} (hp : p ∈ s.plans) : p ∈ s'.plans := by
  cases h with
  | aside h => rwa [h.plans]
  | planAccepted hrun hplan hplans => exact (mem_of_insert hplans).mpr (.inl hp)
  | _ => exact hp

end Mishkan
