import Mishkan.Persistence.Moves

/-!
# Persistence/Chains — every transaction is a chain of moves

One inversion lemma for each operation: what it checked when it succeeded, as the facts of its
moves.  `step_moves` puts them together, and asks of each operation only the releases it makes.
-/

namespace Mishkan

open Refusal Transition Store

variable {G : Permits} {s s' : Store}

/-! ## Checks read back -/

variable {id : Uuid} {run : RunRow}

@[simp] theorem requireRun_eq_ok : s.requireRun id = .ok run ↔ run ∈ s.runs ∧ run.id = id := by
  rw [requireRun, require_eq_ok, run?_eq_some]

variable {runId : Uuid}

variable {t : TaskRow}

@[simp] theorem requireTask_eq_ok {key : String} :
    s.requireTask runId key = .ok t ↔ t ∈ s.tasks ∧ t.runId = runId ∧ t.taskKey = key := by
  rw [requireTask, require_eq_ok, task?_eq_some]

/-- **Dependencies are accepted when each names an accepted task of the run.** -/
theorem dependenciesAccepted_iff {contract : PlanTask} :
    s.dependenciesAccepted runId contract = true ↔ ∀ key ∈ contract.dependsOn,
      ∃ t ∈ s.tasks, t.runId = runId ∧ t.taskKey = key ∧ t.status = .accepted := by
  simp [dependenciesAccepted, Table.mem_def]

theorem dependenciesAccepted_congr (h : s'.tasks = s.tasks) (runId : Uuid) (contract : PlanTask) :
    s'.dependenciesAccepted runId contract = s.dependenciesAccepted runId contract := by
  simp [dependenciesAccepted, h]

theorem hasUnaccepted_eq_false :
    s.hasUnaccepted runId = false ↔ ∀ t ∈ s.tasks, t.runId = runId → t.status = .accepted := by
  simp [hasUnaccepted, Table.mem_def]

/-! ## Rows after an update -/

/-- Moving one envelope keeps the identity of all. -/
theorem mem_moveEnvelope {state : RemoteEnvelopeState} {e : RemoteTaskEnvelopeRow}
    (he : e ∈ (s.moveEnvelope id state).envelopes) :
    ∃ e₀ ∈ s.envelopes, (e₀.id ≠ id ∧ e = e₀) ∨ (e₀.id = id ∧ e = { e₀ with state := state }) := by
  simp only [moveEnvelope, Table.mem_update] at he
  obtain ⟨e₀, he₀, rfl⟩ := he
  refine ⟨e₀, he₀, ?_⟩
  by_cases hid : e₀.id = id <;> simp [hid]

variable {status : TaskState}

/-- A task after a move of some tasks either was there or was moved. -/
theorem mem_moveTasks {p : TaskRow → Bool} (ht : t ∈ (s.moveTasks p status).tasks) :
    ∃ t₀ ∈ s.tasks, (p t₀ = false ∧ t = t₀) ∨
      (p t₀ = true ∧ t = { t₀ with status := status, revision := t₀.revision + 1 }) := by
  simp only [moveTasks, Table.mem_update] at ht
  obtain ⟨t₀, ht₀, rfl⟩ := ht
  refine ⟨t₀, ht₀, ?_⟩
  by_cases hp : p t₀ = true <;> simp [hp]

/-! ## Chains -/

/-- A change aside of the tables the results are about is a chain. -/
theorem chain_aside (h : Aside s s') : Chain (Move G) s s' := .single (.aside h)

/-- A move, then changes aside. -/
theorem Move.andAside {s₁ : Store} (h : Move G s s₁) (ha : Aside s₁ s') :
    Chain (Move G) s s' := (Relation.ReflTransGen.single h).tail (.aside ha)

variable {safe : ContentInspector} {a : RunSnapshot}

/-- A move, then an event. -/
theorem Move.andEvent {s₁ : Store} (h : Move G s s₁) (aggregateId : Uuid) (eventType : String)
    (taskId : Option String) : Chain (Move G) s (s₁.addEvent aggregateId eventType taskId) :=
  h.andAside (by constructor <;> rfl)

/-! ## The run repository -/

theorem startOrResume_moves {discovery : DiscoverySnapshot} {objective outcomeId : String}
    (h : s.startOrResume safe id discovery objective outcomeId = .ok (a, s')) :
    Chain (Move G) s s' := by
  simp only [startOrResume, bind_eq_ok] at h
  obtain ⟨-, -, h⟩ := h
  split at h
  · obtain ⟨-, rfl⟩ := return_eq_ok.mp h
    exact .refl
  · simp only [bind_eq_ok, require_eq_ok, return_eq_ok] at h
    obtain ⟨runs, hruns, -, rfl⟩ := h
    exact (Move.runInserted hruns rfl rfl).andAside (by constructor <;> rfl)

/-- The plan is for the context of the run. -/
def FitsContext (plan : AcceptedPlan) (run : RunRow) : Prop :=
  (plan.schemaVersion = .v12 → plan.executionContext = some run.context) ∧
    (plan.schemaVersion ≠ .v12 → run.context.kind = .repository)

instance (plan : AcceptedPlan) (run : RunRow) : Decidable (FitsContext plan run) :=
  inferInstanceAs (Decidable (_ ∧ _))

/-- The plan is the first of its run, and for its context. -/
def IsFirstPlan (s : Store) (runId : Uuid) (plan : AcceptedPlan) : Prop :=
  s.plan? runId = none ∧ ∃ run ∈ s.runs, run.id = runId ∧ FitsContext plan run

instance (s : Store) (runId : Uuid) (plan : AcceptedPlan) : Decidable (IsFirstPlan s runId plan) :=
  inferInstanceAs (Decidable (_ ∧ ∃ run ∈ s.runs, _))

theorem acceptPlan_moves {plan : AcceptedPlan}
    {draw : Nat → Uuid} (h : s.acceptPlan safe runId plan draw = .ok (a, s'))
    (hG : IsFirstPlan s runId plan → G s (.plan runId)) : Chain (Move G) s s' := by
  simp only [acceptPlan, bind_eq_ok, requireRun_eq_ok, refuseIf_eq_ok] at h
  obtain ⟨-, -, run, ⟨hrun, rfl⟩, -, hcontext, -, hkind, h⟩ := h
  split at h
  · simp only [bind_eq_ok, refuseIf_eq_ok, return_eq_ok] at h
    obtain ⟨-, -, -, rfl⟩ := h
    exact .refl
  · rename_i hnone
    simp only [bind_eq_ok, require_eq_ok, return_eq_ok] at h
    obtain ⟨plans, hplans, tasks, htasks, events, -, -, rfl⟩ := h
    have hrows : ∀ t ∈ plan.tasks.mapIdx
        (fun i task => plannedRow run.id (draw (i + 1)) i task),
        t.runId = run.id ∧
          (t.status = .pending ∨ t.status = .eligible ∧ t.contract.dependsOn = []) := by
      intro t ht
      obtain ⟨i, hi, rfl⟩ := List.mem_mapIdx.mp ht
      refine ⟨rfl, ?_⟩
      by_cases hd : plan.tasks[i].dependsOn = [] <;> simp [plannedRow, hd]
    exact (Move.planAccepted hrun rfl hplans htasks hrows
      (hG ⟨hnone, run, hrun, rfl, by simpa using hcontext, by simpa using hkind⟩)).andAside
      (by constructor <;> rfl)

theorem markAwaitingApproval_moves {a : Unit}
    (h : s.markAwaitingApproval runId = .ok (a, s')) : Chain (Move G) s s' := by
  simp only [markAwaitingApproval, bind_eq_ok, requireRun_eq_ok] at h
  obtain ⟨run, ⟨hrun, rfl⟩, h⟩ := h
  split at h
  · obtain ⟨-, rfl⟩ := return_eq_ok.mp h
    exact .refl
  · simp only [bind_eq_ok, refuseIf_eq_ok, return_eq_ok, not_not] at h
    obtain ⟨-, hstatus, -, rfl⟩ := h
    exact (Move.runMoved hrun (.awaiting hstatus)).andAside (by constructor <;> rfl)

theorem startRun_moves {a : Unit} (h : s.startRun runId = .ok (a, s')) : Chain (Move G) s s' := by
  simp only [startRun, bind_eq_ok, requireRun_eq_ok] at h
  obtain ⟨run, ⟨hrun, rfl⟩, h⟩ := h
  split at h
  · obtain ⟨-, rfl⟩ := return_eq_ok.mp h
    exact .refl
  · simp only [bind_eq_ok, refuseIf_eq_ok, return_eq_ok, not_not] at h
    obtain ⟨-, hstatus, -, rfl⟩ := h
    exact (Move.runMoved hrun (.started hstatus)).andAside (by constructor <;> rfl)

variable {taskId : String}

theorem claimTask_moves {a : Nat}
    (h : s.claimTask runId taskId = .ok (a, s')) : Chain (Move G) s s' := by
  simp only [claimTask, bind_eq_ok, requireRun_eq_ok, requireTask_eq_ok, refuseIf_eq_ok,
    return_eq_ok, not_not] at h
  obtain ⟨run, -, t, ⟨ht, -⟩, -, -, -, hstatus, -, rfl⟩ := h
  exact (Move.taskClaimed ht hstatus).andAside (by constructor <;> rfl)

/-- A move of one task of the store. -/
theorem Move.taskMoved (ht : t ∈ s.tasks)
    (h : TaskMove G s t status) : Move G s (s.moveTask t.id status) := by
  refine .tasksMoved fun t' ht' hid => ?_
  rwa [task_eq ht' ht (by simpa using hid)]

theorem markValidating_moves {a : Unit}
    (h : s.markValidating runId taskId = .ok (a, s')) : Chain (Move G) s s' := by
  simp only [markValidating, bind_eq_ok, requireTask_eq_ok, refuseIf_eq_ok, return_eq_ok,
    not_not] at h
  obtain ⟨t, ⟨ht, -⟩, -, hstatus, -, rfl⟩ := h
  exact (Move.taskMoved ht (.validating hstatus)).andAside (by constructor <;> rfl)

theorem markTaskFailure_moves {rejected : Bool} {a : Unit}
    (h : s.markTaskFailure runId taskId rejected = .ok (a, s')) : Chain (Move G) s s' := by
  simp only [markTaskFailure, bind_eq_ok, requireRun_eq_ok, requireTask_eq_ok, refuseIf_eq_ok,
    return_eq_ok] at h
  obtain ⟨run, ⟨hrun, rfl⟩, t, ⟨ht, -⟩, -, hstatus, -, rfl⟩ := h
  have hactive : t.status = .executing ∨ t.status = .validating := by
    simpa only [ne_eq, not_and_or, not_not] using hstatus
  have hmove : TaskMove G s t (if rejected then .rejected else .failed) := by
    split
    · exact .rejected hactive
    · exact .failed hactive
  have hrun' : run ∈ (s.moveTask t.id (if rejected then .rejected else .failed)).runs := hrun
  exact .head (Move.taskMoved ht hmove)
    ((Move.runMoved hrun' .failed).andAside (by constructor <;> rfl))

theorem recordRejectedReview_moves {id runId : Uuid}
    {result : InitializationResult} {review : ReviewDecision} {reviewSequence : Nat}
    {a : ReviewRejectionRow}
    (h : s.recordRejectedReview safe id runId result review reviewSequence = .ok (a, s')) :
    Chain (Move G) s s' := by
  simp only [recordRejectedReview, bind_eq_ok] at h
  obtain ⟨_, -, _, -, _, -, _, -, _, -, _, -, h⟩ := h
  split at h
  · simp only [bind_eq_ok, return_eq_ok] at h
    obtain ⟨-, -, -, rfl⟩ := h
    exact .refl
  · simp only [bind_eq_ok, return_eq_ok] at h
    obtain ⟨_, -, -, rfl⟩ := h
    exact chain_aside (by constructor <;> rfl)

theorem cancelRun_moves (h : s.cancelRun runId = .ok (a, s')) : Chain (Move G) s s' := by
  simp only [cancelRun, bind_eq_ok, requireRun_eq_ok] at h
  obtain ⟨run, ⟨hrun, rfl⟩, h⟩ := h
  split at h
  · obtain ⟨-, rfl⟩ := return_eq_ok.mp h
    exact .refl
  · rename_i hlive
    obtain ⟨-, rfl⟩ := return_eq_ok.mp h
    have hwaiting : Move G s
        (s.moveTasks (fun t => t.runId = run.id ∧ t.status.isWaiting) .cancelled) := by
      refine .tasksMoved fun t _ hp => .cancelled (.inl ?_)
      simp only [decide_eq_true_eq] at hp
      exact hp.2
    have hrun' : run ∈
        (s.moveTasks (fun t => t.runId = run.id ∧ t.status.isWaiting) .cancelled).runs := hrun
    refine .head hwaiting ((Move.runCancelled hrun' ?_ fun hc => hlive (.inl hc)).andAside
      (by constructor <;> rfl))
    by_cases hnil : (s.tasks.select fun t => t.runId = run.id ∧ t.status.isActive) = []
    · exact .inl (if_pos hnil)
    · exact .inr (if_neg hnil)

theorem settleCancellation_moves
    (h : s.settleCancellation runId = .ok (a, s')) : Chain (Move G) s s' := by
  simp only [settleCancellation, bind_eq_ok, requireRun_eq_ok, refuseIf_eq_ok, not_not] at h
  obtain ⟨run, ⟨hrun, rfl⟩, -, hrequested, h⟩ := h
  split at h
  · obtain ⟨-, rfl⟩ := return_eq_ok.mp h
    exact .refl
  · obtain ⟨-, rfl⟩ := return_eq_ok.mp h
    have hsettled : Move G s (s.moveTasks (fun t => t.runId = run.id
        ∧ (t.status.isWaiting ∨ t.status.isActive)) .cancelled) := by
      refine .tasksMoved fun t _ hp => .cancelled ?_
      simp only [decide_eq_true_eq] at hp
      exact hp.2
    have hrun' : run ∈ (s.moveTasks (fun t => t.runId = run.id
        ∧ (t.status.isWaiting ∨ t.status.isActive)) .cancelled).runs := hrun
    exact .head hsettled
      ((Move.runMoved hrun' (.settled hrequested)).andAside (by constructor <;> rfl))

theorem reconcileInterrupted_moves {a : List String}
    (h : s.reconcileInterrupted runId = .ok (a, s')) (hG : G s (.retried runId)) :
    Chain (Move G) s s' := by
  simp only [reconcileInterrupted, bind_eq_ok, requireRun_eq_ok] at h
  obtain ⟨run, ⟨hrun, rfl⟩, h⟩ := h
  refine .head (.callsReconciled hG) ?_
  split at h <;> split at h <;> cases h
  · exact (Move.runMoved (by exact hrun) .blocked).andAside (by constructor <;> rfl)
  · exact chain_aside (by constructor <;> rfl)
  · exact (Move.runMoved (by exact hrun) .blocked).andAside (by constructor <;> rfl)
  · exact chain_aside (by constructor <;> rfl)

theorem releaseInterrupted_moves {a : List String} (h : s.releaseInterrupted runId = .ok (a, s'))
    (hG : RunOpen s runId → ∀ t ∈ s.tasks, s.isReleasable runId t = true → G s (.interrupted t)) :
    Chain (Move G) s s' := by
  simp only [releaseInterrupted, bind_eq_ok, requireRun_eq_ok] at h
  obtain ⟨run, ⟨hrun, rfl⟩, h⟩ := h
  split at h
  · obtain ⟨-, rfl⟩ := return_eq_ok.mp h
    exact .refl
  rename_i hopen
  rw [Bool.not_eq_true] at hopen
  have hopen' : RunOpen s run.id := ⟨run, hrun, rfl, hopen⟩
  have hrelease : Move G s (s.moveTasks (s.isReleasable run.id) .eligible) := by
    refine .tasksMoved fun t ht hp => ?_
    have hp' := hp
    simp only [isReleasable, decide_eq_true_eq] at hp'
    obtain ⟨hid, hstatus, hdeps⟩ := hp'
    exact .recovered hstatus (hid ▸ hdeps) (hid ▸ hopen') (hG hopen' t ht hp)
  have hrun' : run ∈ (s.moveTasks (s.isReleasable run.id) .eligible).runs := hrun
  refine .head hrelease ?_
  split at h <;> split at h <;> cases h
  · exact (Move.runMoved hrun' (.resumed hopen)).andAside (by constructor <;> rfl)
  · exact .refl
  · exact (Move.runMoved hrun' (.resumed hopen)).andAside (by constructor <;> rfl)
  · exact chain_aside (by constructor <;> rfl)

/-! ## Acceptance -/

theorem releaseDependents_move (s : Store) (runId : Uuid) : Move G s
    (s.releaseDependents runId) := by
  refine .tasksMoved fun t _ hp => ?_
  simp only [decide_eq_true_eq] at hp
  obtain ⟨hid, hpending, hdeps⟩ := hp
  exact .released hpending (hid ▸ hdeps)

theorem completeRun_moves (hrun : run ∈ s.runs)
    (hopen : run.cancellationRequested = false) (hsome : ∃ t ∈ s.tasks, t.runId = run.id) :
    Chain (Move G) s (s.completeRun run.id) := by
  unfold completeRun
  split
  · exact .refl
  · rename_i hall
    rw [Bool.not_eq_true, hasUnaccepted_eq_false] at hall
    exact (Move.runMoved hrun (.completed hopen hsome hall)).andAside (by constructor <;> rfl)

/-- A run with a task keeps having one when tasks are moved. -/
theorem exists_task_of_moveTasks {p : TaskRow → Bool}
    (h : ∃ t ∈ s.tasks, t.runId = runId) : ∃ t ∈ (s.moveTasks p status).tasks, t.runId = runId := by
  refine Table.exists_mem_update ?_ h ?_
  · exact fun _ => rfl
  · exact fun _ h => h

/-- **What follows an acceptance**: the dependents are released and the run may complete. -/
theorem settle_moves (hrun : run ∈ s.runs)
    (hopen : run.cancellationRequested = false) (hsome : ∃ t ∈ s.tasks, t.runId = run.id) :
    Chain (Move G) s ((s.releaseDependents run.id).completeRun run.id) := by
  refine .head (releaseDependents_move s run.id) (completeRun_moves ?_ hopen ?_)
  · exact hrun
  · exact exists_task_of_moveTasks hsome

theorem acceptResult_moves {resultId acceptanceId runId : Uuid}
    {now : Instant} {result : InitializationResult} {review : ReviewDecision}
    (h : s.acceptResult safe resultId acceptanceId runId now result review = .ok (a, s')) :
    Chain (Move G) s s' := by
  simp only [acceptResult, bind_eq_ok, requireRun_eq_ok, require_eq_ok, refuseIf_eq_ok,
    task?_eq_some] at h
  obtain ⟨-, -, run, ⟨hrun, rfl⟩, t, ⟨ht, hid, hkey⟩, -, -, h⟩ := h
  split at h
  · simp only [bind_eq_ok, refuseIf_eq_ok, return_eq_ok] at h
    obtain ⟨-, -, -, -, -, rfl⟩ := h
    exact chain_aside (by constructor <;> rfl)
  simp only [bind_eq_ok, refuseIf_eq_ok, require_eq_ok, return_eq_ok, not_not, Bool.not_eq_true,
    Bool.not_eq_false] at h
  obtain ⟨-, hopen, -, hdeps, -, -, -, -, -, -, results, hresults, acceptances, hacceptances, -,
    rfl⟩ := h
  have hmove : Move G s
      ({ s with results := results, acceptances := acceptances }.moveTask t.id .accepted) :=
    .resultAccepted ht ⟨run, hrun, hid.symm, hopen⟩ (by rw [hid]; exact hdeps) hresults
      hacceptances ⟨hid.symm, hkey.symm⟩ ⟨hid.symm, hkey.symm⟩
  refine .trans (hmove.andAside ?_) (settle_moves ?_ hopen ?_)
  · constructor <;> rfl
  · exact hrun
  · exact exists_task_of_moveTasks ⟨t, ht, hid⟩

/-! ## The planned calls -/

theorem reservePlannedCall_only {r : Reservation} {a : Option ToolResultEnvelope}
    (h : s.reservePlannedCall r = .ok (a, s')) :
    ∃ calls outbox, s' = { s with calls := calls, outbox := outbox } := by
  simp only [reservePlannedCall, bind_eq_ok] at h
  obtain ⟨_, -, h⟩ := h
  split at h
  · simp only [bind_eq_ok, return_eq_ok] at h
    obtain ⟨_, -, -, rfl⟩ := h
    exact ⟨_, _, rfl⟩
  · simp only [bind_eq_ok] at h
    obtain ⟨_, -, h⟩ := h
    split at h
    · obtain ⟨-, rfl⟩ := return_eq_ok.mp h
      exact ⟨_, _, rfl⟩
    · simp only [bind_eq_ok] at h
      obtain ⟨_, -, h⟩ := h
      split at h <;> simp only [bind_eq_ok, return_eq_ok] at h
      · obtain ⟨_, -, -, rfl⟩ := h
        exact ⟨_, _, rfl⟩
      · obtain ⟨-, rfl⟩ := h
        exact ⟨_, _, rfl⟩

theorem markPlannedCallDispatching_only {fingerprint : Digest PlannedRequest}
    {a : Unit} (h : s.markPlannedCallDispatching id fingerprint = .ok (a, s')) :
    ∃ calls outbox, s' = { s with calls := calls, outbox := outbox } := by
  simp only [markPlannedCallDispatching, bind_eq_ok, return_eq_ok] at h
  obtain ⟨_, -, _, -, -, rfl⟩ := h
  exact ⟨_, _, rfl⟩

theorem completePlannedCall_only {fingerprint : Digest PlannedRequest} {result : ToolResultEnvelope}
    {settlement : EffectSettlement} {a : ToolResultEnvelope}
    (h : s.completePlannedCall safe id fingerprint result settlement = .ok (a, s')) :
    ∃ calls outbox, s' = { s with calls := calls, outbox := outbox } := by
  simp only [completePlannedCall, bind_eq_ok] at h
  obtain ⟨_, -, _, -, h⟩ := h
  split at h <;> simp only [bind_eq_ok, return_eq_ok] at h <;> obtain ⟨_, -, -, rfl⟩ := h
  · exact ⟨_, _, rfl⟩
  · exact ⟨_, _, rfl⟩

/-- A change of the journal is a move, with the events it sends. -/
theorem journalled_moves (hG : G s .journal)
    (h : ∃ calls outbox, s' = { s with calls := calls, outbox := outbox }) :
    Chain (Move G) s s' := by
  obtain ⟨calls, outbox, rfl⟩ := h
  exact (Move.callsJournalled hG).andAside (by constructor <;> rfl)

end Mishkan
