import Mishkan.Workers.Chains
import Mishkan.Workers.Effects

/-!
# Persistence/Invariants — what holds in every reachable store

`Sound` gathers the invariants that hold whatever the order of operations: envelopes address tasks,
work that has begun has its dependencies accepted, acceptance is exactly one result with one
acceptance, and a completed run has nothing left to do.  Each part is kept by every move, given
`Sound` before it; `sound_run` lifts them to runs.  A client of the store may then rely on this:
work is only ever started on accepted dependencies, and no later operation touches an acceptance.
-/

namespace Mishkan

open Refusal Transition

variable {G : Permits} {s s' : Store}

/-- A task that was made eligible and has not been given up. -/
def TaskState.isStarted : TaskState → Bool
  | .eligible | .leased | .executing | .validating | .accepted => true
  | _ => false

/-- **The invariants of every order of operations.** -/
structure Sound (s : Store) : Prop where
  addressed : Addressed s
  /-- A started task has its dependencies accepted. -/
  started : ∀ t ∈ s.tasks, t.status.isStarted → s.dependenciesAccepted t.runId t.contract
  /-- A task belongs to a planned run. -/
  planned : ∀ t ∈ s.tasks, ∃ p ∈ s.plans, p.runId = t.runId
  /-- An accepted task has its result and its acceptance. -/
  accepted : ∀ t ∈ s.tasks, t.status = .accepted →
    (∃ r ∈ s.results, r.runId = t.runId ∧ r.taskKey = t.taskKey) ∧
      ∃ a ∈ s.acceptances, a.runId = t.runId ∧ a.taskKey = t.taskKey
  /-- A result is one of an accepted task. -/
  result : ∀ r ∈ s.results,
    ∃ t ∈ s.tasks, t.runId = r.runId ∧ t.taskKey = r.taskKey ∧ t.status = .accepted
  /-- So is an acceptance. -/
  acceptance : ∀ a ∈ s.acceptances,
    ∃ t ∈ s.tasks, t.runId = a.runId ∧ t.taskKey = a.taskKey ∧ t.status = .accepted
  /-- A completed run is planned and all of its tasks are accepted. -/
  completed : ∀ run ∈ s.runs, run.status = .completed →
    (∃ p ∈ s.plans, p.runId = run.id) ∧
      ∀ t ∈ s.tasks, t.runId = run.id → t.status = .accepted

/-! ## What a move keeps -/

variable {runId : Uuid} {key : String}

/-- An accepted task of a run stays one. -/
theorem Move.accepted_kept (h : Move G s s')
    (ht : ∃ t ∈ s.tasks, t.runId = runId ∧ t.taskKey = key ∧ t.status = .accepted) :
    ∃ t ∈ s'.tasks, t.runId = runId ∧ t.taskKey = key ∧ t.status = .accepted := by
  obtain ⟨t, ht, rfl, rfl, hstatus⟩ := ht
  obtain ⟨t', ht', hstep⟩ := h.task_forward ht
  obtain ⟨-, hrun, hkey, -⟩ := hstep.identity
  exact ⟨t', ht', hrun, hkey, hstep.accepted_of hstatus⟩

/-- **Accepted dependencies stay accepted.** -/
theorem Move.dependencies_kept (h : Move G s s') {contract : PlanTask}
    (hdeps : s.dependenciesAccepted runId contract) : s'.dependenciesAccepted runId contract := by
  rw [dependenciesAccepted_iff] at hdeps ⊢
  exact fun key hkey => h.accepted_kept (hdeps key hkey)

/-- A task that has just started has its dependencies accepted. -/
theorem TaskStep.dependencies {t t' : TaskRow} (h : TaskStep G s s' t t')
    (hstarted : t'.status.isStarted = true) :
    t.status.isStarted = true ∨ s.dependenciesAccepted t.runId t.contract = true := by
  cases h with
  | same => exact .inl hstarted
  | accepted _ hdeps => exact .inr hdeps
  | moved h =>
    cases h with
    | released _ hdeps | recovered _ hdeps => exact .inr hdeps
    | validating h => exact .inl (by rw [h]; rfl)
    | cancelled | rejected | failed => simp [TaskState.isStarted] at hstarted
  | claimed h | leased h | begun h => exact .inl (by rw [h]; rfl)
  | delivered h | returned h | reconciled h =>
    obtain h | h := h <;> exact .inl (by rw [h]; rfl)

theorem Sound.addressed_move (hs : Sound s) (h : Move G s s') : Addressed s' := by
  intro e' he'
  obtain ⟨e, he, hstep⟩ | ⟨-, -, t, ht, -, -, hid, hrun, hkey, -⟩ := h.envelope_backward he'
  · obtain ⟨t, ht, hid, hrun, hkey⟩ := hs.addressed e he
    obtain ⟨t', ht', htstep⟩ := h.task_forward ht
    obtain ⟨-, htask, hrun', hkey', -⟩ := hstep.identity
    obtain ⟨hid', htrun, htkey, -⟩ := htstep.identity
    exact ⟨t', ht', by rw [hid', hid, htask], by rw [htrun, hrun, hrun'],
      by rw [htkey, hkey, hkey']⟩
  · obtain ⟨t', ht', htstep⟩ := h.task_forward ht
    obtain ⟨hid', htrun, htkey, -⟩ := htstep.identity
    exact ⟨t', ht', hid'.trans hid.symm, htrun.trans hrun.symm, htkey.trans hkey.symm⟩

theorem Sound.started_move (hs : Sound s) (h : Move G s s') :
    ∀ t ∈ s'.tasks, t.status.isStarted → s'.dependenciesAccepted t.runId t.contract := by
  intro t' ht' hstarted
  obtain ⟨t, ht, hstep⟩ | ⟨-, -, -, -, hpending | ⟨-, hnone⟩⟩ := h.task_backward ht'
  · obtain ⟨-, hrun, -, hcontract⟩ := hstep.identity
    rw [hrun, hcontract]
    refine h.dependencies_kept ?_
    exact (hstep.dependencies hstarted).elim (hs.started t ht) id
  · simp [hpending, TaskState.isStarted] at hstarted
  · simp [dependenciesAccepted_iff, hnone]

theorem Sound.planned_move (hs : Sound s) (h : Move G s s') :
    ∀ t ∈ s'.tasks, ∃ p ∈ s'.plans, p.runId = t.runId := by
  intro t' ht'
  obtain ⟨t, ht, hstep⟩ | ⟨-, -, -, hplan, -⟩ := h.task_backward ht'
  · obtain ⟨p, hp, hrun⟩ := hs.planned t ht
    exact ⟨p, h.plan_kept hp, hrun.trans hstep.identity.2.1.symm⟩
  · exact hplan

theorem Sound.accepted_move (hs : Sound s) (h : Move G s s') :
    ∀ t ∈ s'.tasks, t.status = .accepted →
      (∃ r ∈ s'.results, r.runId = t.runId ∧ r.taskKey = t.taskKey) ∧
        ∃ a ∈ s'.acceptances, a.runId = t.runId ∧ a.taskKey = t.taskKey := by
  intro t' ht' haccepted
  obtain ⟨t, ht, hstep⟩ | ⟨-, -, -, -, hpending | ⟨heligible, -⟩⟩ := h.task_backward ht'
  · have hold : t.status = .accepted →
        (∃ r ∈ s'.results, r.runId = t'.runId ∧ r.taskKey = t'.taskKey) ∧
          ∃ a ∈ s'.acceptances, a.runId = t'.runId ∧ a.taskKey = t'.taskKey := by
      intro hstatus
      obtain ⟨-, hrun, hkey, -⟩ := hstep.identity
      obtain ⟨⟨r, hr, hr'⟩, a, ha, ha'⟩ := hs.accepted t ht hstatus
      rw [hrun, hkey]
      exact ⟨⟨r, h.result_kept hr, hr'⟩, a, h.acceptance_kept ha, ha'⟩
    cases hstep with
    | same => exact hold haccepted
    | accepted _ _ hr ha => exact ⟨hr, ha⟩
    | moved hmove => cases hmove <;> simp at haccepted
    | _ => simp at haccepted
  · simp [hpending] at haccepted
  · simp [heligible] at haccepted

theorem Sound.result_move (hs : Sound s) (h : Move G s s') : ∀ r ∈ s'.results,
    ∃ t ∈ s'.tasks, t.runId = r.runId ∧ t.taskKey = r.taskKey ∧ t.status = .accepted := by
  intro r hr
  obtain ⟨hsame, -⟩ | ⟨r', a, hinsert, -, -, -, htask⟩ := h.results
  · rw [hsame] at hr
    exact h.accepted_kept (hs.result r hr)
  · obtain hr | rfl := (Table.mem_of_insert hinsert).mp hr
    · exact h.accepted_kept (hs.result r hr)
    · exact htask

theorem Sound.acceptance_move (hs : Sound s) (h : Move G s s') : ∀ a ∈ s'.acceptances,
    ∃ t ∈ s'.tasks, t.runId = a.runId ∧ t.taskKey = a.taskKey ∧ t.status = .accepted := by
  intro a ha
  obtain ⟨-, hsame⟩ | ⟨r, a', -, hinsert, hrun, hkey, htask⟩ := h.results
  · rw [hsame] at ha
    exact h.accepted_kept (hs.acceptance a ha)
  · obtain ha | rfl := (Table.mem_of_insert hinsert).mp ha
    · exact h.accepted_kept (hs.acceptance a ha)
    · rwa [hrun, hkey]

theorem Sound.completed_move (hs : Sound s) (h : Move G s s') :
    ∀ run ∈ s'.runs, run.status = .completed → (∃ p ∈ s'.plans, p.runId = run.id) ∧
      ∀ t ∈ s'.tasks, t.runId = run.id → t.status = .accepted := by
  intro run' hrun' hcompleted
  obtain ⟨run, hrun, hstep⟩ | ⟨hplanning, -⟩ := h.run_backward hrun'
  · have hid := hstep.identity.1
    -- a run that was completed stays so, because a new plan is refused and tasks stay accepted
    have hold : run.status = .completed → (∃ p ∈ s'.plans, p.runId = run'.id) ∧
        ∀ t ∈ s'.tasks, t.runId = run'.id → t.status = .accepted := by
      intro hstatus
      obtain ⟨⟨p, hp, hprun⟩, hall⟩ := hs.completed run hrun hstatus
      refine ⟨⟨p, h.plan_kept hp, hprun.trans hid.symm⟩, fun t' ht' htrun => ?_⟩
      obtain ⟨t, ht, htstep⟩ | ⟨-, -, hno, -⟩ := h.task_backward ht'
      · refine htstep.accepted_of (hall t ht ?_)
        rw [← htstep.identity.2.1, htrun, hid]
      · exact absurd (hprun.trans (hid.symm.trans htrun.symm)) (hno p hp)
    cases hstep with
    | same => exact hold hcompleted
    | cancelled hstatus => obtain rfl | rfl := hstatus <;> simp at hcompleted
    | queued => simp at hcompleted
    | moved hmove htasks =>
      cases hmove with
      | completed hopen hsome hall =>
        obtain ⟨t, ht, htrun⟩ := hsome
        obtain ⟨p, hp, hprun⟩ := hs.planned t ht
        exact ⟨⟨p, h.plan_kept hp, hprun.trans htrun⟩, by rwa [htasks]⟩
      | _ => simp at hcompleted
  · simp [hplanning] at hcompleted

/-- **Every move keeps the invariants.** -/
theorem Sound.move (hs : Sound s) (h : Move G s s') : Sound s' where
  addressed := hs.addressed_move h
  started := hs.started_move h
  planned := hs.planned_move h
  accepted := hs.accepted_move h
  result := hs.result_move h
  acceptance := hs.acceptance_move h
  completed := hs.completed_move h

/-! ## Runs -/

/-- Every release is permitted. -/
def anyRelease : Permits := fun _ _ => True

theorem permitsOp_any (s : Store) (op : Op) : PermitsOp anyRelease s op := by
  cases op <;> simp [PermitsOp, PermitsExpiry, PermitsLease, anyRelease]

theorem sound_empty : Sound .empty := by
  constructor <;> intro x hx <;> exact absurd hx Table.not_mem_empty

variable {deployment : Deployment}

theorem Sound.step (hs : Sound s) (op : Op) : Sound (step deployment s op) :=
  (step_moves deployment hs.addressed (permitsOp_any s op)).lift (fun _ _ hs h => hs.move h) hs

/-- **Every run keeps the invariants.** -/
theorem Sound.run (hs : Sound s) (ops : List Op) : Sound (runFrom deployment s ops) :=
  run_induction (fun _ op hs => hs.step op) hs ops

theorem Reachable.sound (h : Reachable deployment s) : Sound s := by
  obtain ⟨ops, rfl⟩ := h
  exact sound_empty.run ops

/-! ## What is never undone -/

/-- Accepted tasks stay accepted and results stay as they are. -/
structure AcceptanceKept (s s' : Store) : Prop where
  accepted : ∀ t ∈ s.tasks, t.status = .accepted → ∃ t' ∈ s'.tasks, t'.id = t.id ∧
    t'.status = .accepted
  results : ∀ r ∈ s.results, r ∈ s'.results

theorem AcceptanceKept.refl (s : Store) : AcceptanceKept s s :=
  ⟨fun t ht h => ⟨t, ht, rfl, h⟩, fun _ hr => hr⟩

theorem AcceptanceKept.trans {s₁ s₂ s₃ : Store} (h : AcceptanceKept s₁ s₂)
    (h' : AcceptanceKept s₂ s₃) : AcceptanceKept s₁ s₃ where
  accepted t ht hstatus := by
    obtain ⟨t', ht', hid, hstatus'⟩ := h.accepted t ht hstatus
    obtain ⟨t'', ht'', hid', hstatus''⟩ := h'.accepted t' ht' hstatus'
    exact ⟨t'', ht'', hid'.trans hid, hstatus''⟩
  results r hr := h'.results r (h.results r hr)

theorem Move.acceptanceKept (h : Move G s s') : AcceptanceKept s s' where
  accepted t ht hstatus := by
    obtain ⟨t', ht', hstep⟩ := h.task_forward ht
    exact ⟨t', ht', hstep.identity.1, hstep.accepted_of hstatus⟩
  results _ hr := h.result_kept hr

/-- **No run undoes an acceptance.** -/
theorem Sound.acceptanceKept_run (hs : Sound s) (ops : List Op) :
    AcceptanceKept s (runFrom deployment s ops) := by
  refine run_rel AcceptanceKept.refl AcceptanceKept.trans (fun _ op hs => hs.step op)
    (fun s op hs => ?_) hs ops
  exact (step_moves deployment hs.addressed (permitsOp_any s op)).rel (I := fun _ => True)
    AcceptanceKept.refl AcceptanceKept.trans (fun _ _ _ _ => trivial)
    (fun _ _ _ h => h.acceptanceKept) trivial

/-! ## Exactly one result and one acceptance -/

/-- A result of a task is the only one. -/
theorem existsUnique_result (h : ∃ r ∈ s.results, r.runId = runId ∧ r.taskKey = key) :
    ∃! r, r ∈ s.results ∧ r.runId = runId ∧ r.taskKey = key := by
  obtain ⟨r, hr, hrun, hkey⟩ := h
  refine ⟨r, ⟨hr, hrun, hkey⟩, fun r' ⟨hr', hrun', hkey'⟩ => ?_⟩
  exact Table.eq_of_clash hr' hr (by simp [Keyed.clash, Keyed.key, hrun, hrun', hkey, hkey'])

/-- An acceptance of a task is the only one. -/
theorem existsUnique_acceptance (h : ∃ a ∈ s.acceptances, a.runId = runId ∧ a.taskKey = key) :
    ∃! a, a ∈ s.acceptances ∧ a.runId = runId ∧ a.taskKey = key := by
  obtain ⟨a, ha, hrun, hkey⟩ := h
  refine ⟨a, ⟨ha, hrun, hkey⟩, fun a' ⟨ha', hrun', hkey'⟩ => ?_⟩
  exact Table.eq_of_clash ha' ha (by simp [Keyed.clash, Keyed.key, hrun, hrun', hkey, hkey'])

/-- **A task is accepted exactly when it has one result and one acceptance.** -/
theorem Sound.accepted_iff (hs : Sound s) {t : TaskRow} (ht : t ∈ s.tasks) : t.status = .accepted ↔
      (∃! r, r ∈ s.results ∧ r.runId = t.runId ∧ r.taskKey = t.taskKey) ∧
        ∃! a, a ∈ s.acceptances ∧ a.runId = t.runId ∧ a.taskKey = t.taskKey := by
  constructor
  · intro haccepted
    obtain ⟨hr, ha⟩ := hs.accepted t ht haccepted
    exact ⟨existsUnique_result hr, existsUnique_acceptance ha⟩
  · rintro ⟨⟨r, ⟨hr, hrun, hkey⟩, -⟩, -⟩
    obtain ⟨t', ht', hrun', hkey', haccepted⟩ := hs.result r hr
    rwa [Store.task_eq_of_key ht ht' (hrun.symm.trans hrun'.symm) (hkey.symm.trans hkey'.symm)]

/-! ## The guarantees of the store -/

/-- **Eligibility and acceptance in every run of the two repositories.** At any point of a run, work
is started only on accepted dependencies; what is accepted then is accepted ever after, with the
same result; a task is accepted exactly when one result and one acceptance exist for it; and a
completed run has all of its tasks accepted. -/
theorem eligibility_and_acceptance (deployment : Deployment) (ops later : List Op) :
    let s := runFrom deployment .empty ops
    let s' := runFrom deployment s later
    (∀ t ∈ s.tasks, t.status.isStarted → ∀ key ∈ t.contract.dependsOn,
      ∃ d ∈ s.tasks, d.runId = t.runId ∧ d.taskKey = key ∧ d.status = .accepted) ∧
    (∀ t ∈ s.tasks, t.status = .accepted →
      ∃ t' ∈ s'.tasks, t'.id = t.id ∧ t'.status = .accepted) ∧
    (∀ t ∈ s.tasks, t.status = .accepted ↔
      (∃! r, r ∈ s.results ∧ r.runId = t.runId ∧ r.taskKey = t.taskKey) ∧
        ∃! a, a ∈ s.acceptances ∧ a.runId = t.runId ∧ a.taskKey = t.taskKey) ∧
    (∀ r ∈ s.results, r ∈ s'.results) ∧
    (∀ run ∈ s.runs, run.status = .completed →
      ∀ t ∈ s.tasks, t.runId = run.id → t.status = .accepted) := by
  intro s s'
  have hs : Sound s := sound_empty.run ops
  have hkept : AcceptanceKept s s' := hs.acceptanceKept_run later
  refine ⟨fun t ht hstarted => ?_, hkept.accepted, fun t ht => hs.accepted_iff ht, hkept.results,
    fun run hrun hcompleted => (hs.completed run hrun hcompleted).2⟩
  exact dependenciesAccepted_iff.mp (hs.started t ht hstarted)

end Mishkan
