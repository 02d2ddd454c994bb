import Mishkan.Workers.Exclusive

/-!
# Workers/Executors — who may execute a task

What the exclusivity of open envelopes gives in runs, and the runs in which a recovery breaks it:
the recovery of a run looks at the status of its tasks and at its unsettled calls, not at the
envelopes and leases of the workers. -/

namespace Mishkan

open Refusal Transition

variable {G : Permits} {s s' : Store}

/-! ## A task whose stateful work was lost -/

/-- The task of the envelope waits for work, is newly leased or has begun another attempt. -/
def Rerun (s s' : Store) (e : RemoteTaskEnvelopeRow) : Prop :=
  ∃ t ∈ s.tasks, ∃ t' ∈ s'.tasks, t.id = e.taskRowId ∧ t'.id = e.taskRowId ∧
    (t'.status = .eligible ∨ (t'.status = .leased ∧ t.status ≠ .leased)
      ∨ t'.attemptCount ≠ t.attemptCount)

/-- **A task whose stateful work was lost is not run again** by an operation that does not report
its effects as proven. -/
def LostTaskHeld (deployment : Deployment) (s : Store) (op : Op) : Prop :=
  ∀ e ∈ s.envelopes, e.statefulEffects = true → e.state = .reconciliationRequired →
    op.Leaves e.id → ¬ Rerun s (step deployment s op) e

instance (id : Uuid) (op : Op) : Decidable (op.Leaves id) := by
  apply op.casesOn (motive := (Decidable <| Op.Leaves id ·)) <;> intros <;>
    dsimp only [Op.Leaves] <;> infer_instance

instance (s s' : Store) (e : RemoteTaskEnvelopeRow) : Decidable (Rerun s s' e) :=
  inferInstanceAs (Decidable (∃ t ∈ s.tasks, ∃ t' ∈ s'.tasks, _))

instance (deployment : Deployment) (s : Store) (op : Op) :
    Decidable (LostTaskHeld deployment s op) :=
  inferInstanceAs (Decidable (∀ e ∈ s.envelopes, _))

/-- A worker loses a stateful task while executing it; the recovery of the run makes the task
eligible again. -/
theorem lost_task_not_held :
    ¬ Along (step sampleDeployment) (LostTaskHeld sampleDeployment) .empty
      (sampleStart ++ [.issueLease (sampleEnvelope 20 1 true) 30 sampleToken 0,
        .beginExecution 7 30 sampleToken 0, .expireLeases (61 * second), .reconcileInterrupted 1,
        .releaseInterrupted 1]) := by
  decide

/-- The envelope stays lost, and its task is neither newly leased nor attempted again. -/
def LostKept (id : Uuid) (s s' : Store) : Prop :=
  ∀ e ∈ s.envelopes, e.id = id → e.state = .reconciliationRequired →
    (∃ e' ∈ s'.envelopes, e'.id = id ∧ e'.taskRowId = e.taskRowId
      ∧ e'.state = .reconciliationRequired) ∧
    ∀ t ∈ s.tasks, t.id = e.taskRowId → ∃ t' ∈ s'.tasks, t'.id = t.id
      ∧ (t'.status = .leased → t.status = .leased) ∧ t'.attemptCount = t.attemptCount

theorem LostKept.refl {id : Uuid} (s : Store) : LostKept id s s :=
  fun e he hid hlost => ⟨⟨e, he, hid, rfl, hlost⟩, fun t ht _ => ⟨t, ht, rfl, fun h => h, rfl⟩⟩

theorem LostKept.trans {id : Uuid} {s₁ s₂ s₃ : Store} (h : LostKept id s₁ s₂)
    (h' : LostKept id s₂ s₃) : LostKept id s₁ s₃ := by
  intro e₁ he₁ hid₁ hlost₁
  obtain ⟨⟨e₂, he₂, hid₂, htask₂, hlost₂⟩, htasks⟩ := h e₁ he₁ hid₁ hlost₁
  obtain ⟨⟨e₃, he₃, hid₃, htask₃, hlost₃⟩, htasks'⟩ := h' e₂ he₂ hid₂ hlost₂
  refine ⟨⟨e₃, he₃, hid₃, htask₃.trans htask₂, hlost₃⟩, fun t₁ ht₁ hte => ?_⟩
  obtain ⟨t₂, ht₂, hid, hleased, hattempt⟩ := htasks t₁ ht₁ hte
  obtain ⟨t₃, ht₃, hid', hleased', hattempt'⟩ :=
    htasks' t₂ ht₂ (hid.trans (hte.trans htask₂.symm))
  exact ⟨t₃, ht₃, hid'.trans hid, fun h => hleased (hleased' h), hattempt'.trans hattempt⟩

/-- **A move that does not reconcile a lost envelope keeps its task where it is.** -/
theorem Exclusive.lostKept (h : Exclusive s) {id : Uuid}
    (hmove : Move (sparing fun e => e.id ≠ id) s s') : LostKept id s s' := by
  intro e he hid hlost
  have hopen : e.state.isOpen = true := by rw [hlost]; rfl
  refine ⟨?_, fun t ht hte => ?_⟩
  · obtain ⟨e', he', hstep⟩ := hmove.envelope_forward he
    obtain ⟨hid', htask', -⟩ := hstep.identity
    refine ⟨e', he', hid'.trans hid, htask', ?_⟩
    cases hstep with
    | same => exact hlost
    | begun hleased => simp [hlost] at hleased
    | lost => rfl
    | delivered hends | returned hends =>
      obtain hwork | hwork := h.under_work he hends <;> simp [hwork] at hlost
    | completed hc => obtain hdone | hdone := h.done he hc <;> simp [hdone] at hlost
    | reconciled _ hother => exact absurd hid hother
  · obtain ⟨t', ht', hstep⟩ := hmove.task_forward ht
    have hwaiting := h.held e he hopen t ht hte
    refine ⟨t', ht', hstep.identity.1, ?_⟩
    cases hstep with
    | same => exact ⟨fun h => h, rfl⟩
    | moved hm => cases hm <;> exact ⟨by simp, rfl⟩
    | claimed heligible | leased heligible =>
      simp [heligible, TaskState.isWaiting] at hwaiting
    | _ => exact ⟨by simp, rfl⟩

/-- An operation that spares open envelopes keeps a task whose stateful work was lost. -/
theorem Exclusive.lostTaskHeld (hs : Sound s) (h : Exclusive s) (deployment : Deployment) {op : Op}
    (hop : SparesOpenEnvelopes s op) : LostTaskHeld deployment s op := by
  rintro e he - hlost hleaves ⟨t, ht, t', ht', hte, hte', hrerun⟩
  have hmoves := step_moves deployment hs.addressed (permitsOp_leaving hop hleaves)
  have hkept : LostKept e.id s (step deployment s op) :=
    hmoves.rel (I := fun s => Sound s ∧ Exclusive s) LostKept.refl LostKept.trans
      (fun _ _ h hm => ⟨h.1.move hm, h.2.move h.1 (spares_sparing _) hm⟩)
      (fun _ _ h hm => h.2.lostKept hm) ⟨hs, h⟩
  obtain ⟨⟨e', he', -, htask', hlost'⟩, htasks⟩ := hkept e he rfl hlost
  obtain ⟨t₁, ht₁, hid₁, hleased, hattempt⟩ := htasks t ht hte
  have hsame : t' = t₁ := Store.task_eq ht' ht₁ (by rw [hte', hid₁, hte])
  have hwaiting := (exclusive_step hs h deployment hop).held e' he' (by rw [hlost']; rfl) t' ht'
    (hte'.trans htask'.symm)
  rw [← hsame] at hleased hattempt
  obtain heligible | ⟨hnew, hold⟩ | hnew := hrerun
  · simp [heligible, TaskState.isWaiting] at hwaiting
  · exact hold (hleased hnew)
  · exact hnew hattempt

/-- **A lost stateful task is never silently run again** in a run whose recoveries spare the tasks
workers may still be working on. -/
theorem lost_task_held (deployment : Deployment) (ops : List Op)
    (hspares : Along (step deployment) SparesOpenEnvelopes .empty ops) :
    Along (step deployment) (LostTaskHeld deployment) .empty ops := by
  refine Along.of_guarded (I := fun s => Sound s ∧ Exclusive s) (fun s op h hop => ?_)
    (fun s op h hop => h.2.lostTaskHeld h.1 deployment hop) ⟨sound_empty, exclusive_empty⟩ hspares
  exact ⟨h.1.step op, exclusive_step h.1 h.2 deployment hop⟩

/-- A recovery after the effects of the lost task are proven settled spares every envelope. -/
theorem lost_task_held_reconciled :
    Along (step sampleDeployment) (LostTaskHeld sampleDeployment) .empty
      (sampleStart ++ [.issueLease (sampleEnvelope 20 1 true) 30 sampleToken 0,
        .beginExecution 7 30 sampleToken 0, .expireLeases (61 * second),
        .reconcileExpiredEnvelope 20 .proven, .reconcileInterrupted 1, .releaseInterrupted 1]) :=
  lost_task_held _ _ (by decide)

/-! ## A task under an active lease -/

/-- The lease is on the task. -/
def LeaseOn (s : Store) (l : WorkerLeaseRow) (taskRowId : Uuid) : Prop :=
  ∃ e ∈ s.envelopes, e.id = l.envelopeId ∧ e.taskRowId = taskRowId

instance (s : Store) (l : WorkerLeaseRow) (taskRowId : Uuid) : Decidable (LeaseOn s l taskRowId) :=
  inferInstanceAs (Decidable (∃ e ∈ s.envelopes, _))

/-- **A task has a single executor**: at most one active lease, and while there is one no local
claim succeeds and no operation issues another lease on the task. -/
structure SingleExecutor (deployment : Deployment) (s : Store) : Prop where
  one : ∀ l ∈ s.leases, ∀ l' ∈ s.leases, l.state = .active → l'.state = .active →
    ∀ t ∈ s.tasks, LeaseOn s l t.id → LeaseOn s l' t.id → l = l'
  unclaimed : ∀ l ∈ s.leases, l.state = .active → ∀ t ∈ s.tasks, LeaseOn s l t.id →
    ∀ r, s.claimTask t.runId t.taskKey ≠ .ok r
  unleased : ∀ l ∈ s.leases, l.state = .active → ∀ t ∈ s.tasks, LeaseOn s l t.id →
    ∀ op, ∀ l' ∈ (step deployment s op).leases, LeaseOn (step deployment s op) l' t.id →
      ∃ l₀ ∈ s.leases, l₀.id = l'.id

/-- A run is recovered while a worker executes its task: the task is leased to the worker once more,
so that it is under two active leases. -/
theorem executor_not_single :
    ¬ SingleExecutor sampleDeployment (runFrom sampleDeployment .empty
      (sampleStart ++ [.issueLease (sampleEnvelope 20 1 false) 30 sampleToken 0,
        .beginExecution 7 30 sampleToken 0, .reconcileInterrupted 1, .releaseInterrupted 1,
        .issueLease (sampleEnvelope 21 2 false) 31 otherToken 0])) :=
  fun h => absurd h.one (by decide)

/-- No lease is issued on the task. -/
def handingOut (taskRowId : Uuid) : Permits
  | _, .leased t => t.id ≠ taskRowId
  | _, _ => True

/-- The leases on the task were there before. -/
def NoNewLease (taskRowId : Uuid) (s s' : Store) : Prop :=
  ∀ l' ∈ s'.leases, LeaseOn s' l' taskRowId →
    ∃ l ∈ s.leases, l.id = l'.id ∧ LeaseOn s l taskRowId

theorem NoNewLease.trans {taskRowId : Uuid} {s₁ s₂ s₃ : Store} (h : NoNewLease taskRowId s₁ s₂)
    (h' : NoNewLease taskRowId s₂ s₃) : NoNewLease taskRowId s₁ s₃ := by
  intro l₃ hl₃ hon₃
  obtain ⟨l₂, hl₂, hid₂, hon₂⟩ := h' l₃ hl₃ hon₃
  obtain ⟨l₁, hl₁, hid₁, hon₁⟩ := h l₂ hl₂ hon₂
  exact ⟨l₁, hl₁, hid₁.trans hid₂, hon₁⟩

/-- **A move that does not lease a task adds no lease on it.** -/
theorem Move.noNewLease {taskRowId : Uuid} (h : Move (handingOut taskRowId) s s') :
    NoNewLease taskRowId s s' := by
  rintro l' hl' ⟨e', he', hid', htask'⟩
  obtain ⟨l, hl, hid, hle⟩ | ⟨e, he, hid, t, ht, hother, htask⟩ := h.lease_origin hl'
  · refine ⟨l, hl, hid, ?_⟩
    obtain ⟨e, he, hstep⟩ | ⟨-, -, t, -, -, hother, htask, -⟩ := h.envelope_backward he'
    · obtain ⟨hid₀, htask₀, -⟩ := hstep.identity
      exact ⟨e, he, hid₀.symm.trans (hid'.trans hle.symm), htask₀.symm.trans htask'⟩
    · exact absurd (htask.symm.trans htask') hother
  · rw [Store.envelope_eq he' he (hid'.trans hid.symm)] at htask'
    exact absurd (htask.symm.trans htask') hother

/-- A task under an active lease does not wait for work. -/
theorem Exclusive.not_eligible (h : Exclusive s) {l : WorkerLeaseRow} (hl : l ∈ s.leases)
    (hactive : l.state = .active) {t : TaskRow} (ht : t ∈ s.tasks) (hon : LeaseOn s l t.id) :
    t.status ≠ .eligible := by
  obtain ⟨e, he, hid, htask⟩ := hon
  obtain ⟨e₀, he₀, hid₀, hstate⟩ := h.leased l hl hactive
  rw [← Store.envelope_eq he he₀ (hid.trans hid₀.symm)] at hstate
  have hwaiting := h.held e he (by obtain hstate | hstate := hstate <;> rw [hstate] <;> rfl) t ht
    htask.symm
  intro heligible
  simp [heligible, TaskState.isWaiting] at hwaiting

/-- **Exclusive envelopes give every task a single executor.** -/
theorem Exclusive.singleExecutor (hs : Sound s) (h : Exclusive s) (deployment : Deployment) :
    SingleExecutor deployment s where
  one := by
    rintro l hl l' hl' hactive hactive' t ht ⟨e, he, hid, htask⟩ ⟨e', he', hid', htask'⟩
    obtain ⟨e₀, he₀, hid₀, hstate⟩ := h.leased l hl hactive
    obtain ⟨e₀', he₀', hid₀', hstate'⟩ := h.leased l' hl' hactive'
    rw [← Store.envelope_eq he he₀ (hid.trans hid₀.symm)] at hstate
    rw [← Store.envelope_eq he' he₀' (hid'.trans hid₀'.symm)] at hstate'
    have hsame : e = e' := by
      refine h.single e he e' he' ?_ ?_ (htask.trans htask'.symm)
      · obtain hstate | hstate := hstate <;> rw [hstate] <;> rfl
      · obtain hstate' | hstate' := hstate' <;> rw [hstate'] <;> rfl
    exact Store.lease_eq_of_envelope hl hl' (by rw [← hid, ← hid', hsame])
  unclaimed := by
    rintro l hl hactive t ht hon ⟨a, s'⟩ hclaim
    simp only [Store.claimTask, bind_eq_ok, requireTask_eq_ok, refuseIf_eq_ok, not_not] at hclaim
    obtain ⟨_, -, t', ⟨ht', hrun, hkey⟩, -, -, -, heligible, -⟩ := hclaim
    rw [Store.task_eq_of_key ht' ht hrun hkey] at heligible
    exact h.not_eligible hl hactive ht hon heligible
  unleased := by
    intro l hl hactive t ht hon op l' hl' hon'
    have hpermits : PermitsOp (handingOut t.id) s op := by
      have hlease : PermitsLease (handingOut t.id) s := by
        rintro s₁ t' - ht' heligible hid
        rw [Store.task_eq ht' ht hid] at heligible
        exact h.not_eligible hl hactive ht hon heligible
      cases op with
      | claimNext | issueLease => exact hlease
      | _ => simp [PermitsOp, PermitsExpiry, handingOut]
    have hmoves := step_moves deployment hs.addressed hpermits
    obtain ⟨l₀, hl₀, hid, -⟩ := hmoves.rel (I := fun _ => True) (R := NoNewLease t.id)
      (fun _ l hl hon => ⟨l, hl, rfl, hon⟩) NoNewLease.trans (fun _ _ _ _ => trivial)
      (fun _ _ _ hm => hm.noNewLease) trivial l' hl' hon'
    exact ⟨l₀, hl₀, hid⟩

/-- **A task has a single executor in every state reached** by a run whose recoveries spare the
tasks workers may still be working on. -/
theorem single_executor (deployment : Deployment) (ops : List Op)
    (hspares : Along (step deployment) SparesOpenEnvelopes .empty ops) :
    SingleExecutor deployment (runFrom deployment .empty ops) := by
  have hboth : Sound (runFrom deployment .empty ops) ∧ Exclusive (runFrom deployment .empty ops) :=
    run_of_guarded (I := fun s => Sound s ∧ Exclusive s)
      (fun s op h hop => ⟨h.1.step op, exclusive_step h.1 h.2 deployment hop⟩)
      ⟨sound_empty, exclusive_empty⟩ hspares
  exact hboth.2.singleExecutor hboth.1 deployment

/-- A worker whose lease expires gives its task back before another takes it. -/
theorem single_executor_expired :
    SingleExecutor sampleDeployment (runFrom sampleDeployment .empty
      (sampleStart ++ [.issueLease (sampleEnvelope 20 1 false) 30 sampleToken 0,
        .beginExecution 7 30 sampleToken 0, .expireLeases (61 * second), .reconcileInterrupted 1,
        .releaseInterrupted 1, .issueLease (sampleEnvelope 21 2 false) 31 otherToken 0])) :=
  single_executor _ _ (by decide)

end Mishkan
