import Mishkan.Persistence.Invariants

/-!
# Persistence/Cancellation — what stays cancelled

Three operations forget the cancellation of a run: the acceptance of its first plan, the expiry of a
stateless lease on one of its tasks, and the reconciliation of a lost one.  In a run without them a
cancelled run stays `Quiet`: nothing of it waits for work, and no operation revives it.
-/

namespace Mishkan

open Refusal Transition

variable {G : Permits} {s s' : Store} {runId : Uuid}

/-! ## The property -/

/-- The operation has set the cancellation flag of the run. -/
def Requests (runId : Uuid) (s s' : Store) : Prop :=
  (∃ run ∈ s.runs, run.id = runId ∧ run.cancellationRequested = false) ∧
    ∃ run ∈ s'.runs, run.id = runId ∧ run.cancellationRequested = true

/-- No task of the run was put into eligible or leased, and the run is not queued, running or
completed. -/
def NotRevived (runId : Uuid) (s s' : Store) : Prop :=
  (∀ t' ∈ s'.tasks, t'.runId = runId → t'.status = .eligible ∨ t'.status = .leased →
    ∃ t ∈ s.tasks, t.id = t'.id ∧ t.status = t'.status) ∧
  ∀ run ∈ s'.runs, run.id = runId →
    run.status ≠ .queued ∧ run.status ≠ .running ∧ run.status ≠ .completed

/-- **Cancellation is monotone**: once `cancelRun` has set the flag of a run, no later operation
revives it. -/
def CancellationMonotone (deployment : Deployment) (ops : List Op) (runId : Uuid)
    (later : List Op) : Prop :=
  let s := runFrom deployment .empty ops
  let s' := step deployment s (.cancelRun runId)
  Requests runId s s' →
    Along (step deployment) (fun s op => NotRevived runId s (step deployment s op)) s' later

instance (runId : Uuid) (s s' : Store) : Decidable (Requests runId s s') :=
  inferInstanceAs (Decidable (_ ∧ _))

instance (runId : Uuid) (s s' : Store) : Decidable (NotRevived runId s s') :=
  inferInstanceAs (Decidable (_ ∧ _))

instance (deployment : Deployment) (ops : List Op) (runId : Uuid) (later : List Op) :
    Decidable (CancellationMonotone deployment ops runId later) :=
  inferInstanceAs (Decidable (_ → _))

/-- A run cancelled while it was planning is queued by the plan accepted later; a task whose
stateless lease expires after the cancellation is eligible again; so is one whose lost lease is
reconciled. -/
theorem cancellation_not_monotone :
    ¬ CancellationMonotone sampleDeployment [.startOrResume 1 sampleDiscovery "build" "built"] 1
        [.acceptPlan 1 samplePlan (10 + ·)] ∧
    ¬ CancellationMonotone sampleDeployment
        (sampleStart ++ [.issueLease (sampleEnvelope 20 1 false) 30 sampleToken 0]) 1
        [.expireLeases (61 * second)] ∧
    ¬ CancellationMonotone sampleDeployment
        (sampleStart ++ [.issueLease (sampleEnvelope 20 1 true) 30 sampleToken 0]) 1
        [.expireLeases (61 * second), .reconcileExpiredEnvelope 20 .proven] := by
  decide

/-! ## The condition -/

/-- A task of the run is held by a worker through the envelope. -/
def HoldsTask (runId : Uuid) (s : Store) (e : RemoteTaskEnvelopeRow) : Prop :=
  ∃ t ∈ s.tasks, t.id = e.taskRowId ∧ t.runId = runId ∧
    (t.status = .leased ∨ t.status = .executing)

instance (runId : Uuid) (s : Store) (e : RemoteTaskEnvelopeRow) :
    Decidable (HoldsTask runId s e) :=
  inferInstanceAs (Decidable (∃ t ∈ s.tasks, _))

/-- **The operation does not forget the cancellation**: it accepts no first plan for the run,
expires no stateless lease that holds one of its tasks, and reconciles no lost one. -/
def HeedsCancellation (runId : Uuid) (s : Store) : Op → Prop
  | .acceptPlan id plan _ => id = runId → ¬ IsFirstPlan s id plan
  | .expireLeases now => ∀ l ∈ s.leases, l.state = .active → l.expiresAt ≤ now →
      ∀ e ∈ s.envelopes, e.id = l.envelopeId → e.statefulEffects = false → ¬ HoldsTask runId s e
  | .reconcileExpiredEnvelope id report => report = .proven →
      ∀ e ∈ s.envelopes, e.id = id → e.state = .reconciliationRequired → ¬ HoldsTask runId s e
  | _ => True

/-- The releases that leave a cancelled run alone. -/
def heeding (runId : Uuid) : Permits
  | _, .plan id => id ≠ runId
  | _, .interrupted _ | _, .leased _ | _, .journal | _, .retried _ => True
  | s, .expired e | s, .reconciled e => ¬ HoldsTask runId s e

theorem permitsOp_heeding {op : Op} (h : HeedsCancellation runId s op) :
    PermitsOp (heeding runId) s op := by
  cases op with
  | acceptPlan id plan draw =>
    rintro hfirst rfl
    exact h rfl hfirst
  | expireLeases now =>
    rintro s₁ l e hs₁ hl hactive hnow he hle hstateless ⟨t, ht, htid, htrun, hstatus⟩
    obtain ⟨e₀, he₀, hid, htask, -, hstateful⟩ := hs₁.envelopes e he
    refine h l hl hactive hnow e₀ he₀ (hid.trans hle.symm) (hstateful.trans hstateless)
      ⟨t, hs₁.tasks t ht hstatus, htid.trans htask.symm, htrun, hstatus⟩
  | reconcileExpiredEnvelope id report =>
    exact fun e he hid hstate hproven => h hproven e he hid hstate
  | releaseInterrupted => exact fun _ _ _ _ => trivial
  | claimNext | issueLease => exact fun _ _ _ _ _ => trivial
  | _ => trivial

/-! ## A quiet run -/

/-- The run is cancelled, is not in a state of work, and none of its tasks waits for work. -/
structure Quiet (runId : Uuid) (s : Store) : Prop where
  run : ∃ run ∈ s.runs, run.id = runId ∧ run.cancellationRequested = true ∧
    run.status ≠ .queued ∧ run.status ≠ .running ∧ run.status ≠ .completed
  tasks : ∀ t ∈ s.tasks, t.runId = runId → t.status.isWaiting = false

/-- A quiet run is not open. -/
theorem Quiet.not_open (h : Quiet runId s) : ¬ RunOpen s runId := by
  rintro ⟨run, hrun, hid, hopen⟩
  obtain ⟨run', hrun', hid', hrequested, -⟩ := h.run
  rw [Store.run_eq hrun hrun' (hid.trans hid'.symm), hrequested] at hopen
  cases hopen

/-- No step of a task of a quiet run makes it wait, or leases it. -/
theorem Quiet.task_step (h : Quiet runId s) {t t' : TaskRow} (ht : t ∈ s.tasks)
    (hrun : t.runId = runId) (hstep : TaskStep (heeding runId) s s' t t') :
    t'.status.isWaiting = false ∧ (t'.status = .leased → t.status = .leased) := by
  have hwaiting := h.tasks t ht hrun
  cases hstep with
  | same => exact ⟨hwaiting, id⟩
  | moved hmove =>
    cases hmove with
    | released hpending => simp [hpending, TaskState.isWaiting] at hwaiting
    | recovered _ _ hopen => exact absurd (hrun ▸ hopen) h.not_open
    | cancelled | rejected | failed | validating => simp [TaskState.isWaiting]
  | leased heligible => simp [heligible, TaskState.isWaiting] at hwaiting
  | claimed | accepted | begun | delivered => simp [TaskState.isWaiting]
  | returned hstatus he htask _ _ _ hG | reconciled hstatus he htask _ hG =>
    exact absurd ⟨t, ht, htask.symm, hrun, hstatus⟩ hG

theorem Quiet.run_step (h : Quiet runId s) (hmove : Move (heeding runId) s s') :
    ∃ run ∈ s'.runs, run.id = runId ∧ run.cancellationRequested = true ∧
      run.status ≠ .queued ∧ run.status ≠ .running ∧ run.status ≠ .completed := by
  obtain ⟨run, hrun, rfl, hrequested, hqueued, hrunning, hcompleted⟩ := h.run
  obtain ⟨run', hrun', hstep⟩ := hmove.run_forward hrun
  refine ⟨run', hrun', hstep.identity.1, hstep.requested hrequested, ?_⟩
  cases hstep with
  | same => exact ⟨hqueued, hrunning, hcompleted⟩
  | moved hm =>
    cases hm with
    | started hstatus => exact absurd hstatus hqueued
    | resumed hopen | completed hopen => simp [hrequested] at hopen
    | awaiting | failed | blocked | settled => simp
  | cancelled hstatus => obtain rfl | rfl := hstatus <;> simp
  | queued hG => exact absurd rfl hG

/-- **A move that heeds the cancellation keeps a run quiet.** -/
theorem Quiet.move (h : Quiet runId s) (hmove : Move (heeding runId) s s') : Quiet runId s' where
  run := h.run_step hmove
  tasks t' ht' hrun := by
    obtain ⟨t, ht, hstep⟩ | ⟨-, hG, -⟩ := hmove.task_backward ht'
    · exact (h.task_step ht (hstep.identity.2.1.symm.trans hrun) hstep).1
    · exact absurd hrun hG

/-- The leased tasks of the run were leased before. -/
def LeasedBefore (runId : Uuid) (s s' : Store) : Prop :=
  ∀ t' ∈ s'.tasks, t'.runId = runId → t'.status = .leased →
    ∃ t ∈ s.tasks, t.id = t'.id ∧ t.runId = runId ∧ t.status = .leased

theorem Quiet.leasedBefore (h : Quiet runId s) (hmove : Move (heeding runId) s s') :
    LeasedBefore runId s s' := by
  intro t' ht' hrun hleased
  obtain ⟨t, ht, hstep⟩ | ⟨-, hG, -⟩ := hmove.task_backward ht'
  · obtain ⟨hid, hrun', -⟩ := hstep.identity
    have htrun := hrun'.symm.trans hrun
    exact ⟨t, ht, hid.symm, htrun, (h.task_step ht htrun hstep).2 hleased⟩
  · exact absurd hrun hG

/-- A cancellation either leaves the store alone or makes the run quiet. -/
theorem cancelRun_quiet {a : RunSnapshot} (h : s.cancelRun runId = .ok (a, s')) :
    s' = s ∨ Quiet runId s' := by
  simp only [Store.cancelRun, bind_eq_ok, requireRun_eq_ok] at h
  obtain ⟨run, ⟨hrun, rfl⟩, h⟩ := h
  split at h <;> cases h
  · exact .inl rfl
  refine .inr ⟨?_, fun t ht hid => ?_⟩
  · simp only [Store.addEvent, Store.addEvents, Store.moveTasks, Table.mem_update]
    refine ⟨_, ⟨run, hrun, if_pos (by simp)⟩, rfl, rfl, ?_⟩
    dsimp only
    split <;> simp
  · obtain ⟨t₀, ht₀, ⟨hp, rfl⟩ | ⟨-, rfl⟩⟩ := mem_moveTasks (s := s) ht
    · simpa [hid] using hp
    · rfl

/-- Setting the flag leaves the run quiet. -/
theorem quiet_of_requests (deployment : Deployment) (s : Store)
    (h : Requests runId s (step deployment s (.cancelRun runId))) :
    Quiet runId (step deployment s (.cancelRun runId)) := by
  obtain ⟨⟨run, hrun, hid, hopen⟩, run', hrun', hid', hrequested⟩ := h
  -- an operation that left the store alone has not set the flag
  have hchanged : step deployment s (.cancelRun runId) ≠ s := by
    intro hsame
    rw [hsame] at hrun'
    rw [Store.run_eq hrun' hrun (hid'.trans hid.symm), hopen] at hrequested
    cases hrequested
  cases hx : s.cancelRun runId with
  | error e => exact absurd (by simp [step, hx]) hchanged
  | ok p =>
    have hstep : step deployment s (.cancelRun runId) = p.2 := by simp only [step, hx]; rfl
    rw [hstep] at hchanged ⊢
    exact (cancelRun_quiet hx).resolve_left hchanged

/-! ## Runs -/

theorem LeasedBefore.refl (s : Store) : LeasedBefore runId s s :=
  fun t ht hrun hleased => ⟨t, ht, rfl, hrun, hleased⟩

theorem LeasedBefore.trans {s₁ s₂ s₃ : Store} (h : LeasedBefore runId s₁ s₂)
    (h' : LeasedBefore runId s₂ s₃) : LeasedBefore runId s₁ s₃ := by
  intro t₃ ht₃ hrun hleased
  obtain ⟨t₂, ht₂, hid₂, hrun₂, hleased₂⟩ := h' t₃ ht₃ hrun hleased
  obtain ⟨t₁, ht₁, hid₁, hrun₁, hleased₁⟩ := h t₂ ht₂ hrun₂ hleased₂
  exact ⟨t₁, ht₁, hid₁.trans hid₂, hrun₁, hleased₁⟩

/-- **An operation that heeds the cancellation keeps a run quiet and revives none of its tasks.** -/
theorem Quiet.step (hs : Sound s) (h : Quiet runId s) (deployment : Deployment) {op : Op}
    (hop : HeedsCancellation runId s op) :
    Quiet runId (step deployment s op) ∧ LeasedBefore runId s (step deployment s op) := by
  have hmoves := step_moves deployment hs.addressed (permitsOp_heeding hop)
  refine ⟨hmoves.lift (fun _ _ h hm => h.move hm) h, ?_⟩
  exact hmoves.rel (I := Quiet runId) (R := LeasedBefore runId) LeasedBefore.refl LeasedBefore.trans
    (fun _ _ h hm => h.move hm) (fun _ _ h hm => h.leasedBefore hm) h

/-- A quiet run in which no task is newly leased is not revived. -/
theorem Quiet.notRevived (h : Quiet runId s') (hleased : LeasedBefore runId s s') :
    NotRevived runId s s' := by
  refine ⟨fun t' ht' hrun hstatus => ?_, fun run hrun hid => ?_⟩
  · obtain heligible | hl := hstatus
    · have hwaiting := h.tasks t' ht' hrun
      simp [heligible, TaskState.isWaiting] at hwaiting
    · obtain ⟨t, ht, hid, -, hstatus⟩ := hleased t' ht' hrun hl
      exact ⟨t, ht, hid, hstatus.trans hl.symm⟩
  · obtain ⟨run', hrun', hid', -, hstatus⟩ := h.run
    rwa [Store.run_eq hrun hrun' (hid.trans hid'.symm)]

/-- **Cancellation is monotone along every run that heeds it.** -/
theorem cancellation_monotone (deployment : Deployment) (ops : List Op) (runId : Uuid)
    (later : List Op)
    (hheeds : Along (step deployment) (HeedsCancellation runId)
      (step deployment (runFrom deployment .empty ops) (.cancelRun runId)) later) :
    CancellationMonotone deployment ops runId later := by
  unfold CancellationMonotone
  intro s s' hrequests
  have hs : Sound s' := (sound_empty.run ops).step (.cancelRun runId)
  have hquiet : Quiet runId s' := quiet_of_requests deployment s hrequests
  refine Along.of_guarded (I := fun s => Sound s ∧ Quiet runId s) (fun s op h hop => ?_)
    (fun s op h hop => ?_) ⟨hs, hquiet⟩ hheeds
  · exact ⟨h.1.step op, (Quiet.step h.1 h.2 deployment hop).1⟩
  · obtain ⟨hquiet', hleased⟩ := Quiet.step h.1 h.2 deployment hop
    exact hquiet'.notRevived hleased

/-- A run cancelled with a task under a worker's lease: a late start, a claim and the settlement
leave it cancelled. -/
theorem cancellation_monotone_leased :
    CancellationMonotone sampleDeployment
      (sampleStart ++ [.issueLease (sampleEnvelope 20 1 false) 30 sampleToken 0]) 1
      [.startRun 1, .claimTask 1 "build", .settleCancellation 1, .expireLeases (61 * second)] :=
  cancellation_monotone _ _ _ _ (by
    refine ⟨trivial, trivial, trivial, ?_, trivial⟩
    show ∀ l ∈ _, _
    decide)

end Mishkan
