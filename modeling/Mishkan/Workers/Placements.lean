import Mishkan.Workers.Custody

/-!
# Workers/Placements — the task a placement is of, and the attempts its envelopes count

A placement is of a task of its run, and an envelope is of an attempt its task has counted; so the
next attempt of a task is free for a new envelope.  `Filed` is what a transaction keeps of this, and
`filed_step` that every transaction keeps it.
-/

namespace Mishkan

open Refusal Transition

variable {s s₁ s' : Store}

/-- A task of a run. -/
def HasTask (s : Store) (id runId : Uuid) : Prop := ∃ t ∈ s.tasks, t.id = id ∧ t.runId = runId

/-- An attempt that a task has counted. -/
def Counted (s : Store) (taskRowId : Uuid) (attempt : Nat) : Prop :=
  ∃ t ∈ s.tasks, t.id = taskRowId ∧ attempt ≤ t.attemptCount

/-- A task stays. -/
theorem TasksGrow.hasTask (h : TasksGrow s s') {id runId : Uuid} (ht : HasTask s id runId) :
    HasTask s' id runId := by
  obtain ⟨t, ht, rfl, rfl⟩ := ht
  obtain ⟨t', ht', hid, hrun, -⟩ := h t ht
  exact ⟨t', ht', hid, hrun⟩

theorem TasksGrow.counted (h : TasksGrow s s') {id : Uuid} {attempt : Nat}
    (ht : Counted s id attempt) : Counted s' id attempt := by
  obtain ⟨t, ht, rfl, hle⟩ := ht
  obtain ⟨t', ht', hid, -, hle'⟩ := h t ht
  exact ⟨t', ht', hid, hle.trans hle'⟩

/-- **What a transaction keeps of placements and envelopes**: the tasks grow, and what is new is of
a task that is there and of an attempt it has counted. -/
structure Filed (s s' : Store) : Prop where
  tasks : TasksGrow s s'
  placements : ∀ p' ∈ s'.placements,
    (∃ p ∈ s.placements, p.taskRowId = p'.taskRowId ∧ p.runId = p'.runId) ∨
      HasTask s' p'.taskRowId p'.runId
  envelopes : ∀ e' ∈ s'.envelopes,
    (∃ e ∈ s.envelopes, e.taskRowId = e'.taskRowId ∧ e.taskAttempt = e'.taskAttempt) ∨
      Counted s' e'.taskRowId e'.taskAttempt

namespace Filed

theorem of_eq (htasks : TasksGrow s s') (hplacements : s'.placements = s.placements)
    (henvelopes : s'.envelopes = s.envelopes) : Filed s s' where
  tasks := htasks
  placements p' hp' := .inl ⟨p', by rwa [hplacements] at hp', rfl, rfl⟩
  envelopes e' he' := .inl ⟨e', by rwa [henvelopes] at he', rfl, rfl⟩

theorem refl (s : Store) : Filed s s := of_eq (.of_eq rfl) rfl rfl

theorem trans (h : Filed s s₁) (h' : Filed s₁ s') : Filed s s' where
  tasks := h.tasks.trans h'.tasks
  placements p' hp' := by
    obtain ⟨p₁, hp₁, htask₁, hrun₁⟩ | hnew := h'.placements p' hp'
    · obtain ⟨p, hp, htask, hrun⟩ | hnew := h.placements p₁ hp₁
      · exact .inl ⟨p, hp, htask.trans htask₁, hrun.trans hrun₁⟩
      · rw [htask₁, hrun₁] at hnew
        exact .inr (h'.tasks.hasTask hnew)
    · exact .inr hnew
  envelopes e' he' := by
    obtain ⟨e₁, he₁, htask₁, hattempt₁⟩ | hnew := h'.envelopes e' he'
    · obtain ⟨e, he, htask, hattempt⟩ | hnew := h.envelopes e₁ he₁
      · exact .inl ⟨e, he, htask.trans htask₁, hattempt.trans hattempt₁⟩
      · rw [htask₁, hattempt₁] at hnew
        exact .inr (h'.tasks.counted hnew)
    · exact .inr hnew

/-- A step that is not remote files nothing. -/
theorem of_aloof (h : Aloof s s') : Filed s s' :=
  of_eq h.tasks h.placements (congrArg Custody.envelopes h.custody)

theorem addEvent (h : Filed s s₁) (id : Uuid) (event : String) (task : Option String) :
    Filed s (s₁.addEvent id event task) := h.trans (of_eq (.of_eq rfl) rfl rfl)

theorem moveTasks (h : Filed s s₁) (p : TaskRow → Bool) (status : TaskState) :
    Filed s (s₁.moveTasks p status) := h.trans (of_eq (.moveTasks s₁ p status) rfl rfl)

theorem moveEnvelope (h : Filed s s₁) (id : Uuid) (state : RemoteEnvelopeState) :
    Filed s (s₁.moveEnvelope id state) := by
  refine h.trans ⟨.of_eq rfl, fun p' hp' => .inl ⟨p', hp', rfl, rfl⟩, fun e' he' => ?_⟩
  obtain ⟨e, he, ⟨-, h⟩ | ⟨-, h⟩⟩ := mem_moveEnvelope he' <;>
    exact .inl ⟨e, he, by rw [h], by rw [h]⟩

/-- Placements are rewritten, each staying of its task. -/
theorem updatePlacements (h : Filed s s₁) (p : RemoteTaskPlacementRow → Bool)
    {f : RemoteTaskPlacementRow → RemoteTaskPlacementRow} (hf : ∀ r, Keyed.key (f r) = Keyed.key r)
    (hsame : ∀ r, (f r).taskRowId = r.taskRowId ∧ (f r).runId = r.runId) :
    Filed s (s₁.updatePlacements p f hf) := by
  refine h.trans ⟨.of_eq rfl, fun p' hp' => ?_, fun e' he' => .inl ⟨e', he', rfl, rfl⟩⟩
  simp only [Store.updatePlacements, Table.mem_update] at hp'
  obtain ⟨r, hr, rfl⟩ := hp'
  refine .inl ⟨r, hr, ?_⟩
  split
  · exact ⟨(hsame r).1.symm, (hsame r).2.symm⟩
  · exact ⟨rfl, rfl⟩

end Filed

/-! ## The worker repository -/

section Worker

variable {bounds : WorkerBounds} {now : Instant}

/-- An envelope of the next attempt of a task is filed. -/
theorem insertLease_filed {envelope : ImmutableTaskEnvelope} {lease : WorkerLeaseRow} {t : TaskRow}
    (ht : t ∈ s.tasks) (hid : envelope.taskRowId = t.id)
    (hattempt : envelope.taskAttempt = t.attemptCount + 1)
    (h : s.insertLease envelope lease = .ok s') : Filed s s' := by
  simp only [Store.insertLease, bind_eq_ok, require_eq_ok, pure_eq_ok] at h
  obtain ⟨envelopes, henvelopes, leases, -, rfl⟩ := h
  rw [hid, hattempt]
  refine ⟨.beginAttempt ht .leased, fun p' hp' => .inl ⟨p', hp', rfl, rfl⟩, fun e' he' => ?_⟩
  obtain he | rfl := (Table.mem_of_insert henvelopes).mp he'
  · exact .inl ⟨e', he, rfl, rfl⟩
  · refine .inr ⟨{ t with
      status := .leased, attemptCount := t.attemptCount + 1, revision := t.revision + 1 }, ?_, ?_⟩
    · simp only [Store.beginAttempt, Table.mem_update]
      exact ⟨t, ht, by simp⟩
    · exact ⟨hid.symm, hattempt.le⟩

/-- The new placement is of a task of the run. -/
theorem queuePlacement_filed {request : RemotePlacementRequest} :
    Leaves (Filed s) (s.queuePlacement now request) := by
  refine .skip fun _ => .after fun run hrun' => .after fun t ht => .skip fun _ => .skip fun _ =>
    .skip fun _ => ?_
  split
  · exact .skip fun _ => .done (.refl s)
  · refine .after fun placements hinsert => .done (.addEvent ?_ _ _ _)
    rw [require_eq_ok] at hinsert
    obtain ⟨ht, hrun, -⟩ := Store.task?_eq_some.mp (require_eq_ok.mp ht)
    obtain ⟨-, hid⟩ := Store.run?_eq_some.mp (require_eq_ok.mp hrun')
    refine ⟨.of_eq rfl, fun p' hp' => ?_, fun e' he' => .inl ⟨e', he', rfl, rfl⟩⟩
    obtain hp | rfl := (Table.mem_of_insert hinsert).mp hp'
    · exact .inl ⟨p', hp, rfl, rfl⟩
    · exact .inr ⟨t, ht, rfl, hrun.trans hid.symm⟩

/-- The envelope of a claim is of the task of its placement. -/
theorem claimNext_filed {workerId : Uuid} {request : WorkerClaimRequest}
    {envelopeId leaseId : Uuid} :
    Leaves (Filed s) (s.claimNext bounds workerId request envelopeId leaseId now) := by
  refine .skip fun _ => .skip fun _ => ?_
  split
  · exact .skip fun _ => .skip fun _ => .skip fun _ => .done (.refl s)
  refine .skip fun advertisement => .branch (fun _ => .done (.refl s)) fun hcapacity => ?_
  dsimp only
  have hexpired : Filed s (s.updatePlacements (fun r => (Store.selectPlacement advertisement now
      (s.queuedPlacements workerId)).1.contains r.id) (fun r => { r with state := .cancelled })
      fun _ => rfl) := by
    refine (Filed.refl s).updatePlacements _ ?_ ?_
    · exact fun _ => ⟨rfl, rfl⟩
  split
  · exact .done hexpired
  refine .skip fun run => .after fun t ht => .skip fun plan => .skip fun _ => .skip fun _ =>
    .after fun s₁ hs₁ => .done ?_
  obtain ⟨ht, -⟩ := Store.taskRow?_eq_some.mp (require_eq_ok.mp ht)
  have hleased : Filed s s₁ := hexpired.trans (insertLease_filed ht rfl rfl hs₁)
  refine .addEvent (.updatePlacements hleased _ ?_ ?_) _ _ _
  exact fun _ => ⟨rfl, rfl⟩

variable {token : String}

/-- An envelope is taken in for a task with that attempt. -/
theorem issueLease_filed {envelope : ImmutableTaskEnvelope} {leaseId : Uuid} :
    Leaves (Filed s) (s.issueLease bounds envelope leaseId token now) := by
  refine .skip fun _ => .skip fun _ => .skip fun _ => .skip fun _ => .skip fun _ =>
    .skip fun _ => .skip fun _ => .skip fun _ => .after fun ⟨run, t⟩ hvalid => .skip fun _ =>
    .after fun _ hattempt => .after fun s₁ hs₁ => .done (.addEvent ?_ _ _ _)
  rw [mapError_eq_ok] at hs₁
  rw [refuseIf_eq_ok, not_not] at hattempt
  obtain ⟨-, htask, -⟩ := of_validateEnvelope hvalid
  obtain ⟨ht, hid⟩ := Store.taskRow?_eq_some.mp htask
  exact insertLease_filed ht hid.symm hattempt hs₁

theorem beginExecution_filed {workerId leaseId : Uuid} :
    Leaves (Filed s) (s.beginExecution workerId leaseId token now) := by
  refine .skip fun _ => .branch (fun _ => .done (.refl s)) fun _ => .skip fun _ => .skip fun _ =>
    .done (.addEvent ?_ _ _ _)
  exact ((Filed.refl s).moveEnvelope _ _).moveTasks _ _

theorem renewLease_filed {workerId leaseId : Uuid} {revision : Nat} :
    Leaves (Filed s) (s.renewLease bounds workerId leaseId token revision now) :=
  .skip fun _ => .skip fun _ => .skip fun _ => .done (.of_eq (.of_eq rfl) rfl rfl)

theorem deliverCompletion_filed {workerId : Uuid} {submission : WorkerCompletionSubmission} :
    Leaves (Filed s) (s.deliverCompletion bounds workerId submission token now) := by
  refine .skip fun _ => ?_
  split
  · exact .skip fun _ => .done (.refl s)
  refine .skip fun e => .skip fun l => .skip fun _ => .skip fun _ => .skip fun _ =>
    .skip fun completions => .branch (fun _ => .done (.of_eq (.of_eq rfl) rfl rfl)) fun _ =>
    .skip fun t => .done (.addEvent ?_ _ _ _)
  refine .moveTasks (.moveEnvelope ?_ _ _) _ _
  exact .of_eq (.of_eq rfl) rfl rfl

/-- An acceptance files nothing new. -/
theorem acceptCompletion_filed {resultId acceptanceId completionId : Uuid}
    {result : InitializationResult} {review : ReviewDecision} : Leaves (Filed s)
      (s.acceptCompletion resultId acceptanceId completionId now result review) := by
  refine .skip fun c => .skip fun e => .skip fun t => .skip fun run => ?_
  split
  · exact .branch (fun _ => .done (.refl s)) fun _ => .done (.of_eq (.of_eq rfl) rfl rfl)
  refine .skip fun _ => .skip fun _ => .skip fun _ => .skip fun _ => .skip fun _ => .skip fun _ =>
    .skip fun _ => .skip fun _ => .skip fun _ => .skip fun results => .skip fun acceptances =>
    .skip fun taskAcceptances => .done ?_
  refine .trans ?_ (.of_aloof ((((Aloof.refl _).moveTask _ _).addEvent _ _ _
    |>.releaseDependents _).completeRun _))
  refine .updatePlacements (.moveEnvelope ?_ _ _) _ _ ?_
  · exact .of_eq (.of_eq rfl) rfl rfl
  · exact fun _ => ⟨rfl, rfl⟩

theorem requeuePlacement_filed (h : Filed s s₁) (envelopeId : Uuid) :
    Filed s (s₁.requeuePlacement envelopeId) := by
  refine h.updatePlacements _ _ ?_
  exact fun _ => ⟨rfl, rfl⟩

theorem expireLease_filed (s : Store) (l : WorkerLeaseRow) : Filed s (s.expireLease l) := by
  unfold Store.expireLease
  split
  · exact .refl s
  have hexpired : Filed s (s.updateLease l.id (fun l => { l with
      state := .expired, revision := l.revision + 1 }) fun _ => rfl) := .of_eq (.of_eq rfl) rfl rfl
  dsimp only
  split
  · exact (hexpired.moveEnvelope _ _).addEvent _ _ _
  · exact (requeuePlacement_filed ((hexpired.moveTasks _ _).moveEnvelope _ _) _).addEvent _ _ _

theorem expireLeases_filed (ls : List WorkerLeaseRow) (s : Store) :
    Filed s (ls.foldl Store.expireLease s) := by
  induction ls generalizing s with
  | nil => exact .refl s
  | cons l ls ih => exact (expireLease_filed s l).trans (ih (s.expireLease l))

theorem reconcileExpiredEnvelope_filed {envelopeId : Uuid} {report : EffectReportState} :
    Leaves (Filed s) (s.reconcileExpiredEnvelope envelopeId report) := by
  refine .skip fun e => .skip fun _ => .skip fun t => .done (.addEvent ?_ _ _ _)
  exact (requeuePlacement_filed ((Filed.refl s).moveEnvelope _ _) _).moveTasks _ _

end Worker

/-- **Every transaction keeps what is filed.** -/
theorem filed_step (deployment : Deployment) (s : Store) (op : Op) :
    Filed s (step deployment s op) := by
  by_cases hop : op.IsRemote
  swap
  · exact .of_aloof (step_aloof deployment s hop)
  cases op with
  | queuePlacement => exact queuePlacement_filed.commit (.refl s)
  | claimNext => exact claimNext_filed.commit (.refl s)
  | issueLease => exact issueLease_filed.commit (.refl s)
  | beginExecution => exact beginExecution_filed.commit (.refl s)
  | renewLease => exact renewLease_filed.commit (.refl s)
  | deliverCompletion => exact deliverCompletion_filed.commit (.refl s)
  | acceptCompletion => exact acceptCompletion_filed.commit (.refl s)
  | expireLeases => exact expireLeases_filed _ s
  | reconcileExpiredEnvelope => exact reconcileExpiredEnvelope_filed.commit (.refl s)
  | _ => exact absurd hop id

/-! ## Reachable stores -/

/-- **Placements are of tasks of their runs, envelopes of attempts their tasks have counted.** -/
structure WellFiled (s : Store) : Prop where
  placements : ∀ p ∈ s.placements, HasTask s p.taskRowId p.runId
  envelopes : ∀ e ∈ s.envelopes, Counted s e.taskRowId e.taskAttempt

/-- What is filed stays so over a step. -/
theorem WellFiled.step {deployment : Deployment} (hs : WellFiled s) (op : Op) :
    WellFiled (step deployment s op) := by
  have h := filed_step deployment s op
  constructor
  · intro p' hp'
    obtain ⟨p, hp, htask, hrun⟩ | hnew := h.placements p' hp'
    · rw [← htask, ← hrun]
      exact h.tasks.hasTask (hs.placements p hp)
    · exact hnew
  · intro e' he'
    obtain ⟨e, he, htask, hattempt⟩ | hnew := h.envelopes e' he'
    · rw [← htask, ← hattempt]
      exact h.tasks.counted (hs.envelopes e he)
    · exact hnew

/-- Every reachable store is well filed. -/
theorem Reachable.wellFiled {deployment : Deployment} (h : Reachable deployment s) :
    WellFiled s := by
  obtain ⟨ops, rfl⟩ := h
  refine run_induction (fun _ op hs => hs.step op) ?_ ops
  exact ⟨fun p hp => absurd hp Table.not_mem_empty, fun e he => absurd he Table.not_mem_empty⟩

end Mishkan
