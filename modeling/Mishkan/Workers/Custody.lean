import Mishkan.Persistence.Invariants

/-!
# Workers/Custody — the envelopes, leases and completions, and the ways they change

The worker repository keeps who works on what in three tables.  `Custody` is that part of the store
and `CustodyMove` everything that can happen to it, each change with what the operation has checked
and at the clock it has read; the run repository changes none of it (`Aloof`).  `step_custody` says
that every transaction is a chain of these changes, so what they keep, every run keeps.
-/

namespace Mishkan

open Refusal Transition

/-- The tables of remote work that only the worker repository writes. -/
structure Custody where
  envelopes : Table RemoteTaskEnvelopeRow
  leases : Table WorkerLeaseRow
  completions : Table WorkerCompletionRow

namespace Custody

/-- The number of active leases of a worker. -/
def activeCount (k : Custody) (workerId : Uuid) : Nat :=
  (k.leases.select fun l => l.workerId = workerId ∧ l.state = .active).length

/-- One envelope is in another state. -/
def moveEnvelope (k : Custody) (id : Uuid) (state : RemoteEnvelopeState) : Custody :=
  { k with
    envelopes := k.envelopes.update (·.id = id) (fun e => { e with state := state })
      (RemoteTaskEnvelopeRow.key_setState state) }

/-- One lease is rewritten. -/
def updateLease (k : Custody) (id : Uuid) (f : WorkerLeaseRow → WorkerLeaseRow)
    (hf : ∀ l, Keyed.key (f l) = Keyed.key l) : Custody :=
  { k with leases := k.leases.update (·.id = id) f hf }

/-- One completion is rewritten. -/
def updateCompletion (k : Custody) (id : Uuid) (f : WorkerCompletionRow → WorkerCompletionRow)
    (hf : ∀ c, Keyed.key (f c) = Keyed.key c) : Custody :=
  { k with completions := k.completions.update (·.id = id) f hf }

end Custody

/-- The custody part of a store. -/
def Store.custody (s : Store) : Custody := ⟨s.envelopes, s.leases, s.completions⟩

/-- **The changes of custody**, at the clock the operation has read; `G` permits a completion to be
received. -/
inductive CustodyMove (bounds : WorkerBounds) (now : Instant) (G : Prop) (k : Custody) :
    Custody → Prop
  | envelopeMoved (id : Uuid) (state : RemoteEnvelopeState) :
      CustodyMove bounds now G k (k.moveEnvelope id state)
  | leased {envelope : ImmutableTaskEnvelope} {id : Uuid} {claimId : Option Uuid} {token : String}
      {envelopes : Table RemoteTaskEnvelopeRow} {leases : Table WorkerLeaseRow}
      (hspare : k.activeCount envelope.workerId < bounds.maxWorkerConcurrency)
      (henvelopes : k.envelopes.insert (Store.leasedRow envelope) = some envelopes)
      (hleases : k.leases.insert (Store.leaseRow bounds envelope id claimId token now)
        = some leases) :
      CustodyMove bounds now G k { k with envelopes := envelopes, leases := leases }
  | renewed {l : WorkerLeaseRow} (hl : l ∈ k.leases) (hactive : l.state = .active)
      (hlive : now < l.expiresAt) {e : RemoteTaskEnvelopeRow} (he : e ∈ k.envelopes)
      (hle : l.envelopeId = e.id) :
      CustodyMove bounds now G k (k.updateLease l.id (fun l => { l with
        revision := l.revision + 1, expiresAt := min e.deadline (now + bounds.leaseSpan),
        lastRenewedAt := now }) fun _ => rfl)
  | refused (hG : G) {c : WorkerCompletionRow} {completions : Table WorkerCompletionRow}
      (hinsert : k.completions.insert c = some completions)
      (hstate : c.state = .duplicate ∨ c.state = .stale ∧
        ∀ c' ∈ k.completions, c'.envelopeId ≠ c.envelopeId) :
      CustodyMove bounds now G k { k with completions := completions }
  | delivered (hG : G) {c : WorkerCompletionRow} {completions : Table WorkerCompletionRow}
      (hinsert : k.completions.insert c = some completions) (hstate : c.state = .delivered)
      (hreason : c.decisionReason = none)
      (hfirst : ∀ c' ∈ k.completions, c'.envelopeId ≠ c.envelopeId)
      {l : WorkerLeaseRow} (hl : l ∈ k.leases) (hcl : c.leaseId = l.id)
      (hle : c.envelopeId = l.envelopeId) (hactive : l.state = .active)
      (hlive : c.receivedAt < l.expiresAt) :
      CustodyMove bounds now G k (Custody.updateLease { k with completions := completions } l.id
        (fun l => { l with state := .completed, completedAt := some now }) fun _ => rfl)
  | accepted {c : WorkerCompletionRow} (hc : c ∈ k.completions) (hstate : c.state = .delivered) :
      CustodyMove bounds now G k (k.updateCompletion c.id (Store.accepted now) fun _ => rfl)
  | duplicated (id : Uuid) :
      CustodyMove bounds now G k (k.updateCompletion id (Store.duplicated now) fun _ => rfl)
  | expired {l : WorkerLeaseRow} (hl : l ∈ k.leases) (hactive : l.state = .active) :
      CustodyMove bounds now G k (k.updateLease l.id (fun l => { l with
        state := .expired, revision := l.revision + 1 }) fun _ => rfl)

/-! ## The run repository -/

section Aloof

variable {s s₁ s' : Store}

/-- Every task is still there, of the same run, with at least as many attempts. -/
def TasksGrow (s s' : Store) : Prop :=
  ∀ t ∈ s.tasks, ∃ t' ∈ s'.tasks, t'.id = t.id ∧ t'.runId = t.runId
    ∧ t.attemptCount ≤ t'.attemptCount

namespace TasksGrow

theorem of_eq (h : s'.tasks = s.tasks) : TasksGrow s s' :=
  fun t ht => ⟨t, by rwa [h], rfl, rfl, le_rfl⟩

theorem trans (h : TasksGrow s s₁) (h' : TasksGrow s₁ s') : TasksGrow s s' := by
  intro t ht
  obtain ⟨t₁, ht₁, hid₁, hrun₁, hle₁⟩ := h t ht
  obtain ⟨t', ht', hid', hrun', hle'⟩ := h' t₁ ht₁
  exact ⟨t', ht', hid'.trans hid₁, hrun'.trans hrun₁, hle₁.trans hle'⟩

theorem moveTasks (s : Store) (p : TaskRow → Bool) (status : TaskState) :
    TasksGrow s (s.moveTasks p status) := by
  intro t ht
  have hself : ∃ t' ∈ s.tasks, t'.id = t.id ∧ t'.runId = t.runId
      ∧ t.attemptCount ≤ t'.attemptCount := ⟨t, ht, rfl, rfl, le_rfl⟩
  refine Table.exists_mem_update ?_ hself ?_
  · exact fun _ => rfl
  · exact fun _ h => h

theorem beginAttempt {t : TaskRow} (ht : t ∈ s.tasks) (status : TaskState) :
    TasksGrow s (s.beginAttempt t.id status (t.attemptCount + 1)) := by
  intro t₀ ht₀
  simp only [Store.beginAttempt, Table.mem_update]
  refine ⟨_, ⟨t₀, ht₀, rfl⟩, ?_⟩
  split
  · rename_i hid
    rw [Store.task_eq ht₀ ht (by simpa using hid)]
    exact ⟨rfl, rfl, Nat.le_succ _⟩
  · exact ⟨rfl, rfl, le_rfl⟩

end TasksGrow

variable {safe : ContentInspector}

/-- The two stores have the same remote work, and the tasks have grown. -/
structure Aloof (s s' : Store) : Prop where
  custody : s'.custody = s.custody
  placements : s'.placements = s.placements
  tasks : TasksGrow s s'

namespace Aloof

theorem of_eq (hcustody : s'.custody = s.custody) (hplacements : s'.placements = s.placements)
    (htasks : s'.tasks = s.tasks) : Aloof s s' := ⟨hcustody, hplacements, .of_eq htasks⟩

theorem refl (s : Store) : Aloof s s := of_eq rfl rfl rfl

theorem trans (h : Aloof s s₁) (h' : Aloof s₁ s') : Aloof s s' where
  custody := h'.custody.trans h.custody
  placements := h'.placements.trans h.placements
  tasks := h.tasks.trans h'.tasks

theorem addEvent (h : Aloof s s₁) (id : Uuid) (event : String) (task : Option String) :
    Aloof s (s₁.addEvent id event task) := h.trans (of_eq rfl rfl rfl)

theorem addEvents (h : Aloof s s₁) (id : Uuid) (event : String) (tasks : List TaskRow) :
    Aloof s (s₁.addEvents id event tasks) := h.trans (of_eq rfl rfl rfl)

theorem moveRun (h : Aloof s s₁) (id : Uuid) (status : RunState) :
    Aloof s (s₁.moveRun id status) := h.trans (of_eq rfl rfl rfl)

theorem moveTasks (h : Aloof s s₁) (p : TaskRow → Bool) (status : TaskState) :
    Aloof s (s₁.moveTasks p status) := h.trans ⟨rfl, rfl, .moveTasks s₁ p status⟩

theorem moveTask (h : Aloof s s₁) (id : Uuid) (status : TaskState) :
    Aloof s (s₁.moveTask id status) := h.moveTasks _ status

theorem claimed {t : TaskRow} (ht : t ∈ s.tasks) :
    Aloof s (s.beginAttempt t.id .executing (t.attemptCount + 1)) :=
  ⟨rfl, rfl, .beginAttempt ht .executing⟩

theorem releaseDependents (h : Aloof s s₁) (runId : Uuid) : Aloof s (s₁.releaseDependents runId) :=
  h.moveTasks _ _

theorem completeRun (h : Aloof s s₁) (runId : Uuid) : Aloof s (s₁.completeRun runId) := by
  unfold Store.completeRun
  split
  · exact h
  · exact (h.moveRun _ _).addEvent _ _ _

end Aloof

/-! Each transaction of the run repository leaves remote work alone: its `do` block, guard by guard,
to the stores it returns. -/

theorem startOrResume_aloof {id : Uuid} {discovery : DiscoverySnapshot}
    {objective outcomeId : String} :
    Leaves (Aloof s) (s.startOrResume safe id discovery objective outcomeId) := by
  refine .skip fun _ => ?_
  dsimp only
  split
  · exact .done (.refl s)
  · exact .skip fun runs => .done (.of_eq rfl rfl rfl)

variable {runId : Uuid}

theorem acceptPlan_aloof {plan : AcceptedPlan}
    {draw : Nat → Uuid} : Leaves (Aloof s) (s.acceptPlan safe runId plan draw) := by
  refine .skip fun _ => .skip fun _ => .skip fun _ => .skip fun _ => ?_
  split
  · exact .skip fun _ => .done (.refl s)
  · refine .skip fun plans => .after fun tasks htasks => .skip fun events => .done ?_
    rw [require_eq_ok] at htasks
    refine ⟨rfl, rfl, fun t ht => ⟨t, ?_, rfl, rfl, le_rfl⟩⟩
    exact (Table.mem_of_insertAll htasks).mpr (.inl ht)

theorem markAwaitingApproval_aloof : Leaves (Aloof s) (s.markAwaitingApproval runId) := by
  refine .skip fun _ => .branch (fun _ => .done (.refl s)) fun _ => .skip fun _ => .done ?_
  exact ((Aloof.refl s).moveRun _ _).addEvent _ _ _

theorem startRun_aloof : Leaves (Aloof s) (s.startRun runId) := by
  refine .skip fun _ => .branch (fun _ => .done (.refl s)) fun _ => .skip fun _ => .done ?_
  exact ((Aloof.refl s).moveRun _ _).addEvent _ _ _

variable {taskId : String}

theorem claimTask_aloof : Leaves (Aloof s) (s.claimTask runId taskId) := by
  refine .skip fun _ => .after fun t ht => .skip fun _ => .skip fun _ => .done ?_
  exact (Aloof.claimed (requireTask_eq_ok.mp ht).1).addEvent _ _ _

theorem markValidating_aloof : Leaves (Aloof s) (s.markValidating runId taskId) := by
  refine .skip fun _ => .skip fun _ => .done ?_
  exact ((Aloof.refl s).moveTask _ _).addEvent _ _ _

theorem markTaskFailure_aloof {rejected : Bool} :
    Leaves (Aloof s) (s.markTaskFailure runId taskId rejected) := by
  refine .skip fun _ => .skip fun _ => .skip fun _ => .done ?_
  exact ((((Aloof.refl s).moveTask _ _).addEvent _ _ _).moveRun _ _).addEvent _ _ _

theorem recordRejectedReview_aloof {id runId : Uuid}
    {result : InitializationResult} {review : ReviewDecision} {reviewSequence : Nat} :
    Leaves (Aloof s) (s.recordRejectedReview safe id runId result review reviewSequence) := by
  refine .skip fun _ => .skip fun _ => .skip fun _ => .skip fun _ => .skip fun _ =>
    .skip fun _ => ?_
  split
  · exact .skip fun _ => .done (.refl s)
  · exact .skip fun _ => .done (.of_eq rfl rfl rfl)

theorem cancelRun_aloof : Leaves (Aloof s) (s.cancelRun runId) := by
  refine .skip fun _ => .branch (fun _ => .done (.refl s)) fun _ => .done ?_
  refine Aloof.addEvent (Aloof.addEvents ?_ _ _ _) _ _ _
  exact ((Aloof.refl s).moveTasks _ _).trans (.of_eq rfl rfl rfl)

theorem settleCancellation_aloof : Leaves (Aloof s) (s.settleCancellation runId) := by
  refine .skip fun _ => .skip fun _ => .branch (fun _ => .done (.refl s)) fun _ => .done ?_
  exact ((((Aloof.refl s).moveTasks _ _).addEvents _ _ _).moveRun _ _).addEvent _ _ _

theorem reconcileInterrupted_aloof : Leaves (Aloof s) (s.reconcileInterrupted runId) := by
  refine .skip fun _ => ?_
  dsimp only
  split <;> split <;> exact .done (.of_eq rfl rfl rfl)

theorem releaseInterrupted_aloof : Leaves (Aloof s) (s.releaseInterrupted runId) := by
  refine .skip fun _ => .branch (fun _ => .done (.refl s)) fun _ => ?_
  have hmoved := (Aloof.refl s).moveTasks (s.isReleasable runId) .eligible
  dsimp only
  split <;> split
  · exact .done ((hmoved.moveRun _ _).addEvent _ _ _)
  · exact .done hmoved
  · exact .done (((hmoved.moveRun _ _).addEvent _ _ _).addEvent _ _ _)
  · exact .done (hmoved.addEvent _ _ _)

theorem acceptResult_aloof {resultId acceptanceId runId : Uuid}
    {now : Instant} {result : InitializationResult} {review : ReviewDecision} :
    Leaves (Aloof s) (s.acceptResult safe resultId acceptanceId runId now result review) := by
  refine .skip fun _ => .skip fun _ => .skip fun _ => .skip fun _ => ?_
  dsimp only
  split
  · exact .skip fun _ => .skip fun _ => .done ((Aloof.refl s).addEvent _ _ _)
  · refine .skip fun _ => .skip fun _ => .skip fun _ => .skip fun _ => .skip fun _ =>
      .skip fun results => .skip fun acceptances => .done ?_
    refine Aloof.completeRun (Aloof.releaseDependents (Aloof.addEvent (Aloof.moveTask ?_ _ _)
      _ _ _) _) _
    exact .of_eq rfl rfl rfl

theorem reservePlannedCall_aloof {r : Reservation} : Leaves (Aloof s) (s.reservePlannedCall r) := by
  refine .skip fun _ => ?_
  split
  · exact .skip fun _ => .done (.of_eq rfl rfl rfl)
  · refine .skip fun _ => .branch (fun _ => .done (.refl s)) fun _ => .skip fun _ => ?_
    refine .branch (fun _ => .skip fun _ => .done ?_) fun _ => .done (.refl s)
    exact .of_eq rfl rfl rfl

theorem markPlannedCallDispatching_aloof {id : Uuid} {fingerprint : Digest PlannedRequest} :
    Leaves (Aloof s) (s.markPlannedCallDispatching id fingerprint) :=
  .skip fun _ => .skip fun _ => .done (.of_eq rfl rfl rfl)

theorem completePlannedCall_aloof {id : Uuid}
    {fingerprint : Digest PlannedRequest} {result : ToolResultEnvelope}
    {settlement : EffectSettlement} :
    Leaves (Aloof s) (s.completePlannedCall safe id fingerprint result settlement) := by
  refine .skip fun _ => .skip fun _ => ?_
  split
  · exact .skip fun _ => .done (.refl s)
  · exact .skip fun _ => .done (.of_eq rfl rfl rfl)

/-- An operation of the worker repository. -/
def Op.IsRemote : Op → Prop
  | .queuePlacement .. | .claimNext .. | .issueLease .. | .beginExecution .. | .renewLease ..
  | .deliverCompletion .. | .acceptCompletion .. | .expireLeases ..
  | .reconcileExpiredEnvelope .. =>
    True
  | _ => False

/-- **No other operation touches remote work.** -/
theorem step_aloof (deployment : Deployment) (s : Store) {op : Op} (hop : ¬ op.IsRemote) :
    Aloof s (step deployment s op) := by
  cases op with
  | others rows => exact .of_eq rfl rfl rfl
  | startOrResume => exact startOrResume_aloof.commit (.refl s)
  | acceptPlan => exact acceptPlan_aloof.commit (.refl s)
  | markAwaitingApproval => exact markAwaitingApproval_aloof.commit (.refl s)
  | startRun => exact startRun_aloof.commit (.refl s)
  | claimTask => exact claimTask_aloof.commit (.refl s)
  | markValidating => exact markValidating_aloof.commit (.refl s)
  | markTaskFailure => exact markTaskFailure_aloof.commit (.refl s)
  | recordRejectedReview => exact recordRejectedReview_aloof.commit (.refl s)
  | cancelRun => exact cancelRun_aloof.commit (.refl s)
  | settleCancellation => exact settleCancellation_aloof.commit (.refl s)
  | reconcileInterrupted => exact reconcileInterrupted_aloof.commit (.refl s)
  | releaseInterrupted => exact releaseInterrupted_aloof.commit (.refl s)
  | acceptResult => exact acceptResult_aloof.commit (.refl s)
  | reservePlannedCall => exact reservePlannedCall_aloof.commit (.refl s)
  | markPlannedCallDispatching => exact markPlannedCallDispatching_aloof.commit (.refl s)
  | completePlannedCall => exact completePlannedCall_aloof.commit (.refl s)
  | _ => exact absurd trivial hop

end Aloof

/-! ## The worker repository -/

section Worker

variable {s s' : Store} {bounds : WorkerBounds} {now : Instant} {G : Prop}

theorem queuePlacement_custody {request : RemotePlacementRequest} :
    Leaves (fun s' => s'.custody = s.custody) (s.queuePlacement now request) := by
  refine .skip fun _ => .skip fun _ => .skip fun _ => .skip fun _ => .skip fun _ =>
    .skip fun _ => ?_
  split
  · exact .skip fun _ => .done rfl
  · exact .skip fun _ => .done rfl

variable {envelope : ImmutableTaskEnvelope} {token : String}

/-- An insertion of an envelope and its lease is a lease, also after other tables have changed. -/
theorem insertLease_custody {s₁ : Store} {id : Uuid}
    {claimId : Option Uuid} (hsame : s₁.custody = s.custody)
    (hspare : s.activeLeaseCount envelope.workerId < bounds.maxWorkerConcurrency)
    (h : s₁.insertLease envelope (Store.leaseRow bounds envelope id claimId token now) = .ok s') :
    CustodyMove bounds now G s.custody s'.custody := by
  simp only [Store.insertLease, bind_eq_ok, require_eq_ok, pure_eq_ok] at h
  obtain ⟨envelopes, henvelopes, leases, hleases, rfl⟩ := h
  rw [show s₁.envelopes = s.custody.envelopes from congrArg Custody.envelopes hsame] at henvelopes
  rw [show s₁.leases = s.custody.leases from congrArg Custody.leases hsame] at hleases
  have hcompletions : s₁.completions = s.custody.completions := congrArg Custody.completions hsame
  have hmove : CustodyMove bounds now G s.custody _ := .leased hspare henvelopes hleases
  rw [← hcompletions] at hmove
  exact hmove

variable {workerId : Uuid}

theorem spare_of_capacity {advertisement : WorkerHeartbeat}
    (h : ¬ Store.capacity bounds advertisement ≤ s.activeLeaseCount workerId) :
    s.activeLeaseCount workerId < bounds.maxWorkerConcurrency :=
  (not_le.mp h).trans_le (min_le_right _ _)

/-- A claim makes at most one lease, of a worker with room for it. -/
theorem claimNext_custody {request : WorkerClaimRequest} {envelopeId leaseId : Uuid} :
    Leaves (fun s' => Chain (CustodyMove bounds now G) s.custody s'.custody)
      (s.claimNext bounds workerId request envelopeId leaseId now) := by
  refine .skip fun _ => .skip fun _ => ?_
  split
  · exact .skip fun _ => .skip fun _ => .skip fun _ => .done .refl
  refine .skip fun advertisement => .branch (fun _ => .done .refl) fun hcapacity => ?_
  dsimp only
  split
  · exact .done .refl
  refine .skip fun run => .skip fun t => .skip fun plan => .skip fun _ => .skip fun _ =>
    .after fun s₁ hs₁ => .done (.single ?_)
  have hmove : CustodyMove bounds now G s.custody s₁.custody := by
    refine insertLease_custody ?_ ?_ hs₁
    · rfl
    · exact spare_of_capacity hcapacity
  exact hmove

/-- An issue makes at most one lease, of a worker with room for it. -/
theorem issueLease_custody {leaseId : Uuid} :
    Leaves (fun s' => Chain (CustodyMove bounds now G) s.custody s'.custody)
      (s.issueLease bounds envelope leaseId token now) := by
  refine .skip fun _ => .skip fun _ => .skip fun _ => .skip fun _ => .skip fun _ =>
    .after fun _ hcapacity => .skip fun _ => .skip fun _ => .skip fun _ => .skip fun _ =>
    .skip fun _ => .after fun s₁ hs₁ => .done (.single ?_)
  rw [mapError_eq_ok] at hs₁
  have hmove : CustodyMove bounds now G s.custody s₁.custody :=
    insertLease_custody rfl (spare_of_capacity (refuseIf_eq_ok.mp hcapacity)) hs₁
  exact hmove

theorem beginExecution_custody {workerId leaseId : Uuid} :
    Leaves (fun s' => Chain (CustodyMove bounds now G) s.custody s'.custody)
      (s.beginExecution workerId leaseId token now) := by
  refine .skip fun _ => .branch (fun _ => .done .refl) fun _ => .skip fun _ => .skip fun _ =>
    .done (.single ?_)
  exact .envelopeMoved _ _

/-- A renewal extends a lease that is live. -/
theorem renewLease_custody {workerId leaseId : Uuid} {revision : Nat} :
    Leaves (fun s' => Chain (CustodyMove bounds now G) s.custody s'.custody)
      (s.renewLease bounds workerId leaseId token revision now) := by
  refine .after fun ⟨l, e⟩ hactive => .skip fun _ => .skip fun _ => .done (.single ?_)
  obtain ⟨hl, -, hstate, hlive, he, hle⟩ := of_activeLease hactive
  exact CustodyMove.renewed (k := s.custody) hl hstate hlive he hle

/-- **How a submission is received**: as a duplicate when the envelope has one, and otherwise stale
or delivered. -/
theorem receivedState_cases (s : Store) (envelopeId : Uuid) (reason : Option String) :
    s.receivedState envelopeId reason = .duplicate ∧ (∃ c ∈ s.completions,
        c.envelopeId = envelopeId) ∨
      (∀ c ∈ s.completions, c.envelopeId ≠ envelopeId) ∧
        (s.receivedState envelopeId reason = .stale ∧ reason ≠ none ∨
          s.receivedState envelopeId reason = .delivered ∧ reason = none) := by
  unfold Store.receivedState
  have hany : (s.completions.rows.any (·.envelopeId = envelopeId)) = true ↔
      ∃ c ∈ s.completions, c.envelopeId = envelopeId := by simp [Table.mem_def]
  split
  · rename_i hsome
    exact .inl ⟨rfl, hany.mp hsome⟩
  · rename_i hnone
    rw [hany] at hnone
    push Not at hnone
    refine .inr ⟨hnone, ?_⟩
    cases reason <;> simp

/-- A submission without a stale reason comes from an active lease that has not expired. -/
theorem of_completionStaleReason {l : WorkerLeaseRow} {submission : WorkerCompletionSubmission}
    (h : Store.completionStaleReason envelope l submission now = none) :
    l.state = .active ∧ now < l.expiresAt := by
  unfold Store.completionStaleReason at h
  split at h
  · cases h
  · split at h
    · cases h
    · exact ⟨not_not.mp ‹_›, not_le.mp ‹_›⟩

/-- A submission is received as a duplicate, as stale, or as the delivery. -/
theorem deliverCompletion_custody (hG : G) {submission : WorkerCompletionSubmission} :
    Leaves (fun s' => Chain (CustodyMove bounds now G) s.custody s'.custody)
      (s.deliverCompletion bounds workerId submission token now) := by
  refine .skip fun _ => ?_
  split
  · exact .skip fun _ => .done .refl
  refine .after fun e he => .after fun l hl => .after fun _ hauthority => .skip fun _ =>
    .skip fun _ => .after fun completions hinsert => ?_
  rw [require_eq_ok] at hinsert
  obtain ⟨hl, -⟩ := Store.lease?_eq_some.mp (require_eq_ok.mp hl)
  simp only [refuseIf_eq_ok, not_or, not_not] at hauthority
  obtain ⟨-, -, hle⟩ := hauthority
  have hcases := receivedState_cases s e.id
    (Store.completionStaleReason e.payload l submission now)
  refine .branch (fun hstate => .done (.single ?_)) fun hstate => .skip fun t => .done ?_
  · refine CustodyMove.refused (k := s.custody) hG hinsert ?_
    obtain ⟨hdup, -⟩ | ⟨hfirst, ⟨hstale, -⟩ | ⟨hdelivered, -⟩⟩ := hcases
    · exact .inl hdup
    · exact .inr ⟨hstale, hfirst⟩
    · exact absurd hdelivered hstate
  · rw [not_not] at hstate
    obtain ⟨hdup, -⟩ | ⟨hfirst, ⟨hstale, -⟩ | ⟨-, hreason⟩⟩ := hcases
    · simp [hstate] at hdup
    · simp [hstate] at hstale
    · obtain ⟨hactive, hlive⟩ := of_completionStaleReason hreason
      refine .head (CustodyMove.delivered (k := s.custody) hG hinsert hstate hreason hfirst hl rfl
        hle.symm hactive hlive) (.single ?_)
      exact .envelopeMoved _ _

theorem acceptCompletion_custody {resultId acceptanceId completionId : Uuid}
    {result : InitializationResult} {review : ReviewDecision} :
    Leaves (fun s' => Chain (CustodyMove bounds now G) s.custody s'.custody)
      (s.acceptCompletion resultId acceptanceId completionId now result review) := by
  refine .after fun c hc => .skip fun e => .skip fun t => .skip fun run => ?_
  obtain ⟨hc, -⟩ := Store.completion?_eq_some.mp (require_eq_ok.mp hc)
  split
  · refine .branch (fun _ => .done .refl) fun _ => .done (.single ?_)
    exact .duplicated _
  refine .after fun _ hdelivered => .skip fun _ => .skip fun _ => .skip fun _ => .skip fun _ =>
    .skip fun _ => .skip fun _ => .skip fun _ => .skip fun _ => .skip fun results =>
    .skip fun acceptances => .skip fun taskAcceptances => .done ?_
  rw [refuseIf_eq_ok, not_not] at hdelivered
  -- what follows moves the placement, tasks and the run
  rw [((Aloof.refl _).completeRun _).custody]
  exact .head (CustodyMove.accepted (k := s.custody) hc hdelivered)
    (.single (.envelopeMoved e.id .completed))

/-- An expiry ends an active lease. -/
theorem expireLease_custody {l : WorkerLeaseRow} (hl : l ∈ s.leases) (hactive : l.state = .active) :
    Chain (CustodyMove bounds now G) s.custody (s.expireLease l).custody := by
  unfold Store.expireLease
  split
  · exact .refl
  rename_i e he
  have hexpired : CustodyMove bounds now G s.custody _ := .expired hl hactive
  dsimp only
  split
  · exact .head hexpired (.single (.envelopeMoved e.id .reconciliationRequired))
  · exact .head hexpired (.single (.envelopeMoved e.id .expired))

/-- The loop over the expired leases: those still to come are there as they were selected. -/
theorem expireLeases_custody : ∀ (ls : List WorkerLeaseRow) (s : Store),
    ls.Pairwise (fun a b => a.id ≠ b.id) → (∀ l ∈ ls, l ∈ s.leases ∧ l.state = .active) →
    Chain (CustodyMove bounds now G) s.custody (ls.foldl Store.expireLease s).custody
  | [], _, _, _ => .refl
  | l :: ls, s, hdistinct, hls => by
    obtain ⟨hne, hdistinct⟩ := List.pairwise_cons.mp hdistinct
    obtain ⟨hl, hactive⟩ := hls l List.mem_cons_self
    refine (expireLease_custody hl hactive).trans ?_
    refine expireLeases_custody ls _ hdistinct fun l' hl' => ?_
    obtain ⟨hmem, hactive'⟩ := hls l' (List.mem_cons_of_mem l hl')
    exact ⟨mem_leases_expireLease hmem (hne l' hl').symm, hactive'⟩

theorem reconcileExpiredEnvelope_custody {envelopeId : Uuid} {report : EffectReportState} :
    Leaves (fun s' => Chain (CustodyMove bounds now G) s.custody s'.custody)
      (s.reconcileExpiredEnvelope envelopeId report) := by
  refine .skip fun e => .skip fun _ => .skip fun t => .done (.single ?_)
  exact .envelopeMoved _ _

end Worker

/-! ## Every transaction -/

/-- The clock an operation on remote work reads. -/
def Op.clock : Op → Option Instant
  | .queuePlacement now _ | .claimNext _ _ _ _ now | .issueLease _ _ _ now
  | .beginExecution _ _ _ now | .renewLease _ _ _ _ now | .deliverCompletion _ _ _ now
  | .acceptCompletion _ _ _ now _ _ | .expireLeases now => some now
  | _ => none

/-- An operation that receives a completion. -/
def Op.IsDelivery : Op → Prop
  | .deliverCompletion .. => True
  | _ => False

/-- **Every transaction is a chain of changes of custody** at the clock it reads, if any. -/
theorem step_custody (deployment : Deployment) (s : Store) (op : Op) {now : Instant}
    (hnow : ∀ t ∈ op.clock, t = now) :
    Chain (CustodyMove deployment.bounds now op.IsDelivery) s.custody
      (step deployment s op).custody := by
  by_cases hop : op.IsRemote
  swap
  · rw [(step_aloof deployment s hop).custody]
  have hworker : ∀ {G : Prop} {α : Type} {x : Except Raised (α × Store)},
      Leaves (fun s' => Chain (CustodyMove deployment.bounds now G) s.custody s'.custody) x →
      Chain (CustodyMove deployment.bounds now G) s.custody (commit s x).custody :=
    fun hx => hx.commit .refl
  cases op with
  | queuePlacement t request =>
    refine hworker (queuePlacement_custody.imp fun s' hsame => ?_)
    rw [hsame]
  | claimNext workerId request envelopeId leaseId t =>
    obtain rfl := hnow t rfl
    exact hworker claimNext_custody
  | issueLease envelope leaseId token t =>
    obtain rfl := hnow t rfl
    exact hworker issueLease_custody
  | beginExecution workerId leaseId token t =>
    obtain rfl := hnow t rfl
    exact hworker beginExecution_custody
  | renewLease workerId leaseId token revision t =>
    obtain rfl := hnow t rfl
    exact hworker renewLease_custody
  | deliverCompletion workerId submission token t =>
    obtain rfl := hnow t rfl
    exact hworker (deliverCompletion_custody trivial)
  | acceptCompletion resultId acceptanceId completionId t result review =>
    obtain rfl := hnow t rfl
    exact hworker acceptCompletion_custody
  | expireLeases t =>
    refine expireLeases_custody _ s ?_ fun l hl => ?_
    · refine List.Pairwise.filter _ ((s.leases.unique.filter _).imp fun {a b} hab hid => hab ?_)
      simp [Keyed.clash, Keyed.key, hid]
    · obtain ⟨hl, hp⟩ := Table.mem_select.mp (List.mem_filter.mp hl).1
      simp only [decide_eq_true_eq] at hp
      exact ⟨hl, hp.1⟩
  | reconcileExpiredEnvelope => exact hworker reconcileExpiredEnvelope_custody
  | _ => exact absurd hop id

/-- What every change of custody keeps, a run keeps. -/
theorem custody_run {I : Custody → Prop} (deployment : Deployment)
    (hI : ∀ {G : Prop} {now : Instant} {k k' : Custody},
      CustodyMove deployment.bounds now G k k' → I k → I k')
    {s : Store} (hs : I s.custody) (ops : List Op) : I (runFrom deployment s ops).custody := by
  refine run_induction (I := fun s : Store => I s.custody) (fun s op hs => ?_) hs ops
  have hchain : Chain (CustodyMove deployment.bounds (op.clock.getD 0) op.IsDelivery) s.custody _ :=
    step_custody deployment s op fun t ht => by rw [ht, Option.getD_some]
  exact hchain.lift (fun _ _ hk hmove => hI hmove hk) hs

end Mishkan
