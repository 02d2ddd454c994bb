import Mishkan.Persistence.Chains

/-!
# Workers/Chains — every transaction of the worker repository is a chain of moves

The second half of the inversion lemmas, and `step_moves` over all operations.
-/

namespace Mishkan

open Refusal Transition Store

variable {G : Permits} {s s' : Store}

/-! ## Checks read back -/

variable {now : Instant} {token : String}

variable {workerId leaseId : Uuid} {l : WorkerLeaseRow}

/-- What an active lease shows. -/
theorem of_activeLease {e : RemoteTaskEnvelopeRow}
    (h : s.activeLease workerId leaseId token now = .ok (l, e)) :
    l ∈ s.leases ∧ l.id = leaseId ∧ l.state = .active ∧ now < l.expiresAt
      ∧ e ∈ s.envelopes ∧ l.envelopeId = e.id := by
  simp only [activeLease, bind_eq_ok, require_eq_ok, refuseIf_eq_ok, pure_eq_ok,
    Option.filter_eq_some_iff, lease?_eq_some, envelope?_eq_some, Prod.mk.injEq,
    not_not, not_le] at h
  obtain ⟨_, -, l', ⟨⟨hl, hid⟩, -⟩, -, -, -, hactive, -, hnow, e', ⟨⟨he, hle⟩, -⟩, rfl, rfl⟩ := h
  exact ⟨hl, hid, hactive, hnow, he, hle.symm⟩

variable {envelope : ImmutableTaskEnvelope}

/-- What an envelope that passes the authority shows. -/
theorem of_validateEnvelope {run? : Option RunRow}
    {task? : Option TaskRow} {plan? : Option PlanRow} {run : RunRow} {t : TaskRow}
    (h : validateEnvelopeAgainstAuthority envelope run? task? plan? = .ok (run, t)) :
    run? = some run ∧ task? = some t ∧ run.status = .running ∧ run.cancellationRequested = false
      ∧ t.runId = run.id ∧ t.taskKey = envelope.taskId := by
  simp only [validateEnvelopeAgainstAuthority, bind_eq_ok, require_eq_ok, refuseIf_eq_ok,
    return_eq_ok, not_or, not_not, Bool.not_eq_true] at h
  obtain ⟨_, hrun, _, ht, _, -, -, ⟨hstatus, hopen⟩, -, ⟨hid, hkey⟩, -, -, -, -, -, -, -, -, rfl,
    rfl⟩ := h
  exact ⟨hrun, ht, hstatus, hopen, hid, hkey⟩

theorem insertLease_moves {lease : WorkerLeaseRow} {t : TaskRow}
    (ht : t ∈ s.tasks) (heligible : t.status = .eligible) (hid : envelope.taskRowId = t.id)
    (hrun : envelope.runId = t.runId) (hkey : envelope.taskId = t.taskKey)
    (hlease : lease.envelopeId = envelope.id) (hG : G s (.leased t))
    (h : s.insertLease envelope lease = .ok s') : Move G s s' := by
  simp only [insertLease, bind_eq_ok, require_eq_ok, pure_eq_ok] at h
  obtain ⟨envelopes, henvelopes, leases, hleases, rfl⟩ := h
  rw [hid]
  exact .leaseIssued ht heligible henvelopes hleases rfl ⟨hid, hrun, hkey⟩ hlease hG

/-! ## Placements and leases -/

theorem queuePlacement_moves {request : RemotePlacementRequest}
    {a : RemoteTaskPlacementRow} (h : s.queuePlacement now request = .ok (a, s')) :
    Chain (Move G) s s' := by
  simp only [queuePlacement, bind_eq_ok] at h
  obtain ⟨_, -, _, -, _, -, _, -, _, -, _, -, h⟩ := h
  split at h <;> simp only [bind_eq_ok, return_eq_ok] at h <;> obtain ⟨_, -, -, rfl⟩ := h
  · exact .refl
  · exact chain_aside (by constructor <;> rfl)

/-- Every lease of an eligible task is permitted, also after some placements were passed over. -/
def PermitsLease (G : Permits) (s : Store) : Prop :=
  ∀ s₁ t, s₁.tasks = s.tasks → t ∈ s.tasks → t.status = .eligible → G s₁ (.leased t)

variable {bounds : WorkerBounds}

theorem claimNext_moves {workerId : Uuid} {request : WorkerClaimRequest}
    {envelopeId leaseId : Uuid} {a : Option WorkerTaskClaim} (hG : PermitsLease G s)
    (h : s.claimNext bounds workerId request envelopeId leaseId now = .ok (a, s')) :
    Chain (Move G) s s' := by
  simp only [claimNext, bind_eq_ok] at h
  obtain ⟨_, -, _, -, h⟩ := h
  split at h
  · simp only [bind_eq_ok, return_eq_ok] at h
    obtain ⟨_, -, _, -, _, -, -, rfl⟩ := h
    exact .refl
  simp only [bind_eq_ok] at h
  obtain ⟨_, -, h⟩ := h
  split at h
  · obtain ⟨-, rfl⟩ := return_eq_ok.mp h
    exact .refl
  split at h
  · obtain ⟨-, rfl⟩ := return_eq_ok.mp h
    exact chain_aside (by constructor <;> rfl)
  simp only [bind_eq_ok, require_eq_ok, refuseIf_eq_ok, return_eq_ok, not_not] at h
  obtain ⟨run, -, t, ht, plan, -, ⟨run', t'⟩, hvalid, -, heligible, s₁, hinsert, -, rfl⟩ := h
  obtain ⟨hrun, htask, -, -, hid, -⟩ := of_validateEnvelope hvalid
  obtain ⟨ht, -⟩ := taskRow?_eq_some.mp ht
  cases hrun
  cases htask
  -- the expired placements are cancelled first, the placement is leased last
  refine .head (.aside ?_)
    ((insertLease_moves ?_ heligible rfl hid.symm rfl rfl ?_ hinsert).andAside ?_)
  · constructor <;> rfl
  · exact ht
  · exact hG _ t rfl ht heligible
  · constructor <;> rfl

variable {a : WorkerLeaseRow}

theorem issueLease_moves {leaseId : Uuid} (hG : PermitsLease G s)
    (h : s.issueLease bounds envelope leaseId token now = .ok (a, s')) : Chain (Move G) s s' := by
  simp only [issueLease, bind_eq_ok, refuseIf_eq_ok, return_eq_ok, not_not] at h
  obtain ⟨_, -, _, -, _, -, _, -, _, -, _, -, _, -, _, -, ⟨run, t⟩, hvalid, _, heligible, _, -, s₁,
    hinsert, -, rfl⟩ := h
  obtain ⟨hrun, htask, -, -, hid, hkey⟩ := of_validateEnvelope hvalid
  obtain ⟨-, hrunid⟩ := run?_eq_some.mp hrun
  obtain ⟨ht, htid⟩ := taskRow?_eq_some.mp htask
  rw [mapError_eq_ok] at hinsert
  refine (insertLease_moves ht heligible ?_ ?_ ?_ ?_ ?_ hinsert).andEvent _ _ _
  · exact htid.symm
  · exact hrunid.symm.trans hid.symm
  · exact hkey.symm
  · rfl
  · exact hG s t rfl ht heligible

theorem beginExecution_moves (h : s.beginExecution workerId leaseId token now = .ok (a, s')) :
    Chain (Move G) s s' := by
  simp only [Store.beginExecution, bind_eq_ok] at h
  obtain ⟨⟨l, e⟩, hactive, h⟩ := h
  split at h
  · obtain ⟨-, rfl⟩ := return_eq_ok.mp h
    exact .refl
  · simp only [bind_eq_ok, refuseIf_eq_ok, require_eq_ok, return_eq_ok, not_not,
      Option.filter_eq_some_iff, taskRow?_eq_some, decide_eq_true_eq] at h
    obtain ⟨-, hstate, t, ⟨⟨ht, htask⟩, hleased⟩, -, rfl⟩ := h
    obtain ⟨-, -, -, -, he, -⟩ := of_activeLease hactive
    exact (Move.executionBegun he hstate ht htask hleased).andAside (by constructor <;> rfl)

theorem renewLease_moves {revision : Nat}
    (h : s.renewLease bounds workerId leaseId token revision now = .ok (a, s')) :
    Chain (Move G) s s' := by
  simp only [renewLease, bind_eq_ok, return_eq_ok] at h
  obtain ⟨_, -, _, -, _, -, -, rfl⟩ := h
  refine (Move.leaseRenewed _ ?_ ?_).andEvent _ _ _
  all_goals exact fun _ => rfl

/-! ## Completions -/

variable {envelopeId : Uuid}

/-- A submission is never received as accepted. -/
theorem receivedState_ne_accepted {staleReason : Option String} :
    s.receivedState envelopeId staleReason ≠ .accepted := by
  unfold receivedState
  split
  · simp
  · split <;> simp

/-- A delivered submission is not stale, so its lease is active. -/
theorem active_of_receivedState {submission : WorkerCompletionSubmission}
    (h : s.receivedState envelopeId (completionStaleReason envelope l submission now)
      = .delivered) : l.state = .active := by
  by_contra hne
  have hstale : completionStaleReason envelope l submission now
      = some "lease is not active" := if_pos hne
  unfold receivedState at h
  rw [hstale] at h
  split at h <;> simp at h

theorem deliverCompletion_moves {workerId : Uuid} {submission : WorkerCompletionSubmission}
    {a : WorkerCompletionRow}
    (h : s.deliverCompletion bounds workerId submission token now = .ok (a, s')) :
    Chain (Move G) s s' := by
  simp only [deliverCompletion, bind_eq_ok] at h
  obtain ⟨_, -, h⟩ := h
  split at h
  · simp only [bind_eq_ok, return_eq_ok] at h
    obtain ⟨_, -, -, rfl⟩ := h
    exact .refl
  simp only [bind_eq_ok, require_eq_ok, refuseIf_eq_ok, not_or, not_not,
    envelope?_eq_some, lease?_eq_some] at h
  obtain ⟨e, ⟨he, heid⟩, l, ⟨hl, -⟩, _, ⟨-, -, hle⟩, _, -, _, -, completions, hinsert, h⟩ := h
  split at h
  · rename_i hstate
    obtain ⟨-, rfl⟩ := return_eq_ok.mp h
    exact (Move.completionRecorded hinsert ⟨hstate, receivedState_ne_accepted⟩).andEvent _ _ _
  · rename_i hstate
    simp only [bind_eq_ok, require_eq_ok, return_eq_ok, Option.filter_eq_some_iff,
      taskRow?_eq_some, decide_eq_true_eq] at h
    obtain ⟨t, ⟨⟨ht, htask⟩, hactive⟩, -, rfl⟩ := h
    have hlease : l.state = .active := active_of_receivedState (not_not.mp hstate)
    refine (Move.completionDelivered hinsert he ?_ hl hle hlease ht htask hactive _ ?_
      ?_).andEvent _ _ _
    · rfl
    all_goals exact fun _ => rfl

theorem acceptCompletion_moves {resultId acceptanceId completionId : Uuid}
    {result : InitializationResult} {review : ReviewDecision} {a : WorkerCompletionRow}
    (haddressed : Addressed s)
    (h : s.acceptCompletion resultId acceptanceId completionId now result review = .ok (a, s')) :
    Chain (Move G) s s' := by
  simp only [acceptCompletion, bind_eq_ok, require_eq_ok, completion?_eq_some,
    envelope?_eq_some, taskRow?_eq_some, run?_eq_some] at h
  obtain ⟨c, ⟨hc, -⟩, e, ⟨he, hce⟩, t, ⟨ht, htask⟩, run, ⟨hrun, hrunid⟩, h⟩ := h
  split at h
  · split at h <;> cases h
    · exact .refl
    · refine .single (.completionDuplicated _ ?_ ?_)
      all_goals exact fun _ => rfl
  simp only [bind_eq_ok, refuseIf_eq_ok, require_eq_ok, return_eq_ok, not_not, Bool.not_eq_true,
    Bool.not_eq_false] at h
  obtain ⟨-, hdelivered, -, -, -, -, -, -, -, hopen, -, -, -, -, -, hdeps, -, -, results, hresults,
    acceptances, hacceptances, _, -, -, rfl⟩ := h
  -- the envelope addresses the task through the run, so the run is the task's own
  have hid : t.runId = run.id := by
    obtain ⟨t', ht', htid, htrun, -⟩ := haddressed e he
    rw [task_eq ht ht' (htask.trans htid.symm), htrun, hrunid]
  have hresult : Move G s
      ({ s with results := results, acceptances := acceptances }.moveTask t.id .accepted) :=
    .resultAccepted ht ⟨run, hrun, hid.symm, hopen⟩ (by rw [hid]; exact hdeps) hresults
      hacceptances ⟨hid.symm, rfl⟩ ⟨hid.symm, rfl⟩
  refine .head hresult (.trans (Move.andAside (Move.completionAccepted (c := c) (e := e) ?_
    hdelivered ?_ hce.symm (accepted now) (fun _ => rfl) ?_) ?_) (settle_moves ?_ hopen ?_))
  · exact hc
  · exact he
  · exact fun _ => rfl
  · constructor <;> rfl
  · exact hrun
  · exact exists_task_of_moveTasks ⟨t, ht, hid⟩

/-! ## Expiry -/

/-- What a run of expiries has left of the store it started from: a task that is still leased or
executing is untouched, and the envelopes keep their identity. -/
structure Expiring (s s₁ : Store) : Prop where
  tasks : ∀ t ∈ s₁.tasks, t.status = .leased ∨ t.status = .executing → t ∈ s.tasks
  envelopes : ∀ e ∈ s₁.envelopes, ∃ e₀ ∈ s.envelopes, e₀.id = e.id ∧ e₀.taskRowId = e.taskRowId
    ∧ e₀.runId = e.runId ∧ e₀.statefulEffects = e.statefulEffects

theorem Expiring.refl (s : Store) : Expiring s s :=
  ⟨fun _ ht _ => ht, fun e he => ⟨e, he, rfl, rfl, rfl, rfl⟩⟩

theorem Expiring.trans {s₁ s₂ : Store} (h : Expiring s s₁) (h' : Expiring s₁ s₂) :
    Expiring s s₂ where
  tasks t ht hactive := h.tasks t (h'.tasks t ht hactive) hactive
  envelopes e he := by
    obtain ⟨e₁, he₁, hid₁, htask₁, hrun₁, hstateful₁⟩ := h'.envelopes e he
    obtain ⟨e₀, he₀, hid₀, htask₀, hrun₀, hstateful₀⟩ := h.envelopes e₁ he₁
    exact ⟨e₀, he₀, hid₀.trans hid₁, htask₀.trans htask₁, hrun₀.trans hrun₁,
      hstateful₀.trans hstateful₁⟩

theorem Expiring.expireLease (s : Store) (l : WorkerLeaseRow) : Expiring s (s.expireLease l) := by
  unfold Store.expireLease
  split
  · exact .refl s
  rename_i e he
  dsimp only
  split
  · refine ⟨fun t ht _ => ht, fun e' he' => ?_⟩
    obtain ⟨e₀, he₀, ⟨-, h⟩ | ⟨-, h⟩⟩ := mem_moveEnvelope he' <;>
      exact ⟨e₀, he₀, by rw [h], by rw [h], by rw [h], by rw [h]⟩
  · refine ⟨fun t ht hactive => ?_, fun e' he' => ?_⟩
    · obtain ⟨t₀, ht₀, ⟨-, rfl⟩ | ⟨-, rfl⟩⟩ := mem_moveTasks (s := s) ht
      · exact ht₀
      · simp at hactive
    · obtain ⟨e₀, he₀, ⟨-, h⟩ | ⟨-, h⟩⟩ := mem_moveEnvelope (s := s) he' <;>
        exact ⟨e₀, he₀, by rw [h], by rw [h], by rw [h], by rw [h]⟩

/-- Giving up one lease leaves the others alone. -/
theorem mem_leases_expireLease {l l' : WorkerLeaseRow} (hl' : l' ∈ s.leases) (hne : l'.id ≠ l.id) :
    l' ∈ (s.expireLease l).leases := by
  unfold expireLease
  split
  · exact hl'
  dsimp only
  have hkept : l' ∈ (s.updateLease l.id (fun l => { l with
      state := .expired, revision := l.revision + 1 }) fun _ => rfl).leases := by
    simp only [updateLease, Table.mem_update]
    exact ⟨l', hl', if_neg (by simpa using hne)⟩
  split <;> exact hkept

/-- An expired lease is lost or gives back its task. -/
theorem expireLease_moves (hl : l ∈ s.leases) (hactive : l.state = .active)
    (hG : ∀ e ∈ s.envelopes, l.envelopeId = e.id → e.statefulEffects = false → G s (.expired e)) :
    Chain (Move G) s (s.expireLease l) := by
  unfold expireLease
  split
  · exact .refl
  rename_i e he
  obtain ⟨he, hle⟩ := envelope?_eq_some.mp he
  dsimp only
  split
  · refine (Move.leaseLost hl hactive he hle.symm _ ?_ ?_).andEvent _ _ _
    all_goals exact fun _ => rfl
  · rename_i hstateful
    rw [Bool.not_eq_true] at hstateful
    refine (Move.leaseReturned hl hactive he hle.symm hstateful (hG e he hle.symm hstateful)
      (fun l => { l with state := .expired, revision := l.revision + 1 }) (fun _ => rfl)
      fun _ => rfl).andAside ?_
    constructor <;> rfl

/-- Every expiry of a stateless envelope is permitted, at any point of the loop over the leases. -/
def PermitsExpiry (G : Permits) (s : Store) (now : Instant) : Prop :=
  ∀ s₁ l e, Expiring s s₁ → l ∈ s.leases → l.state = .active → l.expiresAt ≤ now →
    e ∈ s₁.envelopes → l.envelopeId = e.id → e.statefulEffects = false → G s₁ (.expired e)

/-- The loop over the expired leases, from any point of it. -/
theorem expireLeases_fold (hG : PermitsExpiry G s now) :
    ∀ (ls : List WorkerLeaseRow) (s₁ : Store), Expiring s s₁ →
      ls.Pairwise (fun a b => a.id ≠ b.id) →
      (∀ l ∈ ls, (l ∈ s.leases ∧ l.state = .active ∧ l.expiresAt ≤ now) ∧ l ∈ s₁.leases) →
      Chain (Move G) s₁ (ls.foldl expireLease s₁)
  | [], _, _, _, _ => .refl
  | l :: ls, s₁, hs₁, hdistinct, hls => by
    obtain ⟨hne, hdistinct⟩ := List.pairwise_cons.mp hdistinct
    obtain ⟨⟨hl₀, hactive, hnow⟩, hl₁⟩ := hls l List.mem_cons_self
    refine (expireLease_moves hl₁ hactive fun e he => hG s₁ l e hs₁ hl₀ hactive hnow he).trans ?_
    refine expireLeases_fold hG ls _ (hs₁.trans (.expireLease s₁ l)) hdistinct fun l' hl' => ?_
    obtain ⟨hl₀', hl₁'⟩ := hls l' (List.mem_cons_of_mem l hl')
    exact ⟨hl₀', mem_leases_expireLease hl₁' (hne l' hl').symm⟩

theorem expireLeases_moves {a : List Uuid} (hG : PermitsExpiry G s now)
    (h : s.expireLeases now = .ok (a, s')) : Chain (Move G) s s' := by
  simp only [expireLeases, Except.ok.injEq, Prod.mk.injEq] at h
  obtain ⟨-, rfl⟩ := h
  have hdistinct : (s.expiredLeases now).Pairwise fun a b => a.id ≠ b.id := by
    refine (s.leases.unique.filter _).imp fun {a b} hab hid => hab ?_
    simp [Keyed.clash, Keyed.key, hid]
  refine expireLeases_fold hG _ s (.refl s) (hdistinct.filter _) fun l hl => ?_
  obtain ⟨hl, hp⟩ := Table.mem_select.mp (List.mem_filter.mp hl).1
  exact ⟨⟨hl, by simpa using hp⟩, hl⟩

theorem reconcileExpiredEnvelope_moves {report : EffectReportState} {a : Unit}
    (hG : ∀ e ∈ s.envelopes, e.id = envelopeId → e.state = .reconciliationRequired →
      report = .proven → G s (.reconciled e))
    (h : s.reconcileExpiredEnvelope envelopeId report = .ok (a, s')) : Chain (Move G) s s' := by
  simp only [reconcileExpiredEnvelope, bind_eq_ok, require_eq_ok, refuseIf_eq_ok,
    return_eq_ok, not_not, Option.filter_eq_some_iff, envelope?_eq_some,
    taskRow?_eq_some, decide_eq_true_eq] at h
  obtain ⟨e, ⟨⟨he, hid⟩, hstate⟩, -, hproven, t, ⟨⟨ht, htask⟩, hactive⟩, -, rfl⟩ := h
  exact (Move.envelopeReconciled he hstate ht htask hactive (hG e he hid hstate hproven)).andAside
    (by constructor <;> rfl)

/-! ## Every operation -/

/-- **The releases a transaction makes are permitted**: the plan it accepts, the interrupted tasks
it recovers, the planned calls it takes further or settles, the task it leases, the leases it
expires, the envelope it reconciles. -/
def PermitsOp (G : Permits) (s : Store) : Op → Prop
  | .acceptPlan runId plan _ => IsFirstPlan s runId plan → G s (.plan runId)
  | .releaseInterrupted runId =>
    RunOpen s runId → ∀ t ∈ s.tasks, s.isReleasable runId t = true → G s (.interrupted t)
  | .reservePlannedCall .. | .markPlannedCallDispatching .. | .completePlannedCall .. =>
    G s .journal
  | .reconcileInterrupted runId => G s (.retried runId)
  | .claimNext .. | .issueLease .. => PermitsLease G s
  | .expireLeases now => PermitsExpiry G s now
  | .reconcileExpiredEnvelope envelopeId report =>
    ∀ e ∈ s.envelopes, e.id = envelopeId → e.state = .reconciliationRequired →
      report = .proven → G s (.reconciled e)
  | _ => True

/-- **Every transaction is a chain of moves.** -/
theorem step_moves (deployment : Deployment) (haddressed : Addressed s) {op : Op}
    (hG : PermitsOp G s op) : Chain (Move G) s (step deployment s op) := by
  cases op with
  | others rows => exact chain_aside (by constructor <;> rfl)
  | startOrResume => exact commit_cases .refl fun _ _ => startOrResume_moves
  | acceptPlan => exact commit_cases .refl fun _ _ h => acceptPlan_moves h hG
  | markAwaitingApproval => exact commit_cases .refl fun _ _ => markAwaitingApproval_moves
  | startRun => exact commit_cases .refl fun _ _ => startRun_moves
  | claimTask => exact commit_cases .refl fun _ _ => claimTask_moves
  | markValidating => exact commit_cases .refl fun _ _ => markValidating_moves
  | markTaskFailure => exact commit_cases .refl fun _ _ => markTaskFailure_moves
  | recordRejectedReview => exact commit_cases .refl fun _ _ => recordRejectedReview_moves
  | cancelRun => exact commit_cases .refl fun _ _ => cancelRun_moves
  | settleCancellation => exact commit_cases .refl fun _ _ => settleCancellation_moves
  | reconcileInterrupted => exact commit_cases .refl fun _ _ h => reconcileInterrupted_moves h hG
  | releaseInterrupted => exact commit_cases .refl fun _ _ h => releaseInterrupted_moves h hG
  | acceptResult => exact commit_cases .refl fun _ _ => acceptResult_moves
  | reservePlannedCall =>
    exact commit_cases .refl fun _ _ h => journalled_moves hG (reservePlannedCall_only h)
  | markPlannedCallDispatching =>
    exact commit_cases .refl fun _ _ h => journalled_moves hG (markPlannedCallDispatching_only h)
  | completePlannedCall =>
    exact commit_cases .refl fun _ _ h => journalled_moves hG (completePlannedCall_only h)
  | queuePlacement => exact commit_cases .refl fun _ _ => queuePlacement_moves
  | claimNext => exact commit_cases .refl fun _ _ => claimNext_moves hG
  | issueLease => exact commit_cases .refl fun _ _ => issueLease_moves hG
  | beginExecution => exact commit_cases .refl fun _ _ => beginExecution_moves
  | renewLease => exact commit_cases .refl fun _ _ => renewLease_moves
  | deliverCompletion => exact commit_cases .refl fun _ _ => deliverCompletion_moves
  | acceptCompletion => exact commit_cases .refl fun _ _ => acceptCompletion_moves haddressed
  | expireLeases => exact commit_cases .refl fun _ _ => expireLeases_moves hG
  | reconcileExpiredEnvelope =>
    exact commit_cases .refl fun _ _ => reconcileExpiredEnvelope_moves hG

end Mishkan
