import Mishkan.Workers.CustodyEffects
import Mishkan.Workers.Placements

/-!
# Workers/Claims — the placement a claim selects against the placements it could serve

`claimNext` passes over placements that have expired or that the worker cannot take, and binds the
first other one; only then does it look at the run and the task, and fails when they take no remote
work any more.  Nothing withdraws such a placement, so it is selected again by every claim until its
deadline, and the placements behind it are not served (`claimNext_returns_iff`).
-/

namespace Mishkan

open Refusal Transition Table Store

variable {s s' : Store} {bounds : WorkerBounds} {workerId envelopeId leaseId : Uuid}
  {request : WorkerClaimRequest} {now : Instant} {advertisement : WorkerHeartbeat}

/-! ## The property -/

/-- A placement a worker can take now: unexpired, within its capabilities and its resources. -/
def IsTakeable (advertisement : WorkerHeartbeat) (now : Instant) (p : RemoteTaskPlacementRow) :
    Bool :=
  decide (now < p.requestPayload.deadline) && isCompatible advertisement p.requestPayload

/-- A placement whose run and task take remote work. -/
def IsLive (s : Store) (p : RemoteTaskPlacementRow) : Prop :=
  (∃ run ∈ s.runs, run.id = p.runId ∧ run.status = .running ∧ run.cancellationRequested = false) ∧
    ∃ t ∈ s.tasks, t.id = p.taskRowId ∧ t.status = .eligible

/-- A new claim of an active worker with a fresh heartbeat and spare capacity.  The identifiers of
the envelope and of the lease are drawn anew. -/
structure NewClaim (s : Store) (bounds : WorkerBounds) (workerId : Uuid)
    (request : WorkerClaimRequest) (envelopeId leaseId : Uuid) (now : Instant)
    (advertisement : WorkerHeartbeat) : Prop where
  digest : requireDigest request.leaseTokenDigest = .ok ()
  active : ∃ worker, s.activeWorker workerId = .ok worker
  fresh : s.freshHeartbeat workerId now = .ok advertisement
  spare : s.activeLeaseCount workerId < capacity bounds advertisement
  new : ∀ l ∈ s.leases, l.claimId ≠ some request.id
  drawn : (∀ e ∈ s.envelopes, e.id ≠ envelopeId) ∧ ∀ l ∈ s.leases, l.id ≠ leaseId

/-- The claim returns a task. -/
def ReturnsClaim (s : Store) (bounds : WorkerBounds) (workerId : Uuid)
    (request : WorkerClaimRequest) (envelopeId leaseId : Uuid) (now : Instant) : Prop :=
  ∃ claim s', s.claimNext bounds workerId request envelopeId leaseId now = .ok (some claim, s')

/-! ## The scan -/

/-- **The scan selects the first placement the worker can take.** -/
theorem selectPlacement_eq_find (advertisement : WorkerHeartbeat) (now : Instant)
    (rows : List RemoteTaskPlacementRow) :
    (selectPlacement advertisement now rows).2 =
      rows.find? (IsTakeable advertisement now) := by
  induction rows with
  | nil => rfl
  | cons row rows ih =>
    unfold selectPlacement
    by_cases hexpired : row.requestPayload.deadline ≤ now
    · rw [if_pos hexpired, List.find?_cons_of_neg (by simp [IsTakeable, hexpired])]
      exact ih
    · rw [if_neg hexpired]
      rw [not_le] at hexpired
      by_cases hcompatible : isCompatible advertisement row.requestPayload = true
      · rw [if_pos hcompatible,
          List.find?_cons_of_pos (by simp [IsTakeable, hexpired, hcompatible])]
      · rw [if_neg hcompatible, List.find?_cons_of_neg (by simp [IsTakeable, hcompatible])]
        exact ih

/-! ## Room for a new envelope and its lease -/

/-- An envelope row is that of its payload. -/
def Enveloped (k : Custody) : Prop :=
  (∀ e ∈ k.envelopes, e.fingerprint = e.payload.fingerprint ∧ e.taskRowId = e.payload.taskRowId
    ∧ e.taskAttempt = e.payload.taskAttempt) ∧
    ∀ l ∈ k.leases, ∃ e ∈ k.envelopes, e.id = l.envelopeId

theorem Enveloped.move {G : Prop} {k k' : Custody} (h : Enveloped k)
    (hmove : CustodyMove bounds now G k k') : Enveloped k' := by
  constructor
  · intro e' he'
    obtain ⟨e, he, hsame⟩ | ⟨envelope, rfl⟩ := hmove.envelope_backward he'
    · rw [hsame]
      exact h.1 e he
    · exact ⟨rfl, rfl, rfl⟩
  · intro l' hl'
    obtain ⟨l, hl, hstep⟩ | ⟨_, _, _, _, rfl, he⟩ := hmove.lease_backward hl'
    · obtain ⟨e, he, hle⟩ := h.2 l hl
      obtain ⟨state, he'⟩ := hmove.envelope_forward he
      exact ⟨_, he', hle.trans hstep.identity.2.1.symm⟩
    · exact ⟨_, he, rfl⟩

theorem Reachable.enveloped {deployment : Deployment} (h : Reachable deployment s) :
    Enveloped s.custody := by
  obtain ⟨ops, rfl⟩ := h
  refine custody_run deployment (fun hmove h => h.move hmove) ?_ ops
  exact ⟨fun e he => absurd he not_mem_empty, fun l hl => absurd hl not_mem_empty⟩

/-- **The next attempt of a task has room for its envelope.** -/
theorem exists_insert_envelope (hfiled : WellFiled s) (henveloped : Enveloped s.custody)
    {envelope : ImmutableTaskEnvelope} {t : TaskRow} (ht : t ∈ s.tasks)
    (hid : envelope.taskRowId = t.id) (hattempt : envelope.taskAttempt = t.attemptCount + 1)
    (hnew : ∀ e ∈ s.envelopes, e.id ≠ envelope.id) :
    ∃ envelopes, s.envelopes.insert (leasedRow envelope) = some envelopes := by
  refine exists_insert fun e he hclash => ?_
  -- an envelope of the task is of an attempt it has counted
  have hother : ¬ (e.taskRowId = envelope.taskRowId ∧ e.taskAttempt = envelope.taskAttempt) := by
    rintro ⟨htask, hsame⟩
    obtain ⟨t', ht', hid', hle⟩ := hfiled.envelopes e he
    rw [task_eq ht' ht (hid'.trans (htask.trans hid)), hsame, hattempt] at hle
    omega
  have hsome : (decide (e.id = envelope.id)
      || decide ((e.taskRowId, e.taskAttempt) = (envelope.taskRowId, envelope.taskAttempt))
      || decide (e.fingerprint = envelope.fingerprint)) = true := hclash
  simp only [Bool.or_eq_true, decide_eq_true_eq, Prod.mk.injEq] at hsome
  obtain (hsame | hsame) | hsame := hsome
  · exact hnew e he hsame
  · exact hother hsame
  · -- the fingerprint covers the task and the attempt
    obtain ⟨hfingerprint, htask, htaskAttempt⟩ := henveloped.1 e he
    have hsource : e.payload.fingerprint = envelope.fingerprint := hfingerprint.symm.trans hsame
    exact hother ⟨htask.trans (congrArg (fun d => d.of.taskRowId) hsource),
      htaskAttempt.trans (congrArg (fun d => d.of.taskAttempt) hsource)⟩

/-- A new lease has room as long as its credential is not that of another. -/
theorem exists_insert_lease_iff (henveloped : Enveloped s.custody)
    {envelope : ImmutableTaskEnvelope} {token : String}
    (hnew : ∀ l ∈ s.leases, l.claimId ≠ some request.id ∧ l.id ≠ leaseId)
    (hdrawn : ∀ e ∈ s.envelopes, e.id ≠ envelope.id) :
    (∃ leases, s.leases.insert (leaseRow bounds envelope leaseId (some request.id) token now)
      = some leases) ↔ ∀ l ∈ s.leases, l.tokenDigest ≠ token := by
  constructor
  · rintro ⟨leases, hinsert⟩ l hl htoken
    refine not_clash_of_insert hinsert hl ?_
    simp [Keyed.clash, Keyed.key, leaseRow, htoken]
  · refine fun htoken => exists_insert fun l hl hclash => ?_
    obtain ⟨e, he, hle⟩ := henveloped.2 l hl
    have hsome : (decide (l.id = leaseId) || decide (l.envelopeId = envelope.id)
        || (l.claimId.isSome && decide (l.claimId = some request.id))
        || decide (l.tokenDigest = token)) = true := hclash
    simp only [Bool.or_eq_true, Bool.and_eq_true, decide_eq_true_eq] at hsome
    obtain ((hsame | hsame) | ⟨-, hsame⟩) | hsame := hsome
    · exact (hnew l hl).2 hsame
    · exact hdrawn e he (hle.trans hsame)
    · exact (hnew l hl).1 hsame
    · exact htoken l hl hsame

/-! ## One claim -/

/-- The envelope a claim issues is consistent with the rows it is made of, so the check of its
authority comes down to the run and to whose the task is. -/
theorem validateEnvelope_claim_iff {run : RunRow} {t : TaskRow} {plan : PlanRow}
    {placement : RemotePlacementRequest} : (∃ a, validateEnvelopeAgainstAuthority
      (claimEnvelope envelopeId workerId now run t plan placement) (some run) (some t)
        (some plan) = .ok a) ↔
      run.status = .running ∧ run.cancellationRequested = false ∧ t.runId = run.id := by
  constructor
  · rintro ⟨⟨run', t'⟩, hvalid⟩
    obtain ⟨hrun, htask, hstatus, hopen, hid, -⟩ := of_validateEnvelope hvalid
    cases hrun
    cases htask
    exact ⟨hstatus, hopen, hid⟩
  · rintro ⟨hstatus, hopen, hid⟩
    simp only [validateEnvelopeAgainstAuthority, bind_eq_ok, require_eq_ok, refuseIf_eq_ok,
      pure_eq_ok, Option.some.injEq]
    exact ⟨(run, t), run, rfl, t, rfl, plan, rfl, (), by simp [hstatus, hopen], (),
      by simp [hid, claimEnvelope], (), by simp [claimEnvelope], (),
      by simp [claimEnvelope], (), by simp [claimEnvelope], (),
      by simp [claimEnvelope], rfl⟩

/-- **What a new claim returns**: the first placement the worker can take, if its rows are there and
take remote work and there is room for the envelope and the lease. -/
theorem NewClaim.returns_iff (h : NewClaim s bounds workerId request envelopeId leaseId now
    advertisement) : ReturnsClaim s bounds workerId request envelopeId leaseId now ↔
      ∃ p, (s.queuedPlacements workerId).find? (IsTakeable advertisement now) = some p ∧
        ∃ run t plan, s.run? p.runId = some run ∧ s.taskRow? p.taskRowId = some t ∧
          s.plan? p.runId = some plan ∧ run.status = .running ∧ run.cancellationRequested = false ∧
          t.runId = run.id ∧ t.status = .eligible ∧
          let envelope := claimEnvelope envelopeId workerId now run t plan p.requestPayload
          (∃ envelopes, s.envelopes.insert (leasedRow envelope) = some envelopes) ∧
            ∃ leases, s.leases.insert (leaseRow bounds envelope leaseId (some request.id)
              request.leaseTokenDigest now) = some leases := by
  have hfirst : s.leases.find (·.claimId = some request.id) = none := by
    rw [find_eq_none]
    simpa using h.new
  obtain ⟨worker, hworker⟩ := h.active
  rw [← selectPlacement_eq_find]
  simp only [ReturnsClaim, claimNext, h.digest, ok_bind, hworker, hfirst, h.fresh,
    if_neg (not_le.mpr h.spare)]
  cases hselected : (selectPlacement advertisement now (s.queuedPlacements workerId)).2 with
  | none => simp
  | some p =>
    simp only [Option.some.injEq, exists_eq_left', bind_eq_ok, require_eq_ok, refuseIf_eq_ok,
      not_not]
    constructor
    · rintro ⟨_, _, run, hrun, t, ht, plan, hplan, a, hvalid, _, heligible, s₁, hinsert, -⟩
      obtain ⟨hstatus, hopen, hid⟩ := validateEnvelope_claim_iff.mp ⟨a, hvalid⟩
      simp only [insertLease, bind_eq_ok, require_eq_ok] at hinsert
      obtain ⟨envelopes, henvelopes, leases, hleases, -⟩ := hinsert
      exact ⟨run, t, plan, hrun, ht, hplan, hstatus, hopen, hid, heligible, ⟨envelopes, henvelopes⟩,
        leases, hleases⟩
    · rintro ⟨run, t, plan, hrun, ht, hplan, hstatus, hopen, hid, heligible,
        ⟨envelopes, henvelopes⟩, leases, hleases⟩
      obtain ⟨a, hvalid⟩ := validateEnvelope_claim_iff.mpr ⟨hstatus, hopen, hid⟩
      obtain ⟨s₁, hs₁⟩ : ∃ s₁, (s.updatePlacements (fun r =>
          (selectPlacement advertisement now
          (s.queuedPlacements workerId)).1.contains r.id) (fun r => { r with state := .cancelled })
          fun _ => rfl).insertLease
            (claimEnvelope envelopeId workerId now run t plan p.requestPayload)
            (leaseRow bounds (claimEnvelope envelopeId workerId now run t plan
              p.requestPayload) leaseId (some request.id) request.leaseTokenDigest now)
          = .ok s₁ := by
        simp only [insertLease, bind_eq_ok, require_eq_ok]
        exact ⟨_, envelopes, henvelopes, leases, hleases, rfl⟩
      exact ⟨_, _, run, hrun, t, ht, plan, hplan, a, hvalid, (), heligible, s₁, hs₁, rfl⟩

/-- **A claim is served exactly when the first placement the worker can take is live**: in every
reachable store in which some placement the worker can take is live, a new claim returns a task if
and only if the oldest one it can take is live too, and its credential is not that of another
lease. -/
theorem claimNext_returns_iff {deployment : Deployment} (hs : Reachable deployment s)
    (hnew : NewClaim s bounds workerId request envelopeId leaseId now advertisement)
    (hlive : ∃ p ∈ s.queuedPlacements workerId, IsTakeable advertisement now p ∧ IsLive s p) :
    ReturnsClaim s bounds workerId request envelopeId leaseId now ↔
      (∀ p, (s.queuedPlacements workerId).find? (IsTakeable advertisement now) = some p →
        IsLive s p) ∧ ∀ l ∈ s.leases, l.tokenDigest ≠ request.leaseTokenDigest := by
  have hroom : ∀ envelope : ImmutableTaskEnvelope, envelope.id = envelopeId →
      ((∃ leases, s.leases.insert (leaseRow bounds envelope leaseId (some request.id)
        request.leaseTokenDigest now) = some leases) ↔
        ∀ l ∈ s.leases, l.tokenDigest ≠ request.leaseTokenDigest) := by
    rintro envelope rfl
    exact exists_insert_lease_iff hs.enveloped
      (fun l hl => ⟨hnew.new l hl, hnew.drawn.2 l hl⟩) hnew.drawn.1
  rw [hnew.returns_iff]
  constructor
  · rintro ⟨p, hfirst, run, t, plan, hrun, ht, -, hstatus, hopen, -, heligible, -, hleases⟩
    refine ⟨fun p' hfirst' => ?_, (hroom _ rfl).mp hleases⟩
    obtain rfl := Option.some.inj (hfirst.symm.trans hfirst')
    obtain ⟨hrun, hrunid⟩ := run?_eq_some.mp hrun
    obtain ⟨ht, htid⟩ := taskRow?_eq_some.mp ht
    exact ⟨⟨run, hrun, hrunid, hstatus, hopen⟩, t, ht, htid, heligible⟩
  · rintro ⟨hfirst, htoken⟩
    obtain ⟨p, hp⟩ : ∃ p, (s.queuedPlacements workerId).find? (IsTakeable advertisement now)
        = some p := by
      obtain ⟨p, hp, htake, -⟩ := hlive
      rw [← Option.isSome_iff_exists, List.find?_isSome]
      exact ⟨p, hp, htake⟩
    obtain ⟨⟨run, hrun, hrunid, hstatus, hopen⟩, t, ht, htid, heligible⟩ := hfirst p hp
    -- the placement is of a task of its run, and a task's run has a plan
    have hrow : p ∈ s.placements := by
      have hmem := List.mem_of_find?_eq_some hp
      rw [queuedPlacements, List.mem_insertionSort] at hmem
      exact (mem_select.mp hmem).1
    obtain ⟨t', ht', htid', htrun⟩ := hs.wellFiled.placements p hrow
    obtain rfl := task_eq ht ht' (htid.trans htid'.symm)
    obtain ⟨plan, hplan, hplanrun⟩ := hs.sound.planned t ht
    refine ⟨p, hp, run, t, plan, run?_eq_some.mpr ⟨hrun, hrunid⟩,
      taskRow?_eq_some.mpr ⟨ht, htid⟩, plan?_eq_some.mpr ⟨hplan, hplanrun.trans htrun⟩,
      hstatus, hopen, htrun.trans hrunid.symm, heligible, ?_, (hroom _ rfl).mpr htoken⟩
    exact exists_insert_envelope hs.wellFiled hs.enveloped ht rfl rfl hnew.drawn.1

instance (s : Store) (p : RemoteTaskPlacementRow) : Decidable (IsLive s p) :=
  inferInstanceAs (Decidable ((∃ _ ∈ _, _) ∧ ∃ _ ∈ _, _))

/-- A placement of the task of a run. -/
def samplePlacement (id runId : Uuid) (createdAt : Instant) : RemotePlacementRequest where
  id := id
  createdAt := createdAt
  runId := runId
  taskId := "build"
  roleDefinitionFingerprint := "role"
  inputs := []
  policyFingerprint := "policy"
  pathScopes := []
  capabilityRequirements := []
  resources := { timeoutSeconds := 600, maxResultBytes := 4096 }
  deadline := 600 * second
  statefulEffects := false

/-- Two runs with a placement each. -/
def twoPlacements : List Op :=
  sampleStart ++ [.startOrResume 2 sampleDiscovery "test" "tested",
    .acceptPlan 2 samplePlan (50 + ·), .startRun 2, .queuePlacement 0 (samplePlacement 60 1 0),
    .queuePlacement 0 (samplePlacement 61 2 second)]

def sampleClaim : WorkerClaimRequest where
  id := 70
  createdAt := second
  leaseTokenDigest := sampleToken

/-- A new claim of the worker of the small runs, on a store without leases and envelopes. -/
theorem newClaim_sample (hactive : (s.activeWorker 7).toOption = some ⟨7, .active⟩)
    (hfresh : (s.freshHeartbeat 7 now).toOption = some advertisement)
    (hspare : s.activeLeaseCount 7 < capacity bounds advertisement)
    (hleases : ∀ l ∈ s.leases, False) (henvelopes : ∀ e ∈ s.envelopes, False) :
    NewClaim s bounds 7 sampleClaim 20 30 now advertisement where
  digest := refuseIf_of_not (by decide)
  active := ⟨_, toOption_eq_some.mp hactive⟩
  fresh := toOption_eq_some.mp hfresh
  spare := hspare
  new l hl := (hleases l hl).elim
  drawn := ⟨fun e he => (henvelopes e he).elim, fun l hl => (hleases l hl).elim⟩

/-- The older of two placements is of a cancelled run: a claim fails, although the other one is
live. -/
theorem cancelled_starves_live :
    let s := runFrom sampleDeployment .empty (twoPlacements ++ [.cancelRun 1])
    let advertisement : WorkerHeartbeat := ⟨7, [], ⟨8, 1000, 4, 0⟩⟩
    NewClaim s sampleDeployment.bounds 7 sampleClaim 20 30 second advertisement ∧
      (∃ p ∈ s.queuedPlacements 7, IsTakeable advertisement second p ∧ IsLive s p) ∧
      ¬ ReturnsClaim s sampleDeployment.bounds 7 sampleClaim 20 30 second := by
  intro s advertisement
  have hfails : (s.claimNext sampleDeployment.bounds 7 sampleClaim 20 30 second).toOption.isNone
      = true := by decide
  refine ⟨newClaim_sample (by decide) (by decide) (by decide) (by decide) (by decide), by decide,
    ?_⟩
  rintro ⟨claim, s', hok⟩
  rw [hok] at hfails
  cases hfails

/-- With both runs running, the claim returns a task. -/
theorem live_is_served :
    ReturnsClaim (runFrom sampleDeployment .empty twoPlacements) sampleDeployment.bounds 7
      sampleClaim 20 30 second := by
  have hnew : NewClaim (runFrom sampleDeployment .empty twoPlacements) sampleDeployment.bounds 7
      sampleClaim 20 30 second ⟨7, [], ⟨8, 1000, 4, 0⟩⟩ :=
    newClaim_sample (by decide) (by decide) (by decide) (by decide) (by decide)
  have hall : ∀ p ∈ (runFrom sampleDeployment .empty twoPlacements).queuedPlacements 7,
      IsLive (runFrom sampleDeployment .empty twoPlacements) p := by decide
  refine (claimNext_returns_iff ⟨twoPlacements, rfl⟩ hnew (by decide)).mpr ⟨?_, by decide⟩
  exact fun p hp => hall p (List.mem_of_find?_eq_some hp)

end Mishkan
