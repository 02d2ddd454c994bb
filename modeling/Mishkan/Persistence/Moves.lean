import Mishkan.Persistence.System

/-!
# Persistence/Moves — the elementary changes of the store

Every transaction is a chain of moves, each with the facts its operation has checked.  A move that
hands out a task, makes it eligible although someone may still be working on it, or writes to the
journal of planned calls is a `Release`; the relation takes the releases it permits as a parameter,
so a result about runs under a condition is proved of the moves the condition permits, and an
unconditional one of all of them.
-/

namespace Mishkan

open Refusal Transition

/-- The ways in which tasks become eligible other than by the acceptance of a dependency, in which
they are handed to a worker, and in which their planned calls proceed. -/
inductive Release where
  /-- A plan is accepted for a run. -/
  | plan (runId : Uuid)
  /-- A recovery gives up an interrupted task. -/
  | interrupted (task : TaskRow)
  /-- An expired lease gives back its task. -/
  | expired (envelope : RemoteTaskEnvelopeRow)
  /-- A reconciliation gives back the task of a lost lease. -/
  | reconciled (envelope : RemoteTaskEnvelopeRow)
  /-- A lease hands an eligible task to a worker. -/
  | leased (task : TaskRow)
  /-- A planned call is reserved, dispatched or completed. -/
  | journal
  /-- A recovery settles the dispatched calls of a run that declared no effects. -/
  | retried (runId : Uuid)

/-- The releases a run permits, by the store they are made in. -/
abbrev Permits := Store → Release → Prop

/-- The work on a task's run is not cancelled. -/
def RunOpen (s : Store) (runId : Uuid) : Prop :=
  ∃ run ∈ s.runs, run.id = runId ∧ run.cancellationRequested = false

/-- Every envelope addresses a task of its run. -/
def Addressed (s : Store) : Prop :=
  ∀ e ∈ s.envelopes,
    ∃ t ∈ s.tasks, t.id = e.taskRowId ∧ t.runId = e.runId ∧ t.taskKey = e.taskKey

/-- The moves of a task from one state to another. -/
inductive TaskMove (G : Permits) (s : Store) (t : TaskRow) : TaskState → Prop
  | cancelled (h : t.status.isWaiting ∨ t.status.isActive) : TaskMove G s t .cancelled
  | rejected (h : t.status = .executing ∨ t.status = .validating) : TaskMove G s t .rejected
  | failed (h : t.status = .executing ∨ t.status = .validating) : TaskMove G s t .failed
  | validating (h : t.status = .executing) : TaskMove G s t .validating
  | released (h : t.status = .pending) (hdeps : s.dependenciesAccepted t.runId t.contract) :
      TaskMove G s t .eligible
  | recovered (h : t.status ∈ [.executing, .validating, .rejected, .failed])
      (hdeps : s.dependenciesAccepted t.runId t.contract) (hopen : RunOpen s t.runId)
      (hG : G s (.interrupted t)) : TaskMove G s t .eligible

/-- The moves of a run from one state to another. -/
inductive RunMove (s : Store) (run : RunRow) : RunState → Prop
  | awaiting (h : run.status = .planning) : RunMove s run .awaitingApproval
  | started (h : run.status = .queued) : RunMove s run .running
  | failed : RunMove s run .failed
  | blocked : RunMove s run .blocked
  | resumed (hopen : run.cancellationRequested = false) : RunMove s run .running
  | settled (h : run.cancellationRequested = true) : RunMove s run .cancelled
  | completed (hopen : run.cancellationRequested = false) (hsome : ∃ t ∈ s.tasks, t.runId = run.id)
      (hall : ∀ t ∈ s.tasks, t.runId = run.id → t.status = .accepted) : RunMove s run .completed

/-- The two stores agree on everything but the rejections, the placements, the worker acceptances,
the outbox and the tables of other services. -/
structure Aside (s s' : Store) : Prop where
  runs : s'.runs = s.runs
  plans : s'.plans = s.plans
  tasks : s'.tasks = s.tasks
  calls : s'.calls = s.calls
  results : s'.results = s.results
  acceptances : s'.acceptances = s.acceptances
  envelopes : s'.envelopes = s.envelopes
  leases : s'.leases = s.leases
  completions : s'.completions = s.completions

/-- **The elementary changes of the store.** -/
inductive Move (G : Permits) (s : Store) : Store → Prop
  | aside {s' : Store} (h : Aside s s') : Move G s s'
  | callsJournalled {calls : Table PlannedToolCallRow} (hG : G s .journal) :
      Move G s { s with calls := calls }
  | callsReconciled {runId : Uuid} (hG : G s (.retried runId)) : Move G s { s with
      calls := s.calls.update (Store.isRetrySafe runId) Store.settleRetrySafe
        Store.settleRetrySafe_key }
  | runInserted {run : RunRow} {runs : Table RunRow} (h : s.runs.insert run = some runs)
      (hstatus : run.status = .planning) (hopen : run.cancellationRequested = false) :
      Move G s { s with runs := runs }
  | planAccepted {run : RunRow} (hrun : run ∈ s.runs) {plan : PlanRow} {plans : Table PlanRow}
      {rows : List TaskRow} {tasks : Table TaskRow} (hplan : plan.runId = run.id)
      (hplans : s.plans.insert plan = some plans) (htasks : s.tasks.insertAll rows = some tasks)
      (hrows : ∀ t ∈ rows, t.runId = run.id ∧
        (t.status = .pending ∨ t.status = .eligible ∧ t.contract.dependsOn = []))
      (hG : G s (.plan run.id)) :
      Move G s ({ s with plans := plans, tasks := tasks }.moveRun run.id .queued)
  | runMoved {run : RunRow} (hrun : run ∈ s.runs) {status : RunState} (h : RunMove s run status) :
      Move G s (s.moveRun run.id status)
  | runCancelled {run : RunRow} (hrun : run ∈ s.runs) {status : RunState}
      (hstatus : status = .cancelled ∨ status = .cancelling) (hlive : run.status ≠ .completed) :
      Move G s { s with
        runs := s.runs.update (·.id = run.id) (fun r => { r with
          cancellationRequested := true, status := status, revision := r.revision + 1 })
          fun _ => rfl }
  | tasksMoved {p : TaskRow → Bool} {status : TaskState}
      (h : ∀ t ∈ s.tasks, p t = true → TaskMove G s t status) : Move G s (s.moveTasks p status)
  | taskClaimed {t : TaskRow} (ht : t ∈ s.tasks) (h : t.status = .eligible) :
      Move G s (s.beginAttempt t.id .executing (t.attemptCount + 1))
  | resultAccepted {t : TaskRow} (ht : t ∈ s.tasks) (hopen : RunOpen s t.runId)
      (hdeps : s.dependenciesAccepted t.runId t.contract)
      {result : ResultRow} {results : Table ResultRow} {acceptance : AcceptanceRow}
      {acceptances : Table AcceptanceRow} (hresult : s.results.insert result = some results)
      (hacceptance : s.acceptances.insert acceptance = some acceptances)
      (hr : result.runId = t.runId ∧ result.taskKey = t.taskKey)
      (ha : acceptance.runId = t.runId ∧ acceptance.taskKey = t.taskKey) :
      Move G s ({ s with results := results, acceptances := acceptances }.moveTask t.id .accepted)
  | leaseIssued {t : TaskRow} (ht : t ∈ s.tasks) (h : t.status = .eligible)
      {envelope : RemoteTaskEnvelopeRow} {envelopes : Table RemoteTaskEnvelopeRow}
      {lease : WorkerLeaseRow} {leases : Table WorkerLeaseRow}
      (hinsert : s.envelopes.insert envelope = some envelopes)
      (hlinsert : s.leases.insert lease = some leases) (hstate : envelope.state = .leased)
      (htask : envelope.taskRowId = t.id ∧ envelope.runId = t.runId ∧ envelope.taskKey = t.taskKey)
      (hlease : lease.envelopeId = envelope.id) (hG : G s (.leased t)) {attempt : Nat} :
      Move G s ({ s with envelopes := envelopes, leases := leases }.beginAttempt t.id .leased
        attempt)
  | executionBegun {e : RemoteTaskEnvelopeRow} (he : e ∈ s.envelopes) (hstate : e.state = .leased)
      {t : TaskRow} (ht : t ∈ s.tasks) (htask : t.id = e.taskRowId) (h : t.status = .leased) :
      Move G s ((s.moveEnvelope e.id .executing).moveTask t.id .executing)
  | leaseRenewed {id : Uuid} (f : WorkerLeaseRow → WorkerLeaseRow)
      (hf : ∀ l, Keyed.key (f l) = Keyed.key l) (hstate : ∀ l, (f l).state = l.state) :
      Move G s (s.updateLease id f hf)
  | completionRecorded {c : WorkerCompletionRow} {completions : Table WorkerCompletionRow}
      (hinsert : s.completions.insert c = some completions)
      (hstate : c.state ≠ .delivered ∧ c.state ≠ .accepted) :
      Move G s { s with completions := completions }
  | completionDelivered {c : WorkerCompletionRow} {completions : Table WorkerCompletionRow}
      (hinsert : s.completions.insert c = some completions) {e : RemoteTaskEnvelopeRow}
      (he : e ∈ s.envelopes) (hc : c.envelopeId = e.id) {l : WorkerLeaseRow} (hl : l ∈ s.leases)
      (hle : l.envelopeId = e.id) (hactive : l.state = .active) {t : TaskRow} (ht : t ∈ s.tasks)
      (htask : t.id = e.taskRowId) (h : t.status = .leased ∨ t.status = .executing)
      (f : WorkerLeaseRow → WorkerLeaseRow) (hf : ∀ l, Keyed.key (f l) = Keyed.key l)
      (hdone : ∀ l, (f l).state = .completed) :
      Move G s (((Store.updateLease { s with completions := completions } l.id f hf).moveEnvelope
        e.id .validating).moveTask t.id .validating)
  | completionDuplicated {id : Uuid} (f : WorkerCompletionRow → WorkerCompletionRow)
      (hf : ∀ c, Keyed.key (f c) = Keyed.key c) (hstate : ∀ c, (f c).state = .duplicate) :
      Move G s (s.updateCompletion id f hf)
  | completionAccepted {c : WorkerCompletionRow} (hc : c ∈ s.completions)
      (hstate : c.state = .delivered) {e : RemoteTaskEnvelopeRow} (he : e ∈ s.envelopes)
      (hce : c.envelopeId = e.id) (f : WorkerCompletionRow → WorkerCompletionRow)
      (hf : ∀ c, Keyed.key (f c) = Keyed.key c) (henv : ∀ c, (f c).envelopeId = c.envelopeId) :
      Move G s ((s.updateCompletion c.id f hf).moveEnvelope e.id .completed)
  | leaseLost {l : WorkerLeaseRow} (hl : l ∈ s.leases) (hactive : l.state = .active)
      {e : RemoteTaskEnvelopeRow} (he : e ∈ s.envelopes) (hle : l.envelopeId = e.id)
      (f : WorkerLeaseRow → WorkerLeaseRow) (hf : ∀ l, Keyed.key (f l) = Keyed.key l)
      (hdone : ∀ l, (f l).state = .expired) :
      Move G s ((s.updateLease l.id f hf).moveEnvelope e.id .reconciliationRequired)
  | leaseReturned {l : WorkerLeaseRow} (hl : l ∈ s.leases) (hactive : l.state = .active)
      {e : RemoteTaskEnvelopeRow} (he : e ∈ s.envelopes) (hle : l.envelopeId = e.id)
      (hstateless : e.statefulEffects = false) (hG : G s (.expired e))
      (f : WorkerLeaseRow → WorkerLeaseRow) (hf : ∀ l, Keyed.key (f l) = Keyed.key l)
      (hdone : ∀ l, (f l).state = .expired) :
      Move G s (((s.updateLease l.id f hf).moveTasks (fun t => t.id = e.taskRowId
        ∧ (t.status = .leased ∨ t.status = .executing)) .eligible).moveEnvelope e.id .expired)
  | envelopeReconciled {e : RemoteTaskEnvelopeRow} (he : e ∈ s.envelopes)
      (hstate : e.state = .reconciliationRequired) {t : TaskRow} (ht : t ∈ s.tasks)
      (htask : t.id = e.taskRowId) (h : t.status = .leased ∨ t.status = .executing)
      (hG : G s (.reconciled e)) :
      Move G s ((s.moveEnvelope e.id .expired).moveTask t.id .eligible)

end Mishkan
