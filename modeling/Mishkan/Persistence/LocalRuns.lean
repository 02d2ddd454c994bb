import Mishkan.Foundations.Refusal
import Mishkan.Persistence.Store

/-!
# Persistence/LocalRuns — the run repository and the journal of planned tool calls

Each operation is one transaction: it reads the store, checks, and returns the store it commits.
Identifiers and the clock are arguments.  `recoverInterrupted` is the one operation made of two
transactions, between which others may commit.

A call is reserved under its identity, marked dispatching immediately before its adapter runs, and
completed with an inspected result and the settlement of its effect.
-/

namespace Mishkan

open Refusal

/-- A payload that is about to be persisted. -/
inductive Content where
  | objective (text : String)
  | plan (plan : AcceptedPlan)
  | result (result : InitializationResult)
  | review (review : ReviewDecision)
  | toolResult (envelope : ToolResultEnvelope)

/-- Whether inspection returns the serialization of a payload unchanged. -/
abbrev ContentInspector := Content → Bool

/-- What a caller is told about a run. -/
structure RunSnapshot where
  runId : Uuid
  resumed : Bool
  plan : Option AcceptedPlan
  results : List InitializationResult
  reviews : List ReviewDecision
  executionContext : PlanExecutionContext
deriving DecidableEq

namespace Store

/-! ## Shared checks and reads -/

/-- Evidence that inspection would alter cannot be persisted. -/
def requireSafeContent (safe : ContentInspector) (payloads : List Content) :
    Except Raised Unit :=
  refuseIf (¬ ∀ payload ∈ payloads, safe payload = true) <|
    fault .secretContent "run evidence requires redaction and cannot be persisted faithfully"

def requireRun (s : Store) (runId : Uuid) : Except Raised RunRow :=
  require (s.run? runId) <|
    fault .runInterrupted "run state does not exist" [("run_id", .str runId.text)]

def requireTask (s : Store) (runId : Uuid) (taskId : String) : Except Raised TaskRow :=
  require (s.task? runId taskId) <|
    fault .runInterrupted "run task does not exist"
      [("run_id", .str runId.text), ("task_id", .str taskId)]

/-- Every dependency of a contract is a task of the run in state accepted. -/
def dependenciesAccepted (s : Store) (runId : Uuid) (contract : PlanTask) : Bool :=
  contract.dependsOn.all fun key =>
    (s.tasks.rows.any fun t => t.runId = runId ∧ t.taskKey = key ∧ t.status = .accepted)

/-- Make every pending task whose dependencies are accepted eligible. -/
def releaseDependents (s : Store) (runId : Uuid) : Store :=
  s.moveTasks (fun t => t.runId = runId ∧ t.status = .pending
    ∧ s.dependenciesAccepted runId t.contract) .eligible

/-- Some task of the run is not accepted. -/
def hasUnaccepted (s : Store) (runId : Uuid) : Bool :=
  s.tasks.rows.any fun t => t.runId = runId ∧ t.status ≠ .accepted

/-- The result was made against the execution context of the run. -/
def resultMatchesRunContext (result : InitializationResult) (run : RunRow) : Bool :=
  match result.schemaVersion with
  | .v11 => match result.executionContext with
    | some context => context.kind = run.context.kind
      && context.contextId = run.context.contextId
      && context.revision = run.context.revision
      && context.repositoryId = run.context.repositoryId
      && context.repositoryRevision = run.context.repositoryRevision
    | none => false
  | .v10 => run.context.kind = .repository
      && result.repositoryRevision = run.context.repositoryRevision

def resumeKey (discovery : DiscoverySnapshot) (objective outcomeId : String) :
    Digest ResumeSource := ⟨discovery.binding, discovery.fingerprint, objective, outcomeId⟩

def snapshot (s : Store) (run : RunRow) (resumed : Bool) : RunSnapshot where
  runId := run.id
  resumed := resumed
  plan := (s.plan? run.id).map (·.payload)
  results := ((s.results.select (·.runId = run.id)).insertionSort
    (·.acceptedAt ≤ ·.acceptedAt)).map (·.payload)
  reviews := ((s.acceptances.select (·.runId = run.id)).insertionSort
    (·.acceptedAt ≤ ·.acceptedAt)).map (·.reviewPayload)
  executionContext := run.context

/-! ## Starting and planning -/

def startOrResume (s : Store) (safe : ContentInspector) (id : Uuid)
    (discovery : DiscoverySnapshot) (objective outcomeId : String) :
    Except Raised (RunSnapshot × Store) := do
  requireSafeContent safe [.objective objective]
  let key := resumeKey discovery objective outcomeId
  match s.runs.find (·.resumeKey = key) with
  | some run => return (s.snapshot run true, s)
  | none =>
    let run : RunRow :=
      { id, resumeKey := key, context := discovery.binding,
        discoveryFingerprint := discovery.fingerprint, objective, outcomeId, status := .planning }
    let runs ← require (s.runs.insert run) .integrityError
    let s := { s with runs := runs }.addEvent id "run.started"
    return (s.snapshot run false, s)

/-- The row of a task of an accepted plan. -/
def plannedRow (runId id : Uuid) (position : Nat) (task : PlanTask) : TaskRow where
  id := id
  runId := runId
  taskKey := task.taskId
  position := position
  status := if task.dependsOn = [] then .eligible else .pending
  contract := task

/-- The selection and binding events of a plan; a binding whose tool the registry does not contain
exactly once fails. -/
def toolEvents (runId : Uuid) (plan : AcceptedPlan) : Except Raised (List RunEvent) :=
  match plan.registry with
  | none => .ok []
  | some registry => do
    let (_, events) ← plan.toolBindings.foldlM (fun (selected, events) binding => do
      let contract ← registry.require binding.toolId
      let selection := (contract.toolId, contract.version)
      let bound : RunEvent := ⟨runId, "tool.bound", some binding.taskId⟩
      if selection ∈ selected then return (selected, events ++ [bound])
      else return (selection :: selected, events ++ [⟨runId, "tool.selected", none⟩, bound]))
      (([], []) : List (String × String) × List RunEvent)
    return events

def acceptPlan (s : Store) (safe : ContentInspector) (runId : Uuid) (plan : AcceptedPlan)
    (draw : Nat → Uuid) : Except Raised (RunSnapshot × Store) := do
  requireSafeContent safe [.plan plan]
  let run ← s.requireRun runId
  refuseIf (plan.schemaVersion = .v12 ∧ plan.executionContext ≠ some run.context) <|
    fault .revisionMismatch "accepted plan execution context differs from its run"
  refuseIf (plan.schemaVersion ≠ .v12 ∧ run.context.kind ≠ .repository) <|
    fault .plan "prospective workspace run requires an explicit plan 1.2 context"
  match s.plan? runId with
  | some existing =>
    refuseIf (existing.payload ≠ plan) <|
      fault .duplicateResult "run already has a different accepted plan"
        [("run_id", .str runId.text)]
    return (s.snapshot run true, s)
  | none =>
    let plans ← require
      (s.plans.insert { id := draw 0, runId, fingerprint := plan.fingerprint, payload := plan })
      .integrityError
    let tasks ← require
      (s.tasks.insertAll (plan.tasks.mapIdx fun i task => plannedRow runId (draw (i + 1)) i task))
      .integrityError
    let events ← toolEvents runId plan
    let s := { s with plans := plans, tasks := tasks }.moveRun runId .queued
    let s := s.addEvent runId "plan.accepted"
    let s := { s with outbox := s.outbox ++ events }.addEvent runId "run.queued"
    return (s.snapshot run false, s)

def markAwaitingApproval (s : Store) (runId : Uuid) : Except Raised (Unit × Store) := do
  let run ← s.requireRun runId
  if run.status = .awaitingApproval then return ((), s)
  refuseIf (run.status ≠ .planning) <| fault .revisionMismatch "run is not planning"
  return ((), (s.moveRun runId .awaitingApproval).addEvent runId "run.awaiting_approval")

def startRun (s : Store) (runId : Uuid) : Except Raised (Unit × Store) := do
  let run ← s.requireRun runId
  if run.status = .running ∨ run.status = .completed then return ((), s)
  refuseIf (run.status ≠ .queued) <| fault .revisionMismatch "run is not queued"
  return ((), (s.moveRun runId .running).addEvent runId "run.running")

/-! ## Working on a task -/

def claimTask (s : Store) (runId : Uuid) (taskId : String) : Except Raised (Nat × Store) := do
  let run ← s.requireRun runId
  let task ← s.requireTask runId taskId
  refuseIf (run.cancellationRequested ∨ run.status ≠ .running) <|
    fault .runInterrupted "run is not accepting task claims"
  refuseIf (task.status ≠ .eligible) <|
    fault .revisionMismatch "task is not eligible for execution"
      [("task_id", .str taskId), ("state", .str task.status.value)]
  let attempt := task.attemptCount + 1
  return (attempt, (s.beginAttempt task.id .executing attempt).addEvent runId "task.claimed"
    (some taskId))

def markValidating (s : Store) (runId : Uuid) (taskId : String) :
    Except Raised (Unit × Store) := do
  let task ← s.requireTask runId taskId
  refuseIf (task.status ≠ .executing) <| fault .revisionMismatch "task is not executing"
  return ((), (s.moveTask task.id .validating).addEvent runId "task.validating" (some taskId))

def markTaskFailure (s : Store) (runId : Uuid) (taskId : String) (rejected : Bool) :
    Except Raised (Unit × Store) := do
  let _ ← s.requireRun runId
  let task ← s.requireTask runId taskId
  refuseIf (task.status ≠ .executing ∧ task.status ≠ .validating) <|
    fault .revisionMismatch "task is not active"
  let state : TaskState := if rejected then .rejected else .failed
  let s := (s.moveTask task.id state).addEvent runId ("task." ++ state.value) (some taskId)
  return ((), (s.moveRun runId .failed).addEvent runId "run.failed" (some taskId))

def recordRejectedReview (s : Store) (safe : ContentInspector) (id runId : Uuid)
    (result : InitializationResult) (review : ReviewDecision) (reviewSequence : Nat) :
    Except Raised (ReviewRejectionRow × Store) := do
  requireSafeContent safe [.result result, .review review]
  let run ← s.requireRun runId
  let task ← s.requireTask runId result.taskId
  refuseIf (task.status ≠ .validating) <| fault .revisionMismatch "task is not validating"
  refuseIf (review.taskId ≠ result.taskId ∨ review.verdict ≠ .rejected) <|
    fault .outputContract "rejection evidence does not match the validating task"
  refuseIf (¬ resultMatchesRunContext result run) <|
    fault .revisionMismatch "rejected result revision differs from the run base revision"
  match s.rejections.find fun r => r.runId = runId ∧ r.taskKey = result.taskId
      ∧ r.taskAttempt = task.attemptCount ∧ r.reviewSequence = reviewSequence with
  | some existing =>
    refuseIf (existing.resultPayload ≠ result ∨ existing.reviewPayload ≠ review) <|
      fault .duplicateResult "review rejection identity was reused for different evidence"
    return (existing, s)
  | none =>
    let row : ReviewRejectionRow :=
      { id, runId, taskKey := result.taskId, taskAttempt := task.attemptCount, reviewSequence,
        resultPayload := result, reviewPayload := review }
    let rejections ← require (s.rejections.insert row) .integrityError
    return (row, { s with rejections := rejections }.addEvent runId "task.review_rejected"
      (some result.taskId))

/-! ## Cancellation -/

def cancelRun (s : Store) (runId : Uuid) : Except Raised (RunSnapshot × Store) := do
  let run ← s.requireRun runId
  if run.status = .completed ∨ run.status = .cancelled then return (s.snapshot run true, s)
  let active := s.tasks.select fun t => t.runId = runId ∧ t.status.isActive
  let status : RunState := if active = [] then .cancelled else .cancelling
  let s := s.moveTasks (fun t => t.runId = runId ∧ t.status.isWaiting) .cancelled
  let s := { s with
    runs := s.runs.update (·.id = runId) (fun r => { r with
      cancellationRequested := true, status := status, revision := r.revision + 1 })
      fun _ => rfl }
  let s := s.addEvents runId "task.cancellation_requested" active
  let s := s.addEvent runId "run.cancellation_requested"
  return (s.snapshot run false, s)

def settleCancellation (s : Store) (runId : Uuid) : Except Raised (RunSnapshot × Store) := do
  let run ← s.requireRun runId
  refuseIf (¬ run.cancellationRequested) <|
    fault .revisionMismatch "run cancellation has not been requested"
  if run.status = .cancelled then return (s.snapshot run true, s)
  let unsettled : TaskRow → Bool := fun t =>
    t.runId = runId ∧ (t.status.isWaiting ∨ t.status.isActive)
  let s := (s.moveTasks unsettled .cancelled).addEvents runId "task.cancelled"
    (s.tasks.select unsettled)
  let s := (s.moveRun runId .cancelled).addEvent runId "run.cancelled"
  return (s.snapshot run false, s)

/-! ## Recovery -/

/-- The planned calls of a run whose effect is unsettled, by attempt and call. -/
def unresolvedPlannedEffects (s : Store) (runId : Uuid) : List String :=
  let rows := s.calls.select fun c => c.runId = runId ∧ (c.state = .dispatching
    ∨ c.state = .settled .uncertain ∨ c.effectSettlement = some .uncertain)
  (rows.insertionSort fun a b => a.taskAttemptId < b.taskAttemptId
      ∨ a.taskAttemptId = b.taskAttemptId ∧ a.plannedCallId ≤ b.plannedCallId).map
    fun c => "planned-call:" ++ c.taskAttemptId ++ ":" ++ c.plannedCallId ++ ":" ++ c.state.value

/-- The blocker an execution session is, if it is one. -/
def executionBlocker (row : ExecutionSessionRow) : Option String :=
  match row.request with
  | some (.obj request) =>
    let declared := ((Json.lookup request "declared_effects").getD (.arr [])).truthy
    let statefulActive := row.state ∈ ["starting", "running", "ready", "cancelling"] ∧ declared
    if statefulActive ∨ row.state = "uncertain" ∨ row.effectSettlement = some "uncertain" then
      some ("execution:" ++ row.id.text ++ ":" ++ row.state)
    else none
  | _ => some ("execution:" ++ row.id.text ++ ":corrupt")

/-- The blocker an MCP call is for a run, if it is one. -/
def mcpBlocker (runId : Uuid) (row : McpCallRow) : Option String :=
  match row.request with
  | none => some ("mcp:" ++ row.id.text ++ ":corrupt")
  | some (.obj request) =>
    if Json.lookup request "run_id" = some (.str runId.text)
        ∧ row.state ∈ ["dispatching", "running", "cancel_requested", "uncertain"] then
      some ("mcp:" ++ row.id.text ++ ":" ++ row.state)
    else none
  | some _ => none

/-- What keeps a run from being resumed: the unsettled effects of its planned calls, its execution
and browser sessions and its MCP calls. -/
def unresolvedDurableEffects (s : Store) (runId : Uuid) : List String :=
  (s.unresolvedPlannedEffects runId
    ++ (s.others.executionSessions.filter (·.runId = some runId)).filterMap executionBlocker
    ++ ((s.others.browserSessions.filter (·.runId = runId)).filter (·.state = "uncertain")).map
      (fun row => "browser:" ++ row.id.text ++ ":" ++ row.state)
    ++ s.others.mcpCalls.filterMap (mcpBlocker runId)).eraseDups

/-- A dispatched call of the run that declared no effects. -/
def isRetrySafe (runId : Uuid) (c : PlannedToolCallRow) : Bool :=
  c.runId = runId ∧ c.state = .dispatching ∧ c.declaredEffects = []

/-- Settle a dispatched call that declared no effects as failed with its effect absent. -/
def settleRetrySafe (c : PlannedToolCallRow) : PlannedToolCallRow :=
  { c with state := .settled .failed, effectSettlement := some .absent }

theorem settleRetrySafe_key (c : PlannedToolCallRow) :
    Keyed.key (settleRetrySafe c) = Keyed.key c := rfl

/-- The first transaction of a recovery: settle the retry-safe calls, and block the run while some
effect is unresolved.  Its result is the unresolved effects. -/
def reconcileInterrupted (s : Store) (runId : Uuid) : Except Raised (List String × Store) := do
  let run ← s.requireRun runId
  let count := (s.calls.select (isRetrySafe runId)).length
  let s := { s with
    calls := s.calls.update (isRetrySafe runId) settleRetrySafe settleRetrySafe_key
    outbox := s.outbox ++ List.replicate count ⟨runId, "tool.call_retry_reconciled", none⟩ }
  let s := if count = 0 then s else s.addEvent runId "run.retry_safe_calls_reconciled"
  let unresolved := s.unresolvedDurableEffects runId
  if unresolved ≠ [] ∧ run.status ≠ .blocked then
    return (unresolved, (s.moveRun runId .blocked).addEvent runId "run.blocked")
  return (unresolved, s)

/-- The tasks a recovery releases: interrupted or failed, with their dependencies accepted. -/
def isReleasable (s : Store) (runId : Uuid) (t : TaskRow) : Bool :=
  t.runId = runId ∧ t.status ∈ [.executing, .validating, .rejected, .failed]
    ∧ s.dependenciesAccepted runId t.contract

/-- The second transaction of a recovery: resume the run and release its interrupted tasks. -/
def releaseInterrupted (s : Store) (runId : Uuid) : Except Raised (List String × Store) := do
  let run ← s.requireRun runId
  if run.cancellationRequested then return ([], s)
  let released := (s.tasks.select (s.isReleasable runId)).map (·.taskKey)
  let s := s.moveTasks (s.isReleasable runId) .eligible
  let s := if run.status = .blocked ∨ run.status = .failed then
    (s.moveRun runId .running).addEvent runId "run.running" else s
  let s := if released = [] then s else s.addEvent runId "run.interrupted_tasks_released"
  return (released, s)

/-- A recovery with nothing between its two transactions.  The first commits also when its
unresolved effects are then reported as an error. -/
def recoverInterrupted (s : Store) (runId : Uuid) : Except Raised (List String) × Store :=
  match s.reconcileInterrupted runId with
  | .error e => (.error e, s)
  | .ok (unresolved, s') =>
    if unresolved ≠ [] then
      (.error (fault .runInterrupted "run contains unreconciled stateful effects"
        [("effects", .strings unresolved), ("automatic_retry", .bool false)]), s')
    else match s'.releaseInterrupted runId with
      | .error e => (.error e, s')
      | .ok (released, s'') => (.ok released, s'')

/-! ## Acceptance -/

/-- Complete the run once all of its tasks are accepted. -/
def completeRun (s : Store) (runId : Uuid) : Store :=
  if s.hasUnaccepted runId then s
  else (s.moveRun runId .completed).addEvent runId "run.completed"

def acceptResult (s : Store) (safe : ContentInspector) (resultId acceptanceId runId : Uuid)
    (now : Instant) (result : InitializationResult) (review : ReviewDecision) :
    Except Raised (RunSnapshot × Store) := do
  requireSafeContent safe [.result result, .review review]
  let run ← s.requireRun runId
  let about : JsonObject := [("run_id", .str runId.text), ("task_id", .str result.taskId)]
  let task ← require (s.task? runId result.taskId) <|
    fault .outputContract "result does not identify an accepted task" about
  refuseIf (¬ resultMatchesRunContext result run) <|
    fault .revisionMismatch "result revision differs from the run base revision" about
  match s.result? runId result.taskId with
  | some existing =>
    refuseIf (existing.payload ≠ result) <|
      fault .duplicateResult "task already has a different accepted result" about
    refuseIf ((s.acceptance? runId result.taskId).map (·.reviewPayload) ≠ some review) <|
      fault .duplicateResult "task already has different review evidence" about
    let s := s.addEvent runId "task.completion_duplicated" (some result.taskId)
    return (s.snapshot run true, s)
  | none =>
    refuseIf run.cancellationRequested <|
      fault .runInterrupted "run cancellation prevents new result acceptance"
        [("run_id", .str runId.text)]
    refuseIf (¬ s.dependenciesAccepted runId task.contract) <|
      fault .runInterrupted "task dependencies are not durably accepted" about
    refuseIf (task.status ≠ .validating) <|
      fault .revisionMismatch "task result can be accepted only from validating state"
        [("task_id", .str result.taskId), ("state", .str task.status.value)]
    refuseIf (review.verdict ≠ .accepted) <|
      fault .outputContract "rejected review cannot become a durable task acceptance"
    refuseIf (review.schemaVersion = .v11
        ∧ review.producerIdentity ≠ some task.contract.assignedRole) <|
      fault .roleConflict "review producer identity differs from the accepted task owner"
        [("task_id", .str result.taskId), ("expected", .str task.contract.assignedRole),
          ("received", .ofOption review.producerIdentity)]
    let results ← require (s.results.insert
      { id := resultId, runId, taskKey := result.taskId, payload := result, acceptedAt := now })
      .integrityError
    let acceptances ← require (s.acceptances.insert
      { id := acceptanceId, runId, taskKey := result.taskId, resultId, reviewPayload := review,
        acceptedAt := now }) .integrityError
    let s := { s with results := results, acceptances := acceptances }.moveTask task.id .accepted
    let s := s.addEvent runId "task.result_accepted" (some result.taskId)
    let s := (s.releaseDependents runId).completeRun runId
    return (s.snapshot run false, s)

end Store

/-- What a call is reserved with. -/
structure Reservation where
  invocationId : Uuid
  runId : Uuid
  taskAttemptId : String
  plannedCallId : String
  requestFingerprint : Digest PlannedRequest
  toolId : String
  toolVersion : String
  effectClass : EffectClass
  declaredEffects : List String
deriving DecidableEq

namespace Reservation

/-- The row a first reservation inserts. -/
def row (r : Reservation) : PlannedToolCallRow where
  id := r.invocationId
  runId := r.runId
  taskAttemptId := r.taskAttemptId
  plannedCallId := r.plannedCallId
  requestFingerprint := r.requestFingerprint
  toolId := r.toolId
  toolVersion := r.toolVersion
  effectClass := r.effectClass
  declaredEffects := r.declaredEffects
  state := .reserved

/-- The row was reserved with the same content. -/
def isOf (r : Reservation) (c : PlannedToolCallRow) : Prop :=
  c.id = r.invocationId ∧ c.requestFingerprint = r.requestFingerprint ∧ c.toolId = r.toolId
    ∧ c.toolVersion = r.toolVersion ∧ c.effectClass = r.effectClass
    ∧ c.declaredEffects = r.declaredEffects

instance (r : Reservation) (c : PlannedToolCallRow) : Decidable (r.isOf c) :=
  inferInstanceAs (Decidable (_ ∧ _))

end Reservation

namespace Store

/-- Rewrite one call of the journal. -/
def updateCall (s : Store) (id : Uuid) (f : PlannedToolCallRow → PlannedToolCallRow)
    (hf : ∀ c, Keyed.key (f c) = Keyed.key c) : Store :=
  { s with calls := s.calls.update (·.id = id) f hf }

/-- Reserve one accepted call, or replay its durable terminal result. -/
def reservePlannedCall (s : Store) (r : Reservation) :
    Except Raised (Option ToolResultEnvelope × Store) := do
  let _ ← s.requireRun r.runId
  match s.plannedCall? r.runId r.taskAttemptId r.plannedCallId with
  | none =>
    let calls ← require (s.calls.insert r.row) .integrityError
    return (none, { s with calls := calls })
  | some row =>
    refuseIf (¬ r.isOf row) <|
      fault .duplicateResult "planned call identity was reused for different content"
        [("run_id", .str r.runId.text), ("task_attempt_id", .str r.taskAttemptId),
          ("planned_call_id", .str r.plannedCallId)]
    if row.state = .settled .completed ∧ row.result ≠ none then return (row.result, s)
    refuseIf (row.state = .dispatching ∨ row.state = .settled .uncertain
        ∨ row.effectSettlement = some .uncertain) <|
      fault .runInterrupted "planned call has an unreconciled effect"
        [("planned_call_id", .str r.plannedCallId), ("state", .str row.state.value),
          ("effect_settlement", .ofOption (row.effectSettlement.map (·.value))),
          ("automatic_retry", .bool false)]
    if row.state.isRetryable then
      refuseIf (row.effectSettlement ≠ some .absent) <|
        fault .runInterrupted "planned call cannot be retried without absent-effect proof"
          [("planned_call_id", .str r.plannedCallId), ("automatic_retry", .bool false)]
      let s := s.updateCall row.id
        (fun c => { c with state := .reserved, effectSettlement := none, result := none })
        fun _ => rfl
      return (none, s.addEvent r.runId "tool.call_retry_reserved")
    return (none, s)

/-- Persist the crash boundary immediately before the adapter runs. -/
def markPlannedCallDispatching (s : Store) (invocationId : Uuid)
    (requestFingerprint : Digest PlannedRequest) : Except Raised (Unit × Store) := do
  let row ← require ((s.call? invocationId).filter (·.requestFingerprint = requestFingerprint)) <|
    fault .duplicateResult "planned call reservation differs"
  refuseIf (row.state ≠ .reserved) <|
    fault .revisionMismatch "planned call is not reserved for dispatch"
      [("state", .str row.state.value)]
  return ((), s.updateCall row.id (fun c => { c with state := .dispatching }) fun _ => rfl)

/-- Store the inspected terminal result of a call and the settlement of its effect. -/
def completePlannedCall (s : Store) (safe : ContentInspector) (invocationId : Uuid)
    (requestFingerprint : Digest PlannedRequest) (result : ToolResultEnvelope)
    (settlement : EffectSettlement) : Except Raised (ToolResultEnvelope × Store) := do
  requireSafeContent safe [.toolResult result]
  let row ← require ((s.call? invocationId).filter (·.requestFingerprint = requestFingerprint)) <|
    fault .duplicateResult "planned call reservation differs"
  match row.result with
  | some existing =>
    refuseIf (existing ≠ result ∨ row.effectSettlement ≠ some settlement) <|
      fault .duplicateResult "planned call completion differs from its durable result"
    return (existing, s)
  | none =>
    refuseIf (row.state ≠ .reserved ∧ row.state ≠ .dispatching) <|
      fault .revisionMismatch "planned call cannot accept a completion from its current state"
        [("state", .str row.state.value)]
    return (result, s.updateCall row.id (fun c => { c with
      state := .settled result.status, effectSettlement := some settlement, result := some result })
      fun _ => rfl)

end Store

end Mishkan
