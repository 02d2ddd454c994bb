import Mishkan.Persistence.Rows

/-!
# Persistence/Store — the durable store both repositories write

One database holds the tables of the run repository and of the worker repository.  `OtherRows` are
the tables that other services own and the two repositories only read.

A lookup by unique columns is characterised by membership (`run?_eq_some`, `task?_eq_some`, …), so
the laws of the operations are stated with `∈` and never unfold a search.
-/

namespace Mishkan

open Table Keyed

/-! ## Tables of other services -/

structure WorkerIdentityRow where
  id : Uuid
  state : WorkerState
deriving DecidableEq

structure WorkerHeartbeatRow where
  workerId : Uuid
  payload : WorkerHeartbeat
  expiresAt : Instant
deriving DecidableEq

structure ArtifactRow where
  id : Uuid
  lifecycle : String
deriving DecidableEq

structure WorkerArtifactUploadRow where
  leaseId : Uuid
  workerId : Uuid
  artifactId : Option Uuid
  state : String
deriving DecidableEq

/-- A session row; `request` is `none` when its payload is not JSON. -/
structure ExecutionSessionRow where
  id : Uuid
  runId : Option Uuid
  state : String
  effectSettlement : Option String
  request : Option Json
deriving DecidableEq

structure BrowserSessionRow where
  id : Uuid
  runId : Uuid
  state : String
deriving DecidableEq

/-- An MCP call row; `request` is `none` when its payload is not JSON. -/
structure McpCallRow where
  id : Uuid
  state : String
  request : Option Json
deriving DecidableEq

/-- The rows the two repositories read and other services write. -/
structure OtherRows where
  workers : List WorkerIdentityRow := []
  heartbeats : List WorkerHeartbeatRow := []
  artifacts : List ArtifactRow := []
  uploads : List WorkerArtifactUploadRow := []
  executionSessions : List ExecutionSessionRow := []
  browserSessions : List BrowserSessionRow := []
  mcpCalls : List McpCallRow := []
deriving DecidableEq

/-! ## The store -/

/-- An entry of the event outbox. -/
structure RunEvent where
  aggregateId : Uuid
  eventType : String
  taskId : Option String := none
deriving DecidableEq

structure Store where
  runs : Table RunRow := ∅
  plans : Table PlanRow := ∅
  tasks : Table TaskRow := ∅
  calls : Table PlannedToolCallRow := ∅
  results : Table ResultRow := ∅
  acceptances : Table AcceptanceRow := ∅
  rejections : Table ReviewRejectionRow := ∅
  placements : Table RemoteTaskPlacementRow := ∅
  envelopes : Table RemoteTaskEnvelopeRow := ∅
  leases : Table WorkerLeaseRow := ∅
  completions : Table WorkerCompletionRow := ∅
  taskAcceptances : Table WorkerTaskAcceptanceRow := ∅
  outbox : List RunEvent := []
  others : OtherRows := {}

namespace Store

variable {s : Store}

/-- The store of a new database. -/
def empty : Store := {}

/-! ## Lookups by unique columns -/

def run? (s : Store) (id : Uuid) : Option RunRow := s.runs.find (·.id = id)

def plan? (s : Store) (runId : Uuid) : Option PlanRow := s.plans.find (·.runId = runId)

def task? (s : Store) (runId : Uuid) (taskKey : String) : Option TaskRow :=
  s.tasks.find fun t => t.runId = runId ∧ t.taskKey = taskKey

def taskRow? (s : Store) (id : Uuid) : Option TaskRow := s.tasks.find (·.id = id)

def call? (s : Store) (id : Uuid) : Option PlannedToolCallRow := s.calls.find (·.id = id)

def plannedCall? (s : Store) (runId : Uuid) (taskAttemptId plannedCallId : String) :
    Option PlannedToolCallRow :=
  s.calls.find fun c =>
    c.runId = runId ∧ c.taskAttemptId = taskAttemptId ∧ c.plannedCallId = plannedCallId

def result? (s : Store) (runId : Uuid) (taskKey : String) : Option ResultRow :=
  s.results.find fun r => r.runId = runId ∧ r.taskKey = taskKey

def acceptance? (s : Store) (runId : Uuid) (taskKey : String) : Option AcceptanceRow :=
  s.acceptances.find fun r => r.runId = runId ∧ r.taskKey = taskKey

def envelope? (s : Store) (id : Uuid) : Option RemoteTaskEnvelopeRow :=
  s.envelopes.find (·.id = id)

def lease? (s : Store) (id : Uuid) : Option WorkerLeaseRow := s.leases.find (·.id = id)

def completion? (s : Store) (id : Uuid) : Option WorkerCompletionRow :=
  s.completions.find (·.id = id)

def taskAcceptance? (s : Store) (taskRowId : Uuid) : Option WorkerTaskAcceptanceRow :=
  s.taskAcceptances.find (·.taskRowId = taskRowId)

variable {id : Uuid}

@[simp] theorem run?_eq_some {r : RunRow} : s.run? id = some r ↔ r ∈ s.runs ∧ r.id = id := by
  rw [run?, find_decide]
  simp +contextual [clash, key]

variable {runId : Uuid}

@[simp] theorem plan?_eq_some {r : PlanRow} :
    s.plan? runId = some r ↔ r ∈ s.plans ∧ r.runId = runId := by
  rw [plan?, find_decide]
  simp +contextual [clash, key]

@[simp] theorem task?_eq_some {taskKey : String} {t : TaskRow} :
    s.task? runId taskKey = some t ↔ t ∈ s.tasks ∧ t.runId = runId ∧ t.taskKey = taskKey := by
  rw [task?, find_decide]
  simp +contextual [clash, key]

@[simp] theorem taskRow?_eq_some {t : TaskRow} :
    s.taskRow? id = some t ↔ t ∈ s.tasks ∧ t.id = id := by
  rw [taskRow?, find_decide]
  simp +contextual [clash, key]

@[simp] theorem call?_eq_some {c : PlannedToolCallRow} :
    s.call? id = some c ↔ c ∈ s.calls ∧ c.id = id := by
  rw [call?, find_decide]
  simp +contextual [clash, key]

@[simp] theorem plannedCall?_eq_some {attempt call : String} {c : PlannedToolCallRow} :
    s.plannedCall? runId attempt call = some c ↔
      c ∈ s.calls ∧ c.runId = runId ∧ c.taskAttemptId = attempt ∧ c.plannedCallId = call := by
  rw [plannedCall?, find_decide]
  simp +contextual [clash, key]

@[simp] theorem envelope?_eq_some {e : RemoteTaskEnvelopeRow} :
    s.envelope? id = some e ↔ e ∈ s.envelopes ∧ e.id = id := by
  rw [envelope?, find_decide]
  simp +contextual [clash, key]

@[simp] theorem lease?_eq_some {l : WorkerLeaseRow} :
    s.lease? id = some l ↔ l ∈ s.leases ∧ l.id = id := by
  rw [lease?, find_decide]
  simp +contextual [clash, key]

@[simp] theorem completion?_eq_some {c : WorkerCompletionRow} :
    s.completion? id = some c ↔ c ∈ s.completions ∧ c.id = id := by
  rw [completion?, find_decide]
  simp +contextual [clash, key]

/-- A row of the runs is determined by its identifier. -/
theorem run_eq {r r' : RunRow} (hr : r ∈ s.runs) (hr' : r' ∈ s.runs) (h : r.id = r'.id) :
    r = r' := eq_of_clash hr hr' (by simp [clash, key, h])

theorem task_eq {t t' : TaskRow} (ht : t ∈ s.tasks) (ht' : t' ∈ s.tasks) (h : t.id = t'.id) :
    t = t' := eq_of_clash ht ht' (by simp [clash, key, h])

theorem task_eq_of_key {t t' : TaskRow} (ht : t ∈ s.tasks) (ht' : t' ∈ s.tasks)
    (hr : t.runId = t'.runId) (hk : t.taskKey = t'.taskKey) : t = t' :=
  eq_of_clash ht ht' (by simp [clash, key, hr, hk])

theorem envelope_eq {e e' : RemoteTaskEnvelopeRow} (he : e ∈ s.envelopes) (he' : e' ∈ s.envelopes)
    (h : e.id = e'.id) : e = e' := eq_of_clash he he' (by simp [clash, key, h])

theorem lease_eq_of_envelope {l l' : WorkerLeaseRow} (hl : l ∈ s.leases) (hl' : l' ∈ s.leases)
    (h : l.envelopeId = l'.envelopeId) : l = l' :=
  eq_of_clash hl hl' (by simp [clash, key, h])

/-! ## Writes -/

/-- Append an event to the outbox. -/
def addEvent (s : Store) (aggregateId : Uuid) (eventType : String)
    (taskId : Option String := none) : Store :=
  { s with outbox := s.outbox ++ [⟨aggregateId, eventType, taskId⟩] }

/-- Append one event for each of the given tasks. -/
def addEvents (s : Store) (aggregateId : Uuid) (eventType : String) (tasks : List TaskRow) :
    Store :=
  { s with outbox := s.outbox ++ tasks.map fun t => ⟨aggregateId, eventType, some t.taskKey⟩ }

/-- Move a run to a state and count the revision. -/
def moveRun (s : Store) (id : Uuid) (status : RunState) : Store :=
  { s with
    runs := s.runs.update (·.id = id)
      (fun r => { r with status := status, revision := r.revision + 1 }) fun _ => rfl }

/-- Move every task that matches to a state and count their revisions. -/
def moveTasks (s : Store) (p : TaskRow → Bool) (status : TaskState) : Store :=
  { s with
    tasks := s.tasks.update p
      (fun t => { t with status := status, revision := t.revision + 1 }) fun _ => rfl }

/-- Move one task to a state. -/
def moveTask (s : Store) (id : Uuid) (status : TaskState) : Store := s.moveTasks (·.id = id) status

/-- Move one task to a state and count an attempt. -/
def beginAttempt (s : Store) (id : Uuid) (status : TaskState) (attempt : Nat) : Store :=
  { s with
    tasks := s.tasks.update (·.id = id)
      (fun t => { t with
        status := status, attemptCount := attempt, revision := t.revision + 1 }) fun _ => rfl }

end Store

end Mishkan
