import Mishkan.Domain.Errors
import Mishkan.Foundations.Numbered
import Mishkan.Foundations.Refusal

/-!
# Mcp/Repository — calls of MCP primitives and the progress that is recorded of them

A call is reserved under an idempotency key, moves along `McpCallState.transitions` and is completed
once.  While it is not, events of its progress are appended under cursors; retention removes old
events of all calls.
-/

namespace Mishkan

open Refusal

/-! ## Calls -/

inductive McpCallState where
  | reserved | dispatching | running | cancelRequested | completed | failed | cancelled | lost
  | uncertain
deriving DecidableEq

def McpCallState.value : McpCallState → String
  | .reserved => "reserved"
  | .dispatching => "dispatching"
  | .running => "running"
  | .cancelRequested => "cancel_requested"
  | .completed => "completed"
  | .failed => "failed"
  | .cancelled => "cancelled"
  | .lost => "lost"
  | .uncertain => "uncertain"

def McpCallState.transitions : McpCallState → List McpCallState
  | .reserved => [.dispatching, .cancelRequested, .cancelled, .failed]
  | .dispatching => [.running, .cancelRequested, .completed, .failed, .lost, .uncertain]
  | .running => [.cancelRequested, .completed, .failed, .lost, .uncertain]
  | .cancelRequested => [.cancelled, .completed, .failed, .lost, .uncertain]
  | .completed | .failed | .cancelled | .lost | .uncertain => []

def finalCallStates : List McpCallState := [.completed, .failed, .cancelled, .lost, .uncertain]

/-- What an elicitation is answered with: only an acceptance carries content. -/
inductive McpElicitationReply where
  | accept (content : Option JsonObject)
  | decline
  | cancel
deriving DecidableEq

inductive McpElicitationAction where
  | accept | decline | cancel
deriving DecidableEq

def McpElicitationReply.action : McpElicitationReply → McpElicitationAction
  | .accept _ => .accept
  | .decline => .decline
  | .cancel => .cancel

def McpElicitationReply.content : McpElicitationReply → Option JsonObject
  | .accept content => content
  | .decline | .cancel => none

/-- One pre-authorized answer bound to an exact normalized server request. -/
structure McpElicitationAnswer where
  sequence : Nat
  expectedRequestHash : String
  reply : McpElicitationReply
deriving DecidableEq

/-- The fields of a request. -/
structure McpCallFields where
  id : Uuid
  idempotencyKey : Uuid
  connectionId : String
  primitiveName : String
  expectedSchemaHash : String
  elicitationAnswers : List McpElicitationAnswer := []
  /-- The other fields, as they are written. -/
  content : Json := .null
deriving DecidableEq

/-- A request, whose answers use contiguous ordered sequences. -/
structure McpCallRequest extends McpCallFields where
  sequencesContiguous :
    elicitationAnswers.map (·.sequence) = List.range elicitationAnswers.length

theorem McpCallRequest.ext_fields {a b : McpCallRequest}
    (h : a.toMcpCallFields = b.toMcpCallFields) : a = b := by
  cases a
  cases b
  cases h
  rfl

theorem McpCallRequest.fields_iff {a b : McpCallRequest} :
    a.toMcpCallFields = b.toMcpCallFields ↔ a = b :=
  ⟨McpCallRequest.ext_fields, fun h => h ▸ rfl⟩

instance : DecidableEq McpCallRequest := fun _ _ => decidable_of_iff _ McpCallRequest.fields_iff

structure McpCallResult where
  requestId : Uuid
  connectionId : String
  primitiveName : String
  state : McpCallState
  remoteTaskId : Option String := none
  /-- The other fields, as they are written. -/
  content : Json := .null
deriving DecidableEq

structure McpCallEntry where
  id : Uuid
  idempotencyKey : Uuid
  requestFingerprint : Digest McpCallRequest
  state : McpCallState
  request : McpCallRequest
  result : Option McpCallResult := none
  remoteTaskId : Option String := none

/-! ## Progress -/

inductive McpProgressKind where
  | progress | elicitation
deriving DecidableEq

structure McpProgressEvent where
  id : Uuid
  requestId : Uuid
  cursor : Nat
  kind : McpProgressKind := .progress
  progress : Option Rat := none
  total : Option Rat := none
  message : Option String := none
  elicitationRequestHash : Option String := none
  elicitationMode : Option String := none
  elicitationAction : Option McpElicitationAction := none
  elicitationContentHash : Option String := none
  createdAt : Instant
deriving DecidableEq

/-! ## The repository -/

/-- What the database has of MCP calls, each table in the order it was written. -/
structure McpRepository where
  calls : List McpCallEntry := []
  progress : List McpProgressEvent := []

namespace McpRepository

variable (db : McpRepository)

def call? (requestId : Uuid) : Option McpCallEntry := db.calls.find? (·.id = requestId)

/-- Rewrite the row of a call. -/
def updateCall (requestId : Uuid) (change : McpCallEntry → McpCallEntry) : McpRepository :=
  { db with calls := db.calls.map fun row => if row.id = requestId then change row else row }

/-- `reserve_call`: whether the call is new, its recorded result otherwise.  `bound` says whether
the primitive of the request is among those discovered. -/
def reserveCall (bound : Bool) (request : McpCallRequest) :
    Except Raised ((Bool × Option McpCallResult) × McpRepository) := do
  match db.calls.find? (·.idempotencyKey = request.idempotencyKey) with
  | some row =>
    refuseIf (row.requestFingerprint ≠ ⟨request⟩)
      (fault .duplicateResult "MCP idempotency key has different request content")
    pure ((false, row.result), db)
  | none =>
    refuseIf (bound = false) (fault .toolDrift "bound MCP primitive is unavailable")
    refuseIf (db.call? request.id).isSome .integrityError
    let row : McpCallEntry :=
      { id := request.id, idempotencyKey := request.idempotencyKey, requestFingerprint := ⟨request⟩
        state := .reserved, request := request }
    pure ((true, none), { db with calls := db.calls ++ [row] })

def setCallState (requestId : Uuid) (state : McpCallState) : Except Raised McpRepository := do
  let row ← require ((db.call? requestId).filter (·.result = none))
    (fault .mcp "MCP call cannot change state")
  refuseIf (state ∉ row.state.transitions)
    (fault .revisionMismatch "MCP call transition is not permitted"
      [("current", .str row.state.value), ("requested", .str state.value)])
  pure (db.updateCall requestId fun row => { row with state := state })

def attachRemoteTask (requestId : Uuid) (remoteTaskId : String) : Except Raised McpRepository := do
  refuseIf (remoteTaskId = "") (fault .mcp "remote MCP task identity is empty")
  let row ← require ((db.call? requestId).filter (·.result = none))
    (fault .mcp "MCP call cannot bind a remote task")
  refuseIf (row.state ∉ [McpCallState.dispatching, .running, .cancelRequested])
    (fault .revisionMismatch "MCP call is not dispatching")
  refuseIf (row.remoteTaskId ≠ none ∧ row.remoteTaskId ≠ some remoteTaskId)
    (fault .duplicateResult "MCP remote task identity changed")
  pure (db.updateCall requestId fun row => { row with remoteTaskId := some remoteTaskId })

/-- `get_remote_task`: the request and the remote task of a call that can be resumed. -/
def getRemoteTask (requestId : Uuid) : Except Raised (McpCallRequest × String) := do
  let row ← require ((db.call? requestId).filter (·.result = none))
    (fault .mcp "recoverable MCP remote task does not exist")
  let remoteTaskId ← require row.remoteTaskId
    (fault .mcp "recoverable MCP remote task does not exist")
  pure (row.request, remoteTaskId)

def completeCall (result : McpCallResult) : Except Raised (McpCallResult × McpRepository) := do
  let row ← require (db.call? result.requestId) (fault .mcp "MCP call reservation is missing")
  match row.result with
  | some existing =>
    refuseIf (existing ≠ result) (fault .duplicateResult "MCP completion differs")
    pure (existing, db)
  | none =>
    refuseIf (row.request.connectionId ≠ result.connectionId ∨
        row.request.primitiveName ≠ result.primitiveName)
      (fault .mcp "MCP result identity differs from request")
    refuseIf (row.remoteTaskId ≠ none ∧ result.remoteTaskId ≠ row.remoteTaskId)
      (fault .mcp "MCP result remote task identity differs")
    refuseIf (result.state ∉ finalCallStates) (fault .mcp "MCP completion state is not final")
    refuseIf (result.state ∉ row.state.transitions)
      (fault .revisionMismatch "MCP completion transition is not permitted")
    pure (result, db.updateCall result.requestId fun row =>
      { row with
        state := result.state, result := some result, remoteTaskId := result.remoteTaskId })

/-! ### The progress of a call -/

/-- The recorded progress of a call. -/
def progressOf (requestId : Uuid) : List McpProgressEvent :=
  db.progress.filter (·.requestId = requestId)

def appendProgress (event : McpProgressEvent) (maxEvents : Nat) : Except Raised McpRepository := do
  refuseIf (maxEvents < 1) (fault .outputContract "MCP progress bound is invalid")
  let call ← require (db.call? event.requestId) (fault .mcp "MCP progress call does not exist")
  refuseIf (call.result ≠ none ∨ call.state ∈ finalCallStates)
    (fault .mcp "completed MCP call rejects progress")
  let expected := Numbered.next (·.cursor) (db.progressOf event.requestId)
  refuseIf (event.cursor ≠ expected) (fault .revisionMismatch "MCP progress cursor is not next")
  refuseIf (maxEvents ≤ expected)
    (fault .mcp "MCP progress exceeds its configured per-call bound"
      [("event_limit", .int maxEvents)])
  pure { db with progress := db.progress ++ [event] }

def progressAfter (requestId : Uuid) (cursor limit : Int) :
    Except Raised (List McpProgressEvent) := do
  refuseIf (cursor < 0 ∨ limit < 1) (fault .outputContract "MCP progress cursor is invalid")
  pure (Numbered.page (·.cursor) (db.progressOf requestId) cursor.toNat limit.toNat)

/-- The events retention removes: the oldest ones from before an instant, and of equal age those
that stand first in the table. -/
def prunable (before : Instant) (batchSize : Nat) : List McpProgressEvent :=
  ((db.progress.filter (·.createdAt < before)).insertionSort
    fun a b => a.createdAt ≤ b.createdAt).take batchSize

/-- `prune_progress`: how many events were removed. -/
def pruneProgress (before : Instant) (batchSize : Int) : Except Raised (Nat × McpRepository) := do
  refuseIf (batchSize < 1) (fault .outputContract "MCP progress retention bound is invalid")
  let identities := (db.prunable before batchSize.toNat).map fun e => (e.requestId, e.cursor)
  pure (identities.length,
    { db with progress := db.progress.filter fun e => (e.requestId, e.cursor) ∉ identities })

end McpRepository

end Mishkan
