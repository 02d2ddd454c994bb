import Mishkan.Foundations.JsonText
import Mishkan.Foundations.Transition
import Mishkan.Mcp.Repository

/-!
# Mcp/Service — executions of a call and the notifications they receive

An execution of a call counts the cursors and the elicitations of the call in memory, from what is
recorded when it begins.  Its handlers of progress and elicitation notifications append to the
record; an elicitation is answered with the pre-authorized answer that is next.

The system of all executions over one repository is a step function; it keeps, beside the state, the
history of what was appended, answered and read.
-/

namespace Mishkan

open Refusal

/-! ## An execution -/

/-- The compact layout with sorted keys. -/
def canonicalStyle : JsonStyle where
  ascii := true
  padding := []
  sortKeys := true

/-- The configuration of the service, and what it uses. -/
structure McpEnvironment where
  /-- The hexadecimal SHA-256 of a text. -/
  sha256 : List Char → String
  /-- `inspect`: a text without the secrets it shows. -/
  inspect : String → List String → String
  /-- Whether a value meets a schema, and the schema is one. -/
  validates : JsonObject → JsonObject → Bool
  maxProgressEventsPerCall : Nat
  one_le_maxProgressEvents : 1 ≤ maxProgressEventsPerCall
  maxProgressMessageBytes : Nat

/-- What a server elicits: the fields of a form, or a visit to an address. -/
inductive ElicitRequestParams where
  | form (message : String) (requestedSchema : JsonObject)
  | url (message url elicitationId : String)

namespace ElicitRequestParams

def mode : ElicitRequestParams → String
  | .form .. => "form"
  | .url .. => "url"

def message : ElicitRequestParams → String
  | .form message _ => message
  | .url message _ _ => message

/-- `model_dump(mode="json", by_alias=True, exclude_none=True)`. -/
def payload : ElicitRequestParams → JsonObject
  | .form message schema =>
    [("mode", .str "form"), ("message", .str message), ("requestedSchema", .obj schema)]
  | .url message address elicitationId =>
    [("mode", .str "url"), ("message", .str message), ("url", .str address),
      ("elicitationId", .str elicitationId)]

end ElicitRequestParams

variable (env : McpEnvironment)

/-- The digest of a value in its canonical text. -/
def McpEnvironment.digest (value : Json) : String :=
  "sha256:" ++ env.sha256 (value.dumps canonicalStyle)

/-- `McpElicitationAnswer.request_hash`. -/
def requestHash (params : JsonObject) : String :=
  env.digest (.obj (["mode", "message", "requestedSchema", "url", "elicitationId"].filterMap
    fun key => (params.lookup key).map (key, ·)))

structure McpExecution where
  request : McpCallRequest
  /-- The values of the credentials. -/
  credentials : List String
  cursor : Nat
  elicitationSequence : Nat

/-- How an execution begins: its counters are read off the recorded progress. -/
def beginExecution (db : McpRepository) (request : McpCallRequest) (credentials : List String) :
    Except Raised McpExecution := do
  let existing ← db.progressAfter request.id 0 env.maxProgressEventsPerCall
  pure
    { request := request
      credentials := credentials
      cursor := (existing.getLast?.map (·.cursor + 1)).getD 0
      elicitationSequence := existing.countP (·.kind = .elicitation) }

/-- The validator of an event. -/
def McpProgressEvent.validate (event : McpProgressEvent) : Except Raised Unit := do
  refuseIf (event.progress.any (· < 0)) (.valueError "greater_than_equal")
  refuseIf (event.total.any (· ≤ 0)) (.valueError "greater_than")
  match event.kind with
  | .elicitation =>
    refuseIf (event.elicitationRequestHash = none ∨ event.elicitationMode = none ∨
        event.elicitationAction = none)
      (.valueError "MCP elicitation evidence requires request, mode, and action")
    refuseIf (event.progress ≠ none ∨ event.total ≠ none)
      (.valueError "MCP elicitation evidence cannot claim numeric progress")
  | .progress =>
    refuseIf (event.elicitationRequestHash ≠ none ∨ event.elicitationMode ≠ none ∨
        event.elicitationAction ≠ none ∨ event.elicitationContentHash ≠ none)
      (.valueError "ordinary MCP progress cannot carry elicitation evidence")

namespace McpExecution

variable (execution : McpExecution)

def boundedProgressMessage : Option String → Except Raised (Option String)
  | none => .ok none
  | some message => do
    let cleaned := env.inspect message execution.credentials
    refuseIf (env.maxProgressMessageBytes < cleaned.utf8ByteSize)
      (fault .mcp "MCP progress message exceeds its configured bound"
        [("byte_limit", .int env.maxProgressMessageBytes)])
    pure (some cleaned)

/-- The event of a progress notification. -/
def progressEvent (id : Uuid) (now : Instant) (value : Rat) (total : Option Rat)
    (message : Option String) : Except Raised McpProgressEvent := do
  let message ← execution.boundedProgressMessage env message
  let event : McpProgressEvent :=
    { id := id, requestId := execution.request.id, cursor := execution.cursor
      progress := some value, total := total, message := message, createdAt := now }
  event.validate
  pure event

/-- The answer that is next, if it was given to this very request. -/
def nextAnswer (params : ElicitRequestParams) : Option McpElicitationAnswer :=
  execution.request.elicitationAnswers.find? fun answer =>
    answer.sequence = execution.elicitationSequence ∧
      answer.expectedRequestHash = requestHash env params.payload

/-- `_validate_elicitation_content`, and that an address is acknowledged without content. -/
def answerError (params : ElicitRequestParams) (answer : McpElicitationAnswer) : Option Raised :=
  match params, answer.reply with
  | .form .., .accept none =>
    some (fault .toolSchema "accepted MCP form elicitation requires explicit content")
  | .form _ schema, .accept (some content) =>
    if env.validates schema content then none
    else some (fault .toolSchema "MCP elicitation answer differs from the server request schema")
  | .url .., .accept (some _) =>
    some (fault .toolSchema
      "MCP URL elicitation acknowledgement cannot carry in-band content")
  | .form .., .decline | .form .., .cancel | .url .., .accept none | .url .., .decline
  | .url .., .cancel => none

/-- The event of an elicitation. -/
def elicitationEvent (id : Uuid) (now : Instant) (params : ElicitRequestParams) :
    Except Raised McpProgressEvent := do
  let answer := execution.nextAnswer env params
  let message ← execution.boundedProgressMessage env (some params.message)
  let event : McpProgressEvent :=
    { id := id, requestId := execution.request.id, cursor := execution.cursor
      kind := .elicitation
      message := message
      elicitationRequestHash := some (requestHash env params.payload)
      elicitationMode := some params.mode
      elicitationAction := some
        (if (answer.bind (answerError env params)).isSome then .cancel
          else (answer.map (·.reply.action)).getD .decline)
      elicitationContentHash := (answer.bind (·.reply.content)).map (env.digest ∘ .obj)
      createdAt := now }
  event.validate
  pure event

end McpExecution

/-! ## The system -/

/-- Someone who polls the progress of a call behind the last event it has read. -/
structure McpReader where
  requestId : Uuid
  position : Nat := 0
  seen : List McpProgressEvent := []

structure McpSystem where
  repository : McpRepository := {}
  executions : List McpExecution := []
  /-- Every event that was appended, in order. -/
  log : List McpProgressEvent := []
  /-- The sequence of every answer that was taken, with its call, in order. -/
  used : List (Uuid × Nat) := []
  reader : McpReader

/-- What happens to the system.  An invocation that is refused before it is reserved is no action;
its pruning is an action of its own. -/
inductive McpAction where
  | invoke (bound : Bool) (request : McpCallRequest) (credentials : List String)
  | resumeRemoteTask (requestId : Uuid) (credentials : List String)
  | progress (execution : Nat) (id : Uuid) (now : Instant) (value : Rat) (total : Option Rat)
      (message : Option String)
  | elicitation (execution : Nat) (id : Uuid) (now : Instant) (params : ElicitRequestParams)
  | setCallState (requestId : Uuid) (state : McpCallState)
  | attachRemoteTask (requestId : Uuid) (remoteTaskId : String)
  | completeCall (result : McpCallResult)
  | pruneProgress (before : Instant) (batchSize : Int)
  | poll (limit : Int)

namespace McpSystem

variable (s : McpSystem)

/-- The history of a call. -/
def logOf (requestId : Uuid) : List McpProgressEvent := s.log.filter (·.requestId = requestId)

/-- The answers of a call that were taken. -/
def usedBy (requestId : Uuid) : List Nat := (s.used.filter (·.1 = requestId)).map Prod.snd

/-- An execution at a place, if it goes on. -/
def execution? (place : Nat) : Except Raised McpExecution :=
  require s.executions[place]? (.valueError "no execution")

/-- An execution has appended an event. -/
def append (place : Nat) (execution : McpExecution) (event : McpProgressEvent) :
    Except Raised McpSystem := do
  let repository ← s.repository.appendProgress event env.maxProgressEventsPerCall
  pure
    { s with
      repository := repository
      executions := s.executions.set place execution
      log := s.log ++ [event] }

/-- What an action does, or how it fails. -/
def perform : McpAction → Except Raised McpSystem
  | .invoke bound request credentials => do
    let ((created, _), repository) ← s.repository.reserveCall bound request
    refuseIf (created = false)
      (fault .duplicateResult "MCP call with this idempotency key is still in progress")
    let execution ← beginExecution env repository request credentials
    pure { s with repository := repository, executions := s.executions ++ [execution] }
  | .resumeRemoteTask requestId credentials => do
    let (request, _) ← s.repository.getRemoteTask requestId
    let execution ← beginExecution env s.repository request credentials
    pure { s with executions := s.executions ++ [execution] }
  | .progress place id now value total message => do
    let execution ← s.execution? place
    let event ← execution.progressEvent env id now value total message
    s.append env place { execution with cursor := execution.cursor + 1 } event
  | .elicitation place id now params => do
    let execution ← s.execution? place
    let event ← execution.elicitationEvent env id now params
    let s' ← s.append env place
      { execution with
        cursor := execution.cursor + 1
        elicitationSequence := execution.elicitationSequence + 1 } event
    let taken := (execution.nextAnswer env params).toList.map fun answer =>
      (execution.request.id, answer.sequence)
    pure { s' with used := s'.used ++ taken }
  | .setCallState requestId state => do
    let repository ← s.repository.setCallState requestId state
    pure { s with repository := repository }
  | .attachRemoteTask requestId remoteTaskId => do
    let repository ← s.repository.attachRemoteTask requestId remoteTaskId
    pure { s with repository := repository }
  | .completeCall result => do
    let (_, repository) ← s.repository.completeCall result
    pure { s with repository := repository }
  | .pruneProgress before batchSize => do
    let (_, repository) ← s.repository.pruneProgress before batchSize
    pure { s with repository := repository }
  | .poll limit => do
    let page ← s.repository.progressAfter s.reader.requestId s.reader.position limit
    pure
      { s with
        reader :=
          { s.reader with
            position := (page.getLast?.map (·.cursor + 1)).getD s.reader.position
            seen := s.reader.seen ++ page } }

/-- An action that fails changes nothing. -/
def step (action : McpAction) : McpSystem :=
  match s.perform env action with
  | .ok s' => s'
  | .error _ => s

end McpSystem

end Mishkan
