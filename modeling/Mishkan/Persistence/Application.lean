import Mishkan.Events.Models
import Mishkan.Foundations.Refusal

/-!
# Persistence/Application — the command ledger and the event stream

The tables are those of one database: receipts by command identity, aggregate revisions by target,
the outbox, holds and retention plans; the run table belongs to another repository and is read here.
Every function is one transaction: it returns with the tables it leaves, or raises and leaves
none.  The four ways to accept a command share one tail, `acceptCommand`.
-/

namespace Mishkan

open Refusal

/-! ## Rows -/

/-- A receipt: the columns of the command it was written for, and its result. -/
structure CommandRow where
  commandId : Uuid
  fingerprint : Digest ApplicationCommand
  commandType : String
  actorId : String
  targetType : String
  targetId : Option String
  expectedRevision : Option Nat
  issuedAt : Instant
  status : CommandStatus
  result : CommandResult
  eventCursor : Option Nat
  completedAt : Instant
deriving DecidableEq

instance : Keyed CommandRow := .ofKey CommandRow.commandId

/-- The receipt a command gets with a result. -/
def CommandRow.of (command : ApplicationCommand) (result : CommandResult) : CommandRow where
  commandId := command.commandId
  fingerprint := command.fingerprint
  commandType := command.commandType
  actorId := command.actorId
  targetType := command.targetType
  targetId := result.targetId
  expectedRevision := command.expectedRevision
  issuedAt := command.issuedAt
  status := result.status
  result := result
  eventCursor := result.eventCursor
  completedAt := result.completedAt

/-- Settle a reserved receipt; the columns of its command stay. -/
def CommandRow.settle (row : CommandRow) (result : CommandResult) : CommandRow :=
  { row with
    status := result.status
    result := result
    eventCursor := result.eventCursor
    completedAt := result.completedAt }

theorem CommandRow.settle_key (result : CommandResult) (row : CommandRow) :
    Keyed.key (row.settle result) = Keyed.key row := rfl

structure AggregateRevisionRow where
  entityType : String
  entityId : String
  revision : Nat
deriving DecidableEq

instance : Keyed AggregateRevisionRow := .ofKey fun r => (r.entityType, r.entityId)

theorem AggregateRevisionRow.key_setRevision (next : Nat) (r : AggregateRevisionRow) :
    Keyed.key { r with revision := next } = Keyed.key r := rfl

/-- The row is the aggregate's. -/
def AggregateRevisionRow.isOf (targetType targetId : String) (r : AggregateRevisionRow) : Bool :=
  r.entityType = targetType ∧ r.entityId = targetId

structure ApplicationStore where
  commands : Table CommandRow
  revisions : Table AggregateRevisionRow
  outbox : Log OutboxRow
  holds : Table EventHoldRow
  plans : Table EventRetentionPlanRow
  runs : Table RunRow
deriving DecidableEq

/-- A new database. -/
def ApplicationStore.empty : ApplicationStore := ⟨∅, ∅, ∅, ∅, ∅, ∅⟩

/-! ## Arguments -/

/-- The identifier a transaction draws for its event, and the clock it reads. -/
structure Draw where
  eventId : Uuid
  now : Instant
deriving DecidableEq

/-- What a caller says about the event of an accepted command. -/
structure CommandEvent where
  targetId : String
  eventType : String
  source : String := "mishkan.application"
  sensitivity : String := "internal"
deriving DecidableEq

/-- What a caller's mutation does in the session: the payloads it returns, the events it appends and
the rows it leaves in the tables of other repositories. -/
structure Mutated where
  resultPayload : JsonObject
  eventPayload : JsonObject
  events : List OutboxRow := []
  runs : Table RunRow

/-- A mutation reads the session and the revision it runs under; it may raise. -/
abbrev Mutation := ApplicationStore → Nat → Except Raised Mutated

/-- The event of a command. -/
def ApplicationCommand.event (command : ApplicationCommand)
    (targetId eventType source sensitivity : String) (payload : JsonObject) (draw : Draw) :
    OutboxRow where
  id := draw.eventId
  aggregateId := targetId
  entityType := command.targetType
  runId := command.runDimension targetId
  taskId := command.selected "task_id"
  identityId := some command.actorId
  teamId := command.selected "team_id"
  securityRelevant := sensitivity = "security"
  eventType := eventType
  source := source
  payload := payload
  occurredAt := draw.now
  commandId := some command.commandId
  correlationId := some command.commandId
  sensitivity := sensitivity

namespace ApplicationStore

/-! ## The steps transactions are made of -/

/-- The receipt of a command identity. -/
def command? (s : ApplicationStore) (id : Uuid) : Option CommandRow :=
  s.commands.find (·.commandId = id)

/-- The stored result, for the content it was stored for. -/
def existing (row : CommandRow) (command : ApplicationCommand) : Except Raised CommandResult := do
  refuseIf (row.fingerprint ≠ command.fingerprint) <|
    fault .duplicateResult "command identity was already used for different content"
      [("command_id", .str command.commandId.text)]
  return row.result

/-- The revision of an aggregate; one that was never accepted for has revision zero. -/
def revision (s : ApplicationStore) (targetType targetId : String) : Nat :=
  ((s.revisions.find (AggregateRevisionRow.isOf targetType targetId)).map (·.revision)).getD 0

/-- Refuse a command that expects another revision than the current one. -/
def requireRevision (s : ApplicationStore) (command : ApplicationCommand) (targetId : String)
    (message : String) (details : JsonObject := []) : Except Raised Unit :=
  refuseIf (∃ expected ∈ command.expectedRevision,
      expected ≠ s.revision command.targetType targetId) <|
    fault .revisionMismatch message <|
      [("target_type", .str command.targetType), ("target_id", .str targetId),
        ("expected", (command.expectedRevision.map fun n => Json.int n).getD .null),
        ("current", .int (s.revision command.targetType targetId))] ++ details

/-- Set the revision of an aggregate, inserting its row the first time. -/
def setRevision (s : ApplicationStore) (targetType targetId : String) (next : Nat) :
    Except Raised ApplicationStore :=
  match s.revisions.find (AggregateRevisionRow.isOf targetType targetId) with
  | none => do
    let revisions ← require (s.revisions.insert ⟨targetType, targetId, next⟩) .integrityError
    return { s with revisions := revisions }
  | some _ =>
    return { s with
      revisions := s.revisions.update (AggregateRevisionRow.isOf targetType targetId)
        (fun r => { r with revision := next }) (AggregateRevisionRow.key_setRevision next) }

/-- Append an event, unless its identifier is taken; the database issues its cursor. -/
def addEvent (s : ApplicationStore) (row : OutboxRow) : Except Raised ApplicationStore := do
  refuseIf (∃ e ∈ s.outbox.entries, e.value.id = row.id) .integrityError
  return { s with outbox := s.outbox.append row }

/-- Append events one by one. -/
def addEvents (s : ApplicationStore) : List OutboxRow → Except Raised ApplicationStore
  | [] => return s
  | row :: rows => do (← s.addEvent row).addEvents rows

/-- Insert the receipt of a command. -/
def insertReceipt (s : ApplicationStore) (command : ApplicationCommand) (result : CommandResult) :
    Except Raised ApplicationStore := do
  let commands ← require (s.commands.insert (.of command result)) .integrityError
  return { s with commands := commands }

/-- Settle the receipt of a command. -/
def settleReceipt (s : ApplicationStore) (result : CommandResult) : ApplicationStore :=
  { s with
    commands := s.commands.update (·.commandId = result.commandId) (·.settle result)
      (CommandRow.settle_key result) }

/-- The shared tail of an acceptance: the next revision, the event, and the result that names
both. -/
def acceptCommand (s : ApplicationStore) (command : ApplicationCommand) (event : CommandEvent)
    (resultPayload eventPayload : JsonObject) (next : Nat) (draw : Draw) :
    Except Raised (CommandResult × ApplicationStore) := do
  let s ← s.setRevision command.targetType event.targetId next
  let s ← s.addEvent <| command.event event.targetId event.eventType event.source event.sensitivity
    eventPayload draw
  let result : CommandResult := {
    commandId := command.commandId
    status := .accepted
    targetType := command.targetType
    targetId := some event.targetId
    revision := some next
    eventCursor := some s.outbox.issued
    payload := resultPayload
    completedAt := draw.now }
  return (result, s)

/-- The result of a refusal that an event was written for. -/
def refusal (s : ApplicationStore) (command : ApplicationCommand) (targetId : String)
    (error : MishkanError) (draw : Draw) : CommandResult where
  commandId := command.commandId
  status := .refused
  targetType := command.targetType
  targetId := some targetId
  eventCursor := some s.outbox.issued
  error := some error
  completedAt := draw.now

/-- After an integrity error the transaction is rolled back and the receipt read once more. -/
def afterIntegrityError (s : ApplicationStore) (command : ApplicationCommand) (message : String) :
    Except Raised (CommandResult × ApplicationStore) →
      Except Raised (CommandResult × ApplicationStore)
  | .error .integrityError =>
    match s.command? command.commandId with
    | some row => do return (← existing row command, s)
    | none => throw (fault .duplicateResult message)
  | outcome => outcome

/-! ## The ledger -/

/-- Persist one idempotent typed refusal without advancing the target revision. -/
def refuse (s : ApplicationStore) (command : ApplicationCommand) (targetId : String)
    (error : MishkanError) (eventPayload : JsonObject) (draw : Draw) :
    Except Raised (CommandResult × ApplicationStore) :=
  match s.command? command.commandId with
  | some row => do return (← existing row command, s)
  | none => do
    let s ← s.addEvent <| command.event targetId "application.command_refused" "mishkand.policy"
      "security" eventPayload draw
    let result := s.refusal command targetId error draw
    return (result, ← s.insertReceipt command result)

/-- Accept a command: its revision, its event and its receipt. -/
def accept (s : ApplicationStore) (command : ApplicationCommand) (event : CommandEvent)
    (resultPayload eventPayload : JsonObject) (draw : Draw) :
    Except Raised (CommandResult × ApplicationStore) :=
  s.afterIntegrityError command "application command could not be committed uniquely" <|
    match s.command? command.commandId with
    | some row => do return (← existing row command, s)
    | none => do
      s.requireRevision command event.targetId
        "application command expected a stale aggregate revision"
      let next := s.revision command.targetType event.targetId + 1
      let (result, s) ← s.acceptCommand command event resultPayload eventPayload next draw
      return (result, ← s.insertReceipt command result)

/-- Commit a state mutation, aggregate revision, event and receipt together. -/
def acceptWithMutation (s : ApplicationStore) (command : ApplicationCommand) (event : CommandEvent)
    (mutation : Mutation) (draw : Draw) : Except Raised (CommandResult × ApplicationStore) :=
  s.afterIntegrityError command "application command mutation could not be committed uniquely" <|
    match s.command? command.commandId with
    | some row => do return (← existing row command, s)
    | none => do
      s.requireRevision command event.targetId
        "application command expected a stale aggregate revision"
      let next := s.revision command.targetType event.targetId + 1
      let mutated ← mutation s next
      let s ← { s with runs := mutated.runs }.addEvents mutated.events
      let (result, s) ←
        s.acceptCommand command event mutated.resultPayload mutated.eventPayload next draw
      return (result, ← s.insertReceipt command result)

/-- Durably reserve an effectful command before executing it: the receipt of an interruption, which
a crash leaves standing. -/
def reserve (s : ApplicationStore) (command : ApplicationCommand) (targetId : String)
    (now : Instant) : Except Raised (Option CommandResult × ApplicationStore) :=
  match s.command? command.commandId with
  | some row => do return (some (← existing row command), s)
  | none => do
    s.requireRevision command targetId "application command expected a stale aggregate revision"
    let interrupted : MishkanError := {
      code := .runInterrupted
      message := "command was interrupted before its effect could be accepted"
      details := [("command_id", .str command.commandId.text),
        ("reconciliation_required", .bool true), ("automatic_retry", .bool false)] }
    let result : CommandResult := {
      commandId := command.commandId
      status := .refused
      targetType := command.targetType
      targetId := some targetId
      error := some interrupted
      completedAt := now }
    return (none, ← s.insertReceipt command result)

/-- Atomically accept one reserved command, its revision and its event. -/
def completeReserved (s : ApplicationStore) (command : ApplicationCommand) (event : CommandEvent)
    (resultPayload eventPayload : JsonObject) (draw : Draw) :
    Except Raised (CommandResult × ApplicationStore) := do
  let row ← require (s.command? command.commandId) <|
    fault .runInterrupted "command was not reserved"
  let current ← existing row command
  if current.status = .accepted then return (current, s)
  if ¬ current.awaitsReconciliation then return (current, s)
  s.requireRevision command event.targetId
    "aggregate revision changed while command effect was executing"
    [("effect_reconciliation_required", .bool true)]
  let next := s.revision command.targetType event.targetId + 1
  let (result, s) ← s.acceptCommand command event resultPayload eventPayload next draw
  return (result, s.settleReceipt result)

/-- Atomically settle a reserved command without accepting its effect. -/
def failReserved (s : ApplicationStore) (command : ApplicationCommand) (targetId : String)
    (error : MishkanError) (eventPayload : JsonObject) (sensitivity : String) (draw : Draw) :
    Except Raised (CommandResult × ApplicationStore) := do
  let row ← require (s.command? command.commandId) <|
    fault .runInterrupted "command was not reserved"
  refuseIf (row.fingerprint ≠ command.fingerprint) <|
    fault .duplicateResult "command identity was already used for different content"
  if ¬ row.result.awaitsReconciliation then return (row.result, s)
  let s ← s.addEvent <| command.event targetId "application.command_effect_unaccepted" "mishkand"
    sensitivity (Json.merge [("command_type", .str command.commandType),
      ("error_code", .str error.code.value)] eventPayload) draw
  let result := s.refusal command targetId error draw
  return (result, s.settleReceipt result)

end ApplicationStore
end Mishkan
