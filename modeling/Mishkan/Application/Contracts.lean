import Mishkan.Domain.Errors

/-!
# Application/Contracts — the command and result envelopes

A command is one idempotent request to change authoritative state; its fingerprint is taken of
everything but its identity.  `dimensions` are the columns an event of a command is indexed by.
-/

namespace Mishkan

/-- One idempotent request to mutate authoritative application state. -/
structure ApplicationCommand where
  commandId : Uuid
  commandType : String
  actorId : String
  targetType : String
  targetId : Option String := none
  expectedRevision : Option Nat := none
  issuedAt : Instant
  payload : JsonObject := []
deriving DecidableEq

/-- The digest of a command's content, its identity left out and the members of its payload in key
order. -/
def ApplicationCommand.fingerprint (command : ApplicationCommand) : Digest ApplicationCommand where
  of := { command with
    commandId := 0
    payload := (Json.canonicalMembers command.payload).insertionSort (·.1 ≤ ·.1) }

inductive CommandStatus where
  | accepted | refused | duplicate
deriving DecidableEq

/-- The receipt of a command. -/
structure CommandResult where
  commandId : Uuid
  status : CommandStatus
  targetType : String
  targetId : Option String := none
  revision : Option Nat := none
  eventCursor : Option Nat := none
  payload : JsonObject := []
  error : Option MishkanError := none
  completedAt : Instant
deriving DecidableEq

/-- A refused receipt whose effect still has to be reconciled: the one state a receipt leaves. -/
def CommandResult.awaitsReconciliation (result : CommandResult) : Prop :=
  result.status = .refused ∧
    ∃ error ∈ result.error, ∃ v ∈ Json.lookup error.details "reconciliation_required", v.truthy

instance (result : CommandResult) : Decidable result.awaitsReconciliation :=
  inferInstanceAs (Decidable (_ ∧ _))

theorem CommandResult.awaitsReconciliation.status {result : CommandResult}
    (h : result.awaitsReconciliation) : result.status = .refused := h.1

/-! ## Event dimensions -/

/-- A member of the payload, or else of the request nested in it, when it is a non-empty string. -/
def ApplicationCommand.selected (command : ApplicationCommand) (name : String) : Option String :=
  let request : JsonObject :=
    match Json.lookup command.payload "request" with
    | some (.obj members) => members
    | _ => []
  match (Json.lookup command.payload name).or (Json.lookup request name) with
  | some (.str value) => if value = "" then none else some value
  | _ => none

/-- The run an event of the command belongs to. -/
def ApplicationCommand.runDimension (command : ApplicationCommand) (targetId : String) :
    Option String :=
  if command.targetType = "run" then some targetId else command.selected "run_id"

end Mishkan
