import Mishkan.Application.Contracts
import Mishkan.Foundations.Log
import Mishkan.Persistence.Rows

/-!
# Events/Models — the durable event stream, its holds and its retention plans

An event of the outbox is a record of a `Log`: the cursor column is issued by the database and
never reused.  What a client reads is an `EventEnvelope`, validated field by field.
-/

namespace Mishkan

/-! ## Events -/

/-- A row of the outbox, its cursor aside. -/
structure OutboxRow where
  id : Uuid
  schemaVersion : String := "1.0"
  aggregateId : String
  entityType : String
  runId : Option String := none
  taskId : Option String := none
  identityId : Option String := none
  teamId : Option String := none
  securityRelevant : Bool := false
  eventType : String
  source : String
  payload : JsonObject := []
  occurredAt : Instant
  commandId : Option Uuid := none
  correlationId : Option Uuid := none
  causationId : Option Uuid := none
  sensitivity : String := "internal"
deriving DecidableEq

/-- An event as a client reads it. -/
structure EventEnvelope where
  cursor : Nat
  event : OutboxRow
deriving DecidableEq

/-- `^[a-z][a-z0-9_.-]{2,127}$` -/
def isEventType (text : String) : Bool :=
  match text.toList with
  | [] => false
  | first :: rest => first.isLower && decide (2 ≤ rest.length) && decide (rest.length ≤ 127)
      && rest.all fun c => c.isLower || c.isDigit || c = '_' || c = '.' || c = '-'

/-- The text has between one and `bound` characters. -/
def isBounded (text : String) (bound : Nat) : Bool :=
  decide (1 ≤ text.length) && decide (text.length ≤ bound)

/-- Every field of the envelope is in its bounds. -/
def OutboxRow.isEnvelope (row : OutboxRow) : Bool :=
  isEventType row.eventType && isBounded row.source 128 && isBounded row.entityType 64
    && isBounded row.aggregateId 256
    && [row.runId, row.taskId, row.identityId, row.teamId].all (·.all (isBounded · 256))
    && isBounded row.sensitivity 32

structure EventPage where
  afterCursor : Nat
  nextCursor : Nat
  retainedFromCursor : Nat
  events : List EventEnvelope
deriving DecidableEq

/-! ## Holds -/

inductive EventHoldScope where
  | all | run | event
deriving DecidableEq

/-- A hold: all events, those of a run or one event, by the text of its identifier. -/
structure EventHoldRow where
  id : Uuid
  scope : EventHoldScope
  scopeId : Option String
  reason : String
  actorId : String
  createdAt : Instant
  releasedAt : Option Instant := none
deriving DecidableEq

instance : Keyed EventHoldRow := .ofKey EventHoldRow.id

/-- A hold is validated: an all-events hold names no target, a targeted one names its own. -/
def EventHoldRow.isValid (row : EventHoldRow) : Bool :=
  isBounded row.reason 2048 && isBounded row.actorId 256
    && row.scopeId.all (isBounded · 256)
    && (if row.scope = .all then row.scopeId.isNone else row.scopeId.isSome)

/-! ## Retention -/

/-- The public policy snapshot retention candidates are selected by. -/
structure EventRetentionPolicy where
  maxAgeDays : Nat
  batchSize : Nat
  age_bounds : 1 ≤ maxAgeDays ∧ maxAgeDays ≤ 36500
  batch_bounds : 1 ≤ batchSize ∧ batchSize ≤ 1000
deriving DecidableEq

def EventRetentionPolicy.fingerprint (policy : EventRetentionPolicy) :
    Digest EventRetentionPolicy := ⟨policy⟩

inductive EventRetentionPlanState where
  | planned | applied
deriving DecidableEq

structure EventRetentionPlanRow where
  id : Uuid
  policy : EventRetentionPolicy
  policyFingerprint : Digest EventRetentionPolicy
  cutoff : Instant
  /-- The identifier and the cursor of each candidate. -/
  candidates : List (Uuid × Nat)
  state : EventRetentionPlanState := .planned
  deletedCount : Nat := 0
  createdAt : Instant
  appliedAt : Option Instant := none
deriving DecidableEq

instance : Keyed EventRetentionPlanRow := .ofKey EventRetentionPlanRow.id

end Mishkan
