import Mishkan.Persistence.Application

/-!
# Persistence/EventStream — reading the outbox, holding events and deleting old ones

`events` serves a page after a client's cursor and raises when the cursor lies behind the oldest
event still there.  Retention deletes in two transactions: a plan stores the candidates a policy
selects, and its application deletes those of them that are still eligible.  A hold or an incomplete
run protects its events, wherever in the stream they are.
-/

namespace Mishkan

open Refusal

/-- One day. -/
def day : Instant := 86400 * second

/-- The filters of an event query. -/
structure EventFilter where
  eventTypes : List String := []
  entityType : Option String := none
  entityId : Option String := none
  runId : Option String := none
  taskId : Option String := none
  identityId : Option String := none
  teamId : Option String := none
  occurredAfter : Option Instant := none
  occurredBefore : Option Instant := none
  securityRelevant : Option Bool := none
deriving DecidableEq

/-- The row passes every filter that is set. -/
def EventFilter.accepts (filter : EventFilter) (row : OutboxRow) : Bool :=
  (filter.eventTypes.isEmpty || filter.eventTypes.contains row.eventType)
    && filter.entityType.all (· = row.entityType) && filter.entityId.all (· = row.aggregateId)
    && filter.runId.all (some · = row.runId) && filter.taskId.all (some · = row.taskId)
    && filter.identityId.all (some · = row.identityId) && filter.teamId.all (some · = row.teamId)
    && filter.occurredAfter.all (· ≤ row.occurredAt)
    && filter.occurredBefore.all (row.occurredAt ≤ ·)
    && filter.securityRelevant.all (· = row.securityRelevant)

@[simp] theorem EventFilter.accepts_default (row : OutboxRow) :
    EventFilter.accepts {} row = true := by simp [EventFilter.accepts]

namespace ApplicationStore

/-! ## Reading -/

/-- The cursor of the oldest event still there, or zero. -/
def retainedFrom (s : ApplicationStore) : Nat :=
  ((s.outbox.entries.map (·.cursor)).min?).getD 0

/-- Read a row as an envelope, field by field. -/
def envelope (row : Stamped OutboxRow) : Except Raised EventEnvelope := do
  refuseIf (¬ row.value.isEnvelope) (.valueError "event envelope field is out of bounds")
  return { cursor := row.cursor, event := row.value }

/-- The client's cursor lies behind the oldest event still there. -/
def isBehind (s : ApplicationStore) (afterCursor : Nat) : Prop :=
  s.retainedFrom ≠ 0 ∧ afterCursor ≠ 0 ∧ afterCursor < s.retainedFrom - 1

instance (s : ApplicationStore) (afterCursor : Nat) : Decidable (s.isBehind afterCursor) :=
  inferInstanceAs (Decidable (_ ∧ _))

/-- The page of at most `limit` events after a cursor. -/
def events (s : ApplicationStore) (afterCursor : Nat) (limit : Int) (filter : EventFilter := {}) :
    Except Raised EventPage := do
  refuseIf (limit < 1 ∨ limit > 1000) <|
    fault .outputContract "event query limit is outside the supported bound"
      [("limit", .int limit), ("minimum", .int 1), ("maximum", .int 1000)]
  refuseIf (s.isBehind afterCursor) <|
    fault .runInterrupted "event cursor is older than the retained stream"
      [("category", .str "cursor_gap"), ("after_cursor", .int afterCursor),
        ("retained_from_cursor", .int s.retainedFrom), ("snapshot_required", .bool true)]
  let rows := ((s.outbox.after afterCursor).filter (filter.accepts ·.value)).take limit.toNat
  let events ← rows.mapM envelope
  return {
    afterCursor := afterCursor
    nextCursor := (events.getLast?.map (·.cursor)).getD afterCursor
    retainedFromCursor := s.retainedFrom
    events := events }

/-! ## Holds -/

/-- Create an explicit evidence hold after proving a targeted entity exists. -/
def createEventHold (s : ApplicationStore) (id : Uuid) (scope : EventHoldScope)
    (scopeId : Option String) (reason actorId : String) (now : Instant) :
    Except Raised (EventHoldRow × ApplicationStore) := do
  let candidate : EventHoldRow := {
    id := id
    scope := scope
    scopeId := scopeId
    reason := reason
    actorId := actorId
    createdAt := now }
  refuseIf (¬ candidate.isValid) (.valueError "event hold is invalid")
  refuseIf (scope = .run ∧ ∀ r ∈ s.runs, some r.id.text ≠ scopeId) <|
    fault .outputContract "event hold run does not exist"
  refuseIf (scope = .event ∧ ∀ e ∈ s.outbox.entries, some e.value.id.text ≠ scopeId) <|
    fault .outputContract "event hold event does not exist"
  let holds ← require (s.holds.insert candidate) .integrityError
  return (candidate, { s with holds := holds })

/-- Release a hold idempotently while retaining its audit record. -/
def releaseEventHold (s : ApplicationStore) (holdId : Uuid) (now : Instant) :
    Except Raised (EventHoldRow × ApplicationStore) := do
  let row ← require (s.holds.find (·.id = holdId)) <|
    fault .outputContract "event hold does not exist"
  if row.releasedAt ≠ none then return (row, s)
  let released := fun r : EventHoldRow => { r with releasedAt := some now }
  return (released row, { s with
    holds := s.holds.update (·.id = holdId) released fun _ => rfl })

/-! ## Retention -/

/-- The targets of the active holds of a scope. -/
def held (s : ApplicationStore) (scope : EventHoldScope) : List String :=
  (s.holds.select fun h => h.releasedAt = none ∧ h.scope = scope).filterMap (·.scopeId)

def RunState.isFinished : RunState → Bool
  | .completed | .failed | .cancelled => true
  | _ => false

/-- The runs whose events are protected: the incomplete ones and the held ones. -/
def protectedRuns (s : ApplicationStore) : List String :=
  (s.runs.select fun r => ! RunState.isFinished r.status).map (·.id.text) ++ s.held .run

/-- The oldest `limit` events before a cutoff, among some candidates, that nothing protects. -/
def eligibleRetentionRows (s : ApplicationStore) (cutoff : Instant) (limit : Nat)
    (candidateIds : Option (List Uuid) := none) : List (Stamped OutboxRow) :=
  if (s.holds.rows.any fun h => h.releasedAt = none ∧ h.scope = .all) then []
  else
    (s.outbox.entries.filter fun e => e.value.occurredAt < cutoff
        ∧ (∀ ids ∈ candidateIds, e.value.id ∈ ids)
        ∧ (∀ run ∈ e.value.runId, run ∉ s.protectedRuns)
        ∧ e.value.id.text ∉ s.held .event).take limit

/-- Persist a bounded candidate set without deleting any evidence. -/
def planEventRetention (s : ApplicationStore) (policy : EventRetentionPolicy) (planId : Uuid)
    (now : Instant) : Except Raised (EventRetentionPlanRow × ApplicationStore) := do
  refuseIf (now < policy.maxAgeDays * day) (.valueError "date value out of range")
  let cutoff := now - policy.maxAgeDays * day
  let candidates := s.eligibleRetentionRows cutoff policy.batchSize
  let plan : EventRetentionPlanRow := {
    id := planId
    policy := policy
    policyFingerprint := policy.fingerprint
    cutoff := cutoff
    candidates := candidates.map fun e => (e.value.id, e.cursor)
    createdAt := now }
  let plans ← require (s.plans.insert plan) .integrityError
  return (plan, { s with plans := plans })

/-- Apply a stored plan after rechecking current runs and active holds. -/
def applyEventRetention (s : ApplicationStore) (planId : Uuid) (now : Instant) :
    Except Raised (EventRetentionPlanRow × ApplicationStore) := do
  let row ← require (s.plans.find (·.id = planId)) <|
    fault .outputContract "event retention plan does not exist"
  if row.state = .applied then return (row, s)
  refuseIf (row.policy.fingerprint ≠ row.policyFingerprint) <|
    fault .outputContract "stored event retention policy fingerprint is invalid"
  let eligible := (s.eligibleRetentionRows row.cutoff row.policy.batchSize
    (some (row.candidates.map (·.1)))).map (·.value.id)
  let applied := fun r : EventRetentionPlanRow =>
    { r with state := .applied, deletedCount := eligible.length, appliedAt := some now }
  return (applied row, { s with
    outbox := s.outbox.keep fun e => e.value.id ∉ eligible
    plans := s.plans.update (·.id = planId) applied fun _ => rfl })

end ApplicationStore
end Mishkan
