import Mishkan.Domain.Errors
import Mishkan.Foundations.IsoFormat
import Mishkan.Foundations.Refusal
import Mishkan.Foundations.Successor
import Mishkan.Foundations.Table

/-!
# Scheduling/Service — schedules, their occurrences, and the commands inside their transaction

A schedule is a mission with a trigger; an occurrence is one instant it was due at, or one manual
request.  Instants are normalized to UTC, so the key of an occurrence is determined by the schedule
and the instant, or by the schedule and the command that asked for it.

A command runs in a session: it reads the tables and returns with those it leaves, or raises and
leaves none.  `fire` records the slots that are due and moves the schedule to the slot after the one
it selected.
-/

namespace Mishkan

open Refusal

inductive ScheduleState where
  | active | paused | completed | removed
deriving DecidableEq

inductive OverlapMode where
  | block | allow
deriving DecidableEq

inductive OccurrenceSource where
  | internal | manual | external
deriving DecidableEq

inductive OccurrenceState where
  | pending | dispatching | retryWaiting | accepted | misfired | coalesced | overlapBlocked | failed
  | cancelled | uncertain
deriving DecidableEq

structure CronTriggerSpec where
  expression : String
  timezone : String
deriving DecidableEq

inductive ScheduleTrigger where
  | date (runAt : Instant)
  | cron (spec : CronTriggerSpec)
deriving DecidableEq

/-- A free-form mission request.  `renderedObjective` is the objective with the template and the
inputs of the mission written into it. -/
structure ScheduleMissionRequest where
  projectId : String
  workspaceId : Option String := none
  renderedObjective : String
  outcomeId : Option String := none
deriving DecidableEq

/-- The overlap key of a mission: its workspace if it has one, or else its project. -/
def ScheduleMissionRequest.targetKey (mission : ScheduleMissionRequest) :
    Digest (String × String) :=
  match mission.workspaceId with
  | some workspaceId => ⟨("workspace", workspaceId)⟩
  | none => ⟨("project", mission.projectId)⟩

structure ScheduleRecord where
  scheduleId : Uuid
  mission : ScheduleMissionRequest
  trigger : ScheduleTrigger
  state : ScheduleState
  overlapKey : Digest (String × String)
  overlapMode : OverlapMode
  createdBy : String
  policyFingerprint : String
  nextFireAt : Option Instant := none
  lastEvaluatedAt : Option Instant := none
  revision : Nat
  createdAt : Instant
  updatedAt : Instant
deriving DecidableEq

instance : Keyed ScheduleRecord := .ofKey ScheduleRecord.scheduleId

structure ScheduleCreateRequest where
  scheduleId : Uuid
  mission : ScheduleMissionRequest
  trigger : ScheduleTrigger
  overlapMode : OverlapMode := .block
deriving DecidableEq

/-- An observed wake-up: the daemon's timer, or an external scheduler. -/
structure ScheduleFireRequest where
  isExternal : Bool
  observedAt : Instant
deriving DecidableEq

def ScheduleFireRequest.source (request : ScheduleFireRequest) : OccurrenceSource :=
  if request.isExternal then .external else .internal

/-- The identity of an occurrence within its schedule. -/
inductive OccurrenceKey where
  | scheduled (scheduleId : Uuid) (scheduledFor : Instant)
  | manual (scheduleId commandId : Uuid)
deriving DecidableEq

structure ScheduleOccurrence where
  occurrenceId : Uuid
  occurrenceKey : OccurrenceKey
  scheduleId : Uuid
  scheduleRevision : Nat
  source : OccurrenceSource
  state : OccurrenceState
  scheduledFor : Instant
  attemptCount : Nat := 0
  runCommandId : Option Uuid := none
  runId : Option Uuid := none
  nextAttemptAt : Option Instant := none
  errorCode : Option ErrorCode := none
  errorMessage : Option String := none
  createdAt : Instant
  updatedAt : Instant
deriving DecidableEq

instance : Keyed ScheduleOccurrence :=
  .ofKeys fun o => (o.occurrenceId, o.scheduleId, o.occurrenceKey)

/-- The public operational bounds of the scheduling driver. -/
structure SchedulingConfig where
  misfireGraceSeconds : Nat
  coalesce : Bool
  maxCatchUpOccurrences : Nat
  maxAttempts : Nat
  catch_up_bound : 1 ≤ maxCatchUpOccurrences

/-- The cron calculator: the next fire time of an expression, given the previous one and now. -/
structure CronCalculator where
  getNextFireTime : CronTriggerSpec → (previous : Option Instant) → (now : Instant) → Option Instant

/-- The tables of the schedule repository. -/
structure ScheduleStore where
  schedules : Table ScheduleRecord
  occurrences : Table ScheduleOccurrence
deriving DecidableEq

def ScheduleStore.empty : ScheduleStore := ⟨∅, ∅⟩

/-! ## Trigger calculations -/

namespace ScheduleClock

/-- The first fire time of a trigger. -/
def initial (cron : CronCalculator) (trigger : ScheduleTrigger) (now : Instant) :
    Except Raised Instant :=
  match trigger with
  | .date runAt => do
    refuseIf (runAt ≤ now) <|
      fault .schedule "one-shot schedule must be created for a future instant"
    return runAt
  | .cron spec =>
    require (cron.getNextFireTime spec none now) <|
      fault .schedule "cron schedule has no future occurrence"

/-- The fire time after a previous one. -/
def nextAfter (cron : CronCalculator) (trigger : ScheduleTrigger) (previous : Instant) :
    Option Instant :=
  match trigger with
  | .date _ => none
  | .cron spec => cron.getNextFireTime spec (some previous) previous

end ScheduleClock

namespace ScheduleStore

/-! ## The repository, in a session -/

def schedule? (s : ScheduleStore) (id : Uuid) : Option ScheduleRecord :=
  s.schedules.find (·.scheduleId = id)

def requireSchedule (s : ScheduleStore) (id : Uuid) : Except Raised ScheduleRecord :=
  require (s.schedule? id) <| fault .schedule "schedule does not exist"

def createInSession (s : ScheduleStore) (record : ScheduleRecord) :
    Except Raised (ScheduleRecord × ScheduleStore) :=
  match s.schedule? record.scheduleId with
  | some durable => do
    refuseIf (durable ≠ record) <|
      fault .duplicateResult "schedule identity already contains different content"
    return (durable, s)
  | none => do
    let schedules ← require (s.schedules.insert record) .integrityError
    return (record, { s with schedules := schedules })

/-- What an update leaves of a schedule. -/
def updated (state : ScheduleState) (nextFireAt lastEvaluatedAt : Option Instant) (now : Instant)
    (current : ScheduleRecord) : ScheduleRecord :=
  { current with
    state := state
    nextFireAt := nextFireAt
    lastEvaluatedAt := lastEvaluatedAt.or current.lastEvaluatedAt
    revision := current.revision + 1
    updatedAt := now }

theorem updated_key (state : ScheduleState) (nextFireAt lastEvaluatedAt : Option Instant)
    (now : Instant) (current : ScheduleRecord) :
    Keyed.key (updated state nextFireAt lastEvaluatedAt now current) = Keyed.key current := rfl

def updateScheduleInSession (s : ScheduleStore) (id : Uuid) (expectedRevision : Nat)
    (state : ScheduleState) (nextFireAt lastEvaluatedAt : Option Instant) (now : Instant) :
    Except Raised (ScheduleRecord × ScheduleStore) := do
  let current ← s.requireSchedule id
  refuseIf (current.revision ≠ expectedRevision) <|
    fault .revisionMismatch "schedule revision changed"
      [("expected", .int expectedRevision), ("current", .int current.revision)]
  return (updated state nextFireAt lastEvaluatedAt now current, { s with
    schedules := s.schedules.update (·.scheduleId = id)
      (updated state nextFireAt lastEvaluatedAt now)
      (updated_key state nextFireAt lastEvaluatedAt now) })

def createOccurrenceInSession (s : ScheduleStore) (occurrence : ScheduleOccurrence) :
    Except Raised (ScheduleOccurrence × ScheduleStore) := do
  let _ ← s.requireSchedule occurrence.scheduleId
  match s.occurrences.find fun o => o.scheduleId = occurrence.scheduleId
      ∧ o.occurrenceKey = occurrence.occurrenceKey with
  | some durable =>
    refuseIf (durable.scheduledFor ≠ occurrence.scheduledFor
        ∨ durable.scheduleId ≠ occurrence.scheduleId) <|
      fault .duplicateResult "schedule occurrence key already contains different content"
    return (durable, s)
  | none =>
    let occurrences ← require (s.occurrences.insert occurrence) .integrityError
    return (occurrence, { s with occurrences := occurrences })

/-- Create occurrences one by one. -/
def createOccurrencesInSession (s : ScheduleStore) :
    List ScheduleOccurrence → Except Raised ScheduleStore
  | [] => return s
  | occurrence :: occurrences => do
    let (_, s) ← s.createOccurrenceInSession occurrence
    s.createOccurrencesInSession occurrences

/-! ## The mutations -/

/-- Create an active schedule that is due at the first instant of its trigger. -/
def create (cron : CronCalculator) (s : ScheduleStore) (request : ScheduleCreateRequest)
    (actorId policyFingerprint : String) (revision : Nat) (now : Instant) :
    Except Raised (ScheduleRecord × ScheduleStore) := do
  let nextFireAt ← ScheduleClock.initial cron request.trigger now
  s.createInSession {
    scheduleId := request.scheduleId
    mission := request.mission
    trigger := request.trigger
    state := .active
    overlapKey := request.mission.targetKey
    overlapMode := request.overlapMode
    createdBy := actorId
    policyFingerprint := policyFingerprint
    nextFireAt := some nextFireAt
    revision := revision
    createdAt := now
    updatedAt := now }

/-- Pause, resume or remove a schedule. -/
def transition (s : ScheduleStore) (id : Uuid) (state : ScheduleState) (expectedRevision : Nat)
    (now : Instant) : Except Raised (ScheduleRecord × ScheduleStore) := do
  let current ← s.requireSchedule id
  refuseIf (current.state = .removed) <| fault .schedule "removed schedule cannot transition"
  refuseIf (state = .active ∧ current.state = .completed) <|
    fault .schedule "completed one-shot schedule cannot resume"
  let nextFire := if state = .removed then none else current.nextFireAt
  s.updateScheduleInSession id expectedRevision state nextFire none now

/-- Record a manual occurrence, due now. -/
def runNow (s : ScheduleStore) (id commandId : Uuid) (expectedRevision : Nat) (draw : Uuid)
    (now : Instant) : Except Raised (ScheduleOccurrence × ScheduleStore) := do
  let current ← s.requireSchedule id
  refuseIf (current.state = .removed) <| fault .schedule "removed schedule cannot run"
  let (durable, s) ← s.createOccurrenceInSession {
    occurrenceId := draw
    occurrenceKey := .manual id commandId
    scheduleId := id
    scheduleRevision := current.revision
    source := .manual
    state := .pending
    scheduledFor := now
    createdAt := now
    updatedAt := now }
  let (_, s) ← s.updateScheduleInSession id expectedRevision current.state current.nextFireAt
    (some now) now
  return (durable, s)

/-- The slots that are due, at most as many as the catch-up limit. -/
def dueSlots (cron : CronCalculator) (config : SchedulingConfig) (schedule : ScheduleRecord)
    (observed : Instant) : List Instant :=
  Successor.collect (ScheduleClock.nextAfter cron schedule.trigger) observed
    config.maxCatchUpOccurrences schedule.nextFireAt

/-- The occurrence of a slot. -/
def occurrence (schedule : ScheduleRecord) (slot : Instant) (source : OccurrenceSource)
    (state : OccurrenceState) (message : Option String) (draw : Uuid) (now : Instant) :
    ScheduleOccurrence where
  occurrenceId := draw
  occurrenceKey := .scheduled schedule.scheduleId slot
  scheduleId := schedule.scheduleId
  scheduleRevision := schedule.revision
  source := source
  state := state
  scheduledFor := slot
  errorCode := if state = .pending then none else some .schedule
  errorMessage := message
  createdAt := now
  updatedAt := now

/-- Record the due slots and move on to the slot after the selected one. -/
def fire (cron : CronCalculator) (config : SchedulingConfig) (s : ScheduleStore) (id : Uuid)
    (request : ScheduleFireRequest) (expectedRevision : Nat) (draw : Nat → Uuid) (now : Instant) :
    Except Raised (ScheduleOccurrence × ScheduleStore) := do
  let current ← s.requireSchedule id
  let nextFireAt ← require (if current.state = .active then current.nextFireAt else none) <|
    fault .schedule "schedule is not active"
  let observed := request.observedAt
  refuseIf (nextFireAt > observed) <|
    fault .schedule "schedule trigger arrived before the next due instant"
      [("next_fire_at", .str (IsoFormat.isoformat nextFireAt 0))]
  let due := dueSlots cron config current observed
  let selected ← require (if config.coalesce then due.getLast? else due.head?) <|
    fault .schedule "schedule has no due occurrence"
  let coalescedSlots := if config.coalesce then due.dropLast else []
  let coalesced := coalescedSlots.mapIdx fun i slot =>
    occurrence current slot request.source .coalesced
      (some "coalesced by configured schedule policy") (draw i) now
  let s ← s.createOccurrencesInSession coalesced
  let state : OccurrenceState :=
    if observed - selected > config.misfireGraceSeconds * second then .misfired else .pending
  let (durable, s) ← s.createOccurrenceInSession <|
    occurrence current selected request.source state
      (if state = .misfired then some "schedule occurrence exceeded its configured misfire grace"
        else none) (draw coalesced.length) now
  let nextFire := ScheduleClock.nextAfter cron current.trigger selected
  let nextState := if nextFire.isSome then ScheduleState.active else .completed
  let (_, s) ← s.updateScheduleInSession id expectedRevision nextState nextFire (some observed) now
  return (durable, s)

end ScheduleStore

end Mishkan
