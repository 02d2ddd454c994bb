import Mishkan.Foundations.Transition
import Mishkan.Scheduling.Service

/-!
# Scheduling/Slots — a schedule records every slot of its trigger once

The cron calculator is a parameter; `CronCalculator.Lawful` is what is documented of it: the fire
time after a previous one is the least slot after it, and the first fire time is a slot.  `Slotted`
says of a store that the slots recorded for a schedule are those from its first fire time up to the
next one, and every command keeps it.
-/

namespace Mishkan

open Refusal Transition Successor List ScheduleStore Table

/-- What is documented of the calculator: every expression has a set of slots, the fire time after
an instant is the least slot after it, and a first fire time is a slot. -/
structure CronCalculator.Lawful (cron : CronCalculator) (slots : CronTriggerSpec → Set Instant) :
    Prop where
  next : ∀ spec t, (∀ n, cron.getNextFireTime spec (some t) t = some n →
      IsLeast {s ∈ slots spec | t < s} n) ∧
    (cron.getNextFireTime spec (some t) t = none → ∀ s ∈ slots spec, s ≤ t)
  first : ∀ spec now n, cron.getNextFireTime spec none now = some n → n ∈ slots spec

/-- The slots of a trigger. -/
def ScheduleTrigger.slots (slots : CronTriggerSpec → Set Instant) : ScheduleTrigger → Set Instant
  | .date runAt => {runAt}
  | .cron spec => slots spec

/-! ## Commands -/

inductive ScheduleOp where
  | create (request : ScheduleCreateRequest) (actorId policyFingerprint : String) (revision : Nat)
      (now : Instant)
  | pause (id : Uuid) (expectedRevision : Nat) (now : Instant)
  | resume (id : Uuid) (expectedRevision : Nat) (now : Instant)
  | remove (id : Uuid) (expectedRevision : Nat) (now : Instant)
  | runNow (id commandId : Uuid) (expectedRevision : Nat) (draw : Uuid) (now : Instant)
  | fire (id : Uuid) (request : ScheduleFireRequest) (expectedRevision : Nat) (draw : Nat → Uuid)
      (now : Instant)

/-- The store after one command. -/
def scheduleStep (cron : CronCalculator) (config : SchedulingConfig) (s : ScheduleStore) :
    ScheduleOp → ScheduleStore
  | .create request actorId policyFingerprint revision now =>
    commit s (s.create cron request actorId policyFingerprint revision now)
  | .pause id expectedRevision now => commit s (s.transition id .paused expectedRevision now)
  | .resume id expectedRevision now => commit s (s.transition id .active expectedRevision now)
  | .remove id expectedRevision now => commit s (s.transition id .removed expectedRevision now)
  | .runNow id commandId expectedRevision draw now =>
    commit s (s.runNow id commandId expectedRevision draw now)
  | .fire id request expectedRevision draw now =>
    commit s (s.fire cron config id request expectedRevision draw now)

/-- The store after a sequence of commands on a new database. -/
def scheduleRun (cron : CronCalculator) (config : SchedulingConfig) (ops : List ScheduleOp) :
    ScheduleStore := run (scheduleStep cron config) .empty ops

/-! ## What the repository does -/

namespace ScheduleStore

variable {s s' : ScheduleStore} {id : Uuid} {r record : ScheduleRecord}
  {o o' occurrence : ScheduleOccurrence}

theorem schedule?_eq_some : s.schedule? id = some r ↔ r ∈ s.schedules ∧ r.scheduleId = id := by
  unfold schedule?
  rw [find_decide]
  simp +contextual [Keyed.clash, Keyed.key]

theorem schedule_eq (hr : r ∈ s.schedules) (hr' : record ∈ s.schedules)
    (h : r.scheduleId = record.scheduleId) : r = record :=
  eq_of_clash hr hr' (by simp [Keyed.clash, Keyed.key, h])

theorem occurrence_eq (ho : o ∈ s.occurrences) (ho' : o' ∈ s.occurrences)
    (h : o.scheduleId = o'.scheduleId) (hkey : o.occurrenceKey = o'.occurrenceKey) : o = o' :=
  eq_of_clash ho ho' (by simp [Keyed.clash, Keyed.key, h, hkey])

theorem requireSchedule_eq_ok :
    s.requireSchedule id = .ok r ↔ r ∈ s.schedules ∧ r.scheduleId = id := by
  rw [requireSchedule, require_eq_ok, schedule?_eq_some]

theorem createInSession_spec (h : s.createInSession record = .ok (r, s')) :
    s' = s ∨ ∃ t, s.schedules.insert record = some t ∧ s' = { s with schedules := t } := by
  unfold createInSession at h
  split at h
  · simp only [bind_eq_ok, return_eq_ok] at h
    obtain ⟨_, _, _, rfl⟩ := h
    exact .inl rfl
  · simp only [bind_eq_ok, require_eq_ok, return_eq_ok] at h
    obtain ⟨t, hinsert, _, rfl⟩ := h
    exact .inr ⟨t, hinsert, rfl⟩

/-- An update rewrites one schedule and no occurrence. -/
theorem updateSchedule_spec {expectedRevision : Nat} {state : ScheduleState}
    {nextFireAt lastEvaluatedAt : Option Instant} {now : Instant}
    (h : s.updateScheduleInSession id expectedRevision state nextFireAt lastEvaluatedAt now
      = .ok (r, s')) :
    s'.occurrences = s.occurrences ∧ ∀ a ∈ s'.schedules, (a ∈ s.schedules ∧ a.scheduleId ≠ id) ∨
      ∃ current ∈ s.schedules, current.scheduleId = id ∧
        a = updated state nextFireAt lastEvaluatedAt now current := by
  simp only [updateScheduleInSession, bind_eq_ok, return_eq_ok] at h
  obtain ⟨_, _, _, _, _, rfl⟩ := h
  refine ⟨rfl, fun a ha => ?_⟩
  simp only [mem_update] at ha
  obtain ⟨b, hb, rfl⟩ := ha
  split
  · rename_i hid
    exact .inr ⟨b, hb, by simpa using hid, rfl⟩
  · rename_i hid
    exact .inl ⟨hb, by simpa using hid⟩

/-- An update keeps the schedule of every identity. -/
theorem owned_of_update {expectedRevision : Nat} {state : ScheduleState}
    {nextFireAt lastEvaluatedAt : Option Instant} {now : Instant} {id' : Uuid}
    (h : s.updateScheduleInSession id expectedRevision state nextFireAt lastEvaluatedAt now
      = .ok (record, s')) (hr : r ∈ s.schedules) (hid : r.scheduleId = id') :
    ∃ r ∈ s'.schedules, r.scheduleId = id' := by
  simp only [updateScheduleInSession, bind_eq_ok, return_eq_ok] at h
  obtain ⟨_, _, _, _, _, rfl⟩ := h
  exact exists_mem_update (updated_key state nextFireAt lastEvaluatedAt now) ⟨r, hr, hid⟩
    fun _ h => h

/-- Creating an occurrence leaves one with its key, and adds no other. -/
theorem createOccurrence_spec (h : s.createOccurrenceInSession occurrence = .ok (o, s')) :
    s'.schedules = s.schedules ∧ (∀ a ∈ s.occurrences, a ∈ s'.occurrences) ∧
      (∀ a ∈ s'.occurrences, a ∈ s.occurrences ∨ a = occurrence) ∧
      (∃ r ∈ s.schedules, r.scheduleId = occurrence.scheduleId) ∧
      ∃ a ∈ s'.occurrences, a.scheduleId = occurrence.scheduleId ∧
        a.occurrenceKey = occurrence.occurrenceKey := by
  simp only [createOccurrenceInSession, bind_eq_ok, requireSchedule_eq_ok] at h
  obtain ⟨r, hr, h⟩ := h
  split at h
  · rename_i durable hfind
    simp only [bind_eq_ok, return_eq_ok] at h
    obtain ⟨_, _, rfl, rfl⟩ := h
    have hkey := of_find hfind
    simp only [decide_eq_true_eq] at hkey
    exact ⟨rfl, fun _ ha => ha, fun _ ha => .inl ha, ⟨r, hr⟩,
      _, mem_of_find hfind, hkey⟩
  · simp only [bind_eq_ok, require_eq_ok, return_eq_ok] at h
    obtain ⟨t, hinsert, _, rfl⟩ := h
    have hmem : ∀ a, a ∈ t ↔ a ∈ s.occurrences ∨ a = occurrence :=
      fun a => mem_of_insert hinsert
    exact ⟨rfl, fun a ha => (hmem a).mpr (.inl ha), fun a ha => (hmem a).mp ha, ⟨r, hr⟩,
      occurrence, (hmem _).mpr (.inr rfl), rfl, rfl⟩

/-- Creating occurrences leaves one with each key, and adds no other. -/
theorem createOccurrences_spec {os : List ScheduleOccurrence}
    (h : s.createOccurrencesInSession os = .ok s') :
    s'.schedules = s.schedules ∧ (∀ a ∈ s.occurrences, a ∈ s'.occurrences) ∧
      (∀ a ∈ s'.occurrences, a ∈ s.occurrences ∨ a ∈ os) ∧
      ∀ o ∈ os, ∃ a ∈ s'.occurrences, a.scheduleId = o.scheduleId ∧
        a.occurrenceKey = o.occurrenceKey := by
  induction os generalizing s with
  | nil =>
    obtain rfl : s = s' := by simpa [createOccurrencesInSession] using h
    exact ⟨rfl, fun _ ha => ha, fun _ ha => .inl ha, by simp⟩
  | cons o os ih =>
    simp only [createOccurrencesInSession, bind_eq_ok, Prod.exists] at h
    obtain ⟨_, s₁, h₁, h⟩ := h
    obtain ⟨hsched₁, hkeep₁, honly₁, -, a, ha, hid, hkey⟩ := createOccurrence_spec h₁
    obtain ⟨hsched, hkeep, honly, hall⟩ := ih h
    refine ⟨hsched.trans hsched₁, fun a ha => hkeep a (hkeep₁ a ha), fun a ha => ?_, ?_⟩
    · rcases honly a ha with ha | ha
      · rcases honly₁ a ha with ha | rfl
        · exact .inl ha
        · exact .inr mem_cons_self
      · exact .inr (mem_cons_of_mem o ha)
    · intro o' ho'
      rcases mem_cons.mp ho' with rfl | ho'
      · exact ⟨a, hkeep a ha, hid, hkey⟩
      · exact hall o' ho'

end ScheduleStore

/-! ## The invariant -/

/-- A slot the schedule has an occurrence for, other than a manual one. -/
def Recorded (s : ScheduleStore) (id : Uuid) (t : Instant) : Prop :=
  ∃ o ∈ s.occurrences, o.scheduleId = id ∧ o.source ≠ .manual ∧ o.scheduledFor = t

/-- What is recorded of a slot: it is to be dispatched, it misfired, or it was coalesced. -/
def ScheduleOccurrence.IsSlot (o : ScheduleOccurrence) : Prop :=
  o.source ≠ .manual ∧ o.occurrenceKey = .scheduled o.scheduleId o.scheduledFor ∧
    (o.state = .pending ∨ o.state = .misfired ∨ o.state = .coalesced)

/-- The occurrence was asked for by a command. -/
def ScheduleOccurrence.IsManual (o : ScheduleOccurrence) : Prop :=
  o.source = .manual ∧ ∃ commandId, o.occurrenceKey = .manual o.scheduleId commandId

/-- The slots recorded for a schedule are those of its trigger from its first fire time up to the
next one. -/
def Covered (cron : CronCalculator) (slots : CronTriggerSpec → Set Instant) (s : ScheduleStore)
    (r : ScheduleRecord) : Prop :=
  ∃ first, ScheduleClock.initial cron r.trigger r.createdAt = .ok first ∧
    (∀ n, r.nextFireAt = some n → n ∈ r.trigger.slots slots ∧ first ≤ n) ∧
    ∀ t, Recorded s r.scheduleId t ↔
      t ∈ r.trigger.slots slots ∧ first ≤ t ∧ ∀ n, r.nextFireAt = some n → t < n

/-- **The invariant of the schedule tables.** -/
structure Slotted (cron : CronCalculator) (slots : CronTriggerSpec → Set Instant)
    (s : ScheduleStore) : Prop where
  kinds : ∀ o ∈ s.occurrences, o.IsManual ∨ o.IsSlot
  owned : ∀ o ∈ s.occurrences, ∃ r ∈ s.schedules, r.scheduleId = o.scheduleId
  covered : ∀ r ∈ s.schedules, r.state ≠ .removed → Covered cron slots s r

variable {cron : CronCalculator} {slots : CronTriggerSpec → Set Instant} {config : SchedulingConfig}
  {s s' : ScheduleStore} {id : Uuid} {points : List Instant}

theorem Slotted.empty : Slotted cron slots .empty where
  kinds _ h := absurd h not_mem_empty
  owned _ h := absurd h not_mem_empty
  covered _ h := absurd h not_mem_empty

/-- A schedule with the same trigger and fire times covers the same slots. -/
theorem Covered.congr {r r' : ScheduleRecord} (h : Covered cron slots s r)
    (hid : r'.scheduleId = r.scheduleId) (htrigger : r'.trigger = r.trigger)
    (hcreated : r'.createdAt = r.createdAt) (hnext : r'.nextFireAt = r.nextFireAt)
    (hrecorded : ∀ t, Recorded s' r.scheduleId t ↔ Recorded s r.scheduleId t) :
    Covered cron slots s' r' := by
  unfold Covered
  rw [hid, htrigger, hcreated, hnext]
  obtain ⟨first, hfirst, hmem, hiff⟩ := h
  exact ⟨first, hfirst, hmem, fun t => (hrecorded t).trans (hiff t)⟩

theorem recorded_congr (h : s'.occurrences = s.occurrences) (t : Instant) :
    Recorded s' id t ↔ Recorded s id t := by
  unfold Recorded
  rw [h]

/-- The calculator enumerates the slots of every trigger. -/
theorem CronCalculator.Lawful.enumerates (h : cron.Lawful slots) (trigger : ScheduleTrigger) :
    Enumerates (trigger.slots slots) (ScheduleClock.nextAfter cron trigger) := by
  intro t ht
  cases trigger with
  | date runAt =>
    obtain rfl : t = runAt := ht
    exact ⟨fun n hn => (by cases hn), fun _ s hs => le_of_eq hs⟩
  | cron spec => exact h.next spec t

theorem CronCalculator.Lawful.initial_mem (h : cron.Lawful slots) {trigger : ScheduleTrigger}
    {now first : Instant} (hfirst : ScheduleClock.initial cron trigger now = .ok first) :
    first ∈ trigger.slots slots := by
  cases trigger with
  | date runAt =>
    simp only [ScheduleClock.initial, bind_eq_ok, pure_eq_ok] at hfirst
    obtain ⟨_, _, rfl⟩ := hfirst
    exact rfl
  | cron spec => exact h.first spec now first (require_eq_ok.mp hfirst)

/-! ## The commands keep the invariant -/

variable {now : Instant}

theorem Slotted.create (h : Slotted cron slots s) (hcron : cron.Lawful slots)
    {request : ScheduleCreateRequest} {actorId policyFingerprint : String} {revision : Nat}
    {record : ScheduleRecord}
    (hok : s.create cron request actorId policyFingerprint revision now = .ok (record, s')) :
    Slotted cron slots s' := by
  simp only [ScheduleStore.create, bind_eq_ok] at hok
  obtain ⟨first, hfirst, hok⟩ := hok
  rcases createInSession_spec hok with rfl | ⟨schedules, hinsert, rfl⟩
  · exact h
  have hmem : ∀ a, a ∈ schedules ↔ _ := fun a => mem_of_insert hinsert
  refine ⟨h.kinds, fun o ho => ?_, fun r hr hstate => ?_⟩
  · obtain ⟨r, hr, hid⟩ := h.owned o ho
    exact ⟨r, (hmem r).mpr (.inl hr), hid⟩
  · rcases (hmem r).mp hr with hr | rfl
    · exact (h.covered r hr hstate).congr rfl rfl rfl rfl fun _ => Iff.rfl
    · -- nothing is recorded for a new schedule, and no slot lies before its first fire time
      refine ⟨first, hfirst, fun n hn => ?_, fun t => ?_⟩
      · obtain rfl : first = n := by simpa using hn
        exact ⟨hcron.initial_mem hfirst, le_rfl⟩
      · constructor
        · rintro ⟨o, ho, hid, -⟩
          obtain ⟨r, hr, hrid⟩ := h.owned o ho
          refine absurd ?_ (not_clash_of_insert hinsert hr)
          have : r.scheduleId = request.scheduleId := hrid.trans hid
          simp [Keyed.clash, Keyed.key, this]
        · rintro ⟨-, hle, hlt⟩
          exact absurd (hlt first rfl) (not_lt.mpr hle)

variable {expectedRevision : Nat}

theorem Slotted.transition (h : Slotted cron slots s) {state : ScheduleState}
    {record : ScheduleRecord}
    (hok : s.transition id state expectedRevision now = .ok (record, s')) :
    Slotted cron slots s' := by
  simp only [ScheduleStore.transition, bind_eq_ok, refuseIf_eq_ok,
    requireSchedule_eq_ok] at hok
  obtain ⟨current, ⟨hcurrent, hid⟩, _, hnot, _, _, hok⟩ := hok
  have hkept := hok
  obtain ⟨hocc, hsched⟩ := updateSchedule_spec hok
  refine ⟨by rw [hocc]; exact h.kinds, fun o ho => ?_, fun r hr hstate => ?_⟩
  · rw [hocc] at ho
    obtain ⟨r, hr, hrid⟩ := h.owned o ho
    exact owned_of_update hkept hr hrid
  · rcases hsched r hr with ⟨hr, -⟩ | ⟨a, ha, haid, rfl⟩
    · exact (h.covered r hr hstate).congr rfl rfl rfl rfl (recorded_congr hocc)
    · obtain rfl := schedule_eq ha hcurrent (haid.trans hid.symm)
      have hstate' : state ≠ .removed := hstate
      refine (h.covered a ha hnot).congr rfl rfl rfl ?_ (recorded_congr hocc)
      change (if state = .removed then none else a.nextFireAt) = _
      rw [if_neg hstate']

theorem Slotted.runNow (h : Slotted cron slots s) {commandId draw : Uuid} {o : ScheduleOccurrence}
    (hok : s.runNow id commandId expectedRevision draw now = .ok (o, s')) :
    Slotted cron slots s' := by
  simp only [ScheduleStore.runNow, bind_eq_ok, refuseIf_eq_ok, pure_eq_ok, Prod.exists,
    Prod.mk.injEq, requireSchedule_eq_ok] at hok
  obtain ⟨current, ⟨hcurrent, hid⟩, _, hnot, o₁, s₁, h₁, r₁, s₂, h₂, rfl, rfl⟩ := hok
  obtain ⟨hsched₁, hkeep₁, honly₁, -, -⟩ := createOccurrence_spec h₁
  obtain ⟨hocc, hsched⟩ := updateSchedule_spec h₂
  have hrecorded : ∀ id' t, Recorded s₂ id' t ↔ Recorded s id' t := by
    intro id' t
    rw [recorded_congr hocc]
    constructor
    · rintro ⟨a, ha, hcond⟩
      rcases honly₁ a ha with ha | rfl
      · exact ⟨a, ha, hcond⟩
      · exact absurd rfl hcond.2.1
    · rintro ⟨a, ha, hcond⟩
      exact ⟨a, hkeep₁ a ha, hcond⟩
  refine ⟨fun a ha => ?_, fun a ha => ?_, fun r hr hstate => ?_⟩
  · rw [hocc] at ha
    rcases honly₁ a ha with ha | rfl
    · exact h.kinds a ha
    · exact .inl ⟨rfl, commandId, rfl⟩
  · rw [hocc] at ha
    rcases honly₁ a ha with ha | rfl
    · obtain ⟨r, hr, hrid⟩ := h.owned a ha
      exact owned_of_update h₂ (hsched₁ ▸ hr) hrid
    · exact owned_of_update h₂ (hsched₁ ▸ hcurrent) hid
  · rcases hsched r hr with ⟨hr, -⟩ | ⟨a, ha, haid, rfl⟩
    · exact (h.covered r (hsched₁ ▸ hr) hstate).congr rfl rfl rfl rfl (hrecorded _)
    · obtain rfl := schedule_eq (hsched₁ ▸ ha) hcurrent (haid.trans hid.symm)
      exact (h.covered a hcurrent hnot).congr rfl rfl rfl rfl (hrecorded _)

/-- The slots a wake-up records: a block of consecutive slots from the next fire time, which ends in
the selected one. -/
theorem dueSlots_block {current : ScheduleRecord} {observed nextFireAt selected : Instant}
    (hnext : current.nextFireAt = some nextFireAt) (hdue : nextFireAt ≤ observed)
    (hselected : (if config.coalesce
        then (ScheduleStore.dueSlots cron config current observed).getLast?
        else (ScheduleStore.dueSlots cron config current observed).head?) = some selected) :
    Block (ScheduleClock.nextAfter cron current.trigger) nextFireAt
      ((if config.coalesce then (ScheduleStore.dueSlots cron config current observed).dropLast
        else []) ++ [selected]) selected := by
  obtain ⟨fuel, hfuel⟩ : ∃ fuel, config.maxCatchUpOccurrences = fuel + 1 :=
    ⟨config.maxCatchUpOccurrences - 1, (Nat.sub_add_cancel config.catch_up_bound).symm⟩
  have hslots : ScheduleStore.dueSlots cron config current observed =
      collect (ScheduleClock.nextAfter cron current.trigger) observed (fuel + 1)
        (some nextFireAt) := by
    rw [ScheduleStore.dueSlots, hfuel, hnext]
  obtain ⟨last, hblock⟩ : ∃ last, Block (ScheduleClock.nextAfter cron current.trigger) nextFireAt
      (collect (ScheduleClock.nextAfter cron current.trigger) observed (fuel + 1)
        (some nextFireAt)) last := collect_block fuel hdue
  cases hcoalesce : config.coalesce with
  | true =>
    rw [hcoalesce, if_pos rfl, hslots, hblock.getLast?, Option.some.injEq] at hselected
    subst hselected
    rw [if_pos rfl, hslots, dropLast_append_getLast? last hblock.getLast?]
    exact hblock
  | false =>
    rw [hcoalesce, if_neg Bool.false_ne_true, hslots, collect, if_pos hdue, List.head?_cons,
      Option.some.injEq] at hselected
    subst hselected
    rw [if_neg Bool.false_ne_true]
    exact .single nextFireAt

/-- Some slots of a schedule were recorded, and nothing else. -/
structure Records (s s' : ScheduleStore) (id : Uuid) (points : List Instant) : Prop where
  keep : ∀ a ∈ s.occurrences, a ∈ s'.occurrences
  only : ∀ a ∈ s'.occurrences, a ∈ s.occurrences ∨
    (a.scheduleId = id ∧ a.IsSlot ∧ a.scheduledFor ∈ points)
  all : ∀ t ∈ points, ∃ a ∈ s'.occurrences, a.scheduleId = id ∧ a.occurrenceKey = .scheduled id t

theorem Records.kinds (h : Records s s' id points)
    (hkinds : ∀ o ∈ s.occurrences, o.IsManual ∨ o.IsSlot) :
    ∀ o ∈ s'.occurrences, o.IsManual ∨ o.IsSlot := by
  intro o ho
  rcases h.only o ho with ho | ⟨-, hslot, -⟩
  · exact hkinds o ho
  · exact .inr hslot

/-- **What is recorded afterwards** is what was recorded before, and the slots. -/
theorem Records.recorded_iff (h : Records s s' id points)
    (hkinds : ∀ o ∈ s.occurrences, o.IsManual ∨ o.IsSlot) (t : Instant) :
    Recorded s' id t ↔ Recorded s id t ∨ t ∈ points := by
  constructor
  · rintro ⟨a, ha, hid, hsource, rfl⟩
    rcases h.only a ha with ha | ⟨-, -, hpoint⟩
    · exact .inl ⟨a, ha, hid, hsource, rfl⟩
    · exact .inr hpoint
  · rintro (⟨a, ha, hcond⟩ | hpoint)
    · exact ⟨a, h.keep a ha, hcond⟩
    · obtain ⟨a, ha, hid, hkey⟩ := h.all t hpoint
      rcases h.kinds hkinds a ha with ⟨-, _, hmanual⟩ | ⟨hsource, hslot, -⟩
      · rw [hkey] at hmanual
        cases hmanual
      · rw [hkey, OccurrenceKey.scheduled.injEq] at hslot
        exact ⟨a, ha, hid, hsource, hslot.2.symm⟩

/-- Nothing is recorded for another schedule. -/
theorem Records.recorded_other (h : Records s s' id points) {id' : Uuid} (hne : id' ≠ id)
    (t : Instant) : Recorded s' id' t ↔ Recorded s id' t := by
  constructor
  · rintro ⟨a, ha, hid, hcond⟩
    rcases h.only a ha with ha | ⟨haid, -⟩
    · exact ⟨a, ha, hid, hcond⟩
    · exact absurd (hid.symm.trans haid) hne
  · rintro ⟨a, ha, hcond⟩
    exact ⟨a, h.keep a ha, hcond⟩

/-- The occurrence of a slot is one. -/
theorem isSlot_occurrence {current : ScheduleRecord} {slot : Instant} {source : OccurrenceSource}
    {state : OccurrenceState} {message : Option String} {draw : Uuid}
    (hsource : source ≠ .manual)
    (hstate : state = .pending ∨ state = .misfired ∨ state = .coalesced) :
    (ScheduleStore.occurrence current slot source state message draw now).IsSlot :=
  ⟨hsource, rfl, hstate⟩

/-- **A wake-up records a block of slots**, and the schedule resumes at the slot after it. -/
theorem Slotted.fire (h : Slotted cron slots s) (hcron : cron.Lawful slots)
    {request : ScheduleFireRequest} {draw : Nat → Uuid}
    {o : ScheduleOccurrence}
    (hok : s.fire cron config id request expectedRevision draw now = .ok (o, s')) :
    Slotted cron slots s' := by
  simp only [ScheduleStore.fire, bind_eq_ok, refuseIf_eq_ok, require_eq_ok, pure_eq_ok, Prod.exists,
    Prod.mk.injEq, requireSchedule_eq_ok] at hok
  obtain ⟨current, ⟨hcurrent, hid⟩, nextFireAt, hactive, _, hdue, selected, hselected, s₁, h₁,
    o₂, s₂, h₂, r₃, s₃, h₃, rfl, rfl⟩ := hok
  obtain ⟨hstate, hnext⟩ : current.state = .active ∧ current.nextFireAt = some nextFireAt := by
    split at hactive
    · rename_i hstate
      exact ⟨hstate, hactive⟩
    · cases hactive
  have hblock := dueSlots_block hnext (not_lt.mp hdue) hselected
  set coalescedSlots := if config.coalesce
    then (ScheduleStore.dueSlots cron config current request.observedAt).dropLast else []
  obtain ⟨hsched₁, hkeep₁, honly₁, hall₁⟩ := createOccurrences_spec h₁
  obtain ⟨hsched₂, hkeep₂, honly₂, -, hall₂⟩ := createOccurrence_spec h₂
  obtain ⟨hocc, hsched⟩ := updateSchedule_spec h₃
  have hschedules : s₂.schedules = s.schedules := hsched₂.trans hsched₁
  have hsource : request.source ≠ .manual := by
    unfold ScheduleFireRequest.source
    split <;> simp
  have hrecords : Records s s₃ id (coalescedSlots ++ [selected]) := by
    refine ⟨fun a ha => ?_, fun a ha => ?_, fun t ht => ?_⟩
    · rw [hocc]
      exact hkeep₂ a (hkeep₁ a ha)
    · rw [hocc] at ha
      rcases honly₂ a ha with ha | rfl
      · rcases honly₁ a ha with ha | ha
        · exact .inl ha
        · obtain ⟨i, hi, rfl⟩ := mem_mapIdx.mp ha
          exact .inr ⟨hid, isSlot_occurrence hsource (.inr (.inr rfl)),
            mem_append_left _ (getElem_mem hi)⟩
      · refine .inr ⟨hid, isSlot_occurrence hsource ?_, by
          exact mem_append_right _ (mem_singleton_self selected)⟩
        split
        · exact .inr (.inl rfl)
        · exact .inl rfl
    · rw [hocc]
      rcases mem_append.mp ht with ht | ht
      · obtain ⟨i, hi, rfl⟩ := getElem_of_mem ht
        obtain ⟨a, ha, haid, hkey⟩ := hall₁ _ (mem_mapIdx.mpr ⟨i, hi, rfl⟩)
        exact ⟨a, hkeep₂ a ha, haid.trans hid, hkey.trans (by rw [← hid]; rfl)⟩
      · obtain rfl := mem_singleton.mp ht
        obtain ⟨a, ha, haid, hkey⟩ := hall₂
        exact ⟨a, ha, haid.trans hid, hkey.trans (by rw [← hid]; rfl)⟩
  refine ⟨hrecords.kinds h.kinds, fun a ha => ?_, fun r hr hrstate => ?_⟩
  · rcases hrecords.only a ha with ha | ⟨haid, -⟩
    · obtain ⟨r, hr, hrid⟩ := h.owned a ha
      exact owned_of_update h₃ (hschedules ▸ hr) hrid
    · exact owned_of_update h₃ (hschedules ▸ hcurrent) (hid.trans haid.symm)
  rcases hsched r hr with ⟨hr, hne⟩ | ⟨a, ha, haid, rfl⟩
  · exact (h.covered r (hschedules ▸ hr) hrstate).congr rfl rfl rfl rfl
      (hrecords.recorded_other hne)
  · obtain rfl := schedule_eq (hschedules ▸ ha) hcurrent (haid.trans hid.symm)
    obtain ⟨first, hfirst, hmem, hiff⟩ := h.covered a hcurrent (by rw [hstate]; simp)
    obtain ⟨hslot, hle⟩ := hmem nextFireAt hnext
    have hS := hcron.enumerates a.trigger
    have hselectedmem := hblock.last_mem hS hslot
    refine ⟨first, hfirst, fun n hn => ?_, fun t => ?_⟩
    · exact ⟨hS.next_mem hselectedmem hn,
        hle.trans ((hblock.le_last hS hslot).trans (hS.lt_next hselectedmem hn).le)⟩
    · -- the slots before the old next fire time, and the block from it on
      change Recorded s₃ a.scheduleId t ↔ t ∈ a.trigger.slots slots ∧ first ≤ t ∧
        ∀ n, ScheduleClock.nextAfter cron a.trigger selected = some n → t < n
      rw [haid, hrecords.recorded_iff h.kinds, ← haid, hiff, hblock.mem_iff_before hS hslot]
      constructor
      · rintro (⟨ht, hge, hlt⟩ | ⟨ht, hge, hlt⟩)
        · refine ⟨ht, hge, fun n hn => (hlt nextFireAt hnext).trans_le ?_⟩
          exact (hblock.le_last hS hslot).trans (hS.lt_next hselectedmem hn).le
        · exact ⟨ht, hle.trans hge, hlt⟩
      · rintro ⟨ht, hge, hlt⟩
        by_cases hbefore : t < nextFireAt
        · refine .inl ⟨ht, hge, fun n hn => ?_⟩
          rw [hnext, Option.some.injEq] at hn
          exact hn ▸ hbefore
        · exact .inr ⟨ht, not_lt.mp hbefore, hlt⟩

/-! ## Runs -/

/-- **Every command keeps the invariant.** -/
theorem Slotted.step (h : Slotted cron slots s) (hcron : cron.Lawful slots) (op : ScheduleOp) :
    Slotted cron slots (scheduleStep cron config s op) := by
  have hkeeps : ∀ {α : Type} {x : Except Raised (α × ScheduleStore)},
      (∀ a s', x = .ok (a, s') → Slotted cron slots s') → Slotted cron slots (commit s x) :=
    fun hok => commit_cases (R := fun _ s' => Slotted cron slots s') h hok
  cases op with
  | create => exact hkeeps fun _ _ hok => h.create hcron hok
  | pause => exact hkeeps fun _ _ hok => h.transition hok
  | resume => exact hkeeps fun _ _ hok => h.transition hok
  | remove => exact hkeeps fun _ _ hok => h.transition hok
  | runNow => exact hkeeps fun _ _ hok => h.runNow hok
  | fire => exact hkeeps fun _ _ hok => h.fire hcron hok

/-- **Schedule slots are neither lost nor duplicated.**  After any sequence of commands, a schedule
that was not removed has exactly one occurrence, manual ones aside, for every slot of its trigger
from its first fire time up to but excluding its next one, for no other instant, and each is to be
dispatched, misfired or coalesced. -/
theorem slots_neither_lost_nor_duplicated (cron : CronCalculator)
    (slots : CronTriggerSpec → Set Instant) (hcron : cron.Lawful slots) (config : SchedulingConfig)
    (ops : List ScheduleOp) :
    ∀ r ∈ (scheduleRun cron config ops).schedules, r.state ≠ .removed →
      ∃ first, ScheduleClock.initial cron r.trigger r.createdAt = .ok first ∧
        (∀ t, (∃ o ∈ (scheduleRun cron config ops).occurrences,
            o.scheduleId = r.scheduleId ∧ o.source ≠ .manual ∧ o.scheduledFor = t) ↔
          t ∈ r.trigger.slots slots ∧ first ≤ t ∧ ∀ n, r.nextFireAt = some n → t < n) ∧
        ∀ o ∈ (scheduleRun cron config ops).occurrences,
          o.scheduleId = r.scheduleId → o.source ≠ .manual →
            (o.state = .pending ∨ o.state = .misfired ∨ o.state = .coalesced) ∧
            ∀ o' ∈ (scheduleRun cron config ops).occurrences, o'.scheduleId = r.scheduleId →
              o'.source ≠ .manual → o'.scheduledFor = o.scheduledFor → o' = o := by
  have hslotted : Slotted cron slots (scheduleRun cron config ops) :=
    run_induction (fun s op hs => hs.step hcron op) Slotted.empty ops
  have hkey : ∀ o ∈ (scheduleRun cron config ops).occurrences, o.source ≠ .manual → o.IsSlot :=
    fun o ho hsource => (hslotted.kinds o ho).resolve_left fun h => hsource h.1
  intro r hr hstate
  obtain ⟨first, hfirst, -, hiff⟩ := hslotted.covered r hr hstate
  refine ⟨first, hfirst, hiff, fun o ho hid hsource => ⟨(hkey o ho hsource).2.2, ?_⟩⟩
  intro o' ho' hid' hsource' htime
  refine occurrence_eq ho' ho (hid'.trans hid.symm) ?_
  rw [(hkey o' ho' hsource').2.1, (hkey o ho hsource).2.1, hid', hid, htime]

/-- One hour. -/
def hour : Instant := 3600 * second

/-- The calculator of `0 * * * *`. -/
def hourly : CronCalculator where
  getNextFireTime _ previous now :=
    match previous with
    | some t => some ((t / hour + 1) * hour)
    | none => some ((now + (hour - 1)) / hour * hour)

theorem hourly_lawful : hourly.Lawful fun _ => {t | hour ∣ t} := by
  have hpos : 0 < hour := by decide
  refine ⟨fun spec t => ⟨fun n hn => ?_, fun hn => by cases hn⟩, fun spec now n hn => ?_⟩
  · obtain rfl : (t / hour + 1) * hour = n := by simpa [hourly] using hn
    refine ⟨⟨⟨_, Nat.mul_comm _ _⟩, Nat.lt_mul_of_div_lt (Nat.lt_succ_self _) hpos⟩, ?_⟩
    rintro s ⟨⟨k, rfl⟩, hlt⟩
    rw [Nat.mul_comm]
    exact Nat.mul_le_mul_left _ (Nat.div_lt_of_lt_mul hlt)
  · obtain rfl : (now + (hour - 1)) / hour * hour = n := by simpa [hourly] using hn
    exact ⟨_, Nat.mul_comm _ _⟩

/-- An hourly schedule is woken up once, after two and a half hours. -/
def sampleCommands : List ScheduleOp :=
  let mission : ScheduleMissionRequest := { projectId := "p", renderedObjective := "report" }
  [.create { scheduleId := 1, mission := mission, trigger := .cron ⟨"0 * * * *", "UTC"⟩ }
      "operator" "policy" 1 5,
    .fire 1 ⟨false, 2 * hour + hour / 2⟩ 1 (fun i => 10 + i) (2 * hour + hour / 2)]

/-- The second slot is recorded, and nothing else is at its instant. -/
theorem slots_sample :
    ∃ o ∈ (scheduleRun hourly ⟨60, true, 10, 3, by decide⟩ sampleCommands).occurrences,
      o.scheduleId = 1 ∧ o.source ≠ .manual ∧ o.scheduledFor = 2 * hour := by
  have hschedule : ∃ r ∈ (scheduleRun hourly ⟨60, true, 10, 3, by decide⟩ sampleCommands).schedules,
      r.state ≠ .removed ∧ r.scheduleId = 1 ∧ r.trigger = .cron ⟨"0 * * * *", "UTC"⟩ ∧
        r.createdAt = 5 ∧ r.nextFireAt = some (3 * hour) := by decide
  obtain ⟨r, hr, hstate, hid, htrigger, hcreated, hnext⟩ := hschedule
  obtain ⟨first, hfirst, hiff, -⟩ := slots_neither_lost_nor_duplicated hourly _ hourly_lawful
    ⟨60, true, 10, 3, by decide⟩ sampleCommands r hr hstate
  rw [htrigger, hcreated] at hfirst
  obtain rfl : hour = first := by simpa [ScheduleClock.initial, hourly, hour, second] using hfirst
  rw [hid] at hiff
  refine (hiff (2 * hour)).mpr ⟨?_, by decide, fun n hn => ?_⟩
  · rw [htrigger]
    exact ⟨2, rfl⟩
  · rw [hnext, Option.some.injEq] at hn
    exact hn ▸ by decide

end Mishkan
