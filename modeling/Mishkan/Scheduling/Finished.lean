import Mishkan.Scheduling.Slots

/-!
# Scheduling/Finished — completed and removed schedules

A completed or removed schedule has no next fire time, and an active one has.  `transition` refuses
to resume a completed schedule, but not to pause it, and a paused one it resumes whatever it was
before: `staysFinished_iff` says which sequences of calls keep finished schedules finished.
-/

namespace Mishkan

open Refusal Transition ScheduleStore

/-! ## Calls -/

/-- A call of the mutation service. -/
inductive ScheduleCall where
  | create (request : ScheduleCreateRequest) (actorId policyFingerprint : String) (revision : Nat)
      (now : Instant)
  | transition (id : Uuid) (state : ScheduleState) (expectedRevision : Nat) (now : Instant)
  | runNow (id commandId : Uuid) (expectedRevision : Nat) (draw : Uuid) (now : Instant)
  | fire (id : Uuid) (request : ScheduleFireRequest) (expectedRevision : Nat) (draw : Nat → Uuid)
      (now : Instant)

/-- The store after one call. -/
def callStep (cron : CronCalculator) (config : SchedulingConfig) (s : ScheduleStore) :
    ScheduleCall → ScheduleStore
  | .create request actorId policyFingerprint revision now =>
    commit s (s.create cron request actorId policyFingerprint revision now)
  | .transition id state expectedRevision now =>
    commit s (s.transition id state expectedRevision now)
  | .runNow id commandId expectedRevision draw now =>
    commit s (s.runNow id commandId expectedRevision draw now)
  | .fire id request expectedRevision draw now =>
    commit s (s.fire cron config id request expectedRevision draw now)

/-- The call of a command.  No command asks for `.completed`. -/
def ScheduleOp.call : ScheduleOp → ScheduleCall
  | .create request actorId policyFingerprint revision now =>
    .create request actorId policyFingerprint revision now
  | .pause id expectedRevision now => .transition id .paused expectedRevision now
  | .resume id expectedRevision now => .transition id .active expectedRevision now
  | .remove id expectedRevision now => .transition id .removed expectedRevision now
  | .runNow id commandId expectedRevision draw now => .runNow id commandId expectedRevision draw now
  | .fire id request expectedRevision draw now => .fire id request expectedRevision draw now

/-! ## What a call does to a schedule -/

/-- How a call may rewrite a schedule. -/
def Reschedules (r r' : ScheduleRecord) : ScheduleCall → Prop
  | .create .. => False
  | .transition id state expectedRevision _ =>
    (r.scheduleId = id ∧ r.revision = expectedRevision) ∧ r.state ≠ .removed ∧
      ¬(state = .active ∧ r.state = .completed) ∧ r'.state = state ∧
      r'.nextFireAt = if state = .removed then none else r.nextFireAt
  | .runNow .. => r.state ≠ .removed ∧ r'.state = r.state ∧ r'.nextFireAt = r.nextFireAt
  | .fire .. =>
    r.state = .active ∧ r.nextFireAt ≠ none ∧
      (r'.state = .active ∧ r'.nextFireAt ≠ none ∨ r'.state = .completed ∧ r'.nextFireAt = none)

/-- **What a call does to the schedules**: it keeps their identities, rewrites one in its own way,
or creates one that is active and due. -/
structure CallEffect (s s' : ScheduleStore) (call : ScheduleCall) : Prop where
  kept : ∀ r ∈ s.schedules, ∃ r' ∈ s'.schedules, r'.scheduleId = r.scheduleId
  rows : ∀ r' ∈ s'.schedules, r' ∈ s.schedules ∨
    (∃ r ∈ s.schedules, r.scheduleId = r'.scheduleId ∧ Reschedules r r' call) ∨
      ((∀ r ∈ s.schedules, r.scheduleId ≠ r'.scheduleId) ∧ r'.state = .active ∧
        r'.nextFireAt ≠ none)

variable {cron : CronCalculator} {config : SchedulingConfig} {s s' s₁ : ScheduleStore} {id : Uuid}
  {call : ScheduleCall} {current : ScheduleRecord}

theorem CallEffect.refl : CallEffect s s call where
  kept r hr := ⟨r, hr, rfl⟩
  rows _ hr' := .inl hr'

variable {expectedRevision : Nat} {now : Instant} {record : ScheduleRecord}

variable {state : ScheduleState}

/-- An update that rewrites the current schedule in the way of a call has its effect. -/
theorem CallEffect.of_update {nextFireAt lastEvaluatedAt : Option Instant}
    (h : s₁.updateScheduleInSession id expectedRevision state nextFireAt lastEvaluatedAt now
      = .ok (record, s')) (hsame : s₁.schedules = s.schedules) (hcurrent : current ∈ s.schedules)
    (hid : current.scheduleId = id) (hresched : Reschedules current
      (ScheduleStore.updated state nextFireAt lastEvaluatedAt now current) call) :
    CallEffect s s' call where
  kept r hr := owned_of_update h (hsame ▸ hr) rfl
  rows r' hr' := by
    rcases (updateSchedule_spec h).2 r' hr' with ⟨hr, -⟩ | ⟨r, hr, hrid, rfl⟩
    · exact .inl (hsame ▸ hr)
    · obtain rfl := schedule_eq (hsame ▸ hr) hcurrent (hrid.trans hid.symm)
      exact .inr (.inl ⟨r, hcurrent, rfl, hresched⟩)

theorem CallEffect.create {request : ScheduleCreateRequest} {actorId policyFingerprint : String}
    {revision : Nat}
    (hok : s.create cron request actorId policyFingerprint revision now = .ok (record, s')) :
    CallEffect s s' (.create request actorId policyFingerprint revision now) := by
  simp only [ScheduleStore.create, bind_eq_ok] at hok
  obtain ⟨first, -, hok⟩ := hok
  rcases createInSession_spec hok with rfl | ⟨schedules, hinsert, rfl⟩
  · exact .refl
  refine ⟨fun r hr => ⟨r, (Table.mem_of_insert hinsert).mpr (.inl hr), rfl⟩, fun r' hr' => ?_⟩
  rcases (Table.mem_of_insert hinsert).mp hr' with hr' | rfl
  · exact .inl hr'
  · refine .inr (.inr ⟨fun r hr hrid => ?_, rfl, by simp⟩)
    exact absurd (by simp [Keyed.clash, Keyed.key, hrid]) (Table.not_clash_of_insert hinsert hr)

theorem revision_of_update {nextFireAt lastEvaluatedAt : Option Instant}
    (h : s.updateScheduleInSession id expectedRevision state nextFireAt lastEvaluatedAt now
      = .ok (record, s')) (hcurrent : current ∈ s.schedules) (hid : current.scheduleId = id) :
    current.revision = expectedRevision := by
  simp only [ScheduleStore.updateScheduleInSession, bind_eq_ok, refuseIf_eq_ok, not_not,
    requireSchedule_eq_ok] at h
  obtain ⟨r, ⟨hr, hrid⟩, _, hrevision, -⟩ := h
  exact schedule_eq hr hcurrent (hrid.trans hid.symm) ▸ hrevision

theorem CallEffect.transition
    (hok : s.transition id state expectedRevision now = .ok (record, s')) :
    CallEffect s s' (.transition id state expectedRevision now) := by
  simp only [ScheduleStore.transition, bind_eq_ok, refuseIf_eq_ok,
    requireSchedule_eq_ok] at hok
  obtain ⟨current, ⟨hcurrent, hid⟩, _, hremoved, _, hresume, hok⟩ := hok
  exact .of_update hok rfl hcurrent hid
    ⟨⟨hid, revision_of_update hok hcurrent hid⟩, hremoved, hresume, rfl, rfl⟩

theorem CallEffect.runNow {commandId draw : Uuid} {o : ScheduleOccurrence}
    (hok : s.runNow id commandId expectedRevision draw now = .ok (o, s')) :
    CallEffect s s' (.runNow id commandId expectedRevision draw now) := by
  simp only [ScheduleStore.runNow, bind_eq_ok, refuseIf_eq_ok, pure_eq_ok, Prod.exists,
    Prod.mk.injEq, requireSchedule_eq_ok] at hok
  obtain ⟨current, ⟨hcurrent, hid⟩, _, hremoved, _, s₁, h₁, _, _, h₂, -, rfl⟩ := hok
  exact .of_update h₂ (createOccurrence_spec h₁).1 hcurrent hid ⟨hremoved, rfl, rfl⟩

theorem CallEffect.fire {request : ScheduleFireRequest} {draw : Nat → Uuid} {o : ScheduleOccurrence}
    (hok : s.fire cron config id request expectedRevision draw now = .ok (o, s')) :
    CallEffect s s' (.fire id request expectedRevision draw now) := by
  simp only [ScheduleStore.fire, bind_eq_ok, refuseIf_eq_ok, require_eq_ok, pure_eq_ok,
    Prod.exists, Prod.mk.injEq, requireSchedule_eq_ok] at hok
  obtain ⟨current, ⟨hcurrent, hid⟩, nextFireAt, hactive, _, -, selected, -, s₁, h₁, _, s₂, h₂, _,
    _, h₃, -, rfl⟩ := hok
  have hsame : s₂.schedules = s.schedules :=
    (createOccurrence_spec h₂).1.trans (createOccurrences_spec h₁).1
  split_ifs at hactive with hstate
  refine .of_update h₃ hsame hcurrent hid ⟨hstate, by simp [hactive], ?_⟩
  cases hnext : ScheduleClock.nextAfter cron current.trigger selected with
  | none => exact .inr ⟨by simp [ScheduleStore.updated], by simp [ScheduleStore.updated]⟩
  | some next => exact .inl ⟨by simp [ScheduleStore.updated], by simp [ScheduleStore.updated]⟩

theorem effect_callStep (cron : CronCalculator) (config : SchedulingConfig) (s : ScheduleStore)
    (call : ScheduleCall) : CallEffect s (callStep cron config s call) call := by
  have heffect : ∀ {α : Type} {call : ScheduleCall} {x : Except Raised (α × ScheduleStore)},
      (∀ a s', x = .ok (a, s') → CallEffect s s' call) → CallEffect s (commit s x) call :=
    fun hok => commit_cases (R := fun s s' => CallEffect s s' _) .refl hok
  cases call with
  | create => exact heffect fun _ _ hok => .create hok
  | transition => exact heffect fun _ _ hok => .transition hok
  | runNow => exact heffect fun _ _ hok => .runNow hok
  | fire => exact heffect fun _ _ hok => .fire hok

/-- A transition that is not refused rewrites its schedule. -/
theorem exists_rewritten (cron : CronCalculator) (config : SchedulingConfig)
    (state : ScheduleState) (now : Instant) (hcurrent : current ∈ s.schedules)
    (hremoved : current.state ≠ .removed)
    (hresume : ¬(state = .active ∧ current.state = .completed)) : ∃ r' ∈ (callStep cron config s
        (.transition current.scheduleId state current.revision now)).schedules,
      r'.state = state ∧ r'.nextFireAt = if state = .removed then none else current.nextFireAt := by
  have hrequire := requireSchedule_eq_ok.mpr ⟨hcurrent, rfl⟩
  refine ⟨ScheduleStore.updated state (if state = .removed then none else current.nextFireAt) none
    now current, ?_, rfl, rfl⟩
  simp only [callStep, ScheduleStore.transition, ScheduleStore.updateScheduleInSession, hrequire,
    ok_bind, refuseIf, if_neg hremoved, if_neg hresume, ne_eq, not_true_eq_false, if_false]
  change _ ∈ s.schedules.update _ _ (updated_key _ _ _ _)
  rw [Table.mem_update]
  exact ⟨current, hcurrent, by simp⟩

/-! ## Finished schedules -/

def ScheduleRecord.IsFinished (r : ScheduleRecord) : Prop :=
  r.state = .completed ∨ r.state = .removed

/-- An active schedule has a next fire time, and a finished one has none. -/
structure ScheduleRecord.Sound (r : ScheduleRecord) : Prop where
  active : r.state = .active → r.nextFireAt ≠ none
  finished : r.IsFinished → r.nextFireAt = none

/-- Neither active nor due. -/
def ScheduleRecord.Rests (r : ScheduleRecord) : Prop := r.state ≠ .active ∧ r.nextFireAt = none

theorem ScheduleRecord.Sound.rests {r : ScheduleRecord} (h : r.Sound) (hf : r.IsFinished) :
    r.Rests := by
  refine ⟨fun ha => ?_, h.finished hf⟩
  rcases hf with hf | hf <;> simp [hf] at ha

/-- What resumes is due, and what is declared completed is not. -/
def RespectsFireTime (s : ScheduleStore) : ScheduleCall → Prop
  | .transition id state expectedRevision _ =>
    ∀ r ∈ s.schedules, r.scheduleId = id → r.revision = expectedRevision → r.state ≠ .removed →
      (state = .active → r.state ≠ .completed → r.nextFireAt ≠ none) ∧
        (state = .completed → r.nextFireAt = none)
  | _ => True

/-- Every schedule of a store is sound. -/
def AllSound (s : ScheduleStore) : Prop := ∀ r ∈ s.schedules, r.Sound

theorem Reschedules.sound {r r' : ScheduleRecord} (h : Reschedules r r' call) (hr : r ∈ s.schedules)
    (hsound : r.Sound) (hrespects : RespectsFireTime s call) : r'.Sound := by
  cases call with
  | create => exact h.elim
  | transition id state expectedRevision now =>
    obtain ⟨⟨hid, hrevision⟩, hremoved, hresume, hstate, hnext⟩ := h
    obtain ⟨hdue, hdone⟩ := hrespects r hr hid hrevision hremoved
    refine ⟨fun ha => ?_, fun hf => ?_⟩
    · have hactive : state = .active := hstate.symm.trans ha
      rw [hnext, if_neg (by simp [hactive])]
      exact hdue hactive fun hc => hresume ⟨hactive, hc⟩
    · rw [hnext]
      split_ifs with hgone
      · rfl
      · rw [ScheduleRecord.IsFinished, hstate] at hf
        exact hdone (hf.resolve_right hgone)
  | runNow =>
    obtain ⟨-, hstate, hnext⟩ := h
    refine ⟨fun ha => ?_, fun hf => ?_⟩
    · rw [hnext]
      exact hsound.active (hstate ▸ ha)
    · rw [hnext]
      rw [ScheduleRecord.IsFinished, hstate] at hf
      exact hsound.finished hf
  | fire =>
    obtain ⟨-, -, ⟨hstate, hnext⟩ | ⟨hstate, hnext⟩⟩ := h
    · exact ⟨fun _ => hnext, fun hf => by simp [ScheduleRecord.IsFinished, hstate] at hf⟩
    · exact ⟨fun ha => by simp [hstate] at ha, fun _ => hnext⟩

theorem Reschedules.rests {r r' : ScheduleRecord} (h : Reschedules r r' call) (hr : r ∈ s.schedules)
    (hrests : r.Rests) (hrespects : RespectsFireTime s call) : r'.Rests := by
  cases call with
  | create => exact h.elim
  | transition id state expectedRevision now =>
    obtain ⟨⟨hid, hrevision⟩, hremoved, hresume, hstate, hnext⟩ := h
    refine ⟨fun ha => ?_, by rw [hnext, hrests.2, ite_self]⟩
    have hactive : state = .active := hstate.symm.trans ha
    exact (hrespects r hr hid hrevision hremoved).1 hactive
      (fun hc => hresume ⟨hactive, hc⟩) hrests.2
  | runNow => exact ⟨fun ha => hrests.1 (h.2.1 ▸ ha), h.2.2.trans hrests.2⟩
  | fire => exact absurd h.1 hrests.1

theorem allSound_callStep (hsound : AllSound s) (hrespects : RespectsFireTime s call) :
    AllSound (callStep cron config s call) := by
  intro r' hr'
  rcases (effect_callStep cron config s call).rows r' hr' with
    hr | ⟨r, hr, -, hresched⟩ | ⟨-, hstate, hnext⟩
  · exact hsound r' hr
  · exact hresched.sound hr (hsound r hr) hrespects
  · exact ⟨fun _ => hnext, fun hf => by simp [ScheduleRecord.IsFinished, hstate] at hf⟩

/-- What rests in one state is there and rests in the other. -/
structure KeepsResting (s s' : ScheduleStore) : Prop where
  kept : ∀ r ∈ s.schedules, ∃ r' ∈ s'.schedules, r'.scheduleId = r.scheduleId
  rests : ∀ r ∈ s.schedules, r.Rests → ∀ r' ∈ s'.schedules, r'.scheduleId = r.scheduleId → r'.Rests

theorem KeepsResting.refl (s : ScheduleStore) : KeepsResting s s where
  kept r hr := ⟨r, hr, rfl⟩
  rests _ hr hrests _ hr' hid := schedule_eq hr' hr hid ▸ hrests

theorem KeepsResting.trans {s₂ : ScheduleStore} (h : KeepsResting s s₁)
    (h' : KeepsResting s₁ s₂) : KeepsResting s s₂ where
  kept r hr := by
    obtain ⟨r₁, hr₁, hid₁⟩ := h.kept r hr
    obtain ⟨r₂, hr₂, hid₂⟩ := h'.kept r₁ hr₁
    exact ⟨r₂, hr₂, hid₂.trans hid₁⟩
  rests r hr hrests r₂ hr₂ hid₂ := by
    obtain ⟨r₁, hr₁, hid₁⟩ := h.kept r hr
    exact h'.rests r₁ hr₁ (h.rests r hr hrests r₁ hr₁ hid₁) r₂ hr₂ (hid₂.trans hid₁.symm)

theorem keepsResting_callStep (hrespects : RespectsFireTime s call) :
    KeepsResting s (callStep cron config s call) where
  kept := (effect_callStep cron config s call).kept
  rests r hr hrests r' hr' hid := by
    rcases (effect_callStep cron config s call).rows r' hr' with
      hsame | ⟨r₁, hr₁, hid₁, hresched⟩ | ⟨hnew, -⟩
    · exact schedule_eq hsame hr hid ▸ hrests
    · obtain rfl := schedule_eq hr₁ hr (hid₁.trans hid)
      exact hresched.rests hr₁ hrests hrespects
    · exact absurd hid.symm (hnew r hr)

/-- A call after which every schedule is sound respected their fire times. -/
theorem respectsFireTime_of_allSound (h : AllSound (callStep cron config s call)) :
    RespectsFireTime s call := by
  cases call with
  | transition id state expectedRevision now =>
    rintro r hr rfl rfl hremoved
    refine ⟨fun hactive hcompleted => ?_, fun hdone => ?_⟩
    · obtain ⟨r', hr', hstate, hnext⟩ := exists_rewritten cron config state now hr hremoved
        fun hboth => hcompleted hboth.2
      rw [← (if_neg (by simp [hactive]) : (if state = .removed then none else r.nextFireAt) = _),
        ← hnext]
      exact (h r' hr').active (hstate.trans hactive)
    · obtain ⟨r', hr', hstate, hnext⟩ := exists_rewritten cron config state now hr hremoved
        (by simp [hdone])
      rw [← (if_neg (by simp [hdone]) : (if state = .removed then none else r.nextFireAt) = _),
        ← hnext]
      exact (h r' hr').finished (.inl (hstate.trans hdone))
  | create => trivial
  | runNow => trivial
  | fire => trivial

/-! ## Runs -/

/-- The store after the first calls of a sequence on a new database. -/
def storeAfter (cron : CronCalculator) (config : SchedulingConfig) (calls : List ScheduleCall)
    (n : Nat) : ScheduleStore :=
  run (callStep cron config) .empty (calls.take n)

/-- Finished schedules stay finished: in every state a schedule is active only with a next fire
time and finished only without, and none that was finished is active later. -/
structure StaysFinished (cron : CronCalculator) (config : SchedulingConfig)
    (calls : List ScheduleCall) : Prop where
  sound : ∀ n, ∀ r ∈ (storeAfter cron config calls n).schedules,
    (r.state = .active → r.nextFireAt ≠ none) ∧
      (r.state = .completed ∨ r.state = .removed → r.nextFireAt = none)
  finished : ∀ m n, m ≤ n → ∀ r ∈ (storeAfter cron config calls m).schedules,
    r.state = .completed ∨ r.state = .removed →
      ∀ r' ∈ (storeAfter cron config calls n).schedules, r'.scheduleId = r.scheduleId →
        r'.state ≠ .active

theorem allSound_empty : AllSound .empty := fun _ hr => absurd hr Table.not_mem_empty

theorem along_of_allSound {calls : List ScheduleCall}
    (h : ∀ n, AllSound (run (callStep cron config) s (calls.take n))) :
    Along (callStep cron config) RespectsFireTime s calls := by
  induction calls generalizing s with
  | nil => trivial
  | cons call calls ih =>
    exact ⟨respectsFireTime_of_allSound (h 1), ih fun n => h (n + 1)⟩

/-- **When finished schedules stay finished**: exactly if no call resumes a schedule that has no
next fire time, as a completed one that was paused. -/
theorem staysFinished_iff (cron : CronCalculator) (config : SchedulingConfig)
    (calls : List ScheduleCall) :
    StaysFinished cron config calls ↔
      Along (callStep cron config) RespectsFireTime .empty calls := by
  constructor
  · exact fun h => along_of_allSound fun n r hr => ⟨(h.sound n r hr).1, (h.sound n r hr).2⟩
  · intro h
    have hfirst (n : Nat) : Along (callStep cron config) RespectsFireTime .empty (calls.take n) :=
      (Along.append.mp ((List.take_append_drop n calls).symm ▸ h)).1
    have hsound (n : Nat) : AllSound (storeAfter cron config calls n) :=
      run_of_guarded (fun _ _ => allSound_callStep) allSound_empty (hfirst n)
    refine ⟨fun n r hr => ⟨(hsound n r hr).active, (hsound n r hr).finished⟩, ?_⟩
    intro m n hmn r hr hf r' hr' hid
    obtain ⟨rest, hrest⟩ : ∃ rest, calls.take n = calls.take m ++ rest :=
      ⟨(calls.take n).drop m, by
        conv_lhs => rw [← List.take_append_drop m (calls.take n), List.take_take, min_eq_left hmn]⟩
    have hsecond := hfirst n
    rw [hrest, Along.append] at hsecond
    have hkeeps :
        KeepsResting (storeAfter cron config calls m) (storeAfter cron config calls n) := by
      rw [storeAfter, storeAfter, hrest, run_append]
      exact run_rel_of_guarded (I := fun _ => True) KeepsResting.refl KeepsResting.trans
        (fun _ _ _ _ => trivial) (fun _ _ _ => keepsResting_callStep) trivial hsecond.2
    exact (hkeeps.rests r hr ((hsound m r hr).rests hf) r' hr' hid).1

/-! ## A completed schedule, paused -/

/-- A one-shot schedule: it fires, and is paused and resumed after that. -/
def pausedAfterwards : List ScheduleCall :=
  [.create { scheduleId := 1, mission := { projectId := "p", renderedObjective := "report" },
             trigger := .date hour } "operator" "policy" 1 0,
    .fire 1 { isExternal := false, observedAt := hour } 1 (fun n => 100 + n) hour,
    .transition 1 .paused 2 (2 * hour), .transition 1 .active 3 (3 * hour)]

/-- What is public of the schedules of a store. -/
def statesOf (s : ScheduleStore) : List (ScheduleState × Option Instant) :=
  s.schedules.rows.map fun r => (r.state, r.nextFireAt)

/-- The sample's bounds. -/
def sampleConfig : SchedulingConfig where
  misfireGraceSeconds := 60
  coalesce := true
  maxCatchUpOccurrences := 8
  maxAttempts := 3
  catch_up_bound := by decide

/-- **A completed schedule becomes active again**, with nothing to fire, once it is paused and
resumed. -/
theorem completed_resumes :
    ¬(∀ calls, StaysFinished hourly sampleConfig calls) ∧
      ((List.range 5).map fun n => statesOf (storeAfter hourly sampleConfig pausedAfterwards n)) =
        [[], [(.active, some hour)], [(.completed, none)], [(.paused, none)],
          [(.active, none)]] := by
  have hstates : ((List.range 5).map fun n =>
      statesOf (storeAfter hourly sampleConfig pausedAfterwards n)) =
      [[], [(.active, some hour)], [(.completed, none)], [(.paused, none)], [(.active, none)]] := by
    decide +kernel
  refine ⟨fun hall => ?_, hstates⟩
  have hlast :
      statesOf (storeAfter hourly sampleConfig pausedAfterwards 4) = [(.active, none)] := by
    decide +kernel
  obtain ⟨r, hr, hrstate⟩ := List.mem_map.mp (hlast ▸ List.mem_singleton_self _ :
    ((ScheduleState.active, none) : ScheduleState × Option Instant) ∈
      statesOf (storeAfter hourly sampleConfig pausedAfterwards 4))
  rw [Prod.mk.injEq] at hrstate
  exact ((hall pausedAfterwards).sound 4 r hr).1 hrstate.1 hrstate.2

end Mishkan
