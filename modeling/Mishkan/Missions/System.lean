import Mishkan.Conversations.Repository
import Mishkan.Foundations.Transition

/-!
# Missions/System — the operations of both repositories and what each can have done

A `MissionOp` is one transaction of the mission or the conversation repository, or a step of the
services whose tables the two only read.  `MissionChange` says what an operation that succeeds has
checked and written, and `missionStep_change` that it is one of these.
-/

namespace Mishkan

open Refusal Transition

/-! ## Operations -/

inductive MissionOp where
  | recordOrganization (organization : OrganizationRosterDefinition)
  | createMission (record : ValidMission)
  | recordBrief (brief : MissionBrief) (expectedRevision : Nat) (now : Instant)
  | recordCrew (crew : MissionCrewRevision) (expectedRevision : Nat) (now : Instant)
  | recordAssignment (assignment : MissionTaskAssignment)
  | transition (transition : MissionTransition) (expectedRevision : Nat) (now : Instant)
  | recordRunBinding (binding : MissionRunBinding)
  | recordRunReport (report : MissionRunReport)
  | acceptEnvironmentPlan (acceptance : MissionEnvironmentPlanAcceptance) (expectedRevision : Nat)
      (now : Instant)
  | createChannel (channel : ConversationChannel)
  | postMessage (message : ConversationMessage)
  | recordDecision (decision : MissionDecision)
  | createEscalation (escalation : MissionEscalation)
  | applyIntervention (intervention : MissionIntervention) (expectedRevision : Nat) (now : Instant)
  /-- The run repository and the environment repository move on, in any way. -/
  | outside (runs : Store) (environments : EnvironmentRows)

namespace MissionStore

/-- The store a transaction ends with, its result aside. -/
def ending {α : Type} (x : Except Raised (α × MissionStore)) :
    Except Raised (Unit × MissionStore) := x.map fun r => ((), r.2)

@[simp] theorem ending_eq_ok {α : Type} {x : Except Raised (α × MissionStore)}
    {r : Unit × MissionStore} : ending x = .ok r ↔ ∃ a, x = .ok (a, r.2) := by
  simp only [ending, map_eq_ok, Prod.exists]
  constructor
  · rintro ⟨a, s', h, rfl⟩
    exact ⟨a, h⟩
  · rintro ⟨a, h⟩
    exact ⟨a, r.2, h, rfl⟩

/-- How an operation ends. -/
def perform (s : MissionStore) : MissionOp → Except Raised (Unit × MissionStore)
  | .recordOrganization organization => ending (s.recordOrganization organization)
  | .createMission record => ending (s.createMission record)
  | .recordBrief brief expected now => ending (s.recordBrief brief expected now)
  | .recordCrew crew expected now => ending (s.recordCrew crew expected now)
  | .recordAssignment assignment => ending (s.recordAssignment assignment)
  | .transition transition expected now => ending (s.transition transition expected now)
  | .recordRunBinding binding => ending (s.recordRunBinding binding)
  | .recordRunReport report => ending (s.recordRunReport report)
  | .acceptEnvironmentPlan acceptance expected now =>
    ending (s.acceptEnvironmentPlan acceptance expected now)
  | .createChannel channel => ending (s.createChannel channel)
  | .postMessage message => ending (s.postMessage message)
  | .recordDecision decision => ending (s.recordDecision decision)
  | .createEscalation escalation => ending (s.createEscalation escalation)
  | .applyIntervention intervention expected now =>
    ending (s.applyIntervention intervention expected now)
  | .outside runs environments => .ok ((), { s with runs := runs, environments := environments })

end MissionStore

open MissionStore

/-- The store after an operation; one that is refused leaves it alone. -/
def missionStep (s : MissionStore) (op : MissionOp) : MissionStore := commit s (s.perform op)

/-- The store after any order of operations. -/
def missionRun (s : MissionStore) (ops : List MissionOp) : MissionStore := run missionStep s ops

/-! ## What an operation can have done -/

/-- The tables of missions, their versions, their assignments and their controls stay. -/
structure TablesKept (s s' : MissionStore) : Prop where
  missions : s'.missions = s.missions
  briefs : s'.briefs = s.briefs
  crews : s'.crews = s.crews
  assignments : s'.assignments = s.assignments
  bindings : s'.bindings = s.bindings
  environmentPlans : s'.environmentPlans = s.environmentPlans
  interventions : s'.interventions = s.interventions

theorem TablesKept.refl (s : MissionStore) : TablesKept s s := ⟨rfl, rfl, rfl, rfl, rfl, rfl, rfl⟩

/-- What an operation has checked, and what it has written. -/
inductive MissionChange (s : MissionStore) : MissionOp → MissionStore → Prop
  | quiet {op : MissionOp} {s' : MissionStore} (h : TablesKept s s') : MissionChange s op s'
  | created {record : ValidMission} {missions : Table MissionRow}
      (hnew : s.mission? record.1.missionId = none) (hstate : record.1.state = .proposed)
      (hinsert : s.missions.insert (proposedRow { record.1 with revision := 1 }) = some missions) :
      MissionChange s (.createMission record) { s with missions := missions }
  | briefed {brief : MissionBrief} {expected : Nat} {now : Instant} {mission : MissionRecord}
      {briefs : Table MissionBrief} (hmission : s.mission brief.missionId = .ok mission)
      (hlive : ¬ mission.state.isTerminal = true)
      (hversion : brief.version = mission.currentBriefVersion.getD 0 + 1)
      (hinsert : s.briefs.insert brief = some briefs) :
      MissionChange s (.recordBrief brief expected now)
        ({ s with briefs := briefs }.updateMissionRow brief.missionId
          (withBrief mission brief.version now))
  | crewed {crew : MissionCrewRevision} {expected : Nat} {now : Instant} {mission : MissionRecord}
      {crews : Table MissionCrewRevision}
      (hnew : s.crews.find (·.crewId = crew.crewId) = none)
      (hmission : s.mission crew.missionId = .ok mission) (hrevision : mission.revision = expected)
      (hbrief : some crew.briefVersion = mission.currentBriefVersion)
      (hversion : crew.version = mission.currentCrewVersion.getD 0 + 1)
      (hinsert : s.crews.insert crew = some crews) :
      MissionChange s (.recordCrew crew expected now)
        ({ s with crews := crews }.updateMissionRow crew.missionId
          (withCrew mission crew.version now))
  | assigned {assignment : MissionTaskAssignment} {mission : MissionRecord}
      {assignments : Table MissionTaskAssignment}
      (hnew : s.assignments.find (·.assignmentId = assignment.assignmentId) = none)
      (hmission : s.mission assignment.missionId = .ok mission)
      (hcrew : some assignment.crewVersion = mission.currentCrewVersion)
      (hrevision : assignment.assignmentRevision = 1 +
        ((s.currentAssignment assignment.missionId assignment.taskId).map
          (·.assignmentRevision)).getD 0)
      (hinsert : s.assignments.insert assignment = some assignments) :
      MissionChange s (.recordAssignment assignment) { s with assignments := assignments }
  | transitioned {t : MissionTransition} {expected : Nat} {now : Instant} {mission : MissionRecord}
      {transitions : Table MissionTransition}
      (hnew : s.transitions.find (·.transitionId = t.transitionId) = none)
      (hmission : s.mission t.missionId = .ok mission) (hrevision : mission.revision = expected)
      (hfrom : t.fromState = mission.state)
      (hallowed : t.toState ∈ missionTransitions mission.state)
      (hversions : t.toState ≠ .clarifying → t.toState ≠ .cancelled →
        mission.currentBriefVersion ≠ none ∧ mission.currentCrewVersion ≠ none)
      (hgate : t.toState = .active → ∃ crewVersion, mission.currentCrewVersion = some crewVersion ∧
        s.requireActivation mission crewVersion = .ok ()) :
      MissionChange s (.transition t expected now)
        ({ s with transitions := transitions }.updateMissionRow t.missionId
          (moved mission t.toState now))
  | bound {binding : MissionRunBinding} {mission : MissionRecord}
      {bindings : Table MissionRunBinding}
      (hnew : s.bindings.find (·.bindingId = binding.bindingId) = none)
      (hmission : s.mission binding.missionId = .ok mission)
      (hrevision : binding.bindingRevision = 1 + ((Latest.get? (·.bindingKey) (·.bindingRevision)
        (s.bindingsOf binding.missionId) binding.bindingKey).map (·.bindingRevision)).getD 0)
      (hsettles : ∀ prior, Latest.get? (·.bindingKey) (·.bindingRevision)
        (s.bindingsOf binding.missionId) binding.bindingKey = some prior →
          lineageOf prior = lineageOf binding ∧ prior.acceptance = .pending)
      (hsole : ∀ row ∈ s.bindingsOf binding.missionId, row.runId = binding.runId →
        row.executionTaskId = binding.executionTaskId → row.bindingKey = binding.bindingKey)
      (hinsert : s.bindings.insert binding = some bindings) :
      MissionChange s (.recordRunBinding binding) { s with bindings := bindings }
  | planned {acceptance : MissionEnvironmentPlanAcceptance} {expected : Nat} {now : Instant}
      {mission : MissionRecord} {plans : Table MissionEnvironmentPlanAcceptance}
      (hnew : s.environmentPlans.find (·.plan.planId = acceptance.plan.planId) = none)
      (hmission : s.mission acceptance.plan.missionId = .ok mission)
      (hrevision : mission.revision = expected)
      (hversion : acceptance.plan.version = mission.currentEnvironmentPlanVersion.getD 0 + 1)
      (hinsert : s.environmentPlans.insert acceptance = some plans) :
      MissionChange s (.acceptEnvironmentPlan acceptance expected now)
        ({ s with environmentPlans := plans }.updateMissionRow acceptance.plan.missionId
          (withEnvironmentPlan mission acceptance.plan.version now))
  | intervened {i : MissionIntervention} {expected : Nat} {now : Instant} {mission : MissionRecord}
      {escalations : Table MissionEscalation} {interventions : Table MissionIntervention}
      {nextState : Option MissionState}
      (hnew : s.interventions.find (·.interventionId = i.interventionId) = none)
      (hmission : s.mission i.missionId = .ok mission) (hrevision : mission.revision = expected)
      (htarget : s.validateInterventionTarget i = .ok ())
      (hsequence : s.validateInterventionSequence i = .ok ())
      (hnext : transitionState mission i = .ok nextState)
      (hinsert : s.interventions.insert i = some interventions) :
      MissionChange s (.applyIntervention i expected now)
        { s with
          escalations := escalations
          interventions := interventions
          missions := s.missions.update (·.id = i.missionId)
            (intervene (moved mission (nextState.getD mission.state) now))
            (intervene_key (moved mission (nextState.getD mission.state) now)) }

namespace MissionStore

variable {s s' : MissionStore} {op : MissionOp} {mission : MissionRecord} {id : Uuid}

/-- **A mission is read back from its row, which is valid.** -/
theorem mission_eq_ok : s.mission id = .ok mission ↔
    ∃ row ∈ s.missions, row.id = id ∧ row.payload = mission ∧ mission.Valid := by
  simp only [MissionStore.mission, requireMissionRow, bind_eq_ok, require_eq_ok, mission?_eq_some,
    MissionRecord.modelValidate_eq_ok]
  constructor
  · rintro ⟨row, ⟨hrow, hid⟩, hvalid, rfl⟩
    exact ⟨row, hrow, hid, rfl, hvalid⟩
  · rintro ⟨row, hrow, hid, rfl, hvalid⟩
    exact ⟨row, ⟨hrow, hid⟩, hvalid, rfl⟩

/-- The row of a mission that was read back. -/
theorem row_of_mission (hmission : s.mission id = .ok mission) :
    ∃ row ∈ s.missions, row.id = id ∧ row.payload = mission ∧ mission.Valid ∧
      ∀ row' ∈ s.missions, row'.id = id → row' = row := by
  obtain ⟨row, hrow, hid, hpayload, hvalid⟩ := mission_eq_ok.mp hmission
  refine ⟨row, hrow, hid, hpayload, hvalid, fun row' hrow' hid' => ?_⟩
  exact Table.eq_of_clash hrow' hrow (by simp [Keyed.clash, Keyed.key, hid, hid'])

/-- The rows after a mission is rewritten: the others, and the rewritten one. -/
theorem mem_rewritten (hmission : s.mission id = .ok mission) {row' : MissionRow}
    {f : MissionRow → MissionRow} {hf : ∀ row, Keyed.key (f row) = Keyed.key row}
    (h : row' ∈ s.missions.update (·.id = id) f hf) : (row' ∈ s.missions ∧ row'.id ≠ id) ∨
      ∃ row ∈ s.missions, row.id = id ∧ row.payload = mission ∧ row' = f row := by
  obtain ⟨row, hrow, hid, hpayload, -, hunique⟩ := row_of_mission hmission
  obtain ⟨row₀, hrow₀, rfl⟩ := Table.mem_update.mp h
  by_cases hid₀ : row₀.id = id
  · refine .inr ⟨row₀, hrow₀, hid₀, ?_, by simp [hid₀]⟩
    rw [hunique row₀ hrow₀ hid₀, hpayload]
  · exact .inl (by simpa [hid₀] using hrow₀)

/-- **An intervention leaves the state of its mission, or moves a live one to the state it results
in**; only a paused or a blocked mission resumes. -/
theorem transitionState_cases {i : MissionIntervention} {nextState : Option MissionState}
    (h : transitionState mission i = .ok nextState) : nextState = none ∨
      ∃ requested, nextState = some requested ∧ i.targetKind = .mission ∧
        i.resultingMissionState = some requested ∧ ¬ mission.state.isTerminal = true ∧
        (i.kind = .resume → mission.state = .paused ∨ mission.state = .blocked) := by
  unfold transitionState at h
  split at h
  · cases h
    exact .inl rfl
  rename_i htarget
  cases hresult : i.resultingMissionState with
  | none =>
    rw [hresult] at h
    cases h
    exact .inl rfl
  | some requested =>
    rw [hresult] at h
    simp only [bind_eq_ok, refuseIf_eq_ok, pure_eq_ok, not_and, not_not] at h
    obtain ⟨-, hlive, -, hresume, rfl⟩ := h
    refine .inr ⟨requested, rfl, not_not.mp htarget, rfl, hlive, fun hkind => ?_⟩
    exact or_iff_not_imp_left.mpr (hresume hkind)

/-- The missions of two stores are the same, but for `mission`, which has become `record`. -/
structure Rewritten (s s' : MissionStore) (id : Uuid) (mission record : MissionRecord) : Prop where
  back : ∀ row' ∈ s'.missions, (row' ∈ s.missions ∧ row'.id ≠ id) ∨
    ∃ row ∈ s.missions, row.id = id ∧ row.payload = mission ∧ row'.id = id ∧ row'.payload = record
  forth : ∀ row ∈ s.missions, ∃ row' ∈ s'.missions, row'.id = row.id ∧
    ((row.id ≠ id ∧ row'.payload = row.payload) ∨
      (row.id = id ∧ row.payload = mission ∧ row'.payload = record))

theorem rewritten_of_update (hmission : s.mission id = .ok mission) {record : MissionRecord}
    {f : MissionRow → MissionRow} (hf : ∀ row, Keyed.key (f row) = Keyed.key row)
    (hmissions : s'.missions = s.missions.update (·.id = id) f hf)
    (hpayload : ∀ row, (f row).payload = record) : Rewritten s s' id mission record := by
  refine ⟨fun row' hrow' => ?_, fun row hrow => ?_⟩
  · rcases mem_rewritten hmission (hmissions ▸ hrow') with h | ⟨row, hrow, hid, hp, rfl⟩
    · exact .inl h
    · exact .inr ⟨row, hrow, hid, hp, (hf row).trans hid, hpayload row⟩
  · obtain ⟨row₀, -, -, hp, -, hunique⟩ := row_of_mission hmission
    refine ⟨_, hmissions ▸ Table.mem_update.mpr ⟨row, hrow, rfl⟩, ?_⟩
    by_cases hid : row.id = id
    · rw [if_pos (decide_eq_true hid)]
      exact ⟨hf row, .inr ⟨hid, hunique row hrow hid ▸ hp, hpayload row⟩⟩
    · rw [if_neg (by simpa using hid)]
      exact ⟨rfl, .inl ⟨hid, rfl⟩⟩

theorem rewritten_of_eq (hmission : s.mission id = .ok mission)
    (hmissions : s'.missions = s.missions) : Rewritten s s' id mission mission := by
  obtain ⟨row₀, -, -, hp, -, hunique⟩ := row_of_mission hmission
  refine ⟨fun row hrow => ?_, fun row hrow => ⟨row, hmissions ▸ hrow, rfl, ?_⟩⟩
  · rw [hmissions] at hrow
    by_cases hid : row.id = id
    · exact .inr ⟨row, hrow, hid, hunique row hrow hid ▸ hp, hid, hunique row hrow hid ▸ hp⟩
    · exact .inl ⟨hrow, hid⟩
  · by_cases hid : row.id = id
    · exact .inr ⟨hid, hunique row hrow hid ▸ hp, hunique row hrow hid ▸ hp⟩
    · exact .inl ⟨hid, rfl⟩

/-- A replay is quiet, so only the work of an operation is left to be read. -/
theorem change_of_replayOr {α : Type} [DecidableEq α] {existing : Option α} {requested r : α}
    {message : String} {fresh : Except Raised MissionStore}
    (h : s.replayOr existing requested message fresh = .ok (r, s'))
    (hfresh : existing = none → fresh = .ok s' → MissionChange s op s') :
    MissionChange s op s' := by
  obtain ⟨-, ⟨-, rfl⟩ | ⟨hnew, hok⟩⟩ := replayOr_eq_ok.mp h
  · exact .quiet (.refl s')
  · exact hfresh hnew hok

theorem createMission_change {record : ValidMission} {r : MissionRecord}
    (h : s.createMission record = .ok (r, s')) : MissionChange s (.createMission record) s' := by
  simp only [createMission, bind_eq_ok, refuseIf_eq_ok, not_or, not_not] at h
  obtain ⟨-, ⟨-, hstate⟩, -, -, h⟩ := h
  refine change_of_replayOr h fun hnew hfresh => ?_
  simp only [bind_eq_ok, require_eq_ok, pure_eq_ok] at hfresh
  obtain ⟨missions, hinsert, rfl⟩ := hfresh
  exact .created (Option.map_eq_none_iff.mp hnew) hstate hinsert

variable {expected : Nat} {now : Instant}

theorem recordBrief_change {brief r : MissionBrief}
    (h : s.recordBrief brief expected now = .ok (r, s')) :
    MissionChange s (.recordBrief brief expected now) s' := by
  refine change_of_replayOr h fun hnew hfresh => ?_
  simp only [bind_eq_ok, require_eq_ok, refuseIf_eq_ok, pure_eq_ok, not_not] at hfresh
  obtain ⟨mission, hmission, -, -, -, hlive, -, -, -, hversion, -, -, -, -, -, -, briefs, hinsert,
    rfl⟩ := hfresh
  exact .briefed hmission hlive hversion hinsert

theorem recordCrew_change {crew r : MissionCrewRevision}
    (h : s.recordCrew crew expected now = .ok (r, s')) :
    MissionChange s (.recordCrew crew expected now) s' := by
  refine change_of_replayOr h fun hnew hfresh => ?_
  simp only [bind_eq_ok, require_eq_ok, requireRevision, refuseIf_eq_ok, pure_eq_ok,
    not_not] at hfresh
  obtain ⟨mission, hmission, -, hrevision, -, -, -, hbrief, -, -, -, -, -, -, -, -, -, -, -,
    hversion, -, -, -, -, -, -, -, -, crews, hinsert, rfl⟩ := hfresh
  exact .crewed hnew hmission hrevision hbrief hversion hinsert

theorem recordAssignment_change {assignment r : MissionTaskAssignment}
    (h : s.recordAssignment assignment = .ok (r, s')) :
    MissionChange s (.recordAssignment assignment) s' := by
  refine change_of_replayOr h fun hnew hfresh => ?_
  simp only [bind_eq_ok, require_eq_ok, refuseIf_eq_ok, pure_eq_ok, not_not] at hfresh
  obtain ⟨mission, hmission, -, hcrew, -, -, -, -, -, -, -, -, -, -, -, -, -, -, -, hrevision, -, -,
    assignments, hinsert, rfl⟩ := hfresh
  exact .assigned hnew hmission hcrew hrevision hinsert

theorem transition_change {t r : MissionTransition}
    (h : s.transition t expected now = .ok (r, s')) :
    MissionChange s (.transition t expected now) s' := by
  refine change_of_replayOr h fun hnew hfresh => ?_
  simp only [bind_eq_ok, require_eq_ok, requireRevision, refuseIf_eq_ok, pure_eq_ok, not_not,
    not_and, not_or] at hfresh
  obtain ⟨mission, hmission, -, hrevision, -, hfrom, -, hallowed, -, hversions, _, hgate,
    transitions, -, rfl⟩ := hfresh
  refine .transitioned hnew hmission hrevision hfrom hallowed hversions fun hactive => ?_
  obtain ⟨crewVersion, hcrew⟩ := Option.ne_none_iff_exists'.mp
    (hversions (by simp [hactive]) (by simp [hactive])).2
  simp only [hactive, requireGate, hcrew] at hgate
  exact ⟨crewVersion, hcrew, hgate⟩

theorem recordRunBinding_change {binding r : MissionRunBinding}
    (h : s.recordRunBinding binding = .ok (r, s')) :
    MissionChange s (.recordRunBinding binding) s' := by
  refine change_of_replayOr h fun hnew hfresh => ?_
  simp only [bind_eq_ok, require_eq_ok, refuseIf_eq_ok, pure_eq_ok, not_not] at hfresh
  obtain ⟨mission, hmission, -, -, -, -, -, -, -, -, -, -, -, -, -, -, -, -, -, hrevision, _,
    hsettles, -, -, -, -, -, hsole, bindings, hinsert, rfl⟩ := hfresh
  refine .bound hnew hmission hrevision (fun prior hprior => ?_)
    (fun row hrow hrun htask => ?_) hinsert
  · rw [hprior, requireSettles] at hsettles
    simp only [requireRunBindingTransition, bind_eq_ok, refuseIf_eq_ok, not_not] at hsettles
    obtain ⟨_, hlineage, _, hpending, -⟩ := hsettles
    exact ⟨hlineage, hpending⟩
  · by_contra hkey
    exact hsole ⟨row, hrow, hrun, hkey, htask⟩

theorem acceptEnvironmentPlan_change {acceptance r : MissionEnvironmentPlanAcceptance}
    (h : s.acceptEnvironmentPlan acceptance expected now = .ok (r, s')) :
    MissionChange s (.acceptEnvironmentPlan acceptance expected now) s' := by
  refine change_of_replayOr h fun hnew hfresh => ?_
  simp only [bind_eq_ok, require_eq_ok, requireRevision, refuseIf_eq_ok, pure_eq_ok,
    not_not] at hfresh
  obtain ⟨mission, hmission, -, hrevision, -, -, -, -, -, hversion, -, -, -, -, -, -, -, -, -, -,
    plans, hinsert, rfl⟩ := hfresh
  exact .planned hnew hmission hrevision hversion hinsert

theorem applyIntervention_change {i r : MissionIntervention}
    (h : s.applyIntervention i expected now = .ok (r, s')) :
    MissionChange s (.applyIntervention i expected now) s' := by
  simp only [applyIntervention, bind_eq_ok, refuseIf_eq_ok] at h
  obtain ⟨-, -, h⟩ := h
  refine change_of_replayOr h fun hnew hfresh => ?_
  simp only [bind_eq_ok, require_eq_ok, refuseIf_eq_ok, pure_eq_ok, not_not] at hfresh
  obtain ⟨mission, hmission, -, hrevision, -, -, _, htarget, _, hsequence, s₁, hanswer, nextState,
    hnext, interventions, hinsert, rfl⟩ := hfresh
  obtain ⟨escalations, rfl⟩ : ∃ escalations, s₁ = { s with escalations := escalations } := by
    unfold answerEscalation at hanswer
    split at hanswer
    · cases hanswer
      exact ⟨s.escalations, rfl⟩
    · simp only [bind_eq_ok, pure_eq_ok] at hanswer
      obtain ⟨-, -, -, -, -, -, rfl⟩ := hanswer
      exact ⟨_, rfl⟩
  exact .intervened hnew hmission hrevision htarget hsequence hnext hinsert

end MissionStore

/-- **Every operation is one of the changes.** -/
theorem missionStep_change (s : MissionStore) (op : MissionOp) :
    MissionChange s op (missionStep s op) := by
  refine commit_cases (R := fun s s' => MissionChange s op s') (.quiet (.refl s)) ?_
  intro _ s' h
  cases op <;> simp only [perform, ending_eq_ok] at h
  case recordOrganization | recordRunReport | createChannel | postMessage | recordDecision =>
    -- what is recorded beside the missions leaves them alone, whatever was checked
    obtain ⟨_, h⟩ := h
    refine change_of_replayOr h fun hnew hfresh => ?_
    simp only [bind_eq_ok, pure_eq_ok] at hfresh
    repeat obtain ⟨_, hfresh⟩ := hfresh
    exact .quiet ⟨rfl, rfl, rfl, rfl, rfl, rfl, rfl⟩
  case createMission => exact createMission_change h.choose_spec
  case recordBrief => exact recordBrief_change h.choose_spec
  case recordCrew => exact recordCrew_change h.choose_spec
  case recordAssignment => exact recordAssignment_change h.choose_spec
  case transition => exact transition_change h.choose_spec
  case recordRunBinding => exact recordRunBinding_change h.choose_spec
  case acceptEnvironmentPlan => exact acceptEnvironmentPlan_change h.choose_spec
  case createEscalation =>
    obtain ⟨_, h⟩ := h
    simp only [createEscalation, bind_eq_ok] at h
    obtain ⟨-, -, h⟩ := h
    refine change_of_replayOr h fun hnew hfresh => ?_
    simp only [bind_eq_ok, pure_eq_ok] at hfresh
    obtain ⟨-, -, _, -, rfl⟩ := hfresh
    exact .quiet ⟨rfl, rfl, rfl, rfl, rfl, rfl, rfl⟩
  case applyIntervention => exact applyIntervention_change h.choose_spec
  case outside =>
    cases h
    exact .quiet ⟨rfl, rfl, rfl, rfl, rfl, rfl, rfl⟩

end Mishkan
