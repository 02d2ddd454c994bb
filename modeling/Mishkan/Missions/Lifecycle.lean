import Mishkan.Missions.Consistency

/-!
# Missions/Lifecycle — legal moves of missions, and what an active mission can rely on

`LegalMove` is what an operation may do to a mission: move it along the lifecycle or restart it by a
new Brief, and leave a terminal one alone.  `Executable` is what the gate of the active state
promises.  The gate stands on one way into the active state; an intervention resumes past it, and a
new crew or assignment undoes it.  `KeepsLifecycle` names the operations that do, and
`lifecycle_run` is the run theorem.
-/

namespace Mishkan

open Refusal Transition MissionStore Table

/-! ## What an active mission can rely on -/

/-- The current crew is of the current Brief, and the assignments are of the current crew and
valid. -/
structure Executable (s : MissionStore) (id : Uuid) (mission : MissionRecord) : Prop where
  crew : ∃ crew ∈ s.crews, crew.missionId = id ∧ some crew.version = mission.currentCrewVersion
    ∧ some crew.briefVersion = mission.currentBriefVersion
  assignments : ∀ a, Latest.IsLatest (·.taskId) (·.assignmentRevision) (s.assignmentsOf id) a →
    some a.crewVersion = mission.currentCrewVersion
  graph : MissionAssignmentGraphValidator.validate (s.assignmentsOf id) = .ok ()

section

variable {s s' : MissionStore} {id : Uuid} {mission record : MissionRecord}

/-- **The gate of the active state.** -/
theorem executable_iff : Executable s mission.missionId mission ↔
    ∃ crewVersion, mission.currentCrewVersion = some crewVersion ∧
      s.requireActivation mission crewVersion = .ok () := by
  have hstale : (MissionAssignmentGraphValidator.latest (s.assignmentsOf mission.missionId)).filter
      (some ·.crewVersion ≠ mission.currentCrewVersion) = [] ↔
      ∀ a, Latest.IsLatest (·.taskId) (·.assignmentRevision) (s.assignmentsOf mission.missionId) a →
        some a.crewVersion = mission.currentCrewVersion := by
    simp only [List.filter_eq_nil_iff, MissionAssignmentGraphValidator.latest,
      Latest.mem_latest_iff assignmentsOf_inj, decide_eq_true_eq, not_not]
  simp only [requireActivation, crewRow, bind_eq_ok, require_eq_ok, crew?_eq_some]
  constructor
  · rintro ⟨⟨crew, hcrew, hid, hversion, hbrief⟩, hlatest, hgraph⟩
    exact ⟨crew.version, hversion.symm, crew, ⟨hcrew, hid, rfl⟩, (),
      refuseIf_of_not (not_not.mpr hbrief), (),
      refuseIf_of_not (not_not.mpr (hstale.mpr hlatest)), hgraph⟩
  · rintro ⟨crewVersion, hversion, crew, ⟨hcrew, hid, rfl⟩, _, hbrief, _, hlatest, hgraph⟩
    exact ⟨⟨crew, hcrew, hid, hversion.symm, not_not.mp (refuseIf_eq_ok.mp hbrief)⟩,
      hstale.mp (not_not.mp (refuseIf_eq_ok.mp hlatest)), hgraph⟩

/-- A mission stays executable while its versions and its assignments stay and no crew goes. -/
theorem Executable.frame (h : Executable s id mission) (hcrews : ∀ crew ∈ s.crews, crew ∈ s'.crews)
    (hassignments : s'.assignmentsOf id = s.assignmentsOf id)
    (hbrief : record.currentBriefVersion = mission.currentBriefVersion)
    (hcrew : record.currentCrewVersion = mission.currentCrewVersion) : Executable s' id record := by
  obtain ⟨⟨crew, hmem, hid, hversion, hof⟩, hlatest, hgraph⟩ := h
  refine ⟨⟨crew, hcrews crew hmem, hid, ?_, ?_⟩, fun a ha => ?_, ?_⟩
  · rw [hversion, hcrew]
  · rw [hof, hbrief]
  · rw [hassignments] at ha
    rw [hlatest a ha, hcrew]
  · rw [hassignments]
    exact hgraph

/-- A mission stays executable when it is assigned a valid addition of its current crew. -/
theorem Executable.assign {a : MissionTaskAssignment} {assignments : Table MissionTaskAssignment}
    (h : Executable s a.missionId mission) (hinsert : s.assignments.insert a = some assignments)
    (hcrew : some a.crewVersion = mission.currentCrewVersion)
    (hgraph : MissionAssignmentGraphValidator.validate (s.assignmentsOf a.missionId ++ [a]) =
      .ok ()) : Executable { s with assignments := assignments } a.missionId mission := by
  have hselect : assignments.select (·.missionId = a.missionId) =
      s.assignmentsOf a.missionId ++ [a] := by
    rw [select_insert hinsert, if_pos (by simp)]
    rfl
  refine ⟨h.crew, fun b hb => ?_, ?_⟩
  · rw [assignmentsOf, hselect] at hb
    obtain ⟨hmem, hmax⟩ := hb
    rcases List.mem_append.mp hmem with hmem | hmem
    · exact h.assignments b ⟨hmem, fun c hc => hmax c (List.mem_append_left _ hc)⟩
    · rw [List.mem_singleton.mp hmem]
      exact hcrew
  · rw [assignmentsOf, hselect]
    exact hgraph

end

/-! ## Legal moves -/

/-- The records of a mission that nothing adds to once it is terminal. -/
structure RecordsKept (s s' : MissionStore) (id : Uuid) : Prop where
  crews : s'.crews.select (·.missionId = id) = s.crews.select (·.missionId = id)
  assignments : s'.assignmentsOf id = s.assignmentsOf id
  bindings : s'.bindingsOf id = s.bindingsOf id
  environmentPlans : s'.environmentPlans.select (·.plan.missionId = id) =
    s.environmentPlans.select (·.plan.missionId = id)

/-- A mission has a Brief it did not have. -/
def Restarted (s s' : MissionStore) (id : Uuid) : Prop :=
  ∃ brief ∈ s'.briefs, brief ∉ s.briefs ∧ brief.missionId = id

/-- What an operation may do to a mission: `mission` becomes `record`. -/
structure LegalMove (s s' : MissionStore) (id : Uuid) (mission record : MissionRecord) :
    Prop where
  state : record.state = mission.state ∨ record.state ∈ missionTransitions mission.state ∨
    (record.state = .clarifying ∧ ¬ mission.state.isTerminal = true ∧ Restarted s s' id)
  terminal : mission.state.isTerminal = true → record.state = mission.state
    ∧ record.currentCrewVersion = mission.currentCrewVersion
    ∧ record.currentEnvironmentPlanVersion = mission.currentEnvironmentPlanVersion
    ∧ RecordsKept s s' id

/-- Every mission makes a legal move. -/
def LegalStep (s s' : MissionStore) : Prop :=
  ∀ row ∈ s.missions, ∃ row' ∈ s'.missions, row'.id = row.id ∧
    LegalMove s s' row.id row.payload row'.payload

section

variable (s s' : MissionStore) (id : Uuid) (mission record : MissionRecord)

instance : Decidable (RecordsKept s s' id) :=
  decidable_of_iff (_ ∧ _ ∧ _ ∧ _) ⟨fun h => ⟨h.1, h.2.1, h.2.2.1, h.2.2.2⟩, fun h =>
    ⟨h.crews, h.assignments, h.bindings, h.environmentPlans⟩⟩

instance : Decidable (Restarted s s' id) := inferInstanceAs (Decidable (∃ _ ∈ s'.briefs, _))

instance : Decidable (LegalMove s s' id mission record) :=
  decidable_of_iff (_ ∧ (_ → _)) ⟨fun h => ⟨h.1, h.2⟩, fun h => ⟨h.state, h.terminal⟩⟩

instance : Decidable (LegalStep s s') := inferInstanceAs (Decidable (∀ _ ∈ s.missions, _))

end

/-! ## The condition -/

/-- What an operation must avoid: a crew of an active or terminal mission; an assignment of a
terminal mission, or one that breaks the graph of an active mission; a run binding or an environment
plan of a terminal mission; and an intervention that moves a mission against its lifecycle, or
resumes it past the gate of the active state.  An operation on a durable identity is safe. -/
def KeepsLifecycle (s : MissionStore) : MissionOp → Prop
  | .recordCrew crew expected _ => s.crews.find (·.crewId = crew.crewId) = none →
    ∀ mission ∈ (s.mission crew.missionId).toOption, mission.revision = expected →
      mission.state ≠ .active ∧ ¬ mission.state.isTerminal = true
  | .recordAssignment a => s.assignments.find (·.assignmentId = a.assignmentId) = none →
    ∀ mission ∈ (s.mission a.missionId).toOption, some a.crewVersion = mission.currentCrewVersion →
      ¬ mission.state.isTerminal = true ∧ (mission.state = .active →
        MissionAssignmentGraphValidator.validate (s.assignmentsOf a.missionId ++ [a]) = .ok ())
  | .recordRunBinding binding => s.bindings.find (·.bindingId = binding.bindingId) = none →
    ∀ mission ∈ (s.mission binding.missionId).toOption, ¬ mission.state.isTerminal = true
  | .acceptEnvironmentPlan acceptance expected _ =>
    s.environmentPlans.find (·.plan.planId = acceptance.plan.planId) = none →
    ∀ mission ∈ (s.mission acceptance.plan.missionId).toOption, mission.revision = expected →
      ¬ mission.state.isTerminal = true
  | .applyIntervention i expected _ =>
    s.interventions.find (·.interventionId = i.interventionId) = none →
    ∀ mission ∈ (s.mission i.missionId).toOption, mission.revision = expected →
      ∀ state ∈ i.resultingMissionState, ¬ mission.state.isTerminal = true →
        (state = mission.state ∨ state ∈ missionTransitions mission.state) ∧
          (i.kind = .resume →
            ∃ crewVersion ∈ mission.currentCrewVersion,
              s.requireActivation mission crewVersion = .ok ())
  | _ => True

instance (s : MissionStore) : (op : MissionOp) → Decidable (KeepsLifecycle s op)
  | .recordCrew .. | .recordAssignment _ | .recordRunBinding _ | .acceptEnvironmentPlan ..
  | .applyIntervention .. => inferInstanceAs (Decidable (_ → ∀ mission ∈ Except.toOption _, _))
  | .recordOrganization .. | .createMission .. | .recordBrief .. | .transition ..
  | .recordRunReport .. | .createChannel .. | .postMessage .. | .recordDecision ..
  | .createEscalation .. | .outside .. => isTrue trivial

/-! ## One operation -/

/-- A mission is stored under its identity, and an active one is executable. -/
structure LifecycleInvariant (s : MissionStore) : Prop where
  identity : ∀ row ∈ s.missions, row.payload.missionId = row.id
  executable : ∀ row ∈ s.missions, row.payload.state = .active → Executable s row.id row.payload

section

variable {s s' : MissionStore} {id : Uuid} {mission record : MissionRecord}

/-- A mission that stays where its records stay has made no move. -/
theorem LegalMove.stay (h : RecordsKept s s' id) : LegalMove s s' id mission mission :=
  ⟨.inl rfl, fun _ => ⟨rfl, rfl, rfl, h⟩⟩

/-- Only a resumption results in an active mission. -/
theorem kind_of_active {i : MissionIntervention} (h : i.resultingMissionState = some .active) :
    i.kind = .resume := by
  have hkind := i.missionResult
  rw [h] at hkind
  split at hkind
  · cases hk : i.kind <;> rw [hk] at hkind <;> first | rfl | cases hkind
  · cases hkind

/-- What an operation on one mission owes. -/
structure Advances (s s' : MissionStore) (id : Uuid) (mission record : MissionRecord) : Prop where
  rewritten : Rewritten s s' id mission record
  identity : record.missionId = mission.missionId := by rfl
  crews : ∀ crew ∈ s.crews, crew ∈ s'.crews := by exact fun _ => id
  others : ∀ id', id' ≠ id → RecordsKept s s' id' := by exact fun _ _ => ⟨rfl, rfl, rfl, rfl⟩
  legal : LegalMove s s' id mission record
  executable : mission.missionId = id → (mission.state = .active → Executable s id mission) →
    record.state = .active → Executable s' id record

/-- **An operation that pays what it owes keeps the invariant**, and every mission makes a legal
move. -/
theorem Advances.keeps (h : Advances s s' id mission record) (hs : LifecycleInvariant s) :
    LifecycleInvariant s' ∧ LegalStep s s' := by
  refine ⟨⟨fun row' hrow' => ?_, fun row' hrow' hactive => ?_⟩, fun row hrow => ?_⟩
  · rcases h.rewritten.back row' hrow' with ⟨hrow, -⟩ | ⟨row, hrow, hid, hp, hid', hp'⟩
    · exact hs.identity row' hrow
    · rw [hp', hid', h.identity, ← hp, ← hid]
      exact hs.identity row hrow
  · rcases h.rewritten.back row' hrow' with ⟨hrow, hne⟩ | ⟨row, hrow, hid, hp, hid', hp'⟩
    · exact (hs.executable row' hrow hactive).frame h.crews (h.others _ hne).assignments rfl rfl
    · rw [hid', hp']
      refine h.executable ?_ (fun hact => ?_) (hp' ▸ hactive)
      · rw [← hp, ← hid]
        exact hs.identity row hrow
      · have hexec := hs.executable row hrow (by rw [hp]; exact hact)
        rwa [hp, hid] at hexec
  · obtain ⟨row', hrow', hid, ⟨hne, hp'⟩ | ⟨hid', hp, hp'⟩⟩ := h.rewritten.forth row hrow
    · refine ⟨row', hrow', hid, ?_⟩
      rw [hp']
      exact .stay (h.others _ hne)
    · refine ⟨row', hrow', hid, ?_⟩
      rw [hid', hp, hp']
      exact h.legal

end

/-- **Every operation that meets the condition keeps the invariant**, and moves missions legally. -/
theorem missionStep_lifecycle {s : MissionStore} {op : MissionOp} (hs : LifecycleInvariant s)
    (hop : KeepsLifecycle s op) :
    LifecycleInvariant (missionStep s op) ∧ LegalStep s (missionStep s op) := by
  have hchange := missionStep_change s op
  generalize missionStep s op = s' at hchange ⊢
  cases hchange with
  | quiet h =>
    obtain ⟨hm, -, hc, ha, hb, he, -⟩ := h
    have hkept : ∀ id, RecordsKept s s' id := fun id =>
      ⟨by rw [hc], by rw [assignmentsOf, ha]; rfl, by rw [bindingsOf, hb]; rfl, by rw [he]⟩
    refine ⟨⟨hm ▸ hs.identity, fun row hrow hactive => ?_⟩, fun row hrow =>
      ⟨row, hm ▸ hrow, rfl, .stay (hkept _)⟩⟩
    exact (hs.executable row (hm ▸ hrow) hactive).frame (hc ▸ fun _ => id)
      (hkept _).assignments rfl rfl
  | @created record missions hnew hstate hinsert =>
    have hmem : ∀ row, row ∈ missions ↔ _ := fun row => mem_of_insert hinsert
    refine ⟨⟨fun row hrow => ?_, fun row hrow hactive => ?_⟩, fun row hrow =>
      ⟨row, (hmem row).mpr (.inl hrow), rfl, .stay ⟨rfl, rfl, rfl, rfl⟩⟩⟩
    · rcases (hmem row).mp hrow with hrow | rfl
      · exact hs.identity row hrow
      · rfl
    · rcases (hmem row).mp hrow with hrow | rfl
      · exact (hs.executable row hrow hactive).frame (fun _ => id) rfl rfl rfl
      · have hproposed : record.1.state = .active := hactive
        rw [hstate] at hproposed
        cases hproposed
  | @briefed brief expected now mission briefs hmission hlive hversion hinsert =>
    have hmem : brief ∈ briefs := (mem_of_insert hinsert).mpr (.inr rfl)
    have hnew : brief ∉ s.briefs := not_mem_of_insert hinsert (by simp [Keyed.clash])
    exact Advances.keeps
      { rewritten := rewritten_of_update hmission (project_key _) rfl fun _ => rfl
        legal := ⟨.inr (.inr ⟨rfl, hlive, brief, hmem, hnew, rfl⟩), fun h => absurd h hlive⟩
        executable := fun _ _ hactive => by cases hactive } hs
  | @crewed crew expected now mission crews hnew hmission hrevision hbrief hversion hinsert =>
    obtain ⟨hinactive, hlive⟩ := hop hnew mission (by rw [hmission]; rfl) hrevision
    exact Advances.keeps
      { rewritten := rewritten_of_update hmission (project_key _) rfl fun _ => rfl
        crews := fun c hc => (mem_of_insert hinsert).mpr (.inl hc)
        others := fun _ hne =>
          ⟨select_insert_of_not hinsert (by simpa using Ne.symm hne), rfl, rfl, rfl⟩
        legal := ⟨.inl rfl, fun h => absurd h hlive⟩
        executable := fun _ _ hactive => absurd hactive hinactive } hs
  | @assigned a mission assignments hnew hmission hcrew hrevision hinsert =>
    obtain ⟨hlive, hgraph⟩ := hop hnew mission (by rw [hmission]; rfl) hcrew
    exact Advances.keeps
      { rewritten := rewritten_of_eq hmission rfl
        others := fun _ hne =>
          ⟨rfl, select_insert_of_not hinsert (by simpa using Ne.symm hne), rfl, rfl⟩
        legal := ⟨.inl rfl, fun h => absurd h hlive⟩
        executable := fun _ hexec hactive =>
          (hexec hactive).assign hinsert hcrew (hgraph hactive) } hs
  | @transitioned t expected now mission transitions hnew hmission hrevision hfrom hallowed
      hversions hgate =>
    exact Advances.keeps
      { rewritten := rewritten_of_update hmission (project_key _) rfl fun _ => rfl
        legal := ⟨.inr (.inl hallowed), fun h => by
          cases hstate : mission.state <;> rw [hstate] at h hallowed <;> cases h <;> cases hallowed⟩
        executable := fun hid _ hactive => by
          have hexec := executable_iff.mpr (hgate hactive)
          rw [hid] at hexec
          exact hexec.frame (fun _ => id) rfl rfl rfl } hs
  | @bound binding mission bindings hnew hmission _ _ _ hinsert =>
    have hlive := hop hnew mission (by rw [hmission]; rfl)
    exact Advances.keeps
      { rewritten := rewritten_of_eq hmission rfl
        others := fun _ hne =>
          ⟨rfl, rfl, select_insert_of_not hinsert (by simpa using Ne.symm hne), rfl⟩
        legal := ⟨.inl rfl, fun h => absurd h hlive⟩
        executable := fun _ hexec hactive =>
          (hexec hactive).frame (fun _ => id) rfl rfl rfl } hs
  | @planned acceptance expected now mission plans hnew hmission hrevision hversion hinsert =>
    have hlive := hop hnew mission (by rw [hmission]; rfl) hrevision
    exact Advances.keeps
      { rewritten := rewritten_of_update hmission (project_key _) rfl fun _ => rfl
        others := fun _ hne =>
          ⟨rfl, rfl, rfl, select_insert_of_not hinsert (by simpa using Ne.symm hne)⟩
        legal := ⟨.inl rfl, fun h => absurd h hlive⟩
        executable := fun _ hexec hactive =>
          (hexec hactive).frame (fun _ => id) rfl rfl rfl } hs
  | @intervened i expected now mission escalations interventions nextState hnew hmission hrevision
      htarget hsequence hnext hinsert =>
    have hcondition := hop hnew mission (by rw [hmission]; rfl) hrevision
    rcases transitionState_cases hnext with rfl | ⟨requested, rfl, -, hresult, hlive, -⟩
    · exact Advances.keeps
        { rewritten := rewritten_of_update hmission (intervene_key _) rfl fun _ => rfl
          legal := ⟨.inl rfl, fun _ => ⟨rfl, rfl, rfl, rfl, rfl, rfl, rfl⟩⟩
          executable := fun _ hexec hactive =>
            (hexec hactive).frame (fun _ => id) rfl rfl rfl } hs
    · obtain ⟨hmove, hresume⟩ := hcondition requested hresult hlive
      exact Advances.keeps
        { rewritten := rewritten_of_update hmission (intervene_key _) rfl fun _ => rfl
          legal := ⟨hmove.imp id .inl, fun h => absurd h hlive⟩
          executable := fun hid _ hactive => by
            have hrequested : requested = .active := hactive
            obtain ⟨crewVersion, hcrew, hgate⟩ := hresume (kind_of_active (hrequested ▸ hresult))
            have hexec := executable_iff.mpr ⟨crewVersion, hcrew, hgate⟩
            rw [hid] at hexec
            exact hexec.frame (fun _ => id) rfl rfl rfl } hs

/-! ## Runs -/

theorem lifecycle_empty : LifecycleInvariant .empty :=
  ⟨fun _ h => absurd h not_mem_empty, fun _ h => absurd h not_mem_empty⟩

/-- **In a run whose operations meet the condition every move is legal**, and every active mission
is executable. -/
theorem lifecycle_run {ops : List MissionOp} (h : Along missionStep KeepsLifecycle .empty ops) :
    Along missionStep (fun s op => LegalStep s (missionStep s op)) .empty ops ∧
      ∀ row ∈ (missionRun .empty ops).missions, row.payload.state = .active →
        Executable (missionRun .empty ops) row.id row.payload := by
  have hstep : ∀ s op, LifecycleInvariant s → KeepsLifecycle s op →
      LifecycleInvariant (missionStep s op) := fun s op hs hop => (missionStep_lifecycle hs hop).1
  refine ⟨Along.of_guarded hstep (fun s op hs hop => (missionStep_lifecycle hs hop).2)
    lifecycle_empty h, ?_⟩
  exact (run_of_guarded (I := LifecycleInvariant) hstep lifecycle_empty h).executable

/-! ## The defects -/

namespace Build

/-- Briefing the proposed mission restarts it. -/
def briefed : List MissionOp := proposal ++ [.recordBrief brief 1 1]

/-- Cancelling the briefed mission. -/
def cancellation : MissionOp := move 3 .clarifying .cancelled 2 (by decide)

end Build

open Build in
/-- An active mission is suspended and resumed. -/
theorem lifecycle_run_resumed :
    Along missionStep KeepsLifecycle .empty (crewed ++ activation ++ suspended 6) ∧
      Along missionStep (fun s op => LegalStep s (missionStep s op)) .empty
        (crewed ++ activation ++ suspended 6) ∧
      ∃ row ∈ (missionRun .empty (crewed ++ activation ++ suspended 6)).missions,
        row.payload.state = .active ∧ row.revision = 8 ∧
          Executable (missionRun .empty (crewed ++ activation ++ suspended 6)) row.id
            row.payload := by
  have h : Along missionStep KeepsLifecycle .empty (crewed ++ activation ++ suspended 6) := by
    decide +kernel
  obtain ⟨row, hrow, hactive, hrevision⟩ :
      ∃ row ∈ (missionRun .empty (crewed ++ activation ++ suspended 6)).missions,
        row.payload.state = .active ∧ row.revision = 8 := by
    decide +kernel
  obtain ⟨hlegal, hexecutable⟩ := lifecycle_run h
  exact ⟨h, hlegal, row, hrow, hactive, hrevision, hexecutable row hrow hactive⟩

open Build in
/-- **A cancelled mission gets a crew, and a mission without a crew is resumed**: moves are not
always legal, and active missions not always executable. -/
theorem resumed_without_crew :
    (¬ ∀ ops op, LegalStep (missionRun .empty ops) (missionStep (missionRun .empty ops) op)) ∧
      ¬ ∀ ops, ∀ row ∈ (missionRun .empty ops).missions, row.payload.state = .active →
        Executable (missionRun .empty ops) row.id row.payload := by
  refine ⟨fun h => ?_, fun h => ?_⟩
  · exact absurd (h (briefed ++ [cancellation]) (.recordCrew crew 3 3)) (by decide)
  · have hactive : ∃ row ∈ (missionRun .empty (briefed ++ suspended 2)).missions,
        row.payload.state = .active ∧
        row.payload.currentCrewVersion = none := by decide
    obtain ⟨row, hrow, hstate, hcrew⟩ := hactive
    obtain ⟨crew, -, -, hversion, -⟩ := (h (briefed ++ suspended 2) row hrow hstate).crew
    rw [hcrew] at hversion
    cases hversion

end Mishkan
