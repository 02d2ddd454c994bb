import Mishkan.Missions.Completion

/-!
# Missions/Eligibility — whether the gate of a claim honours every control

`ControlsHonoured` says, over all rows of a mission, what holds a task back and does not.  The gate
reads the first 1000 rows of every query, and a control of another task whose scope names the task
counts as one of this task.  A task it reports eligible has its controls honoured exactly when what
decides is among what it reads (`eligible_honoured_iff`).
-/

namespace Mishkan

open Refusal Transition MissionStore List

variable (uuid5 : Uuid → String → Uuid) (available : Bool)

/-! ## Controls of a task -/

/-- The latest assignment of a task, over all assignments of its mission. -/
def LatestAssignment (s : MissionStore) (id : Uuid) (taskId : String) (a : MissionTaskAssignment) :
    Prop :=
  Latest.IsLatest (·.taskId) (·.assignmentRevision) (s.orderedAssignments id) a ∧ a.taskId = taskId

/-- The run task of an assignment is accepted. -/
def RunTaskAccepted (s : MissionStore) (a : MissionTaskAssignment) : Prop :=
  ∃ runId executionTaskId, a.executionRunId = some runId ∧
    a.executionTaskId = some executionTaskId ∧ s.taskState? runId executionTaskId = some .accepted

/-- Nothing on record holds the task back: the mission releases work, the latest control of the task
is neither a suspension nor a stop, it was never stopped, no open escalation covers it, and its
dependencies are accepted and its contexts verified. -/
structure ControlsHonoured (s : MissionStore) (id : Uuid) (a : MissionTaskAssignment) : Prop where
  state : ∃ mission, s.mission id = .ok mission ∧ mission.state ∈ runnableMissionStates
  control : s.latestControl id a.taskId ≠ some .suspend ∧ s.latestControl id a.taskId ≠ some .stop
  unstopped : ∀ i ∈ s.interventions, i.missionId = id → i.targetKind = .task →
    i.targetId = a.taskId → i.kind ≠ .stop
  escalations : ∀ e ∈ s.orderedEscalations id, e.state = .open →
    ¬ MissionStore.scopeMatches e.blockedScope a
  dependencies : ∀ taskId ∈ a.dependencies, ∃ d, LatestAssignment s id taskId d ∧
    RunTaskAccepted s d
  contexts : ∀ contextId ∈ a.environmentContextIds, ∃ mission acc, s.mission id = .ok mission ∧
    s.CurrentPlan id mission acc ∧
      s.ContextVerified uuid5 available s.orderedVerifications acc.plan contextId

/-- The verdict is of exactly this assignment. -/
def VerdictOf (r : MissionTaskEligibility) (a : MissionTaskAssignment) : Prop :=
  r.assignmentRevision = a.assignmentRevision ∧ r.executionRunId = a.executionRunId
    ∧ r.executionTaskId = a.executionTaskId

/-- A visible suspension or stop matches the task, and no visible resumption that matches it comes
after. -/
def Held (s : MissionStore) (id : Uuid) (a : MissionTaskAssignment) : Prop :=
  ∃ before i after, (s.orderedInterventions id).take 1000 = before ++ i :: after ∧
    isScopedControl a i ∧ i.kind ≠ .resume ∧
      ∀ j ∈ after, isScopedControl a j → j.kind ≠ .resume

/-- What would hold the task back is among what the gate reads.  A task that is suspended or stopped
is held by what is visible; no open escalation beyond the first 1000 covers it; its assignment is
visible, as are those of its dependencies that are not accepted; and verifications beyond the first
1000 of a binding do not overturn those the gate reads. -/
structure ControlsSeen (s : MissionStore) (id : Uuid) (a : MissionTaskAssignment) : Prop where
  assignment : a ∈ (s.orderedAssignments id).take 1000
  control : ∀ kind ∈ s.latestControl id a.taskId, kind ≠ .resume → Held s id a
  escalations : ∀ e ∈ (s.orderedEscalations id).drop 1000, e.state = .open →
    ¬ MissionStore.scopeMatches e.blockedScope a
  dependencies : ∀ taskId ∈ a.dependencies, ∀ d, LatestAssignment s id taskId d →
    d ∈ (s.orderedAssignments id).take 1000 ∨ RunTaskAccepted s d
  contexts : ∀ contextId ∈ a.environmentContextIds, ∀ mission acc, s.mission id = .ok mission →
    s.CurrentPlan id mission acc → ∀ request,
      acc.plan.bindingRequest uuid5 contextId = .ok request →
      ∀ binding ∈ s.bindingForRequest request.requestId,
      ∀ v ∈ ((s.orderedVerifications binding.bindingId).drop 1000).reverse.find?
        (·.contextFingerprint = request.observationFingerprint), v.settlement = .verified

/-! ## Controls follow each other -/

/-- Two interventions have one target. -/
def SameTarget (i j : MissionIntervention) : Prop :=
  j.missionId = i.missionId ∧ j.targetKind = i.targetKind ∧ j.targetId = i.targetId

/-- Interventions of one target have their own times, and nothing controls a task after its stop. -/
structure ControlsOrdered (s : MissionStore) : Prop where
  times : ∀ i ∈ s.interventions, ∀ j ∈ s.interventions, SameTarget i j →
    j.createdAt = i.createdAt → j = i
  stops : ∀ i ∈ s.interventions, i.targetKind = .task → i.kind = .stop →
    ∀ j ∈ s.interventions, SameTarget i j → j.kind.isControl = true → j.createdAt ≤ i.createdAt

section

variable {s : MissionStore} {i j : MissionIntervention} {id : Uuid} {taskId : String}

theorem mem_targetHistory {targetKind : InterventionTargetKind} {targetId : String} :
    i ∈ s.targetHistory id targetKind targetId ↔
      i ∈ s.interventions ∧ i.missionId = id ∧ i.targetKind = targetKind
        ∧ i.targetId = targetId := by
  simp only [targetHistory, orderedInterventions, mem_filter, mem_insertionSort,
    Table.mem_select, decide_eq_true_eq, and_assoc]

/-- **The latest control is the one no other is after.** -/
theorem latestControl_of_newest (hs : ControlsOrdered s) (hi : i ∈ s.interventions)
    (htask : i.targetKind = .task) (hcontrol : i.kind.isControl = true)
    (hnewest : ∀ j ∈ s.interventions, SameTarget i j → j.kind.isControl = true →
      j.createdAt ≤ i.createdAt) : s.latestControl i.missionId i.targetId = some i.kind := by
  have hmem : ∀ j, j ∈ (s.targetHistory i.missionId .task i.targetId).filter (·.kind.isControl) ↔
      (j ∈ s.interventions ∧ SameTarget i j) ∧ j.kind.isControl = true := fun j => by
    rw [mem_filter, mem_targetHistory, SameTarget, htask]
  have hsorted : (s.orderedInterventions i.missionId).Pairwise fun a b =>
      a.createdAt ≤ b.createdAt := pairwise_insertionSort _ _
  have hlast : ((s.targetHistory i.missionId .task i.targetId).filter
      (·.kind.isControl)).getLast? = some i := by
    refine Latest.getLast?_of_sorted ((hsorted.filter _).filter _)
      ((hmem i).mpr ⟨⟨hi, rfl, rfl, rfl⟩, hcontrol⟩) (fun j hj => ?_) fun j hj => ?_
    · obtain ⟨⟨hj, hsame⟩, hcontrol⟩ := (hmem j).mp hj
      exact hnewest j hj hsame hcontrol
    · obtain ⟨⟨hj, hsame⟩, -⟩ := (hmem j).mp hj
      exact hs.times i hi j hj hsame
  rw [latestControl, hlast]
  rfl

/-- The latest control is a control. -/
theorem isControl_of_latestControl {kind : InterventionKind}
    (h : kind ∈ s.latestControl id taskId) : kind.isControl = true := by
  obtain ⟨i, hi, rfl⟩ := Option.map_eq_some_iff.mp h
  exact (mem_filter.mp (mem_of_getLast? hi)).2

theorem controlsOrdered_step {op : MissionOp} (hs : ControlsOrdered s) :
    ControlsOrdered (missionStep s op) := by
  have hchange := missionStep_change s op
  generalize missionStep s op = s' at hchange ⊢
  cases hchange with
  | quiet h => exact ⟨h.interventions ▸ hs.times, h.interventions ▸ hs.stops⟩
  | @intervened i _ _ mission _ interventions _ hnew hmission hrevision htarget hsequence hnext
      hinsert =>
    have hmem : ∀ j, j ∈ interventions ↔ j ∈ s.interventions ∨ j = i := fun j =>
      Table.mem_of_insert hinsert
    -- what has the target of the new intervention is before it
    have hbefore : ∀ j ∈ s.interventions, SameTarget i j → j.createdAt < i.createdAt := by
      intro j hj hsame
      obtain ⟨_, hlater, -⟩ := bind_eq_ok.mp hsequence
      exact Nat.lt_of_not_le fun hle =>
        refuseIf_eq_ok.mp hlater ⟨j, mem_targetHistory.mpr ⟨hj, hsame⟩, hle⟩
    have hsymm : ∀ {j}, SameTarget j i → SameTarget i j :=
      fun h => ⟨h.1.symm, h.2.1.symm, h.2.2.symm⟩
    refine ⟨fun k hk j hj hsame htime => ?_, fun k hk htask hstop j hj hsame hcontrol => ?_⟩
    · rcases (hmem k).mp hk with hkOld | rfl
      · rcases (hmem j).mp hj with hjOld | rfl
        · exact hs.times k hkOld j hjOld hsame htime
        · exact absurd htime (Nat.ne_of_gt (hbefore k hkOld (hsymm hsame)))
      · rcases (hmem j).mp hj with hjOld | rfl
        · exact absurd htime (Nat.ne_of_lt (hbefore j hjOld hsame))
        · rfl
    · rcases (hmem k).mp hk with hkOld | rfl
      · rcases (hmem j).mp hj with hjOld | rfl
        · exact hs.stops k hkOld htask hstop j hjOld hsame hcontrol
        · -- a stopped task is not controlled again
          have hlatest := latestControl_of_newest hs hkOld htask (by rw [hstop]; rfl)
            (hs.stops k hkOld htask hstop)
          have hkind : j.targetKind = .task := hsame.2.1.trans htask
          rw [validateInterventionTarget, hkind] at htarget
          replace htarget := of_bind htarget
          rw [if_pos hcontrol] at htarget
          obtain ⟨_, hlive, -⟩ := bind_eq_ok.mp htarget
          refine absurd ?_ (refuseIf_eq_ok.mp hlive)
          rw [hsame.1, hsame.2.2, hlatest, hstop]
      · rcases (hmem j).mp hj with hjOld | rfl
        · exact Nat.le_of_lt (hbefore j hjOld hsame)
        · exact Nat.le_refl _
  | _ => exact ⟨hs.times, hs.stops⟩

theorem controlsOrdered_run (ops : List MissionOp) : ControlsOrdered (missionRun .empty ops) :=
  run_induction (I := ControlsOrdered) (fun _ _ => controlsOrdered_step)
    ⟨fun _ h => absurd h Table.not_mem_empty, fun _ h => absurd h Table.not_mem_empty⟩ ops

/-- **A task that was ever stopped is controlled by its stop.** -/
theorem latestControl_of_stop (hs : ControlsOrdered s) (hi : i ∈ s.interventions)
    (htask : i.targetKind = .task) (hstop : i.kind = .stop) :
    s.latestControl i.missionId i.targetId = some .stop := by
  rw [latestControl_of_newest hs hi htask (by rw [hstop]; rfl) (hs.stops i hi htask hstop), hstop]

end

/-! ## What an eligible task has passed -/

section

variable {s : MissionStore} {id : Uuid} {taskId : String} {mission : MissionRecord}
  {a d : MissionTaskAssignment} {latest : List MissionTaskAssignment} {uuid5 available}

/-- No finding says the task is eligible. -/
def Adverse (findings : List Finding) : Prop := ∀ f ∈ findings, f.state ≠ .eligible

theorem Adverse.append {l l' : List Finding} (h : Adverse l) (h' : Adverse l') :
    Adverse (l ++ l') := fun f hf => (mem_append.mp hf).elim (h f) (h' f)

theorem adverse_finding {p : Prop} [Decidable p] {state : MissionTaskGateState}
    {blockers : List String} (h : state ≠ .eligible) : Adverse (finding p state blockers) := by
  intro f hf
  unfold finding at hf
  split at hf
  · rw [mem_singleton.mp hf]
    exact h
  · cases hf

theorem adverse_blocked {blockers : List String} : Adverse [⟨.blocked, blockers⟩] := by
  simp [Adverse]

theorem adverse_missionFindings : Adverse (missionFindings mission a) := by
  refine Adverse.append ?_ (adverse_finding (by decide))
  split
  · simp [Adverse]
  · exact adverse_finding (by split <;> decide)

theorem adverse_interventionFindings {control : Option MissionIntervention} :
    Adverse (interventionFindings control) := by
  cases control with
  | none => simp [interventionFindings, Adverse]
  | some i => exact adverse_finding (by split <;> decide)

variable {binding : Option MissionRunBinding}

theorem adverse_bindingFindings : Adverse (bindingFindings binding) := by
  cases binding with
  | none => exact adverse_blocked
  | some binding => exact adverse_finding (by decide)

theorem adverse_dependencyFindings {dependencyId : String} :
    Adverse (s.dependencyFindings latest dependencyId) := by
  unfold dependencyFindings
  split
  · exact adverse_blocked
  · split
    · exact adverse_finding (by decide)
    · exact adverse_blocked

theorem adverse_runTaskFindings {row : Option TaskRow} :
    Adverse (s.runTaskFindings latest a row) := by
  refine Adverse.append ?_ (adverse_finding (by decide))
  cases row with
  | none => exact adverse_blocked
  | some row =>
    refine .append (.append (.append (adverse_finding (by decide)) (adverse_finding (by decide)))
      fun f hf => ?_) (adverse_finding (by decide))
    obtain ⟨dependencyId, -, hf⟩ := mem_flatMap.mp hf
    exact adverse_dependencyFindings f hf

theorem adverse_executionFindings : Adverse (s.executionFindings latest a binding) := by
  unfold executionFindings
  split
  · exact adverse_bindingFindings.append adverse_runTaskFindings
  · exact adverse_blocked

/-- **Adverse findings that end in an eligible state are none.** -/
theorem Adverse.eq_nil {l : List Finding} (h : Adverse l)
    (hstate : (l.getLast?.map (·.state)).getD .eligible = .eligible) : l = [] := by
  cases hlast : l.getLast? with
  | none => exact List.getLast?_eq_none_iff.mp hlast
  | some f =>
    rw [hlast] at hstate
    exact absurd hstate (h f (mem_of_getLast? hlast))

/-- A dependency without a finding is accepted, by the assignment that is given. -/
theorem dependencyFindings_eq_nil {dependencyId : String}
    (h : s.dependencyFindings latest dependencyId = []) :
    ∃ d ∈ latest, d.taskId = dependencyId ∧ RunTaskAccepted s d := by
  unfold dependencyFindings at h
  cases hfind : MissionAssignmentGraphValidator.find latest dependencyId with
  | none => simp [hfind] at h
  | some d =>
    refine ⟨d, mem_of_find?_eq_some hfind, by simpa using List.find?_some hfind, ?_⟩
    simp only [hfind] at h
    split at h
    · rename_i runId executionTaskId hrun htask
      exact ⟨runId, executionTaskId, hrun, htask, by simpa using h⟩
    · cases h

/-- A task without a finding of its run has its dependencies accepted. -/
theorem executionFindings_eq_nil (h : s.executionFindings latest a binding = []) :
    ∀ dependencyId ∈ a.dependencies, ∃ d ∈ latest, d.taskId = dependencyId ∧
      RunTaskAccepted s d := by
  intro dependencyId hdependency
  unfold executionFindings at h
  split at h
  · obtain ⟨-, htask⟩ := append_eq_nil_iff.mp h
    cases hrow : s.boundTask? a with
    | none => simp [hrow, runTaskFindings] at htask
    | some row =>
      simp only [hrow, runTaskFindings, contractFindings, append_eq_nil_iff,
        flatMap_eq_nil_iff] at htask
      exact dependencyFindings_eq_nil (htask.1.1.2 dependencyId hdependency)
  · cases h

/-- The control the gate reads. -/
def seenControl (s : MissionStore) (id : Uuid) (a : MissionTaskAssignment) :
    Option MissionIntervention :=
  (((s.orderedInterventions id).take 1000).filter fun i => isScopedControl a i).getLast?

/-- **What an eligible task has passed**: every check of the gate, over what it reads. -/
theorem inspect_eligible {r : MissionTaskEligibility} (hmission : s.mission id = .ok mission)
    (h : s.inspect uuid5 available id taskId = .ok r) (heligible : r.eligible = true) :
    ∃ a ∈ s.seenAssignments id, a.taskId = taskId ∧ VerdictOf r a ∧
      mission.state ∈ runnableMissionStates ∧
      interventionFindings (seenControl s id a) = [] ∧
      (∀ e ∈ (s.orderedEscalations id).take 1000, e.state = .open →
        ¬ MissionStore.scopeMatches e.blockedScope a) ∧
      (∀ dependencyId ∈ a.dependencies, ∃ d ∈ s.seenAssignments id, d.taskId = dependencyId ∧
        RunTaskAccepted s d) ∧
      ∀ contextId ∈ a.environmentContextIds, ∃ acc, s.CurrentPlan id mission acc ∧
        s.ContextVerified uuid5 available s.seen acc.plan contextId := by
  have hlatest : s.latestAssignments id = .ok (s.seenAssignments id) := by
    rw [latestAssignments, listAssignments_of_mission hmission]
    rfl
  simp only [inspect, hmission, hlatest, latestScopedIntervention, blockingEscalations,
    interventionsOf_of_mission hmission, escalationsOf_of_mission hmission,
    bindingForAssignment_of_mission hmission, ok_bind] at h
  simp only [bind_eq_ok, require_eq_ok, pure_eq_ok] at h
  obtain ⟨a, hfind, readiness, hreadiness, environment, henvironment, _, rfl, _, rfl, rfl⟩ := h
  simp only [decide_eq_true_eq] at heligible
  have hnone := Adverse.eq_nil (((((adverse_missionFindings.append
    adverse_interventionFindings).append (adverse_finding (by decide))).append
      (adverse_finding (by decide))).append adverse_executionFindings)) heligible.1
  simp only [append_eq_nil_iff, finding_eq_nil, not_not] at hnone
  obtain ⟨⟨⟨⟨hstate, hcontrol⟩, hescalations⟩, hready⟩, hexecution⟩ := hnone
  have ha : a ∈ s.seenAssignments id := mem_of_find?_eq_some hfind
  have htask : a.taskId = taskId := by simpa using List.find?_some hfind
  refine ⟨a, ha, htask, ⟨rfl, rfl, rfl⟩, ?_, hcontrol, fun e he hopen hscope => ?_,
    executionFindings_eq_nil hexecution, fun contextId hcontext => ?_⟩
  · simp only [missionFindings, append_eq_nil_iff] at hstate
    have hstate := hstate.1
    split at hstate
    · cases hstate
    · exact not_not.mp (finding_eq_nil.mp hstate)
  · refine not_mem_nil (hescalations ▸ mem_filter.mpr ⟨he, ?_⟩)
    exact decide_eq_true ⟨hopen, hscope⟩
  · obtain ⟨acceptance, hacceptance, htasks⟩ := inspectReadiness_task hmission hreadiness
    obtain ⟨t, ht, htaskReady⟩ := htasks a ha
    obtain rfl : t = environment := Option.some.inj (ht.symm.trans (htask ▸ henvironment))
    obtain ⟨acc, hacc, hverified⟩ :=
      taskReadiness_ready.mp ⟨t, htaskReady, hready⟩ contextId hcontext
    exact ⟨acc, (mem_currentAcceptance hmission hacceptance).mp hacc, hverified⟩

/-! ## What it has seen of the controls -/

/-- What the gate lets through is not held. -/
theorem not_held (h : interventionFindings (seenControl s id a) = []) : ¬ Held s id a := by
  rintro ⟨before, i, after, hrows, hscoped, hkind, hafter⟩
  -- the control the gate reads is `i` or one after it
  have hseen : ∃ j, seenControl s id a = some j ∧ isScopedControl a j ∧ j.kind ≠ .resume := by
    rw [seenControl, hrows, filter_append, filter_cons, if_pos (decide_eq_true hscoped),
      List.getLast?_append, List.getLast?_cons]
    cases hlast : (after.filter fun j => isScopedControl a j).getLast? with
    | none => exact ⟨i, by simp, hscoped, hkind⟩
    | some j =>
      obtain ⟨hj, hjScoped⟩ := mem_filter.mp (mem_of_getLast? hlast)
      exact ⟨j, by simp, of_decide_eq_true hjScoped, hafter j hj (of_decide_eq_true hjScoped)⟩
  obtain ⟨j, hj, ⟨-, -, hcontrol⟩, hkind⟩ := hseen
  rw [hj, interventionFindings, finding_eq_nil, not_or] at h
  cases hjKind : j.kind <;> simp_all [InterventionKind.isControl]

/-- The newest of all verifications decides like the newest of the first ones, unless the others
overturn it. -/
theorem newestVerified_iff {l : List EnvironmentVerification} {fingerprint : String} {n : ℕ}
    (h : NewestVerified (l.take n) fingerprint) : NewestVerified l fingerprint ↔
      ∀ v ∈ (l.drop n).reverse.find? (·.contextFingerprint = fingerprint),
        v.settlement = .verified := by
  have htake : (NewestVerified (l.take n) fingerprint ↔ NewestVerified l fingerprint) ↔ _ :=
    newestVerified_take_iff
  simpa only [h, true_iff, iff_true] using htake

/-- A context the gate finds verified is verified, unless the verifications it does not read
overturn it. -/
theorem contextVerified_iff {plan : MissionEnvironmentPlan} {contextId : String}
    (h : s.ContextVerified uuid5 available s.seen plan contextId) :
    s.ContextVerified uuid5 available s.orderedVerifications plan contextId ↔
      ∀ request, plan.bindingRequest uuid5 contextId = .ok request →
        ∀ binding ∈ s.bindingForRequest request.requestId,
        ∀ v ∈ ((s.orderedVerifications binding.bindingId).drop 1000).reverse.find?
          (·.contextFingerprint = request.observationFingerprint), v.settlement = .verified := by
  constructor
  · intro hall request hrequest binding hbinding
    exact (newestVerified_iff (h.newest request hrequest binding hbinding)).mp
      (hall.newest request hrequest binding hbinding)
  · intro hlater
    exact h.of_newest fun request hrequest binding hbinding hseen =>
      (newestVerified_iff hseen).mpr (hlater request hrequest binding hbinding)

theorem latestAssignment_inj (ha : LatestAssignment s id taskId a)
    (hd : LatestAssignment s id taskId d) : a = d := by
  obtain ⟨⟨haMem, haMax⟩, haTask⟩ := ha
  obtain ⟨⟨hdMem, hdMax⟩, hdTask⟩ := hd
  have htask : a.taskId = d.taskId := haTask.trans hdTask.symm
  exact assignmentsOf_inj a ((mem_insertionSort _).mp haMem) d
    ((mem_insertionSort _).mp hdMem) htask
    (Nat.le_antisymm (hdMax a haMem htask) (haMax d hdMem htask.symm))

/-- A task that is assigned has a latest assignment. -/
theorem exists_latestAssignment (h : a ∈ s.seenAssignments id) :
    ∃ d, LatestAssignment s id a.taskId d := by
  have hmem : a ∈ s.orderedAssignments id := mem_of_mem_take (mem_seenAssignments.mp h).1
  obtain ⟨d, hd, htask⟩ : ∃ d ∈ MissionAssignmentGraphValidator.latest (s.orderedAssignments id),
      d.taskId = a.taskId := Latest.exists_mem_latest hmem
  exact ⟨d, Latest.isLatest_of_mem hd, htask⟩

/-- **The gate reads the latest assignment exactly when it is visible.** -/
theorem mem_take_iff_eq (hseen : a ∈ s.seenAssignments id)
    (hd : LatestAssignment s id a.taskId d) : d ∈ (s.orderedAssignments id).take 1000 ↔ d = a := by
  have hvisible := mem_seenAssignments.mp hseen
  refine ⟨fun hmem => ?_, fun h => h ▸ hvisible.1⟩
  have hsub : ∀ b ∈ (s.orderedAssignments id).take 1000, b ∈ s.orderedAssignments id :=
    fun b hb => mem_of_mem_take hb
  have hrevision : d.assignmentRevision = a.assignmentRevision :=
    Nat.le_antisymm (hvisible.2 d hmem hd.2) (hd.1.2 a (hsub a hvisible.1) hd.2.symm)
  exact assignmentsOf_inj d ((mem_insertionSort _).mp hd.1.1) a
    ((mem_insertionSort _).mp (hsub a hvisible.1)) hd.2 hrevision

end

/-! ## Runs -/

/-- **A task that is reported eligible has its controls honoured exactly when what decides was
read.** -/
theorem eligible_honoured_iff (ops : List MissionOp) (id : Uuid) (taskId : String)
    (r : MissionTaskEligibility)
    (h : (missionRun .empty ops).inspect uuid5 available id taskId = .ok r)
    (heligible : r.eligible = true) :
    ∃ a, LatestAssignment (missionRun .empty ops) id taskId a ∧
      (VerdictOf r a ∧ ControlsHonoured uuid5 available (missionRun .empty ops) id a ↔
        ControlsSeen uuid5 (missionRun .empty ops) id a) := by
  have hordered := controlsOrdered_run ops
  generalize missionRun .empty ops = s at *
  obtain ⟨mission, hmission, -⟩ := bind_eq_ok.mp h
  obtain ⟨a, ha, rfl, hverdict, hstate, hcontrol, hescalations, hdependencies, hcontexts⟩ :=
    inspect_eligible hmission h heligible
  obtain ⟨d, hd⟩ := exists_latestAssignment ha
  refine ⟨d, hd, ?_⟩
  constructor
  · rintro ⟨⟨hrevision, -⟩, hhonoured⟩
    have hda : d = a := by
      have hmem := mem_of_mem_take (mem_seenAssignments.mp ha).1
      exact assignmentsOf_inj d ((mem_insertionSort _).mp hd.1.1) a
        ((mem_insertionSort _).mp hmem) hd.2 (hrevision.symm.trans hverdict.1)
    subst hda
    refine ⟨(mem_seenAssignments.mp ha).1, fun kind hkind hresume => ?_,
      fun e he => hhonoured.escalations e (mem_of_mem_drop he),
      fun taskId htask dep hdep => .inr ?_,
      fun contextId hcontext mission' acc' hmission' hacc' => ?_⟩
    · have hisControl := isControl_of_latestControl hkind
      obtain ⟨hsuspend, hstop⟩ := hhonoured.control
      cases kind <;> simp_all [InterventionKind.isControl]
    · obtain ⟨dep', hdep', haccepted⟩ := hhonoured.dependencies taskId htask
      exact latestAssignment_inj hdep' hdep ▸ haccepted
    · obtain ⟨acc, hacc, hseen⟩ := hcontexts contextId hcontext
      obtain ⟨mission'', acc'', hmission'', hacc'', hverified⟩ :=
        hhonoured.contexts contextId hcontext
      obtain rfl : mission = mission' := Except.ok.inj (hmission.symm.trans hmission')
      obtain rfl : mission = mission'' := Except.ok.inj (hmission.symm.trans hmission'')
      obtain rfl := currentPlan_inj hacc hacc'
      obtain rfl := currentPlan_inj hacc hacc''
      exact (contextVerified_iff hseen).mp hverified
  · intro hseen
    obtain rfl : d = a := (mem_take_iff_eq ha hd).mp hseen.assignment
    have hlive : ∀ kind ∈ s.latestControl id d.taskId, kind = .resume := fun kind hkind => by
      by_contra hresume
      exact not_held hcontrol (hseen.control kind hkind hresume)
    refine ⟨hverdict, ⟨mission, hmission, hstate⟩,
      ⟨fun hsuspend => absurd (hlive _ hsuspend) (by decide),
        fun hstop => absurd (hlive _ hstop) (by decide)⟩,
      fun i hi hid htarget htask hstop => ?_, fun e he hopen => ?_, fun taskId htask => ?_,
      fun contextId hcontext => ?_⟩
    · have hlatest := latestControl_of_stop hordered hi htarget hstop
      rw [hid, htask] at hlatest
      exact absurd (hlive _ hlatest) (by decide)
    · rw [← take_append_drop 1000 (s.orderedEscalations id)] at he
      exact (mem_append.mp he).elim (hescalations e · hopen) (hseen.escalations e · hopen)
    · obtain ⟨dep, hdep, rfl, haccepted⟩ := hdependencies taskId htask
      obtain ⟨dep', hdep'⟩ := exists_latestAssignment hdep
      refine ⟨dep', hdep', ?_⟩
      rcases hseen.dependencies dep.taskId htask dep' hdep' with hvisible | haccepted'
      · exact (mem_take_iff_eq hdep hdep').mp hvisible ▸ haccepted
      · exact haccepted'
    · obtain ⟨acc, hacc, hverified⟩ := hcontexts contextId hcontext
      exact ⟨mission, acc, hmission, hacc, (contextVerified_iff hverified).mpr
        (hseen.contexts contextId hcontext mission acc hmission hacc)⟩

/-! ## The defect

A task is stopped.  Another task is suspended and resumed, and the scope of its resumption names the
stopped one. -/

namespace Build

/-- The work of the mission is released, and its environment verified. -/
def released : List MissionOp :=
  [.outside (runs .running .eligible)
    { bindings := [⟨70, 71, 1, .compatible, "installed"⟩]
      verifications := [verification .verified 0] }, .recordRunBinding binding]

/-- The task that reports. -/
def report : MissionTaskAssignment :=
  assign 31 "report" "cto" .reporting none none [] (by simp) nodup_nil

/-- The task is suspended and resumed, and still eligible. -/
def controlled : List MissionOp :=
  crewed ++ activation ++ released ++
    [.createChannel channel,
      .applyIntervention (control 80 .suspend .task "build" ["build"] 7 (by decide) (by decide)
        suspend_ne) 6 7,
      .applyIntervention (control 81 .resume .task "build" ["build"] 8 (by decide) (by decide)
        resume_ne) 7 8]

/-- The task is stopped, and another one is suspended and resumed. -/
def stopped : List MissionOp :=
  crewed ++ [.recordAssignment report] ++ activation ++ released ++
    [.createChannel channel,
      .applyIntervention (control 80 .stop .task "build" ["build"] 7 (by decide) (by decide)
        (by decide)) 6 7,
      .applyIntervention (control 81 .suspend .task "report" ["report"] 8 (by decide) (by decide)
        suspend_ne) 7 8,
      .applyIntervention (control 82 .resume .task "report" ["report", "build"] 9 (by decide)
        (by decide) resume_ne) 8 9]

/-- What the gate says of the task. -/
def verdict (ops : List MissionOp) : Except Raised MissionTaskEligibility :=
  (missionRun .empty ops).inspect requestId true 1 "build"

/-- The task is reported eligible. -/
def reported (ops : List MissionOp) : Bool :=
  match verdict ops with
  | .ok r => r.eligible
  | .error _ => false

theorem exists_reported {ops : List MissionOp} (h : reported ops = true) :
    ∃ r, verdict ops = .ok r ∧ r.eligible = true := by
  unfold reported at h
  split at h
  · rename_i r hr
    exact ⟨r, hr, h⟩
  · cases h

/-- The controls of the resumed task are seen. -/
theorem controlsSeen_controlled :
    ControlsSeen requestId (missionRun .empty controlled) 1 assignment := by
  have hlatest : (missionRun .empty controlled).latestControl 1 assignment.taskId =
      some .resume := by
    decide +kernel
  have henvironments : (missionRun .empty controlled).environments =
      { bindings := [⟨70, 71, 1, .compatible, "installed"⟩]
        verifications := [verification .verified 0] } := rfl
  have hlength : ∀ bindingId,
      ((missionRun .empty controlled).orderedVerifications bindingId).drop 1000 = [] := by
    intro bindingId
    refine drop_of_length_le ?_
    rw [orderedVerifications, length_insertionSort, henvironments]
    exact (length_filter_le _ _).trans (by decide)
  refine ⟨by decide +kernel, fun kind hkind hne => ?_, by decide +kernel, fun taskId htask => ?_,
    fun contextId _ mission acc _ _ request _ binding _ v hv => ?_⟩
  · rw [hlatest] at hkind
    exact absurd (Option.some.inj hkind).symm hne
  · cases htask
  · rw [hlength] at hv
    cases hv

end Build

open Build in
/-- A task that was suspended and resumed is reported eligible, and its controls are honoured. -/
theorem eligible_honoured_iff_resumed :
    ∃ r a, (missionRun .empty controlled).inspect requestId true 1 "build" = .ok r ∧
      r.eligible = true ∧ LatestAssignment (missionRun .empty controlled) 1 "build" a ∧
      (missionRun .empty controlled).latestControl 1 "build" = some .resume ∧
      VerdictOf r a ∧ ControlsHonoured requestId true (missionRun .empty controlled) 1 a := by
  obtain ⟨r, hr, heligible⟩ := exists_reported (show reported controlled = true by decide +kernel)
  obtain ⟨a, ha, hiff⟩ := eligible_honoured_iff requestId true controlled 1 "build" r hr heligible
  have hlatest : LatestAssignment (missionRun .empty controlled) 1 "build" assignment :=
    ⟨by decide +kernel, rfl⟩
  obtain rfl := latestAssignment_inj ha hlatest
  exact ⟨r, assignment, hr, heligible, ha, by decide +kernel,
    hiff.mpr controlsSeen_controlled⟩

open Build in
/-- **A stopped task is reported eligible.** -/
theorem stopped_task_eligible :
    ¬ ∀ (uuid5 : Uuid → String → Uuid) (available : Bool) (ops : List MissionOp) (id : Uuid)
      (taskId : String) (r : MissionTaskEligibility),
      (missionRun .empty ops).inspect uuid5 available id taskId = .ok r → r.eligible = true →
        ∃ a, LatestAssignment (missionRun .empty ops) id taskId a ∧ VerdictOf r a ∧
          ControlsHonoured uuid5 available (missionRun .empty ops) id a := by
  intro h
  obtain ⟨r, hr, heligible⟩ := exists_reported (show reported stopped = true by decide +kernel)
  obtain ⟨a, ⟨-, htask⟩, -, hhonoured⟩ := h requestId true stopped 1 "build" r hr heligible
  have hstop : ∃ i ∈ (missionRun .empty stopped).interventions, i.missionId = 1 ∧
      i.targetKind = .task ∧ i.targetId = "build" ∧ i.kind = .stop := by
    decide +kernel
  obtain ⟨i, hi, hid, htarget, htaskId, hkind⟩ := hstop
  exact hhonoured.unstopped i hi hid htarget (htaskId.trans htask.symm) hkind

end Mishkan
