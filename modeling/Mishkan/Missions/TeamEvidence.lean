import Mishkan.Missions.Completion
import Mishkan.Missions.TeamRepository

/-!
# Missions/TeamEvidence — which plan new team evidence is bound to

The plans of a mission are `1, …, n`, each recorded for the Brief and crew of its moment, and the
cursors of its health evaluations increase (`TeamSound`, kept by every operation).  The plan that a
record of evidence is checked against is the one it names, which need not be the one in force:
`team_evidence_bound_iff` says along which runs every new record is bound to the plan in force.
-/

namespace Mishkan

open Refusal Transition MissionStore TeamStore Table

/-! ## A record is replayed, refused or written -/

namespace TeamStore

variable {s : TeamStore}

@[simp] theorem ending_eq_ok {α : Type} {x : Except Raised (α × TeamStore)}
    {r : Unit × TeamStore} : ending x = .ok r ↔ ∃ a, x = .ok (a, r.2) := by
  simp only [ending, map_eq_ok, Prod.exists]
  constructor
  · rintro ⟨a, s', h, rfl⟩
    exact ⟨a, h⟩
  · rintro ⟨a, h⟩
    exact ⟨a, r.2, h, rfl⟩

/-- **A record changes nothing, or passes its checks and is written**; it is new in its table
exactly when its identity is and it passes them. -/
theorem written_spec {ρ : Type} [Keyed ρ] [DecidableEq ρ] (rows : TeamStore → Table ρ)
    (put : Table ρ → TeamStore) (p : ρ → Bool) (r : ρ) (P : Prop)
    {x : Except Raised (ρ × TeamStore)} {fresh : Except Raised TeamStore}
    (hx : x = s.idempotent ((rows s).find p) r fresh) (hrows : ∀ t, rows (put t) = t)
    (hp : p r = true)
    (hclash : ∀ a ∈ rows s, Keyed.clash (Keyed.key a) (Keyed.key r) = true → p a = true)
    (hfresh : ∀ s', fresh = .ok s' ↔ P ∧ ∃ t, (rows s).insert r = some t ∧ put t = s') :
    ((r ∉ rows s ∧ r ∈ rows (commit s (ending x))) ↔ (rows s).find p = none ∧ P) ∧
      (commit s (ending x) = s ∨
        P ∧ ∃ t, (rows s).insert r = some t ∧ commit s (ending x) = put t) := by
  subst hx
  cases hfind : (rows s).find p with
  | some durable =>
    have hkept : commit s (ending (s.idempotent (some durable) r fresh)) = s := by
      by_cases hsame : durable = r
      · simp [idempotent, refuseIf, hsame, ending, Except.map, bind, Except.bind, pure, Except.pure]
      · simp [idempotent, refuseIf, hsame, ending, Except.map, bind, Except.bind]
    rw [hkept]
    exact ⟨iff_of_false (fun h => h.1 h.2) (by simp), .inl rfl⟩
  | none =>
    have habsent := find_eq_none.mp hfind
    cases hresult : fresh with
    | error e =>
      have hfails : ¬ P := by
        intro hP
        obtain ⟨t, ht⟩ := exists_insert fun a ha hc => habsent a ha (hclash a ha hc)
        have hok : fresh = .ok (put t) := (hfresh _).mpr ⟨hP, t, ht, rfl⟩
        rw [hok] at hresult
        cases hresult
      exact ⟨iff_of_false (fun h => h.1 h.2) (fun h => hfails h.2), .inl rfl⟩
    | ok s' =>
      obtain ⟨hP, t, hinsert, rfl⟩ := (hfresh s').mp hresult
      have hmem : r ∈ rows (put t) := by
        rw [hrows]
        exact (mem_of_insert hinsert).mpr (.inr rfl)
      exact ⟨iff_of_true ⟨fun hr => habsent r hr hp, hmem⟩ ⟨rfl, hP⟩, .inr ⟨hP, t, hinsert, rfl⟩⟩

/-! ## The plans of a mission -/

variable {id : Uuid} {version : Nat} {plan : MissionCollaborationPlan}

/-- Mission and version identify a plan. -/
theorem plans_inj : ∀ a ∈ s.plans.rows, ∀ b ∈ s.plans.rows,
    a.missionId = b.missionId → a.version = b.version → a = b := by
  intro a ha b hb hid hversion
  exact eq_of_clash ha hb (by simp [Keyed.clash, Keyed.key, hid, hversion])

/-- **A plan is loaded by the version it has.** -/
theorem plan_eq_ok : s.plan id (some version) = .ok plan ↔
    plan ∈ s.plans ∧ plan.missionId = id ∧ plan.version = version := by
  rw [TeamStore.plan, require_eq_ok, find_decide]
  simp +contextual [Keyed.clash, Keyed.key]

/-- A plan that no later one supersedes. -/
def InForce (s : TeamStore) (plan : MissionCollaborationPlan) : Prop :=
  plan ∈ s.plans ∧ ∀ later ∈ s.plans, later.missionId = plan.missionId →
    later.version ≤ plan.version

instance (s : TeamStore) (plan : MissionCollaborationPlan) : Decidable (s.InForce plan) :=
  inferInstanceAs (Decidable (_ ∧ ∀ _ ∈ s.plans, _))

theorem latest_eq_some : Latest.get? (·.missionId) (·.version) s.plans.rows id = some plan ↔
    s.InForce plan ∧ plan.missionId = id := by
  rw [Latest.get?_eq_some, Latest.mem_latest_iff plans_inj]
  exact Iff.rfl

end TeamStore

/-! ## What holds whatever is recorded -/

/-- The plans of every mission are numbered without gaps, and the cursors of its health evaluations
increase. -/
structure TeamSound (s : TeamStore) : Prop where
  numbered : ∀ id, ∃ n, Editions.Series (·.missionId) (·.version) s.plans id n
  increasing : ∀ id,
    ((s.healths.select (·.missionId = id)).map (·.evidenceCursor)).Pairwise (· < ·)

section

variable {s s' : TeamStore} {id : Uuid} {n : Nat} {op : TeamOp}

/-- **The next version is the one that continues the series.** -/
theorem nextPlanVersion_eq (h : Editions.Series (·.missionId) (·.version) s.plans id n) :
    s.nextPlanVersion id = n + 1 := by
  unfold nextPlanVersion
  cases hlatest : Latest.get? (·.missionId) (·.version) s.plans.rows id with
  | none =>
    have hnone : Editions.Series (·.missionId) (·.version) s.plans id 0 :=
      Editions.Series.none (Latest.get?_eq_none.mp hlatest)
    have hlength := congrArg List.length (h.symm.trans hnone)
    rw [List.length_range'] at hlength
    rw [hlength]
    rfl
  | some plan =>
    obtain ⟨⟨hmem, hmax⟩, hid⟩ := latest_eq_some.mp hlatest
    have hrange : plan.version ∈ List.range' 1 n :=
      h ▸ List.mem_map_of_mem (mem_select.mpr ⟨hmem, decide_eq_true hid⟩)
    obtain ⟨hpos, hlt⟩ := List.mem_range'_1.mp hrange
    obtain ⟨last, hlast, howner, hversion⟩ := h.exists_row (v := n) (by omega) (Nat.le_refl n)
    have hle := hmax last hlast (howner.trans hid.symm)
    simp only [Option.map_some, Option.getD_some]
    omega

end

/-! ## What a new record has passed -/

/-- What a new plan has passed. -/
def AdmitsPlan (s : TeamStore) (plan : MissionCollaborationPlan) : Prop :=
  ∃ mission brief crew, s.missionContext plan.missionId = .ok (mission, brief, crew) ∧
    TeamEffectivenessValidator.collaborationPlan plan brief crew = .ok () ∧
    s.validateHistoryCitations plan = .ok () ∧
    plan.version = s.nextPlanVersion plan.missionId ∧
    mission.currentBriefVersion = some plan.briefVersion ∧
    mission.currentCrewVersion = some plan.crewVersion

/-- The mission and the version of the plan that a record of evidence names. -/
def TeamOp.named : TeamOp → Option (Uuid × Nat)
  | .recordHealth evaluation => some (evaluation.missionId, evaluation.collaborationPlanVersion)
  | .recordAdaptation decision => some (decision.missionId, decision.beforePlanVersion)
  | .recordRetrospective record => some (record.missionId, record.collaborationPlanVersion)
  | .recordSignal signal => some (signal.missionId, signal.collaborationPlanVersion)
  | .recordHandoff handoff => some (handoff.missionId, handoff.collaborationPlanVersion)
  | .recordCollaborationPlan _ | .mission _ => none

/-- The plan is the one that a record of evidence names. -/
def Names (op : TeamOp) (plan : MissionCollaborationPlan) : Prop :=
  op.named = some (plan.missionId, plan.version)

/-- The identity of the record is not durable yet. -/
def IsNew (s : TeamStore) : TeamOp → Prop
  | .recordCollaborationPlan plan => s.plans.find (·.planId = plan.planId) = none
  | .recordHealth evaluation =>
    s.healths.find (·.evaluationId = evaluation.evaluationId) = none
  | .recordAdaptation decision => s.adaptations.find (·.decisionId = decision.decisionId) = none
  | .recordRetrospective record =>
    s.retrospectives.find (·.retrospectiveId = record.retrospectiveId) = none
  | .recordSignal signal => s.signals.find (·.signalId = signal.signalId) = none
  | .recordHandoff handoff => s.handoffs.find (·.handoffId = handoff.handoffId) = none
  | .mission _ => False

/-- A record of evidence passes its checks against a plan. -/
def PassesChecks (s : TeamStore) (op : TeamOp) (plan : MissionCollaborationPlan) : Prop :=
  match op with
  | .recordHealth evaluation =>
    TeamEffectivenessValidator.healthEvaluation evaluation plan = .ok () ∧
      ¬ ∃ latest ∈ s.latestCursor evaluation.missionId, evaluation.evidenceCursor ≤ latest
  | .recordAdaptation decision =>
    TeamEffectivenessValidator.adaptation decision plan = .ok () ∧
      s.validateAdaptationLineage decision = .ok ()
  | .recordRetrospective record =>
    TeamEffectivenessValidator.retrospective record plan = .ok ()
  | .recordSignal signal =>
    ∃ assignments, s.requireTasks signal.missionId signal.taskIds unknownTasks = .ok assignments
  | .recordHandoff handoff => s.requireHandoff handoff plan = .ok ()
  | .recordCollaborationPlan _ | .mission _ => False

/-- The record of an operation is written. -/
def TeamRecorded (s s' : TeamStore) : TeamOp → Prop
  | .recordCollaborationPlan plan => plan ∉ s.plans ∧ plan ∈ s'.plans
  | .recordHealth evaluation => evaluation ∉ s.healths ∧ evaluation ∈ s'.healths
  | .recordAdaptation decision => decision ∉ s.adaptations ∧ decision ∈ s'.adaptations
  | .recordRetrospective record => record ∉ s.retrospectives ∧ record ∈ s'.retrospectives
  | .recordSignal signal => signal ∉ s.signals ∧ signal ∈ s'.signals
  | .recordHandoff handoff => handoff ∉ s.handoffs ∧ handoff ∈ s'.handoffs
  | .mission _ => False

section

variable {s s' : TeamStore} {id : Uuid} {n : Nat} {op : TeamOp} {plan : MissionCollaborationPlan}

/-- The plan a record names, and what it passes against it. -/
theorem exists_plan_iff {version : Nat} {P : MissionCollaborationPlan → Prop}
    (hnamed : op.named = some (id, version)) :
    (∃ plan, s.plan id (some version) = .ok plan ∧ P plan) ↔
      ∃ plan ∈ s.plans, Names op plan ∧ P plan := by
  simp only [plan_eq_ok, Names, hnamed, Option.some.injEq, Prod.mk.injEq]
  constructor
  · rintro ⟨plan, ⟨hmem, rfl, rfl⟩, hP⟩
    exact ⟨plan, hmem, ⟨rfl, rfl⟩, hP⟩
  · rintro ⟨plan, hmem, ⟨rfl, rfl⟩, hP⟩
    exact ⟨plan, ⟨hmem, rfl, rfl⟩, hP⟩

/-- What an operation can have done to the plans and the health evaluations. -/
inductive TeamChange (s : TeamStore) : TeamOp → TeamStore → Prop
  | kept {op : TeamOp} {s' : TeamStore} (hplans : s'.plans = s.plans)
      (hhealths : s'.healths = s.healths) : TeamChange s op s'
  | planned {plan : MissionCollaborationPlan} {plans : Table MissionCollaborationPlan}
      (hadmits : AdmitsPlan s plan) (hinsert : s.plans.insert plan = some plans) :
      TeamChange s (.recordCollaborationPlan plan) { s with plans := plans }
  | evaluated {evaluation : TeamHealthEvaluation} {healths : Table TeamHealthEvaluation}
      (hpasses : ∃ plan ∈ s.plans, Names (.recordHealth evaluation) plan ∧
        PassesChecks s (.recordHealth evaluation) plan)
      (hinsert : s.healths.insert evaluation = some healths) :
      TeamChange s (.recordHealth evaluation) { s with healths := healths }

/-- A record of another table leaves the plans and the health evaluations alone. -/
theorem TeamChange.of_written {ρ : Type} [Keyed ρ] {t : Table ρ} {r : ρ} {P : Prop}
    {put : Table ρ → TeamStore} (h : s' = s ∨ P ∧ ∃ t', t.insert r = some t' ∧ s' = put t')
    (hplans : ∀ t, (put t).plans = s.plans) (hhealths : ∀ t, (put t).healths = s.healths) :
    TeamChange s op s' := by
  rcases h with rfl | ⟨-, t', -, rfl⟩
  · exact .kept rfl rfl
  · exact .kept (hplans t') (hhealths t')

/-- **New evidence is recorded exactly when it passes its checks against the plan it names.** -/
theorem teamStep_evidence (s : TeamStore) {op : TeamOp} (hop : op.named ≠ none) :
    (TeamRecorded s (teamStep s op) op ↔
        IsNew s op ∧ ∃ plan ∈ s.plans, Names op plan ∧ PassesChecks s op plan) ∧
      TeamChange s op (teamStep s op) := by
  cases op with
  | recordCollaborationPlan plan => exact absurd rfl hop
  | mission op => exact absurd rfl hop
  | recordHealth evaluation =>
    have hspec := written_spec (s := s) (x := s.recordHealth evaluation) TeamStore.healths
      (fun t => { s with healths := t }) (·.evaluationId = evaluation.evaluationId) evaluation
      (∃ plan ∈ s.plans, Names (.recordHealth evaluation) plan ∧
        PassesChecks s (.recordHealth evaluation) plan)
      rfl (fun _ => rfl) (decide_eq_true rfl) (fun a _ hc => hc) fun s' => by
        rw [← exists_plan_iff rfl]
        simp only [bind_eq_ok, refuseIf_eq_ok, require_eq_ok, pure_eq_ok, PassesChecks]
        grind
    refine ⟨hspec.1, ?_⟩
    rcases hspec.2 with hkept | ⟨hpasses, t, hinsert, hput⟩
    · exact .kept (congrArg _ hkept) (congrArg _ hkept)
    · have hstep : teamStep s (.recordHealth evaluation) = { s with healths := t } := hput
      rw [hstep]
      exact .evaluated hpasses hinsert
  | recordAdaptation decision =>
    have hspec := written_spec (s := s) (x := s.recordAdaptation decision) TeamStore.adaptations
      (fun t => { s with adaptations := t }) (·.decisionId = decision.decisionId) decision
      (∃ plan ∈ s.plans, Names (.recordAdaptation decision) plan ∧
        PassesChecks s (.recordAdaptation decision) plan)
      rfl (fun _ => rfl) (decide_eq_true rfl) (fun a _ hc => hc) fun s' => by
        rw [← exists_plan_iff rfl]
        simp only [bind_eq_ok, require_eq_ok, pure_eq_ok, PassesChecks]
        grind
    exact ⟨hspec.1, .of_written hspec.2 (fun _ => rfl) fun _ => rfl⟩
  | recordRetrospective record =>
    have hspec := written_spec (s := s) (x := s.recordRetrospective record)
      TeamStore.retrospectives (fun t => { s with retrospectives := t })
      (·.retrospectiveId = record.retrospectiveId) record
      (∃ plan ∈ s.plans, Names (.recordRetrospective record) plan ∧
        PassesChecks s (.recordRetrospective record) plan)
      rfl (fun _ => rfl) (decide_eq_true rfl) (fun a _ hc => hc) fun s' => by
        rw [← exists_plan_iff rfl]
        simp only [bind_eq_ok, require_eq_ok, pure_eq_ok, PassesChecks]
        grind
    exact ⟨hspec.1, .of_written hspec.2 (fun _ => rfl) fun _ => rfl⟩
  | recordSignal signal =>
    have hspec := written_spec (s := s) (x := s.recordSignal signal) TeamStore.signals
      (fun t => { s with signals := t }) (·.signalId = signal.signalId) signal
      (∃ plan ∈ s.plans, Names (.recordSignal signal) plan ∧
        PassesChecks s (.recordSignal signal) plan)
      rfl (fun _ => rfl) (decide_eq_true rfl) (fun a _ hc => hc) fun s' => by
        rw [← exists_plan_iff rfl]
        simp only [bind_eq_ok, require_eq_ok, pure_eq_ok, PassesChecks]
        grind
    exact ⟨hspec.1, .of_written hspec.2 (fun _ => rfl) fun _ => rfl⟩
  | recordHandoff handoff =>
    have hspec := written_spec (s := s) (x := s.recordHandoff handoff) TeamStore.handoffs
      (fun t => { s with handoffs := t }) (·.handoffId = handoff.handoffId) handoff
      (∃ plan ∈ s.plans, Names (.recordHandoff handoff) plan ∧
        PassesChecks s (.recordHandoff handoff) plan)
      rfl (fun _ => rfl) (decide_eq_true rfl) (fun a _ hc => hc) fun s' => by
        rw [← exists_plan_iff rfl]
        simp only [bind_eq_ok, require_eq_ok, pure_eq_ok, PassesChecks]
        grind
    exact ⟨hspec.1, .of_written hspec.2 (fun _ => rfl) fun _ => rfl⟩

/-- **Every operation is one of the changes.** -/
theorem teamStep_change (s : TeamStore) (op : TeamOp) : TeamChange s op (teamStep s op) := by
  cases op with
  | mission op => exact .kept rfl rfl
  | recordCollaborationPlan plan =>
    refine commit_cases (R := fun s s' => TeamChange s _ s') (.kept rfl rfl) ?_
    intro _ s' h
    obtain ⟨_, h⟩ := ending_eq_ok.mp h
    change s.recordCollaborationPlan plan = _ at h
    unfold recordCollaborationPlan idempotent at h
    split at h
    · simp only [bind_eq_ok, return_eq_ok] at h
      obtain ⟨-, -, -, rfl⟩ := h
      exact .kept rfl rfl
    · simp only [bind_eq_ok, refuseIf_eq_ok, require_eq_ok, pure_eq_ok, Prod.exists,
        Prod.mk.injEq, not_or, not_not] at h
      obtain ⟨_, ⟨mission, brief, crew, hcontext, _, hvalid, _, hhistory, _, hversion, _, ⟨hbrief,
        hcrew⟩, plans, hinsert, rfl⟩, -, rfl⟩ := h
      exact .planned ⟨mission, brief, crew, hcontext, hvalid, hhistory, hversion, hbrief, hcrew⟩
        hinsert
  | _ => exact (teamStep_evidence s (by rintro ⟨⟩)).2

/-- **Every operation keeps the numbering of plans and the order of evidence.** -/
theorem TeamSound.step (h : TeamSound s) (op : TeamOp) : TeamSound (teamStep s op) := by
  have hchange := teamStep_change s op
  generalize teamStep s op = s' at hchange ⊢
  cases hchange with
  | kept hplans hhealths => exact ⟨hplans ▸ h.numbered, hhealths ▸ h.increasing⟩
  | @planned plan plans hadmits hinsert =>
    refine ⟨fun id => ?_, h.increasing⟩
    by_cases hid : plan.missionId = id
    · subst hid
      obtain ⟨n, hn⟩ := h.numbered plan.missionId
      obtain ⟨-, -, -, -, -, -, hversion, -, -⟩ := hadmits
      exact ⟨n + 1, hn.continue hinsert (hversion.trans (nextPlanVersion_eq hn))⟩
    · obtain ⟨n, hn⟩ := h.numbered id
      exact ⟨n, hn.frame hinsert hid⟩
  | @evaluated evaluation healths hpasses hinsert =>
    refine ⟨h.numbered, fun id => ?_⟩
    obtain ⟨plan, -, -, -, hcursor⟩ := hpasses
    by_cases hid : evaluation.missionId = id
    · subst hid
      rw [select_insert hinsert, if_pos (decide_eq_true rfl), List.map_append,
        List.pairwise_append]
      refine ⟨h.increasing _, List.pairwise_singleton _ _, fun a ha b hb => ?_⟩
      rw [List.mem_singleton.mp hb]
      obtain ⟨latest, hlatest⟩ := Option.isSome_iff_exists.mp (List.isSome_max?_of_mem ha)
      have hle : a ≤ latest := (List.max?_eq_some_iff.mp hlatest).2 a ha
      have hlt : latest < evaluation.evidenceCursor :=
        lt_of_not_ge fun hge => hcursor ⟨latest, hlatest, hge⟩
      exact lt_of_le_of_lt hle hlt
    · rw [select_insert_of_not hinsert (by simpa using hid)]
      exact h.increasing id

theorem teamSound_empty : TeamSound {} :=
  ⟨fun _ => ⟨0, rfl⟩, fun _ => List.Pairwise.nil⟩

end

/-! ## Bound to the governance in force -/

/-- A plan of the Brief and the crew its mission has. -/
def ForCurrent (s : TeamStore) (plan : MissionCollaborationPlan) : Prop :=
  ∃ mission, s.missions.mission plan.missionId = .ok mission ∧
    mission.currentBriefVersion = some plan.briefVersion ∧
    mission.currentCrewVersion = some plan.crewVersion

/-- The plan permits a bounded adaptation, which starts from its crew and ends with that of the
mission. -/
def PreAuthorized (s : TeamStore) (decision : CrewAdaptationDecision)
    (plan : MissionCollaborationPlan) : Prop :=
  decision.disposition = .bounded →
    (∀ kind ∈ decision.adaptationKinds, kind ∈ plan.permittedAdaptations) ∧
      decision.beforeCrewVersion = plan.crewVersion ∧
      ∃ row ∈ s.missions.missions, row.id = decision.missionId ∧
        row.currentCrewVersion = some decision.afterCrewVersion

/-- Evidence names the plan in force, and a bounded adaptation is one of it. -/
def BoundTo (s : TeamStore) (op : TeamOp) (plan : MissionCollaborationPlan) : Prop :=
  s.InForce plan ∧ Names op plan ∧
    ∀ decision, op = .recordAdaptation decision → PreAuthorized s decision plan

/-- A new plan is of the current Brief and crew, and new evidence is bound to the plan in force. -/
def TeamGoverned (s : TeamStore) (op : TeamOp) : Prop :=
  TeamRecorded s (teamStep s op) op →
    match op with
    | .recordCollaborationPlan plan => ForCurrent s plan
    | op => ∃ plan, BoundTo s op plan

/-- What new evidence that passes its checks must name: a plan that no later one supersedes, which
for a bounded adaptation is one for the crew it starts from. -/
def NamesInForce (s : TeamStore) (op : TeamOp) : Prop :=
  IsNew s op → ∀ plan ∈ s.plans, Names op plan → PassesChecks s op plan →
    (∀ later ∈ s.plans, later.missionId = plan.missionId → later.version ≤ plan.version) ∧
      ∀ decision, op = .recordAdaptation decision → decision.disposition = .bounded →
        decision.beforeCrewVersion = plan.crewVersion

section

variable {s : TeamStore} {op : TeamOp} {plan plan' : MissionCollaborationPlan}

/-- A record of evidence names one plan. -/
theorem Names.unique (h : Names op plan) (h' : Names op plan') (hmem : plan ∈ s.plans)
    (hmem' : plan' ∈ s.plans) : plan = plan' := by
  have hnamed := Option.some.inj (Eq.trans (Eq.symm h) h')
  rw [Prod.mk.injEq] at hnamed
  exact plans_inj plan hmem plan' hmem' hnamed.1 hnamed.2

theorem forCurrent_of_admits (h : AdmitsPlan s plan) : ForCurrent s plan := by
  obtain ⟨mission, brief, crew, hcontext, -, -, -, hbrief, hcrew⟩ := h
  obtain ⟨record, hrecord, hcontext⟩ := bind_eq_ok.mp hcontext
  iterate 4 obtain ⟨_, -, hcontext⟩ := bind_eq_ok.mp hcontext
  cases hcontext
  exact ⟨mission, hrecord, hbrief, hcrew⟩

/-- **A new plan is of the current Brief and crew.** -/
theorem forCurrent_of_recorded
    (h : TeamRecorded s (teamStep s (.recordCollaborationPlan plan))
      (.recordCollaborationPlan plan)) :
    ForCurrent s plan := by
  obtain ⟨hnot, hmem⟩ := h
  have hchange := teamStep_change s (.recordCollaborationPlan plan)
  generalize teamStep s (.recordCollaborationPlan plan) = s' at hchange hmem
  cases hchange with
  | kept hplans _ => exact absurd (hplans ▸ hmem) hnot
  | planned hadmits _ => exact forCurrent_of_admits hadmits

/-- What a bounded adaptation that passes its checks is permitted. -/
theorem preAuthorized_iff {decision : CrewAdaptationDecision}
    (h : PassesChecks s (.recordAdaptation decision) plan) : PreAuthorized s decision plan ↔
      (decision.disposition = .bounded → decision.beforeCrewVersion = plan.crewVersion) := by
  obtain ⟨hadaptation, hlineage⟩ := h
  simp only [TeamEffectivenessValidator.adaptation, bind_eq_ok, refuseIf_eq_ok, not_and,
    not_not] at hadaptation
  obtain ⟨_, -, hpermitted⟩ := hadaptation
  refine forall_congr' fun hbounded => ⟨fun h => h.2.1, fun hcrew => ?_⟩
  refine ⟨hpermitted hbounded, hcrew, ?_⟩
  simp only [validateAdaptationLineage, bind_eq_ok, refuseIf_eq_ok, require_eq_ok,
    mission?_eq_some, not_not] at hlineage
  obtain ⟨_, -, _, -, _, -, row, ⟨hrow, hid⟩, _, hcurrent, -⟩ := hlineage
  exact ⟨row, hrow, hid, hcurrent⟩

/-- **Evidence is bound to the plan in force exactly when it names it.** -/
theorem governed_iff : TeamGoverned s op ↔ NamesInForce s op := by
  by_cases hop : op.named = none
  · have hnames : NamesInForce s op := fun _ plan _ h => by
      rw [Names, hop] at h
      cases h
    refine iff_of_true (fun hrecorded => ?_) hnames
    cases op with
    | recordCollaborationPlan plan => exact forCurrent_of_recorded hrecorded
    | mission op => exact hrecorded.elim
    | _ => cases hop
  · have hrecorded := (teamStep_evidence s hop).1
    have hgoverned : TeamGoverned s op ↔
        (TeamRecorded s (teamStep s op) op → ∃ plan, BoundTo s op plan) := by
      cases op with
      | recordCollaborationPlan plan => exact absurd rfl hop
      | _ => exact Iff.rfl
    rw [hgoverned, hrecorded]
    constructor
    · intro h hnew plan hmem hnames hpasses
      obtain ⟨plan', ⟨hmem', hforce⟩, hnames', hadaptation⟩ := h ⟨hnew, plan, hmem, hnames, hpasses⟩
      obtain rfl := hnames.unique hnames' hmem hmem'
      refine ⟨hforce, ?_⟩
      rintro decision rfl
      exact (preAuthorized_iff hpasses).mp (hadaptation decision rfl)
    · rintro h ⟨hnew, plan, hmem, hnames, hpasses⟩
      obtain ⟨hforce, hcrew⟩ := h hnew plan hmem hnames hpasses
      refine ⟨plan, ⟨hmem, hforce⟩, hnames, ?_⟩
      rintro decision rfl
      exact (preAuthorized_iff hpasses).mpr (hcrew decision rfl)

end

/-- **New team evidence is bound to the plan in force exactly along the runs in which it names it**;
the plans of every mission are numbered and of the current Brief and crew along every run, and the
cursors of its health evaluations increase. -/
theorem team_evidence_bound_iff (ops : List TeamOp) :
    (Along teamStep TeamGoverned {} ops ∧ TeamSound (run teamStep {} ops)) ↔
      Along teamStep NamesInForce {} ops := by
  have hsound : TeamSound (run teamStep {} ops) :=
    run_induction (fun _ op h => h.step op) teamSound_empty ops
  rw [and_iff_left hsound]
  exact Along.congr (I := fun _ => True) (fun _ _ _ => trivial) (fun _ _ _ => governed_iff) trivial

/-! ## The defect

The plan of a mission permits the crew to split a task; the next plan permits nothing. -/

namespace TeamSample

/-- A plan of one owner. -/
def plan (planId : Uuid) (version : Nat) (permitted : List AdaptationKind)
    (hversion : 1 ≤ version) (hpermitted : ∀ kind ∈ permitted, kind ∈ boundedAdaptations) :
    MissionCollaborationPlan where
  planId := planId
  missionId := 1
  version := version
  briefVersion := 1
  crewVersion := 1
  productionShape := .singleOwner
  productionOwnerIds := ["pm"]
  responsibilities := [⟨"pm", "all", ["assignment:production"], by simp⟩]
  permittedAdaptations := permitted
  pmConfirmationId := 11
  ctoConfirmationId := 12
  createdAt := 4
  versionPositive := hversion
  briefVersionPositive := Build.one_le_one
  crewVersionPositive := Build.one_le_one
  ownersUnique := by decide
  ownersCounted := by decide
  reasoned := by decide
  consulted := by decide
  connected := by decide
  responsibilitiesUnique := by decide
  ownersResponsible := by decide
  edgesDeclared := by decide
  permittedBounded := hpermitted

theorem build_ne_nil : ["build"] ≠ [] := List.cons_ne_nil _ _

theorem two_positive : 1 ≤ 2 := Nat.le_succ 1

theorem split_permitted : ∀ kind ∈ [AdaptationKind.splitTask], kind ∈ boundedAdaptations := by
  decide

theorem nothing_permitted : ∀ kind ∈ ([] : List AdaptationKind), kind ∈ boundedAdaptations := by
  decide

/-- Splitting the task of the mission, under its first plan. -/
def split : CrewAdaptationDecision where
  decisionId := 90
  missionId := 1
  adaptationKinds := [.splitTask]
  affectedTaskIds := ["build"]
  disposition := .bounded
  beforeCrewVersion := 1
  afterCrewVersion := 1
  beforePlanVersion := 1
  afterPlanVersion := 1
  kindsNonempty := by decide
  tasksNonempty := build_ne_nil
  materialApproved := by decide
  approvalReferenced := by decide
  boundedUnapproved := by decide
  boundedCrewKept := by decide
  planAdvances := Build.one_le_one

/-- The mission with both plans. -/
def planned : List TeamOp := Build.crewed.map .mission ++
  [.recordCollaborationPlan (plan 80 1 [.splitTask] Build.one_le_one split_permitted),
    .recordCollaborationPlan (plan 81 2 [] two_positive nothing_permitted)]

end TeamSample

open TeamSample in
/-- **A superseded plan still permits an adaptation.** -/
theorem superseded_plan_permits :
    ¬ ∀ ops, Along teamStep TeamGoverned {} ops ∧ TeamSound (run teamStep {} ops) := by
  intro h
  have hgoverned := (Along.append.mp (h (planned ++ [.recordAdaptation split])).1).2.1
  have hrecorded : split ∉ (run teamStep {} planned).adaptations ∧
      split ∈ (teamStep (run teamStep {} planned) (.recordAdaptation split)).adaptations := by
    decide
  have hsuperseded : ∀ plan ∈ (run teamStep {} planned).plans,
      (run teamStep {} planned).InForce plan → plan.version ≠ 1 := by decide
  obtain ⟨plan, hforce, hnames, -⟩ := hgoverned hrecorded
  have hversion : (1, 1) = (plan.missionId, plan.version) := Option.some.inj hnames
  exact hsuperseded plan hforce.1 hforce (congrArg Prod.snd hversion).symm

end Mishkan
