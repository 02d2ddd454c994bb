import Mishkan.Foundations.Series
import Mishkan.Missions.System

/-!
# Missions/Consistency — what is stored of a mission can be read back

The writers of a mission copy it without validating the copy.  `MissionsConsistent` is what a reader
relies on: the payload is valid, the columns repeat it, and the versions it names exist, numbered
without gaps.  Every operation keeps it (`missionStep_consistent`) except three: cancelling a
mission that has no Brief, suspending or stopping one by an intervention, and creating one that
already names versions.  `missions_readable` is the run theorem, `cancelled_proposal` the failure.
-/

namespace Mishkan

open Refusal Transition MissionStore Editions Table

/-! ## The invariant -/

/-- The columns repeat the payload. -/
def MissionRow.Mirrors (row : MissionRow) : Prop :=
  row.payload.missionId = row.id ∧ row.state = row.payload.state
    ∧ row.revision = row.payload.revision
    ∧ row.currentBriefVersion = row.payload.currentBriefVersion
    ∧ row.currentCrewVersion = row.payload.currentCrewVersion
    ∧ row.currentEnvironmentPlanVersion = row.payload.currentEnvironmentPlanVersion

instance (row : MissionRow) : Decidable row.Mirrors := inferInstanceAs (Decidable (_ ∧ _))

/-- The versions of the Briefs, crews and environment plans of a mission are `1, …, n`, and the
current ones are the last. -/
structure Numbered (s : MissionStore) (id : Uuid) (record : MissionRecord) : Prop where
  briefs : Series (·.missionId) (·.version) s.briefs id (record.currentBriefVersion.getD 0)
  crews : Series (·.missionId) (·.version) s.crews id (record.currentCrewVersion.getD 0)
  environmentPlans : Series (·.plan.missionId) (·.plan.version) s.environmentPlans id
    (record.currentEnvironmentPlanVersion.getD 0)

/-- Every version belongs to a mission. -/
structure Owned (s : MissionStore) : Prop where
  briefs : ∀ b ∈ s.briefs, ∃ row ∈ s.missions, row.id = b.missionId
  crews : ∀ c ∈ s.crews, ∃ row ∈ s.missions, row.id = c.missionId
  environmentPlans : ∀ a ∈ s.environmentPlans, ∃ row ∈ s.missions, row.id = a.plan.missionId

/-- Missions can be read back. -/
structure MissionsConsistent (s : MissionStore) : Prop where
  readable : ∀ row ∈ s.missions, row.payload.Valid
  columns : ∀ row ∈ s.missions, row.Mirrors
  numbered : ∀ row ∈ s.missions, Numbered s row.id row.payload
  owned : Owned s

/-- No revision has decreased. -/
def RevisionsKept (s s' : MissionStore) : Prop :=
  ∀ row ∈ s.missions, ∃ row' ∈ s'.missions, row'.id = row.id ∧ row.revision ≤ row'.revision

theorem RevisionsKept.refl (s : MissionStore) : RevisionsKept s s :=
  fun row hrow => ⟨row, hrow, rfl, le_refl _⟩

theorem RevisionsKept.trans {s₁ s₂ s₃ : MissionStore} (h : RevisionsKept s₁ s₂)
    (h' : RevisionsKept s₂ s₃) : RevisionsKept s₁ s₃ := by
  intro row hrow
  obtain ⟨row₂, hrow₂, hid₂, hle₂⟩ := h row hrow
  obtain ⟨row₃, hrow₃, hid₃, hle₃⟩ := h' row₂ hrow₂
  exact ⟨row₃, hrow₃, hid₃.trans hid₂, hle₂.trans hle₃⟩

/-! ## Valid records -/

namespace MissionRecord

variable {r : MissionRecord} {v : Nat} {now : Instant}

/-- The bounds of the fields, one by one. -/
theorem fieldsBounded_iff : r.fieldsBounded = true ↔
    (((1 ≤ r.organizationId.length ∧ r.organizationId.length ≤ 128)
      ∧ 1 ≤ r.organizationVersion.length) ∧ r.organizationVersion.length ≤ 64)
    ∧ (∀ v ∈ r.currentBriefVersion, 1 ≤ v) ∧ (∀ v ∈ r.currentCrewVersion, 1 ≤ v)
    ∧ ∀ v ∈ r.currentEnvironmentPlanVersion, 1 ≤ v := by
  simp [fieldsBounded, Option.all_eq_true]

theorem withBrief_valid (h : r.Valid) (hv : 1 ≤ v) : (withBrief r v now).Valid := by
  obtain ⟨hlengths, -, hcrew, hplan⟩ := fieldsBounded_iff.mp h.fields
  refine ⟨fieldsBounded_iff.mpr ⟨hlengths, ?_, hcrew, hplan⟩, fun hadv => by cases hadv⟩
  rintro _ ⟨⟩
  exact hv

theorem withCrew_valid (h : r.Valid) (hv : 1 ≤ v) : (withCrew r v now).Valid := by
  obtain ⟨hlengths, hbrief, -, hplan⟩ := fieldsBounded_iff.mp h.fields
  refine ⟨fieldsBounded_iff.mpr ⟨hlengths, hbrief, ?_, hplan⟩, h.brief⟩
  rintro _ ⟨⟩
  exact hv

theorem withEnvironmentPlan_valid (h : r.Valid) (hv : 1 ≤ v) :
    (withEnvironmentPlan r v now).Valid := by
  obtain ⟨hlengths, hbrief, hcrew, -⟩ := fieldsBounded_iff.mp h.fields
  refine ⟨fieldsBounded_iff.mpr ⟨hlengths, hbrief, hcrew, ?_⟩, h.brief⟩
  rintro _ ⟨⟩
  exact hv

/-- **A move keeps a mission valid** exactly when it does not advance it without a Brief. -/
theorem moved_valid_iff {state : MissionState} (h : r.Valid) :
    (moved r state now).Valid ↔ (state.isAdvanced = true → r.currentBriefVersion ≠ none) :=
  ⟨fun h' => h'.brief, fun hbrief => ⟨h.fields, hbrief⟩⟩

end MissionRecord

/-! ## One operation -/

/-- What an operation must avoid: naming versions at creation, and cancelling, suspending or
stopping a mission that has no Brief. An operation on a durable identity or a stale revision is
safe. -/
def KeepsReadable (s : MissionStore) : MissionOp → Prop
  | .createMission record => s.mission? record.1.missionId = none → record.1.state = .proposed →
    record.1.currentBriefVersion = none ∧ record.1.currentCrewVersion = none
      ∧ record.1.currentEnvironmentPlanVersion = none
  | .transition t expected _ => t.toState = .cancelled →
    s.transitions.find (·.transitionId = t.transitionId) = none →
    ∀ mission ∈ (s.mission t.missionId).toOption, mission.revision = expected →
      t.fromState = mission.state → t.toState ∈ missionTransitions mission.state →
      mission.currentBriefVersion ≠ none
  | .applyIntervention i expected _ => i.targetKind = .mission →
      i.kind = .suspend ∨ i.kind = .stop →
    s.interventions.find (·.interventionId = i.interventionId) = none →
    ∀ mission ∈ (s.mission i.missionId).toOption, mission.revision = expected →
      ¬ mission.state.isTerminal = true → mission.currentBriefVersion ≠ none
  | _ => True

instance (s : MissionStore) : (op : MissionOp) → Decidable (KeepsReadable s op)
  | .createMission _ => inferInstanceAs (Decidable (_ → _ → _ ∧ _))
  | .transition .. => inferInstanceAs (Decidable (_ → _ → ∀ mission ∈ Except.toOption _, _))
  | .applyIntervention .. =>
    inferInstanceAs (Decidable (_ → _ → _ → ∀ mission ∈ Except.toOption _, _))
  | .recordOrganization .. | .recordBrief .. | .recordCrew .. | .recordAssignment ..
  | .recordRunBinding .. | .recordRunReport .. | .acceptEnvironmentPlan .. | .createChannel ..
  | .postMessage .. | .recordDecision .. | .createEscalation .. | .outside .. => isTrue trivial

section

variable {s s' : MissionStore} {id : Uuid} {mission record : MissionRecord}
  {f : MissionRow → MissionRow} {hf : ∀ row, Keyed.key (f row) = Keyed.key row}

/-- What an update of one mission owes: the new record is valid, the row mirrors it, and the
versions of this mission follow it while those of the others stay. -/
structure Rewrites (s s' : MissionStore) (id : Uuid) (mission record : MissionRecord)
    (f : MissionRow → MissionRow) (hf : ∀ row, Keyed.key (f row) = Keyed.key row) : Prop where
  missions : s'.missions = s.missions.update (·.id = id) f hf
  valid : record.Valid
  mirrors : ∀ row, row.payload = mission → row.Mirrors →
    (f row).payload = record ∧ (f row).Mirrors
  revision : mission.revision ≤ record.revision := by exact Nat.le_succ _
  here : Numbered s id mission → Numbered s' id record
  elsewhere : ∀ id' record', id' ≠ id → Numbered s id' record' → Numbered s' id' record'
  briefs : ∀ b ∈ s'.briefs, b ∈ s.briefs ∨ b.missionId = id := by exact fun _ => .inl
  crews : ∀ c ∈ s'.crews, c ∈ s.crews ∨ c.missionId = id := by exact fun _ => .inl
  environmentPlans : ∀ a ∈ s'.environmentPlans, a ∈ s.environmentPlans ∨ a.plan.missionId = id := by
    exact fun _ => .inl

/-- A rewritten table has the missions it had, so what they owned is still owned. -/
theorem Rewrites.owned (hmission : s.mission id = .ok mission)
    (h : Rewrites s s' id mission record f hf) (hs : Owned s) : Owned s' := by
  have hkeep : ∀ id', (∃ row ∈ s.missions, row.id = id') → ∃ row ∈ s'.missions, row.id = id' := by
    intro id' hrow
    rw [h.missions]
    exact exists_mem_update hf hrow fun row hid => (hf row).trans hid
  obtain ⟨row, hrow, hid, -⟩ := row_of_mission hmission
  refine ⟨fun b hb => hkeep _ ?_, fun c hc => hkeep _ ?_, fun a ha => hkeep _ ?_⟩
  · rcases h.briefs b hb with hb | hb
    · exact hs.briefs b hb
    · exact ⟨row, hrow, hid.trans hb.symm⟩
  · rcases h.crews c hc with hc | hc
    · exact hs.crews c hc
    · exact ⟨row, hrow, hid.trans hc.symm⟩
  · rcases h.environmentPlans a ha with ha | ha
    · exact hs.environmentPlans a ha
    · exact ⟨row, hrow, hid.trans ha.symm⟩

/-- **A rewriting that pays what it owes keeps missions consistent.** -/
theorem Rewrites.consistent (record : MissionRecord)
    (hf : ∀ row, Keyed.key (f row) = Keyed.key row) (hmission : s.mission id = .ok mission)
    (hs : MissionsConsistent s) (h : Rewrites s s' id mission record f hf) :
    MissionsConsistent s' ∧ RevisionsKept s s' := by
  have hid_f : ∀ row, (f row).id = row.id := hf
  refine ⟨⟨fun row' hrow' => ?_, fun row' hrow' => ?_, fun row' hrow' => ?_,
    h.owned hmission hs.owned⟩, fun row hrow => ?_⟩
  · rcases mem_rewritten hmission (h.missions ▸ hrow') with ⟨hrow, -⟩ | ⟨row, hrow, -, hp, rfl⟩
    · exact hs.readable _ hrow
    · rw [(h.mirrors row hp (hs.columns row hrow)).1]
      exact h.valid
  · rcases mem_rewritten hmission (h.missions ▸ hrow') with ⟨hrow, -⟩ | ⟨row, hrow, -, hp, rfl⟩
    · exact hs.columns _ hrow
    · exact (h.mirrors row hp (hs.columns row hrow)).2
  · rcases mem_rewritten hmission (h.missions ▸ hrow') with ⟨hrow, hne⟩ | ⟨row, hrow, hid, hp, rfl⟩
    · exact h.elsewhere _ _ hne (hs.numbered _ hrow)
    · rw [hid_f, hid, (h.mirrors row hp (hs.columns row hrow)).1]
      exact h.here (hid ▸ hp ▸ hs.numbered row hrow)
  · by_cases hid : row.id = id
    · obtain ⟨row₀, hrow₀, -, hp₀, -, hunique⟩ := row_of_mission hmission
      have hp : row.payload = mission := by rw [hunique row hrow hid, hp₀]
      obtain ⟨hrecord, hmirrors⟩ := h.mirrors row hp (hs.columns row hrow)
      refine ⟨f row, ?_, hid_f row, ?_⟩
      · rw [h.missions]
        exact mem_update_of hrow (by simpa using hid)
      · rw [(hs.columns row hrow).2.2.1, hmirrors.2.2.1, hp, hrecord]
        exact h.revision
    · refine ⟨row, ?_, rfl, le_refl _⟩
      rw [h.missions]
      exact mem_update_of_not hrow (by simpa using hid)

/-- A projected row mirrors the record it was given. -/
theorem project_mirrors (hid : record.missionId = mission.missionId) (row : MissionRow)
    (hp : row.payload = mission) (h : row.Mirrors) :
    (project record row).payload = record ∧ (project record row).Mirrors := by
  refine ⟨rfl, ?_, rfl, rfl, rfl, rfl, rfl⟩
  change record.missionId = row.id
  rw [← h.1, hp]
  exact hid

/-- An intervened row mirrors a moved mission. -/
theorem intervene_mirrors {state : MissionState} {now : Instant} (row : MissionRow)
    (hp : row.payload = mission) (h : row.Mirrors) :
    (intervene (moved mission state now) row).payload = moved mission state now ∧
      (intervene (moved mission state now) row).Mirrors := by
  obtain ⟨hid, -, -, hb, hc, he⟩ := h
  subst hp
  exact ⟨rfl, hid, rfl, rfl, hb, hc, he⟩

/-- **An intervention advances no mission without a Brief**, unless it suspends or stops one. -/
theorem transitionState_brief {i : MissionIntervention} {nextState : Option MissionState}
    (hnext : transitionState mission i = .ok nextState) (hvalid : mission.Valid)
    (hop : i.targetKind = .mission → i.kind = .suspend ∨ i.kind = .stop →
      ¬ mission.state.isTerminal = true → mission.currentBriefVersion ≠ none)
    (hadv : (nextState.getD mission.state).isAdvanced = true) :
    mission.currentBriefVersion ≠ none := by
  rcases transitionState_cases hnext with rfl | ⟨requested, rfl, htarget, hresult, hlive, hresume⟩
  · exact hvalid.brief hadv
  by_cases hk : i.kind = .resume
  · -- only a paused or a blocked mission resumes, and both are advanced
    refine hvalid.brief ?_
    rcases hresume hk with hstate | hstate <;> rw [hstate] <;> rfl
  · refine hop htarget ?_ hlive
    have hkind := i.missionResult
    rw [hresult, if_pos htarget] at hkind
    cases hkind' : i.kind <;> simp_all [InterventionKind.missionResult]

end

variable {s : MissionStore}

/-- **Every operation that keeps missions readable keeps them consistent**, and none takes a
revision back. -/
theorem missionStep_consistent {op : MissionOp} (hs : MissionsConsistent s)
    (hop : KeepsReadable s op) :
    MissionsConsistent (missionStep s op) ∧ RevisionsKept s (missionStep s op) := by
  have hchange := missionStep_change s op
  generalize missionStep s op = s' at hchange ⊢
  cases hchange with
  | quiet h =>
    obtain ⟨hm, hb, hc, -, -, he, -⟩ := h
    refine ⟨⟨hm ▸ hs.readable, hm ▸ hs.columns, fun row hrow => ?_, ?_⟩, fun row hrow =>
      ⟨row, hm ▸ hrow, rfl, le_refl _⟩⟩
    · obtain ⟨hb', hc', he'⟩ := hs.numbered row (hm ▸ hrow)
      exact ⟨hb ▸ hb', hc ▸ hc', he ▸ he'⟩
    · obtain ⟨hb', hc', he'⟩ := hs.owned
      exact ⟨by rwa [hb, hm], by rwa [hc, hm], by rwa [he, hm]⟩
  | @created record missions hnew hstate hinsert =>
    obtain ⟨hbrief, hcrew, hplan⟩ := hop hnew hstate
    have hmem : ∀ row, row ∈ missions ↔ _ := fun row => mem_of_insert hinsert
    have hfresh : ∀ row ∈ s.missions, row.id ≠ record.1.missionId := fun row hrow hid =>
      not_clash_of_insert hinsert hrow (decide_eq_true hid)
    refine ⟨⟨fun row hrow => ?_, fun row hrow => ?_, fun row hrow => ?_, ?_⟩, fun row hrow =>
      ⟨row, (hmem row).mpr (.inl hrow), rfl, le_refl _⟩⟩
    · rcases (hmem row).mp hrow with hrow | rfl
      · exact hs.readable row hrow
      · exact ⟨record.2.fields, record.2.brief⟩
    · rcases (hmem row).mp hrow with hrow | rfl
      · exact hs.columns row hrow
      · exact ⟨rfl, rfl, rfl, hbrief.symm, hcrew.symm, hplan.symm⟩
    · rcases (hmem row).mp hrow with hrow | rfl
      · obtain ⟨hb, hc, he⟩ := hs.numbered row hrow
        exact ⟨hb, hc, he⟩
      · -- a version of the new mission would belong to a row of the same identity
        simp only [proposedRow]
        refine ⟨?_, ?_, ?_⟩
        · simp only [hbrief]
          refine .none fun b hb hid => ?_
          obtain ⟨row, hrow, hrowid⟩ := hs.owned.briefs b hb
          exact hfresh row hrow (hrowid.trans hid)
        · simp only [hcrew]
          refine .none fun c hc hid => ?_
          obtain ⟨row, hrow, hrowid⟩ := hs.owned.crews c hc
          exact hfresh row hrow (hrowid.trans hid)
        · simp only [hplan]
          refine .none fun a ha hid => ?_
          obtain ⟨row, hrow, hrowid⟩ := hs.owned.environmentPlans a ha
          exact hfresh row hrow (hrowid.trans hid)
    · have hkeep : ∀ {id}, (∃ row ∈ s.missions, row.id = id) → ∃ row ∈ missions, row.id = id :=
        fun ⟨row, hrow, hid⟩ => ⟨row, (hmem row).mpr (.inl hrow), hid⟩
      exact ⟨fun b hb => hkeep (hs.owned.briefs b hb), fun c hc => hkeep (hs.owned.crews c hc),
        fun a ha => hkeep (hs.owned.environmentPlans a ha)⟩
  | @briefed brief expected now mission briefs hmission hlive hversion hinsert =>
    obtain ⟨-, -, -, -, hvalid, -⟩ := row_of_mission hmission
    refine Rewrites.consistent (withBrief mission brief.version now) (project_key _) hmission hs
      { missions := rfl
        valid := MissionRecord.withBrief_valid hvalid brief.versionPositive
        mirrors := project_mirrors rfl
        here := fun ⟨hb, hc, he⟩ => by
          refine ⟨?_, hc, he⟩
          simp only [withBrief, Option.getD_some, hversion]
          exact Series.continue hb hinsert hversion
        elsewhere := fun _ _ hne ⟨hb, hc, he⟩ => ⟨hb.frame hinsert (Ne.symm hne), hc, he⟩
        briefs := fun b hb => ((mem_of_insert hinsert).mp hb).imp_right fun h => by rw [h] }
  | @crewed crew expected now mission crews hnew hmission hrevision hbrief hversion hinsert =>
    obtain ⟨-, -, -, -, hvalid, -⟩ := row_of_mission hmission
    refine Rewrites.consistent (withCrew mission crew.version now) (project_key _) hmission hs
      { missions := rfl
        valid := MissionRecord.withCrew_valid hvalid crew.versionPositive
        mirrors := project_mirrors rfl
        here := fun ⟨hb, hc, he⟩ => by
          refine ⟨hb, ?_, he⟩
          simp only [withCrew, Option.getD_some, hversion]
          exact Series.continue hc hinsert hversion
        elsewhere := fun _ _ hne ⟨hb, hc, he⟩ => ⟨hb, hc.frame hinsert (Ne.symm hne), he⟩
        crews := fun c hc => ((mem_of_insert hinsert).mp hc).imp_right fun h => by rw [h] }
  | assigned | bound =>
    refine ⟨⟨hs.readable, hs.columns, fun row hrow => ?_, ?_⟩, .refl _⟩
    · obtain ⟨hb, hc, he⟩ := hs.numbered row hrow
      exact ⟨hb, hc, he⟩
    · obtain ⟨hb, hc, he⟩ := hs.owned
      exact ⟨hb, hc, he⟩
  | @transitioned t expected now mission transitions hnew hmission hrevision hfrom
      hallowed hversions hgate =>
    obtain ⟨row, hrow, hid, rfl, hvalid, -⟩ := row_of_mission hmission
    refine Rewrites.consistent (moved row.payload t.toState now) (project_key _) hmission hs
      { missions := rfl
        valid := (MissionRecord.moved_valid_iff hvalid).mpr fun hadv => by
          by_cases hcancel : t.toState = .cancelled
          · exact hop hcancel hnew _ (by rw [hmission]; rfl) hrevision hfrom hallowed
          · refine (hversions (fun hclarify => ?_) hcancel).1
            rw [hclarify] at hadv
            cases hadv
        mirrors := project_mirrors rfl
        here := fun ⟨hb, hc, he⟩ => ⟨hb, hc, he⟩
        elsewhere := fun _ _ _ ⟨hb, hc, he⟩ => ⟨hb, hc, he⟩ }
  | @planned acceptance expected now mission plans hnew hmission hrevision hversion hinsert =>
    obtain ⟨-, -, -, -, hvalid, -⟩ := row_of_mission hmission
    refine Rewrites.consistent (withEnvironmentPlan mission acceptance.plan.version now)
      (project_key _) hmission hs
      { missions := rfl
        valid := MissionRecord.withEnvironmentPlan_valid hvalid acceptance.plan.versionPositive
        mirrors := project_mirrors rfl
        here := fun ⟨hb, hc, he⟩ => by
          refine ⟨hb, hc, ?_⟩
          simp only [withEnvironmentPlan, Option.getD_some, hversion]
          exact Series.continue he hinsert hversion
        elsewhere := fun _ _ hne ⟨hb, hc, he⟩ => ⟨hb, hc, he.frame hinsert (Ne.symm hne)⟩
        environmentPlans := fun a ha =>
    ((mem_of_insert hinsert).mp ha).imp_right fun h => by rw [h] }
  | @intervened i expected now mission escalations interventions nextState hnew hmission
      hrevision htarget hsequence hnext hinsert =>
    obtain ⟨row, hrow, hid, rfl, hvalid, -⟩ := row_of_mission hmission
    refine Rewrites.consistent (moved row.payload (nextState.getD row.payload.state) now)
      (intervene_key _) hmission hs
      { missions := rfl
        valid := (MissionRecord.moved_valid_iff hvalid).mpr <|
          transitionState_brief hnext hvalid fun hmissionTarget hkind =>
            hop hmissionTarget hkind hnew _ (by rw [hmission]; rfl) hrevision
        mirrors := intervene_mirrors
        here := fun ⟨hb, hc, he⟩ => ⟨hb, hc, he⟩
        elsewhere := fun _ _ _ ⟨hb, hc, he⟩ => ⟨hb, hc, he⟩ }

/-! ## Runs -/

theorem consistent_empty : MissionsConsistent .empty := by
  refine ⟨fun _ h => ?_, fun _ h => ?_, fun _ h => ?_,
    ⟨fun _ h => ?_, fun _ h => ?_, fun _ h => ?_⟩⟩
  all_goals exact absurd h not_mem_empty

/-- **A run that keeps missions readable keeps them consistent.** -/
theorem consistent_run {ops : List MissionOp} (h : Along missionStep KeepsReadable .empty ops) :
    MissionsConsistent (missionRun .empty ops) :=
  run_of_guarded (I := MissionsConsistent) (fun _ _ hs hop => (missionStep_consistent hs hop).1)
    consistent_empty h

/-- What a reader finds of one mission: its payload, which the columns repeat, and the rows of the
versions it names. -/
structure ReadsBack (s : MissionStore) (row : MissionRow) : Prop where
  mission : s.mission row.id = .ok row.payload
  columns : row.Mirrors
  brief : ∀ v ∈ row.payload.currentBriefVersion, ∃ b ∈ s.briefs,
    b.missionId = row.id ∧ b.version = v
  crew : ∀ v ∈ row.payload.currentCrewVersion, ∃ c ∈ s.crews, c.missionId = row.id ∧ c.version = v
  environmentPlan : ∀ v ∈ row.payload.currentEnvironmentPlanVersion, ∃ a ∈ s.environmentPlans,
    a.plan.missionId = row.id ∧ a.plan.version = v
  numbered : Numbered s row.id row.payload

theorem MissionsConsistent.readsBack (hs : MissionsConsistent s)
    {row : MissionRow} (hrow : row ∈ s.missions) : ReadsBack s row := by
  have hvalid := hs.readable row hrow
  have hnum := hs.numbered row hrow
  obtain ⟨-, hbrief, hcrew, hplan⟩ := MissionRecord.fieldsBounded_iff.mp hvalid.fields
  refine ⟨mission_eq_ok.mpr ⟨row, hrow, rfl, rfl, hvalid⟩, hs.columns row hrow, fun v hv => ?_,
    fun v hv => ?_, fun v hv => ?_, hnum⟩
  · exact hnum.briefs.exists_row (hbrief v hv) (by simp [Option.mem_def.mp hv])
  · exact hnum.crews.exists_row (hcrew v hv) (by simp [Option.mem_def.mp hv])
  · exact hnum.environmentPlans.exists_row (hplan v hv) (by simp [Option.mem_def.mp hv])

/-- **Missions list** wherever all of them are valid. -/
theorem MissionsConsistent.listMissions (hs : MissionsConsistent s) {limit : Nat}
    (hlimit : 1 ≤ limit ∧ limit ≤ 1000) : ∃ records, s.listMissions limit = .ok records := by
  refine ⟨_, bind_eq_ok.mpr ⟨(), refuseIf_of_not (not_not.mpr hlimit),
    mapM_of_forall (g := (·.payload)) fun row hrow => ?_⟩⟩
  rw [MissionRecord.modelValidate_eq_ok]
  exact ⟨hs.readable row ((List.mem_insertionSort _).mp (List.mem_of_mem_take hrow)), rfl⟩

/-- **Every mission of a run that keeps missions readable reads back**, missions list, and no
revision decreases. -/
theorem missions_readable {ops ops' : List MissionOp}
    (h : Along missionStep KeepsReadable .empty (ops ++ ops')) :
    (∀ row ∈ (missionRun .empty ops).missions, ReadsBack (missionRun .empty ops) row) ∧
      (∀ limit, 1 ≤ limit → limit ≤ 1000 →
        ∃ records, (missionRun .empty ops).listMissions limit = .ok records) ∧
      RevisionsKept (missionRun .empty ops) (missionRun .empty (ops ++ ops')) := by
  obtain ⟨hfirst, hrest⟩ := Along.append.mp h
  have hs : MissionsConsistent (missionRun .empty ops) := consistent_run hfirst
  refine ⟨fun row hrow => hs.readsBack hrow, fun limit hle hge => hs.listMissions ⟨hle, hge⟩, ?_⟩
  have hstep : ∀ s op, MissionsConsistent s ∧ RevisionsKept (missionRun .empty ops) s →
      KeepsReadable s op → MissionsConsistent (missionStep s op) ∧
        RevisionsKept (missionRun .empty ops) (missionStep s op) := by
    rintro s op ⟨hs, hkept⟩ hop
    obtain ⟨hs', hkept'⟩ := missionStep_consistent hs hop
    exact ⟨hs', hkept.trans hkept'⟩
  have hrun : missionRun .empty (ops ++ ops') = run missionStep (missionRun .empty ops) ops' :=
    run_append _ _ _ _
  rw [hrun]
  exact (run_of_guarded (I := fun s => MissionsConsistent s ∧ RevisionsKept _ s) hstep
    ⟨hs, .refl _⟩ hrest).2

/-! ## The defect -/

namespace Build

/-- The first of anything is numbered one. -/
theorem one_le_one : 1 ≤ 1 := Nat.le_refl 1

/-- An organization with a reporter. -/
def organization : OrganizationRosterDefinition where
  organizationId := "mishkan"
  organizationVersion := "1"
  branchIds := []
  identities := [⟨"pm", [], true⟩, ⟨"cto", ["reporting.missions"], true⟩]
  branchesUnique := List.nodup_nil
  identitiesUnique := by decide

/-- A mission as it is proposed. -/
def record : MissionRecord where
  missionId := 1
  origin :=
    { originId := 2
      kind := .ceo
      actorId := "ceo"
      objective := "ship"
      createdAt := 0
      legacyLineage := fun _ => rfl
      exactLineage := fun h => by cases h }
  organizationId := "mishkan"
  organizationVersion := "1"
  createdAt := 0
  updatedAt := 0

theorem record_valid : record.Valid := by decide

/-- Proposing the mission. -/
def proposal : List MissionOp :=
  [.recordOrganization organization, .createMission ⟨record, record_valid⟩]

/-- Moving the mission. -/
def move (transitionId : Uuid) (fromState toState : MissionState) (expected : Nat)
    (h : fromState ≠ toState) : MissionOp :=
  .transition
    { transitionId := transitionId
      missionId := 1
      fromState := fromState
      toState := toState
      actorOrCause := "pm"
      reason := "next"
      affectedScope := ["mission"]
      evidenceReferences := ["minutes"]
      createdAt := expected
      changesState := h } expected expected

/-- A confirmation of one of the executives. -/
def confirmation (confirmationId : Uuid) (identity : ConfirmationIdentity)
    (coverage : List String) (hcoverage : coverage ≠ []) : ExecutiveConfirmation where
  confirmationId := confirmationId
  identityId := identity
  disposition := .confirmed
  rationale := "agreed"
  evidenceReferences := ["minutes"]
  coverage := coverage
  confirmedAt := 1
  evidenceNonempty := by decide
  coverageNonempty := hcoverage

/-- The first Brief, of environment-dependent work, confirmed by both. -/
def brief : MissionBrief where
  briefId := 10
  missionId := 1
  version := 1
  organizationId := "mishkan"
  organizationVersion := "1"
  status := .confirmed
  objective := "ship"
  problem := "not shipped"
  desiredOutcome := "shipped"
  scope := ["all"]
  exclusions := []
  acceptanceCriteria := ["shipped"]
  constraints := []
  risks := []
  authorityScope := ["workspace"]
  proposedCrew := ["pm", "cto"]
  evidenceRequirements := ["tests"]
  escalationConditions := ["scope"]
  environmentIntent :=
    { environmentDependent := true
      requiredEvidence := ["verification"]
      declared := by decide }
  pmConfirmation := some (confirmation 11 .pm
    ["product", "developer-experience", "composition"] (by decide))
  ctoConfirmation := some (confirmation 12 .cto
    ["technical", "platform", "security", "quality", "operability"] (by decide))
  createdAt := 1
  versionPositive := one_le_one
  crewUnique := by decide
  crewBounded := by decide
  pmAttributable := by decide
  ctoAttributable := by decide
  jointlyConfirmed := by decide +kernel
  attributablyRejected := by decide

def member (identityId : String) (kind : CrewAssignmentKind) : MissionCrewMember :=
  ⟨identityId, kind, "all", ⟨["all"], ["all"], ["all"], "none", ["all"], ["all"]⟩⟩

def crew : MissionCrewRevision where
  crewId := 20
  missionId := 1
  version := 1
  organizationId := "mishkan"
  organizationVersion := "1"
  briefVersion := 1
  missionLeadId := "pm"
  members := [member "pm" .production, member "cto" .reporting]
  pmCompositionConfirmationId := 11
  ctoCoverageConfirmationId := 12
  revisionReason := "first"
  createdAt := 2
  versionPositive := one_le_one
  briefVersionPositive := one_le_one
  identitiesUnique := by decide
  leadAssigned := by decide

/-- The first assignment of a task. -/
def assign (assignmentId : Uuid) (taskId owner : String) (kind : CrewAssignmentKind)
    (runId executionTaskId : Option String) (contextIds : List String)
    (hexecution : runId = none ↔ executionTaskId = none) (hcontexts : contextIds.Nodup) :
    MissionTaskAssignment where
  assignmentId := assignmentId
  missionId := 1
  crewVersion := 1
  taskId := taskId
  accountableOwner := owner
  assignmentKind := kind
  expectedResult := "built"
  completionCriteria := ["built"]
  executionRunId := runId
  executionTaskId := executionTaskId
  environmentContextIds := contextIds
  authorityScope := ["workspace"]
  exactTools := ["repository.read"]
  pathScopes := []
  limits := [⟨"turns", 10, "turns"⟩]
  requiredEvidence := ["tests"]
  createdAt := 3
  revisionPositive := one_le_one
  ownerNotContributor := by simp
  contributorsUnique := List.nodup_nil
  dependenciesUnique := List.nodup_nil
  notSelfDependent := by simp
  contextsUnique := hcontexts
  executionDeclared := hexecution
  evaluatedProduction := by simp
  initial := by simp
  revised := by simp

def assignment : MissionTaskAssignment :=
  assign 30 "build" "pm" .production (some (Uuid.text 1)) (some "build") ["toolchain"] (by simp)
    (by decide)

/-- The environment plan: the toolchain of the host is reused. -/
def environmentPlan : MissionEnvironmentPlanAcceptance where
  plan :=
    { planId := 50
      missionId := 1
      version := 1
      missionRevision := 5
      briefVersion := 1
      crewVersion := 1
      planningTaskId := "build"
      ownerIdentity := "pm"
      contexts := [⟨"toolchain", 51, "observation", ["build"], by decide⟩]
      decisions := [⟨"toolchain", .reuseExisting, "installed", by decide⟩]
      versionPositive := one_le_one
      decisionsUnique := by decide
      decisionsExact := by simp }
  acceptedBy := "pm"
  policyFingerprint := "policy"
  acceptedAt := 4

/-- The mission with its crew. -/
def crewed : List MissionOp :=
  [.recordOrganization organization, .createMission ⟨record, record_valid⟩,
    .recordBrief brief 1 1, .recordCrew crew 2 2, .recordAssignment assignment]

/-- The mission is activated, and its environment planned. -/
def activation : List MissionOp :=
  [move 60 .clarifying .planned 3 (by decide), move 61 .planned .active 4 (by decide),
    .acceptEnvironmentPlan environmentPlan 5 5]

/-- The executive channel. -/
def channel : ConversationChannel where
  conversationId := 30
  channelClass := .executive
  participants := ["CEO", "pm"]
  createdBy := "CEO"
  createdAt := 2
  participantsUnique := by decide
  executiveScope := by decide
  missionScope := by decide
  branchScope := by decide

theorem suspend_ne : InterventionKind.suspend ≠ .answerEscalation := by decide

theorem resume_ne : InterventionKind.resume ≠ .answerEscalation := by decide

/-- A control of the mission or of a task. -/
def control (interventionId : Uuid) (kind : InterventionKind)
    (targetKind : InterventionTargetKind) (targetId : String) (scope : List String) (now : Instant)
    (hscope : scope ≠ []) (hkind : targetKind ∈ kind.allowedTargets)
    (hanswer : kind ≠ .answerEscalation) : MissionIntervention where
  schemaVersion := .v11
  interventionId := interventionId
  missionId := 1
  conversationId := 30
  kind := kind
  targetKind := targetKind
  targetId := targetId
  scope := scope
  resultingTargetState := some kind.resultingTargetState
  resultingMissionState := if targetKind = .mission then kind.missionResult else none
  createdAt := now
  scopeNonempty := hscope
  targetAllowed := hkind
  answerTarget := fun h => absurd h hanswer
  answerOption := fun h => absurd h hanswer
  selectionAnswers := fun _ => ⟨rfl, rfl⟩
  legacyResult := fun h => by cases h
  targetResult := fun _ => rfl
  missionResult := rfl

/-- The mission is suspended, and resumed. -/
def suspended (expected : Nat) : List MissionOp :=
  [.createChannel channel,
    .applyIntervention (control 31 .suspend .mission (Uuid.text 1) ["mission"] expected (by decide)
      (by decide) suspend_ne) expected expected,
    .applyIntervention (control 32 .resume .mission (Uuid.text 1) ["mission"] (expected + 1)
      (by decide) (by decide) resume_ne) (expected + 1) (expected + 1)]

end Build

open Build in
/-- A mission is briefed, crewed, activated, suspended and resumed. -/
theorem missions_readable_resumed :
    Along missionStep KeepsReadable .empty (crewed ++ activation ++ suspended 6) ∧
      (∃ row ∈ (missionRun .empty (crewed ++ activation)).missions,
        row.payload.currentBriefVersion = some 1 ∧
          ReadsBack (missionRun .empty (crewed ++ activation)) row) ∧
      (∀ limit, 1 ≤ limit → limit ≤ 1000 →
        ∃ records, (missionRun .empty (crewed ++ activation)).listMissions limit = .ok records) ∧
      RevisionsKept (missionRun .empty (crewed ++ activation))
        (missionRun .empty (crewed ++ activation ++ suspended 6)) := by
  have h : Along missionStep KeepsReadable .empty (crewed ++ activation ++ suspended 6) := by
    decide +kernel
  obtain ⟨hreads, hlist, hkept⟩ := missions_readable h
  obtain ⟨row, hrow, hbrief⟩ : ∃ row ∈ (missionRun .empty (crewed ++ activation)).missions,
      row.payload.currentBriefVersion = some 1 := by
    decide +kernel
  exact ⟨h, ⟨row, hrow, hbrief, hreads row hrow⟩, hlist, hkept⟩

open Build in
/-- **A proposal that is cancelled cannot be read again**, nor can any list that contains it. -/
theorem cancelled_proposal :
    ¬ ∀ ops : List MissionOp, ∀ row ∈ (missionRun .empty ops).missions,
      row.payload.Valid ∧ ((missionRun .empty ops).mission row.id).isOk = true
        ∧ ((missionRun .empty ops).listMissions 100).isOk = true := by
  intro h
  exact absurd (h (proposal ++ [move 3 .proposed .cancelled 1 (by decide)])) (by decide)

end Mishkan
