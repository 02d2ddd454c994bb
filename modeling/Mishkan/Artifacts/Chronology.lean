import Mishkan.Artifacts.Collection
import Mishkan.Foundations.IsoFormat

/-!
# Artifacts/Chronology — the age of artifacts, as texts compare

A plan of a collection compares the texts of moments.  The texts of two clocks with one offset from
UTC compare as the moments; otherwise the clock that is ahead has a stretch in which it is taken for
later (`Misjudged`).  A plan lists the artifacts that are older than its watermark exactly when none
that it could list lies in such a stretch (`gc_chronological_iff`).
-/

namespace Mishkan.Artifacts

open Refusal ArtifactStore Table IsoFormat

/-! ## Texts -/

/-- A moment a clock can show: its offset is less than a day, and it falls into the years 1 to 9999.
Moments are counted from the day before year 1, so that every clock's are there. -/
structure DateTime.Valid (t : DateTime) : Prop where
  offset_lt : t.offset.natAbs < day
  first : day ≤ t.instant + t.offset
  last : t.instant + t.offset < day + maxDays * day

/-- `isoformat()`: what a clock with the offset shows, and the offset. -/
def DateTime.isoformat (t : DateTime) : String :=
  IsoFormat.isoformat (t.instant + t.offset - IsoFormat.day).toNat t.offset

/-- The text of the creation puts it on the wrong side of the watermark. -/
def Misjudged (created watermark : DateTime) : Prop :=
  let ahead := watermark.offset - created.offset
  -- the clock of the watermark is ahead
  (0 < ahead ∧ watermark.instant ≤ created.instant ∧
    (created.instant < watermark.instant + ahead ∨
      created.instant = watermark.instant + ahead ∧ 0 ≤ created.offset)) ∨
  -- the clock of the creation is ahead
  (ahead < 0 ∧ created.instant < watermark.instant ∧
    (watermark.instant + ahead < created.instant ∨
      created.instant = watermark.instant + ahead ∧ 0 ≤ watermark.offset))

instance (created watermark : DateTime) : Decidable (Misjudged created watermark) :=
  inferInstanceAs (Decidable (_ ∨ _))

theorem isoformat_lt_iff {t u : DateTime} (ht : t.Valid) (hu : u.Valid) :
    t.isoformat < u.isoformat ↔ t.instant + t.offset < u.instant + u.offset ∨
      t.instant + t.offset = u.instant + u.offset ∧ IsoFormat.OffsetBefore t.offset u.offset := by
  have hfirst := ht.first
  have hfirst' := hu.first
  have hlast := ht.last
  have hlast' := hu.last
  rw [DateTime.isoformat, DateTime.isoformat, IsoFormat.isoformat_lt_iff (by omega) (by omega)
    ht.offset_lt hu.offset_lt]
  have hlt : (t.instant + t.offset - IsoFormat.day).toNat <
      (u.instant + u.offset - IsoFormat.day).toNat ↔
        (t.instant : ℤ) + t.offset < u.instant + u.offset := by omega
  have heq : (t.instant + t.offset - IsoFormat.day).toNat =
      (u.instant + u.offset - IsoFormat.day).toNat ↔
        (t.instant : ℤ) + t.offset = u.instant + u.offset := by omega
  rw [hlt, heq]

/-- **Texts compare as moments** unless the creation is misjudged. -/
theorem misjudged_iff {created watermark : DateTime} (hc : created.Valid) (hw : watermark.Valid) :
    (created.isoformat < watermark.isoformat ↔ created.instant < watermark.instant) ↔
      ¬ Misjudged created watermark := by
  rw [isoformat_lt_iff hc hw]
  simp only [OffsetBefore, Misjudged, ← Int.ofNat_lt, ← Int.ofNat_le]
  split_ifs <;> omega

/-! ## What is remembered -/

variable {s s' s'' : ArtifactStore} {settings : ArtifactSettings}
  {issueText : ArtifactReconciliationIssue → String}

/-- Every artifact is still there with its creation, and every plan of a collection with its
candidates. -/
structure Remembers (s s' : ArtifactStore) : Prop where
  created : ∀ row ∈ s.artifacts, ∃ row' ∈ s'.artifacts,
    row'.id = row.id ∧ row'.createdAt = row.createdAt
  planned : ∀ plan ∈ s.gcPlans, ∃ plan' ∈ s'.gcPlans,
    plan'.id = plan.id ∧ plan'.candidates = plan.candidates

theorem remembers_of_eq (hartifacts : s'.artifacts = s.artifacts)
    (hplans : s'.gcPlans = s.gcPlans) : Remembers s s' where
  created row hrow := ⟨row, hartifacts ▸ hrow, rfl, rfl⟩
  planned plan hplan := ⟨plan, hplans ▸ hplan, rfl, rfl⟩

theorem Remembers.refl (s : ArtifactStore) : Remembers s s := remembers_of_eq rfl rfl

theorem Remembers.trans (h : Remembers s s') (h' : Remembers s' s'') : Remembers s s'' where
  created row hrow := by
    obtain ⟨row', hrow', hid, hcreated⟩ := h.created row hrow
    obtain ⟨row'', hrow'', hid', hcreated'⟩ := h'.created row' hrow'
    exact ⟨row'', hrow'', hid'.trans hid, hcreated'.trans hcreated⟩
  planned plan hplan := by
    obtain ⟨plan', hplan', hid, hcandidates⟩ := h.planned plan hplan
    obtain ⟨plan'', hplan'', hid', hcandidates'⟩ := h'.planned plan' hplan'
    exact ⟨plan'', hplan'', hid'.trans hid, hcandidates'.trans hcandidates⟩

/-- Artifacts are given another lifecycle. -/
theorem remembers_setLifecycle {p : ArtifactRow → Bool} {lifecycle : ArtifactLifecycle} :
    Remembers s
      { s with
        artifacts := s.artifacts.update p (·.setLifecycle lifecycle)
          (ArtifactRow.setLifecycle_key lifecycle) } where
  created row hrow := by
    refine ⟨_, List.mem_map_of_mem hrow, ?_⟩
    split <;> exact ⟨rfl, rfl⟩
  planned plan hplan := ⟨plan, hplan, rfl, rfl⟩

theorem repairAll_remembers {plan : ArtifactReconciliationPlan} {applied : Bool}
    (h : s.repairAll plan = .ok (applied, s')) : Remembers s s' := by
  have hrepair : ∀ (s : ArtifactStore) issue, Remembers s (s.repair issue) := by
    intro s issue
    cases issue with
    | markMissing id ref => exact remembers_setLifecycle
    | markCorrupt id ref => exact remembers_setLifecycle
    | _ => exact remembers_of_eq rfl rfl
  exact repairAll_induct .refl .trans hrepair h

variable {now : DateTime}

theorem recordManifest_remembers {row : ArtifactUploadRow} {artifactId : Uuid}
    {manifest : ArtifactManifest}
    (h : s.recordManifest settings row artifactId now = .ok (manifest, s')) : Remembers s s' := by
  obtain rfl | ⟨artifacts, -, hinsert, rfl⟩ := recordManifest_cases h
  · exact .refl s'
  · exact
      { created := fun row hrow => ⟨row, (mem_of_insert hinsert).mpr (.inl hrow), rfl, rfl⟩
        planned := fun plan hplan => ⟨plan, hplan, rfl, rfl⟩ }

theorem updateReference_remembers {scope name : String} {artifactId recordId : Uuid}
    {revision : Nat} {row : ArtifactReferenceRow}
    (h : s.updateReference scope name artifactId revision recordId now = .ok (row, s')) :
    Remembers s s' := by
  obtain ⟨references, rfl⟩ := updateReference_only h
  exact remembers_of_eq rfl rfl

variable {watermark : DateTime} {planId : Uuid}

variable {plan : GarbageCollectionPlan}

theorem planGc_remembers
    (h : s.planGc settings planId watermark = .ok (plan, s')) : Remembers s s' := by
  simp only [planGc, bind_eq_ok, require_eq_ok, return_eq_ok] at h
  obtain ⟨gcPlans, hinsert, -, rfl⟩ := h
  exact
    { created := fun row hrow => ⟨row, hrow, rfl, rfl⟩
      planned := fun plan hplan =>
        ⟨plan, (mem_of_insert hinsert).mpr (.inl hplan), rfl, rfl⟩ }

theorem tombstoneCandidates_remembers {refs : List StorageRef}
    (h : s.tombstoneCandidates settings planId now = .ok (refs, s')) : Remembers s s' := by
  obtain rfl | ⟨plan, -, happlied⟩ := tombstoneCandidates_cases h
  · exact .refl s'
  · constructor
    · intro row hrow
      refine ⟨collected now plan.candidates row, (happlied.artifacts _).mpr ⟨row, hrow, rfl⟩, ?_⟩
      unfold collected
      split <;> exact ⟨rfl, rfl⟩
    · intro other hother
      rw [happlied.gcPlans]
      refine ⟨_, List.mem_map_of_mem hother, ?_⟩
      split <;> exact ⟨rfl, rfl⟩

/-- **No step of the service forgets.** -/
theorem remembers_service (v : Service) (op : Operation) :
    Remembers v.shared (Service.step settings issueText v op).shared := by
  by_cases hwrites : Writes v op
  · cases op with
    | start input =>
      obtain ⟨request, around⟩ := input
      cases request with
      | updateReference =>
        exact commit_cases (.refl _) fun _ _ => updateReference_remembers
      | planGc => exact commit_cases (.refl _) fun _ _ => planGc_remembers
      | applyGc planId now =>
        change Remembers v.shared (orEnd (v.shared.tombstoneCandidates settings planId now) _ _).2
        cases h : v.shared.tombstoneCandidates settings planId now with
        | error e => exact .refl _
        | ok applied => exact tombstoneCandidates_remembers h
      | _ => exact hwrites.elim
    | advance i around =>
      obtain ⟨call, hcall, hwrites⟩ := hwrites
      simp only [Service.step, Pool.step, Option.mem_def.mp hcall]
      cases call with
      | recordManifest => exact commit_cases (.refl _) fun _ _ => recordManifest_remembers
      | markDeleted => exact remembers_setLifecycle
      | repairAll plan now =>
        change Remembers v.shared (orEnd (v.shared.repairAll plan) _ _).2
        cases h : v.shared.repairAll plan with
        | error e => exact .refl _
        | ok repaired =>
          obtain ⟨applied, repaired⟩ := repaired
          cases applied with
          | true => exact .refl _
          | false => exact repairAll_remembers h
      | _ => exact hwrites.elim
    | _ => exact hwrites.elim
  · have hsteady : Steady v.shared (Service.step settings issueText v op).shared :=
      steady_service hwrites
    exact remembers_of_eq hsteady.artifacts hsteady.gcPlans

/-! ## The age of artifacts -/

/-- An available artifact that is not rooted and was created before the watermark. -/
def OlderUnrooted (settings : ArtifactSettings) (s : ArtifactStore) (watermark : DateTime)
    (id : Uuid) : Prop :=
  ∃ row ∈ s.artifacts, row.id = id ∧ row.lifecycle = .available ∧
    ¬ s.ReachedFrom (s.roots settings) id ∧ row.createdAt.instant < watermark.instant

/-- Whenever the plan is applied later, what is tombstoned was created before the watermark. -/
def CollectsOlder (settings : ArtifactSettings)
    (issueText : ArtifactReconciliationIssue → String) (planned : ArtifactStore) (planId : Uuid)
    (watermark : DateTime) : Prop :=
  ∀ (calls : List Call) (ops : List Operation) (around : Surroundings) (now : DateTime) (id : Uuid),
    let s := (Transition.run (Service.step settings issueText) ⟨planned, calls⟩ ops).shared
    Tombstoned s ((Request.applyGc planId now).start settings issueText s around).2 id →
      ∃ row ∈ s.artifacts, row.id = id ∧ row.createdAt.instant < watermark.instant

theorem mem_gcCandidates {id : Uuid} :
    id ∈ s.gcCandidates settings watermark ↔ ∃ row ∈ s.artifacts, row.id = id ∧
      row.lifecycle = .available ∧ ¬ s.ReachedFrom (s.roots settings) id ∧
        settings.isoformat row.createdAt < settings.isoformat watermark := by
  simp only [gcCandidates, List.mem_map, List.mem_filter, mem_select, decide_eq_true_eq,
    ← mem_rootedIds]
  constructor
  · rintro ⟨row, ⟨⟨hrow, havailable, hbefore⟩, hrooted⟩, rfl⟩
    exact ⟨row, hrow, rfl, havailable, hrooted, hbefore⟩
  · rintro ⟨row, hrow, rfl, havailable, hrooted, hbefore⟩
    exact ⟨row, ⟨⟨hrow, havailable, hbefore⟩, hrooted⟩, rfl⟩

/-- What an application tombstones was a candidate when the plan was made. -/
theorem mem_candidates_of_tombstoned (hplan : s.planGc settings planId watermark = .ok (plan, s'))
    {later : ArtifactStore} (hlater : Remembers s' later) {around : Surroundings}
    {id : Uuid} (h : Tombstoned later
      ((Request.applyGc planId now).start settings issueText later around).2 id) :
    id ∈ plan.candidates := by
  simp only [planGc, bind_eq_ok, require_eq_ok, return_eq_ok] at hplan
  obtain ⟨gcPlans, hinsert, rfl, rfl⟩ := hplan
  obtain ⟨found, hfound, hfoundId, -, -, hmem, -⟩ :=
    (tombstoned_iff issueText around planId now id).mp h
  obtain ⟨kept, hkept, hkeptId, hcandidates⟩ :=
    hlater.planned _ ((mem_of_insert hinsert).mpr (.inr rfl))
  have hsame : found = kept := eq_of_clash hfound hkept
    (by simp [Keyed.clash, Keyed.key, hfoundId, hkeptId])
  rw [hsame, hcandidates] at hmem
  exact hmem

/-- **A plan lists the artifacts that are older than the watermark**, and its application collects
only such, exactly when no artifact that could be listed is misjudged. -/
theorem gc_chronological_iff (settings : ArtifactSettings)
    (issueText : ArtifactReconciliationIssue → String)
    (hiso : settings.isoformat = DateTime.isoformat) {s s' : ArtifactStore} {planId : Uuid}
    {watermark : DateTime}
    (hplan : s.planGc settings planId watermark = .ok (plan, s'))
    (hcreated : ∀ row ∈ s.artifacts, row.createdAt.Valid) (hwatermark : watermark.Valid) :
    ((∀ id, id ∈ plan.candidates ↔ OlderUnrooted settings s watermark id) ∧
        CollectsOlder settings issueText s' planId watermark) ↔
      ∀ row ∈ s.artifacts, row.lifecycle = .available →
        ¬ s.ReachedFrom (s.roots settings) row.id → ¬ Misjudged row.createdAt watermark := by
  have hcandidates : plan.candidates = s.gcCandidates settings watermark := by
    simp only [planGc, bind_eq_ok, require_eq_ok, pure_eq_ok, Prod.mk.injEq] at hplan
    obtain ⟨_, -, rfl, -⟩ := hplan
    rfl
  have hartifacts : s'.artifacts = s.artifacts := (planGc_untouched hplan).artifacts
  constructor
  · rintro ⟨hlists, -⟩ row hrow havailable hrooted
    refine (misjudged_iff (hcreated row hrow) hwatermark).mp ?_
    have hid := hlists row.id
    rw [hcandidates, mem_gcCandidates, hiso] at hid
    -- the row is the only one of its identifier
    have hunique : ∀ other ∈ s.artifacts, other.id = row.id → other = row := fun other hother heq =>
      eq_of_clash hother hrow (by simp [Keyed.clash, Keyed.key, heq])
    constructor
    · intro hbefore
      obtain ⟨other, hother, heq, -, -, holder⟩ :=
        hid.mp ⟨row, hrow, rfl, havailable, hrooted, hbefore⟩
      rwa [hunique other hother heq] at holder
    · intro holder
      obtain ⟨other, hother, heq, -, -, hbefore⟩ :=
        hid.mpr ⟨row, hrow, rfl, havailable, hrooted, holder⟩
      rwa [hunique other hother heq] at hbefore
  · intro hjudged
    have hlists : ∀ id, id ∈ plan.candidates ↔ OlderUnrooted settings s watermark id := by
      intro id
      rw [hcandidates, mem_gcCandidates, hiso]
      refine exists_congr fun row => and_congr_right fun hrow => and_congr_right ?_
      rintro rfl
      refine and_congr_right fun havailable => and_congr_right fun hrooted => ?_
      exact (misjudged_iff (hcreated row hrow) hwatermark).mpr (hjudged row hrow havailable hrooted)
    refine ⟨hlists, fun calls ops around now id htombstoned => ?_⟩
    have hlater : Remembers s'
        (Transition.run (Service.step settings issueText) ⟨s', calls⟩ ops).shared :=
      @Transition.run_rel _ _ (Service.step settings issueText) (fun _ => True)
        (fun v w => Remembers v.shared w.shared) (fun _ => .refl _) (fun h h' => h.trans h')
        (fun _ _ _ => trivial) (fun v op _ => remembers_service v op) ⟨s', calls⟩ trivial ops
    obtain ⟨row, hrow, rfl, -, -, holder⟩ :=
      (hlists id).mp (mem_candidates_of_tombstoned hplan hlater htombstoned)
    obtain ⟨row', hrow', hid, hsame⟩ := hlater.created row (hartifacts ▸ hrow)
    exact ⟨row', hrow', hid, hsame ▸ holder⟩

/-! ### A watermark ahead of UTC -/

/-- The first moment of 2024. -/
def newYear : Instant := 738886 * day

/-- An empty artifact that was created then. -/
def createdAt (created : DateTime) : ArtifactRow where
  id := 2
  digest := ⟨[]⟩
  sizeBytes := 0
  lifecycle := .available
  storageRef := .body ⟨[]⟩
  payload :=
    { id := 2
      digest := ⟨[]⟩
      sizeBytes := 0
      declaredMediaType := "application/json"
      provenance := .unknown
      sensitivity := "internal"
      retention := "run"
      validation := .integrityVerified
      lifecycle := .available
      facts := {}
      createdAt := created
      mediaTypeNonempty := by decide
      sensitivityNonempty := by decide
      retentionNonempty := by decide }
  createdAt := created

/-- A store of one artifact. -/
def storeOf (row : ArtifactRow) : ArtifactStore :=
  { artifacts := ((∅ : Table ArtifactRow).insert row).getD ∅ }

def isoSettings : ArtifactSettings := { plainSettings with isoformat := DateTime.isoformat }

theorem isoSettings_isoformat : isoSettings.isoformat = DateTime.isoformat := rfl

theorem mem_storeOf {row row' : ArtifactRow} : row' ∈ (storeOf row).artifacts ↔ row' = row := by
  have hrows : (storeOf row).artifacts.rows = [row] := rfl
  rw [mem_def, hrows, List.mem_singleton]

theorem not_reachedFrom_storeOf {row : ArtifactRow} {id : Uuid} :
    ¬ (storeOf row).ReachedFrom ((storeOf row).roots isoSettings) id := by
  rintro ⟨root, hroot, -⟩
  have hnone : (storeOf row).roots isoSettings = [] := rfl
  rw [hnone] at hroot
  cases hroot

theorem exists_planGc (row : ArtifactRow) (planId : Uuid) (watermark : DateTime) :
    ∃ s', (storeOf row).planGc isoSettings planId watermark =
      .ok (⟨planId, (storeOf row).gcCandidates isoSettings watermark, watermark, false⟩, s') :=
  ⟨_, rfl⟩

/-- An hour after the new year, and the new year on a clock that is two hours ahead. -/
theorem valid_newYear : (⟨newYear + hour, 0⟩ : DateTime).Valid ∧
    (⟨newYear, 2 * hour⟩ : DateTime).Valid :=
  ⟨⟨by decide, by decide, by decide⟩, ⟨by decide, by decide, by decide⟩⟩

/-- One hour after the watermark, which is written two hours ahead. -/
theorem gc_lists_younger :
    ¬ ∀ (s s' : ArtifactStore) (planId : Uuid) (watermark : DateTime)
      (plan : GarbageCollectionPlan), s.planGc isoSettings planId watermark = .ok (plan, s') →
        (∀ row ∈ s.artifacts, row.createdAt.Valid) → watermark.Valid →
          ∀ id, id ∈ plan.candidates ↔ OlderUnrooted isoSettings s watermark id := by
  intro h
  obtain ⟨hcreated, hwatermark⟩ := valid_newYear
  obtain ⟨s', hplan⟩ := exists_planGc (createdAt ⟨newYear + hour, 0⟩) 1
    ⟨newYear, 2 * hour⟩
  have hid := h _ s' 1 _ _ hplan (fun row hrow => mem_storeOf.mp hrow ▸ hcreated) hwatermark 2
  have hbefore := (isoformat_lt_iff hcreated hwatermark).mpr (.inl (by decide))
  rw [mem_gcCandidates, isoSettings_isoformat] at hid
  obtain ⟨row, hrow, -, -, -, holder⟩ :=
    hid.mp ⟨_, mem_storeOf.mpr rfl, rfl, rfl, not_reachedFrom_storeOf, hbefore⟩
  rw [mem_storeOf.mp hrow] at holder
  exact absurd holder (by decide)

/-- The same artifact, and a later watermark in UTC. -/
theorem gc_chronological_utc :
    ∃ plan s', (storeOf (createdAt ⟨newYear + hour, 0⟩)).planGc isoSettings 1
        ⟨newYear + 2 * hour, 0⟩ = .ok (plan, s') ∧
      (∀ id, id ∈ plan.candidates ↔ OlderUnrooted isoSettings
        (storeOf (createdAt ⟨newYear + hour, 0⟩)) ⟨newYear + 2 * hour, 0⟩ id) ∧
      CollectsOlder isoSettings (fun _ => "") s' 1 ⟨newYear + 2 * hour, 0⟩ := by
  obtain ⟨s', hplan⟩ := exists_planGc (createdAt ⟨newYear + hour, 0⟩) 1
    ⟨newYear + 2 * hour, 0⟩
  refine ⟨_, s', hplan, (gc_chronological_iff isoSettings (fun _ => "") rfl hplan ?_ ?_).mpr ?_⟩
  · exact fun row hrow => mem_storeOf.mp hrow ▸ valid_newYear.1
  · exact ⟨by decide, by decide, by decide⟩
  · intro row hrow _ _
    rw [mem_storeOf.mp hrow]
    decide

end Mishkan.Artifacts
