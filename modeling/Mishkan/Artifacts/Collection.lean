import Mishkan.Artifacts.Retention

/-!
# Artifacts/Collection — garbage collection keeps what is reachable

Only the first transaction of an application tombstones artifacts (`noneTombstoned_start`,
`noneTombstoned_step`), and it tombstones exactly the available candidates of its plan, none of
which is rooted (`tombstoned_iff`).  So what it may lose is what is reachable only over references
it does not read (`collection_safe_iff`).
-/

namespace Mishkan.Artifacts

open Refusal ArtifactStore Table Transition

/-! ## Who tombstones -/

/-- No artifact is tombstoned. -/
def NoneTombstoned (s s' : ArtifactStore) : Prop :=
  ∀ row ∈ s'.artifacts, row.lifecycle = .tombstoned → row ∈ s.artifacts

section

variable {s s' s'' : ArtifactStore} {settings : ArtifactSettings}

theorem NoneTombstoned.trans (h : NoneTombstoned s s') (h' : NoneTombstoned s' s'') :
    NoneTombstoned s s'' := fun row hrow htombstoned =>
  h row (h' row hrow htombstoned) htombstoned

theorem noneTombstoned_of_eq (h : s'.artifacts = s.artifacts) : NoneTombstoned s s' :=
  fun _ hrow _ => h ▸ hrow

/-- Artifacts are given another lifecycle. -/
theorem noneTombstoned_setLifecycle {p : ArtifactRow → Bool} {lifecycle : ArtifactLifecycle}
    {hf : ∀ row, Keyed.key (ArtifactRow.setLifecycle lifecycle row) = Keyed.key row}
    (h : lifecycle ≠ .tombstoned) : NoneTombstoned s
      { s with artifacts := s.artifacts.update p (·.setLifecycle lifecycle) hf } := by
  intro row' hrow' htombstoned
  have hmem : row' ∈ s.artifacts.update p (·.setLifecycle lifecycle) hf := hrow'
  obtain ⟨row, hrow, rfl⟩ := mem_update.mp hmem
  split at htombstoned
  · exact absurd htombstoned h
  · rwa [if_neg ‹_›]

theorem repairAll_noneTombstoned {plan : ArtifactReconciliationPlan} {applied : Bool}
    (h : s.repairAll plan = .ok (applied, s')) : NoneTombstoned s s' := by
  have hrepair : ∀ (s : ArtifactStore) issue, NoneTombstoned s (s.repair issue) := by
    intro s issue
    cases issue with
    | markMissing id ref => exact noneTombstoned_setLifecycle (by decide)
    | markCorrupt id ref => exact noneTombstoned_setLifecycle (by decide)
    | _ => exact noneTombstoned_of_eq rfl
  exact repairAll_induct (fun _ => noneTombstoned_of_eq rfl) .trans hrepair h

variable {now : DateTime}

/-- A recorded manifest is of an available artifact. -/
theorem recordManifest_noneTombstoned {row : ArtifactUploadRow} {artifactId : Uuid}
    {manifest : ArtifactManifest}
    (h : s.recordManifest settings row artifactId now = .ok (manifest, s')) :
    NoneTombstoned s s' := by
  obtain rfl | ⟨artifacts, hmade, hinsert, rfl⟩ := recordManifest_cases h
  · exact noneTombstoned_of_eq rfl
  · have hlifecycle : manifest.lifecycle = .available := by
      unfold manifestOf at hmade
      split at hmade
      · split at hmade
        · obtain rfl := Except.ok.inj hmade
          rfl
        · cases hmade
      · cases hmade
    intro row' hrow' htombstoned
    rcases (mem_of_insert hinsert).mp hrow' with hrow' | rfl
    · exact hrow'
    · rw [artifactRow, hlifecycle] at htombstoned
      cases htombstoned

/-- **A call that begins tombstones nothing**, unless it applies a plan of a collection. -/
theorem noneTombstoned_start {issueText : ArtifactReconciliationIssue → String}
    {around : Surroundings} {request : Request} (h : ∀ planId now, request ≠ .applyGc planId now) :
    NoneTombstoned s (request.start settings issueText s around).2 := by
  by_cases hwrites : request.Writes
  · cases request with
    | updateReference =>
      exact commit_cases (noneTombstoned_of_eq rfl) fun _ _ h =>
        noneTombstoned_of_eq (updateReference_untouched h).artifacts
    | planGc =>
      exact commit_cases (noneTombstoned_of_eq rfl) fun _ _ h =>
        noneTombstoned_of_eq (planGc_untouched h).artifacts
    | applyGc planId now => exact absurd rfl (h planId now)
    | _ => exact hwrites.elim
  · exact noneTombstoned_of_eq (steady_start hwrites).artifacts

/-- **No later step of a call tombstones.** -/
theorem noneTombstoned_step {others : List Call} {around : Surroundings} (call : Call) :
    NoneTombstoned s (call.step settings others s around).2 := by
  by_cases hwrites : call.Writes
  · cases call with
    | recordManifest =>
      exact commit_cases (noneTombstoned_of_eq rfl) fun _ _ h => recordManifest_noneTombstoned h
    | markDeleted => exact noneTombstoned_setLifecycle (by decide)
    | repairAll plan now =>
      simp only [Call.step]
      cases h : s.repairAll plan with
      | error e => exact noneTombstoned_of_eq rfl
      | ok outcome =>
        obtain ⟨applied, repaired⟩ := outcome
        cases applied with
        | true => exact noneTombstoned_of_eq rfl
        | false => exact repairAll_noneTombstoned h
    | _ => exact hwrites.elim
  · exact noneTombstoned_of_eq (steady_step hwrites).artifacts

/-! ## What is tombstoned -/

/-- An artifact that was available is tombstoned. -/
def Tombstoned (s s' : ArtifactStore) (id : Uuid) : Prop :=
  (∃ row ∈ s.artifacts, row.id = id ∧ row.lifecycle = .available) ∧
    ∃ row ∈ s'.artifacts, row.id = id ∧ row.lifecycle = .tombstoned

theorem NoneTombstoned.not_tombstoned (h : NoneTombstoned s s') {id : Uuid} :
    ¬ Tombstoned s s' id := by
  rintro ⟨⟨row, hrow, hid, havailable⟩, row', hrow', hid', htombstoned⟩
  have hsame : row = row' := eq_of_clash hrow (h row' hrow' htombstoned)
    (by simp [Keyed.clash, Keyed.key, hid, hid'])
  rw [hsame, htombstoned] at havailable
  cases havailable

/-- What the candidates of a plan come to. -/
def collected (now : DateTime) (ids : List Uuid) (row : ArtifactRow) : ArtifactRow :=
  if row.id ∈ ids ∧ row.lifecycle = .available then tombstone now row else row

theorem mem_tombstoneCandidate {acc : List StorageRef × ArtifactStore}
    {id : Uuid} {row' : ArtifactRow} : row' ∈ (tombstoneCandidate now acc id).2.artifacts ↔
      ∃ row ∈ acc.2.artifacts, collected now [id] row = row' := by
  unfold tombstoneCandidate
  cases hfound : (acc.2.artifact? id).filter (·.lifecycle = .available) with
  | some found =>
    obtain ⟨hartifact, havailable⟩ := Option.filter_eq_some_iff.mp hfound
    obtain ⟨hmem, hid⟩ := artifact?_eq_some.mp hartifact
    have hupdate : row' ∈ acc.2.artifacts.update (·.id = id) (tombstone now) (tombstone_key now) ↔
        ∃ row ∈ acc.2.artifacts, (if row.id = id then tombstone now row else row) = row' := by
      simp only [mem_update, decide_eq_true_eq]
    refine hupdate.trans (exists_congr fun row => and_congr_right fun hrow => ?_)
    rw [collected]
    by_cases hrowId : row.id = id
    · obtain rfl : row = found := eq_of_clash hrow hmem
        (by simp [Keyed.clash, Keyed.key, hrowId, hid])
      rw [if_pos hrowId, if_pos ⟨by simp [hrowId], by simpa using havailable⟩]
    · rw [if_neg hrowId, if_neg (by simp [hrowId])]
  | none =>
    have hnot : ∀ row ∈ acc.2.artifacts, collected now [id] row = row := by
      intro row hrow
      refine if_neg ?_
      rintro ⟨hid, havailable⟩
      rw [List.mem_singleton] at hid
      have hartifact := artifact?_eq_some.mpr ⟨hrow, hid⟩
      rw [hartifact] at hfound
      simp [havailable] at hfound
    constructor
    · exact fun h => ⟨row', h, hnot row' h⟩
    · rintro ⟨row, hrow, rfl⟩
      exact (hnot row hrow).symm ▸ hrow

/-- The loop over the candidates tombstones the available ones. -/
theorem mem_tombstoned {ids : List Uuid} {acc : List StorageRef × ArtifactStore}
    {row' : ArtifactRow} : row' ∈ (ids.foldl (tombstoneCandidate now) acc).2.artifacts ↔
      ∃ row ∈ acc.2.artifacts, collected now ids row = row' := by
  induction ids generalizing acc with
  | nil => simp [collected]
  | cons id ids ih =>
    have hcompose : ∀ row,
        collected now ids (collected now [id] row) = collected now (id :: ids) row := by
      intro row
      unfold collected
      by_cases hid : row.id = id <;> by_cases havailable : row.lifecycle = .available
      · simp [hid, havailable, tombstone, ArtifactRow.setLifecycle]
      · simp [havailable]
      · simp [hid, havailable]
      · simp [havailable]
    rw [List.foldl_cons, ih]
    constructor
    · rintro ⟨mid, hmid, rfl⟩
      obtain ⟨row, hrow, rfl⟩ := mem_tombstoneCandidate.mp hmid
      exact ⟨row, hrow, (hcompose row).symm⟩
    · rintro ⟨row, hrow, rfl⟩
      exact ⟨_, mem_tombstoneCandidate.mpr ⟨row, hrow, rfl⟩, hcompose row⟩

/-- The candidates touch nothing but artifacts. -/
theorem foldl_tombstoneCandidate (now : DateTime) (ids : List Uuid)
    (acc : List StorageRef × ArtifactStore) :
    (ids.foldl (tombstoneCandidate now) acc).2.gcPlans = acc.2.gcPlans ∧
      (ids.foldl (tombstoneCandidate now) acc).2.references = acc.2.references := by
  induction ids generalizing acc with
  | nil => exact ⟨rfl, rfl⟩
  | cons id ids ih =>
    rw [List.foldl_cons, (ih _).1, (ih _).2, tombstoneCandidate]
    split <;> exact ⟨rfl, rfl⟩

/-- What the first transaction of an application leaves of the tables it writes. -/
structure Applied (settings : ArtifactSettings) (s s' : ArtifactStore) (plan : ArtifactGCPlanRow)
    (now : DateTime) : Prop where
  mem : plan ∈ s.gcPlans
  pending : plan.appliedAt = none
  read : ∀ id ∈ plan.candidates, ¬ s.ReachedFrom (s.roots settings) id
  artifacts : ∀ row', row' ∈ s'.artifacts ↔
    ∃ row ∈ s.artifacts, collected now plan.candidates row = row'
  references : s'.references = s.references
  gcPlans : s'.gcPlans =
    s.gcPlans.update (·.id = plan.id) (markGcApplied now) (markGcApplied_key now)

/-- **An application writes nothing, or tombstones the candidates of its plan.** -/
theorem tombstoneCandidates_cases {planId : Uuid} {refs : List StorageRef}
    (h : s.tombstoneCandidates settings planId now = .ok (refs, s')) :
    s' = s ∨ ∃ plan, plan.id = planId ∧ Applied settings s s' plan now := by
  simp only [tombstoneCandidates, bind_eq_ok, require_eq_ok] at h
  obtain ⟨plan, hfind, h⟩ := h
  split at h
  · simp only [return_eq_ok] at h
    exact .inl h.2.symm
  · simp only [bind_eq_ok, refuseIf_eq_ok, return_eq_ok] at h
    obtain ⟨-, hrooted, -, rfl⟩ := h
    have hid : plan.id = planId := by simpa using of_find hfind
    obtain ⟨hplans, hreferences⟩ := foldl_tombstoneCandidate now plan.candidates ([], s)
    refine .inr ⟨plan, hid, ?_⟩
    exact
      { mem := mem_of_find hfind
        pending := not_not.mp ‹_›
        read := fun id hcandidate hreached =>
          hrooted ⟨id, hcandidate, mem_rootedIds.mpr hreached⟩
        artifacts := fun row' => mem_tombstoned
        references := hreferences
        gcPlans := by rw [hplans, hid] }

/-- **An application tombstones** the available candidates of a plan that was not applied and none
of whose candidates is reached from what is read. -/
theorem tombstoned_iff (issueText : ArtifactReconciliationIssue → String) (around : Surroundings)
    (planId : Uuid) (now : DateTime) (id : Uuid) :
    Tombstoned s ((Request.applyGc planId now).start settings issueText s around).2 id ↔
      ∃ plan ∈ s.gcPlans, plan.id = planId ∧ plan.appliedAt = none ∧
        (∀ candidate ∈ plan.candidates, ¬ s.ReachedFrom (s.roots settings) candidate) ∧
        id ∈ plan.candidates ∧ ∃ row ∈ s.artifacts, row.id = id ∧ row.lifecycle = .available := by
  have hsame : ¬ Tombstoned s s id := (noneTombstoned_of_eq rfl).not_tombstoned
  have hfind : ∀ plan, s.gcPlans.find (·.id = planId) = some plan ↔
      plan ∈ s.gcPlans ∧ plan.id = planId := fun plan => by
    rw [find_decide]
    simp +contextual [Keyed.clash, Keyed.key]
  simp only [Request.start, tombstoneCandidates]
  cases hplan : s.gcPlans.find (·.id = planId) with
  | none =>
    refine iff_of_false hsame ?_
    rintro ⟨plan, hmem, hid, -⟩
    rw [(hfind plan).mpr ⟨hmem, hid⟩] at hplan
    cases hplan
  | some plan =>
    have hunique : ∀ other ∈ s.gcPlans, other.id = planId → other = plan := by
      intro other hmem hid
      exact Option.some.inj (((hfind other).mpr ⟨hmem, hid⟩).symm.trans hplan)
    obtain ⟨hmem, hid⟩ := (hfind plan).mp hplan
    simp only [require, ok_bind]
    by_cases happlied : plan.appliedAt = none
    · rw [if_neg (not_not.mpr happlied)]
      by_cases hrooted : ∃ candidate ∈ plan.candidates, candidate ∈ s.rootedIds settings
      · rw [refuseIf_of hrooted]
        refine iff_of_false hsame ?_
        rintro ⟨other, hother, hotherId, -, hnone, -⟩
        obtain ⟨candidate, hcandidate, hin⟩ := hrooted
        rw [hunique other hother hotherId] at hnone
        exact hnone candidate hcandidate (mem_rootedIds.mp hin)
      · rw [refuseIf_of_not hrooted]
        have hread : ∀ candidate ∈ plan.candidates,
            ¬ s.ReachedFrom (s.roots settings) candidate := fun candidate hcandidate hreached =>
          hrooted ⟨candidate, hcandidate, mem_rootedIds.mpr hreached⟩
        constructor
        · rintro ⟨havailable, row', hrow', hid', htombstoned⟩
          obtain ⟨row, hrow, rfl⟩ := mem_tombstoned.mp hrow'
          refine ⟨plan, hmem, hid, happlied, hread, ?_, havailable⟩
          by_cases hcollected : row.id ∈ plan.candidates ∧ row.lifecycle = .available
          · rw [collected, if_pos hcollected] at hid'
            exact hid' ▸ hcollected.1
          · rw [collected, if_neg hcollected] at hid' htombstoned
            exact absurd ⟨havailable, row, hrow, hid', htombstoned⟩ hsame
        · rintro ⟨other, hother, hotherId, -, -, hcandidate, row, hrow, hrowId, havailable⟩
          rw [hunique other hother hotherId] at hcandidate
          refine ⟨⟨row, hrow, hrowId, havailable⟩, collected now plan.candidates row,
            mem_tombstoned.mpr ⟨row, hrow, rfl⟩, ?_⟩
          rw [collected, if_pos ⟨hrowId ▸ hcandidate, havailable⟩]
          exact ⟨hrowId, rfl⟩
    · rw [if_pos happlied]
      refine iff_of_false hsame ?_
      rintro ⟨other, hother, hotherId, hnot, -⟩
      rw [hunique other hother hotherId] at hnot
      exact happlied hnot

end

/-! ## Every run -/

variable (settings : ArtifactSettings) (issueText : ArtifactReconciliationIssue → String)

/-- After a step every available artifact has its body, and what the step tombstoned was not
reachable from a record. -/
def CollectionSafe (v : Service) (op : Operation) : Prop :=
  (Service.step settings issueText v op).shared.AvailableStored ∧
    ∀ id, Tombstoned v.shared (Service.step settings issueText v op).shared id →
      ¬ v.shared.ReachableFromRecords settings id

/-- When a plan is applied that was not, and none of its candidates is reached from what is read,
then no available one is reached from what is not read. -/
def UnreadRespected (v : Service) : Operation → Prop
  | .start (.applyGc planId _, _) => ∀ plan ∈ v.shared.gcPlans, plan.id = planId →
      plan.appliedAt = none →
      (∀ id ∈ plan.candidates, ¬ v.shared.ReachedFrom (v.shared.roots settings) id) →
      ∀ id ∈ plan.candidates,
        (∃ row ∈ v.shared.artifacts, row.id = id ∧ row.lifecycle = .available) →
        ¬ v.shared.ReachedFrom (v.shared.unreadRoots settings) id
  | _ => True

variable {settings issueText}

/-- A step that applies no plan of a collection tombstones nothing. -/
theorem not_tombstoned_step {v : Service} {op : Operation}
    (h : ∀ planId now around, op ≠ .start (.applyGc planId now, around)) (id : Uuid) :
    ¬ Tombstoned v.shared (Service.step settings issueText v op).shared id := by
  refine NoneTombstoned.not_tombstoned ?_
  cases op with
  | start input =>
    obtain ⟨request, around⟩ := input
    refine noneTombstoned_start fun planId now heq => h planId now around ?_
    exact congrArg (fun request => Pool.Operation.start (request, around)) heq
  | advance i around =>
    simp only [Service.step, Pool.step]
    split
    · exact noneTombstoned_of_eq rfl
    · exact noneTombstoned_step _
  | drop i => exact noneTombstoned_of_eq rfl
  | crash => exact noneTombstoned_of_eq rfl
  | outside rows => exact noneTombstoned_of_eq rfl

theorem collectionSafe_iff {v : Service} (h : (retention settings issueText).Holds v)
    (op : Operation) : CollectionSafe settings issueText v op ↔ UnreadRespected settings v op := by
  have hstored := (h.step op).invariant.stored
  by_cases happly : ∃ planId now around, op = .start (.applyGc planId now, around)
  · obtain ⟨planId, now, around, rfl⟩ := happly
    constructor
    · rintro ⟨-, hsafe⟩ plan hplan hid happlied hread id hcandidate havailable hunread
      have htombstoned := (tombstoned_iff issueText around planId now id).mpr
        ⟨plan, hplan, hid, happlied, hread, hcandidate, havailable⟩
      exact hsafe id htombstoned (reachedFrom_append.mpr (.inr hunread))
    · refine fun hunread => ⟨hstored, fun id htombstoned hreachable => ?_⟩
      obtain ⟨plan, hplan, hid, happlied, hread, hcandidate, havailable⟩ :=
        (tombstoned_iff issueText around planId now id).mp htombstoned
      rcases reachedFrom_append.mp hreachable with hreached | hreached
      · exact hread id hcandidate hreached
      · exact hunread plan hplan hid happlied hread id hcandidate havailable hreached
  · have hnot : ∀ planId now around, op ≠ .start (.applyGc planId now, around) :=
      fun planId now around heq => happly ⟨planId, now, around, heq⟩
    refine iff_of_true ⟨hstored, fun id htombstoned => ?_⟩ ?_
    · exact absurd htombstoned (not_tombstoned_step hnot id)
    · unfold UnreadRespected
      split
      · exact absurd rfl (hnot _ _ _)
      · trivial

/-- **Artifact collection loses no reachable content** in exactly the runs in which no candidate
that is collected is reached from a reference that is not read. -/
theorem collection_safe_iff (settings : ArtifactSettings)
    (issueText : ArtifactReconciliationIssue → String) (ops : List Operation) :
    Along (Service.step settings issueText) (CollectionSafe settings issueText)
        Service.empty ops ↔
      Along (Service.step settings issueText) (UnreadRespected settings)
        Service.empty ops :=
  Along.congr (I := (retention settings issueText).Holds)
    (fun _ op h => h.step op) (fun _ op h => collectionSafe_iff h op)
    (holds_empty settings issueText)

/-! ### The profile a browser session keeps -/

/-- An upload of the empty content. -/
def emptyRequest : UploadRequest where
  expectedSize := 0
  expectedDigest := .canonical ⟨[]⟩
  mediaType := "application/json"
  provenance := .unknown

/-- An upload of the empty content is committed. -/
def committed (uploadId artifactId : Uuid) : List Operation :=
  .start (.openUpload uploadId emptyRequest ⟨0, 0⟩, {}) :: List.replicate 3 (.advance 0 {}) ++
    .start (.commitUpload ⟨uploadId, 9, artifactId, ⟨0, 0⟩⟩, {}) :: List.replicate 8 (.advance 0 {})

/-- An artifact is committed, a browser session keeps its profile in it, and a collection is
planned. -/
def profileKept : List Operation :=
  committed 1 2 ++ [.outside { browserSessions :=
      [.obj [("profile_state_artifact_reference", .str (artifactReference 2))]] },
    .start (.planGc 3 ⟨1, 0⟩, {})]

/-- The profile a browser session keeps is tombstoned. -/
theorem profile_collected : ¬ Along (Service.step plainSettings fun _ => "")
    (CollectionSafe plainSettings fun _ => "") Service.empty
    (profileKept ++ [.start (.applyGc 3 ⟨1, 0⟩, {})]) := by
  intro h
  obtain ⟨⟨-, hsafe⟩, -⟩ := (Along.append.mp h).2
  refine hsafe 2 ⟨by decide +kernel, by decide +kernel⟩ (reachedFrom_append.mpr (.inr ?_))
  exact ⟨2, by decide +kernel, .refl⟩

end Mishkan.Artifacts
