import Mishkan.Artifacts.Collection

/-!
# Artifacts/Revisions — the history of working references

A reference is advanced from the revision its caller expects (`updateReference_succeeds_iff`).  As
long as no reconciliation deletes a reference or marks what one records, and no collection takes
what one had before, revisions only grow and what a reference records keeps its body
(`compare_and_swap_history`).
-/

namespace Mishkan.Artifacts

open Refusal ArtifactStore List Table Transition Service

namespace ArtifactStore

/-- The revision of a working reference; a name that refers to nothing has revision 0. -/
def revision (s : ArtifactStore) (scope name : String) : ℕ :=
  ((s.reference? scope name).map (·.revision)).getD 0

def Available (s : ArtifactStore) (id : Uuid) : Prop :=
  ∃ row ∈ s.artifacts, row.id = id ∧ row.lifecycle = .available

/-- A working reference had the artifact before. -/
def PriorRecorded (s : ArtifactStore) (id : Uuid) : Prop :=
  ∃ row ∈ s.references, row.priorArtifactId = some id

/-- A working reference has the artifact, or had it before. -/
def Recorded (s : ArtifactStore) (id : Uuid) : Prop :=
  (∃ row ∈ s.references, row.artifactId = id) ∨ s.PriorRecorded id

variable {s : ArtifactStore}

/-- Scope and name find a reference. -/
theorem reference?_eq_some {scope name : String} {row : ArtifactReferenceRow} :
    s.reference? scope name = some row ↔
      row ∈ s.references ∧ row.scope = scope ∧ row.name = name := by
  rw [reference?, find_decide]
  simp +contextual [Keyed.clash, Keyed.key]

theorem available_iff {id : Uuid} :
    s.Available id ↔ ∃ artifact ∈ s.artifact? id, artifact.lifecycle = .available := by
  simp only [Available, Option.mem_def, artifact?_eq_some, and_assoc]

end ArtifactStore

/-! ## An update -/

section Update

variable {s s' : ArtifactStore} {scope name : String} {artifactId recordId : Uuid} {expected : ℕ}
  {now : DateTime} {row : ArtifactReferenceRow}

/-- What an update leaves: the reference has the next revision and the target, and records what it
had before; the others are as they were. -/
structure Updated (s s' : ArtifactStore) (scope name : String) (artifactId : Uuid)
    (row : ArtifactReferenceRow) : Prop where
  target : s.Available artifactId
  artifactId : row.artifactId = artifactId
  revision : row.revision = s.revision scope name + 1
  prior : ∀ prior ∈ row.priorArtifactId, ∃ old ∈ s.references, old.artifactId = prior
  found : s'.reference? scope name = some row
  others : ∀ other ∈ s'.references, other = row ∨ other ∈ s.references
  kept : ∀ scope' name', ¬ (scope' = scope ∧ name' = name) →
    s'.reference? scope' name' = s.reference? scope' name'
  artifacts : s'.artifacts = s.artifacts

theorem updated_of_ok
    (h : s.updateReference scope name artifactId expected recordId now = .ok (row, s')) :
    expected = s.revision scope name ∧ Updated s s' scope name artifactId row := by
  simp only [updateReference, bind_eq_ok, refuseIf_eq_ok, not_not] at h
  obtain ⟨_, -, _, htarget, _, hexpected, h⟩ := h
  refine ⟨hexpected.symm, ?_⟩
  cases hfound : s.reference? scope name with
  | none =>
    rw [hfound] at h
    simp only [bind_eq_ok, require_eq_ok, return_eq_ok] at h
    obtain ⟨references, hinsert, rfl, rfl⟩ := h
    exact
      { target := available_iff.mpr htarget
        artifactId := rfl
        revision := by rw [revision, hfound]; rfl
        prior := fun _ hprior => by cases hprior
        found := reference?_eq_some.mpr ⟨(mem_of_insert hinsert).mpr (.inr rfl), rfl, rfl⟩
        others := fun other hother => ((mem_of_insert hinsert).mp hother).symm
        kept := fun scope' name' hne => by
          have hmiss : ¬ (scope = scope' ∧ name = name') := fun h => hne ⟨h.1.symm, h.2.symm⟩
          rw [reference?, reference?, find_insert hinsert, if_neg (by simpa using hmiss),
            Option.or_none]
        artifacts := rfl }
  | some old =>
    obtain ⟨hold, hscope, hname⟩ := reference?_eq_some.mp hfound
    rw [hfound] at h
    obtain ⟨rfl, rfl⟩ := return_eq_ok.mp h
    have hfind : ∀ scope' name', ArtifactStore.reference?
        { s with
          references := s.references.update (fun row => row.scope = scope ∧ row.name = name)
            (repoint artifactId now) (repoint_key artifactId now) } scope' name' =
        (s.reference? scope' name').map fun row =>
          if decide (row.scope = scope ∧ row.name = name) = true then repoint artifactId now row
          else row :=
      fun scope' name' => @find_update _ _ s.references _ (repoint artifactId now)
        (repoint_key artifactId now) _ fun _ => rfl
    exact
      { target := available_iff.mpr htarget
        artifactId := rfl
        revision := by rw [revision, hfound]; rfl
        prior := fun prior hprior => ⟨old, hold, Option.some.inj hprior⟩
        found := by
          rw [hfind, hfound, Option.map_some, if_pos (by simp [hscope, hname])]
        others := fun other hother => by
          obtain ⟨row, hrow, rfl⟩ := mem_map.mp hother
          by_cases hmatch : row.scope = scope ∧ row.name = name
          · obtain rfl : row = old := Option.some.inj
              ((reference?_eq_some.mpr ⟨hrow, hmatch⟩).symm.trans hfound)
            exact .inl (if_pos (by simpa using hmatch))
          · rw [if_neg (by simpa using hmatch)]
            exact .inr hrow
        kept := fun scope' name' hne => by
          rw [hfind]
          cases hother : s.reference? scope' name' with
          | none => rfl
          | some row =>
            obtain ⟨-, rfl, rfl⟩ := reference?_eq_some.mp hother
            rw [Option.map_some, if_neg (by simpa using hne)]
        artifacts := rfl }

/-- **An update succeeds exactly when** its caller expects the current revision and the target is
available. -/
theorem updateReference_succeeds_iff (hname : requireReferenceName scope name = .ok ())
    (hfresh : ∀ row ∈ s.references, row.recordId ≠ recordId) :
    (∃ row s', s.updateReference scope name artifactId expected recordId now = .ok (row, s')) ↔
      expected = s.revision scope name ∧ s.Available artifactId := by
  constructor
  · rintro ⟨row, s', h⟩
    obtain ⟨hexpected, hupdated⟩ := updated_of_ok h
    exact ⟨hexpected, hupdated.target⟩
  · rintro ⟨rfl, havailable⟩
    rw [updateReference, hname, ok_bind,
      refuseIf_of_not (not_not.mpr (available_iff.mp havailable)), ok_bind]
    have hcurrent : ¬ ((s.reference? scope name).map (·.revision)).getD 0 ≠
        s.revision scope name := not_not.mpr rfl
    dsimp only
    rw [refuseIf_of_not hcurrent, ok_bind]
    cases hfound : s.reference? scope name with
    | none =>
      dsimp only
      let new : ArtifactReferenceRow :=
        { scope, name, recordId, artifactId, revision := 1, updatedAt := now }
      have hnew : ∀ row ∈ s.references, ¬ Keyed.clash (Keyed.key row) (Keyed.key new) = true := by
        intro row hrow hclash
        have hclash : (row.scope = scope ∧ row.name = name) ∨ row.recordId = recordId := by
          simpa [Keyed.clash, Keyed.key, new] using hclash
        rcases hclash with hmatch | hrecord
        · rw [reference?_eq_some.mpr ⟨hrow, hmatch⟩] at hfound
          cases hfound
        · exact hfresh row hrow hrecord
      obtain ⟨references, hinsert⟩ := exists_insert hnew
      exact ⟨_, _, by rw [hinsert]; rfl⟩
    | some old => exact ⟨_, _, rfl⟩

end Update

/-! ## Every run -/

variable (settings : ArtifactSettings) (issueText : ArtifactReconciliationIssue → String)

/-- Every reference is as it was, or has a later revision. -/
def Advances (s s' : ArtifactStore) : Prop :=
  ∀ scope name, s'.reference? scope name = s.reference? scope name ∨
    s.revision scope name < s'.revision scope name

/-- An update succeeds exactly from the current revision and to an available target; a step only
advances references; and what a reference had before keeps its body. -/
structure CasSafe (v : Service) (op : Operation) : Prop where
  updates : ∀ scope name artifactId expected recordId now,
    requireReferenceName scope name = .ok () →
      (∀ row ∈ v.shared.references, row.recordId ≠ recordId) →
      ((∃ row s', v.shared.updateReference scope name artifactId expected recordId now =
          .ok (row, s')) ↔
        expected = v.shared.revision scope name ∧ v.shared.Available artifactId)
  advances : Advances v.shared (step settings issueText v op).shared
  priors : ∀ id, (step settings issueText v op).shared.PriorRecorded id →
    ∃ row ∈ (step settings issueText v op).shared.artifacts, row.id = id ∧
      (step settings issueText v op).shared.BodyStored row

/-- The repair of the issue takes nothing from what references record. -/
def Spares (s : ArtifactStore) : ArtifactReconciliationIssue → Prop
  | .deleteInvalidReference scope name => s.reference? scope name = none
  | .markMissing id _ | .markCorrupt id _ => ¬ s.Recorded id
  | _ => True

/-- The next step of the call repairs only what spares the references. -/
def Call.Spares (s : ArtifactStore) : Call → Prop
  | .repairAll plan _ => ∀ issue ∈ plan.issues, Artifacts.Spares s issue
  | _ => True

/-- A collection that is applied, and not refused, has no candidate that a reference had before; a
reconciliation that repairs the tables deletes no reference, and marks no artifact that one
records. -/
def LineageKept (v : Service) : Operation → Prop
  | .start (.applyGc planId _, _) => ∀ plan ∈ v.shared.gcPlans, plan.id = planId →
      plan.appliedAt = none → (∀ id ∈ plan.candidates, id ∉ v.shared.rootedIds settings) →
        ∀ id ∈ plan.candidates, ¬ v.shared.PriorRecorded id
  | .advance i _ => ∀ call ∈ v.calls[i]?, call.Spares v.shared
  | _ => True

instance (s : ArtifactStore) (id : Uuid) : Decidable (s.PriorRecorded id) :=
  inferInstanceAs (Decidable (∃ _ ∈ s.references, _))

instance (s : ArtifactStore) (id : Uuid) : Decidable (s.Recorded id) :=
  inferInstanceAs (Decidable ((∃ _ ∈ s.references, _) ∨ _))

instance (s : ArtifactStore) (issue : ArtifactReconciliationIssue) :
    Decidable (Spares s issue) := by
  cases issue <;> dsimp only [Spares] <;> infer_instance

instance (s : ArtifactStore) (call : Call) : Decidable (call.Spares s) := by
  cases call <;> dsimp only [Call.Spares] <;> infer_instance

instance (v : Service) : (op : Operation) → Decidable (LineageKept settings v op)
  | .start (request, _) => by cases request <;> dsimp only [LineageKept] <;> infer_instance
  | .advance i _ => inferInstanceAs (Decidable (∀ _ ∈ v.calls[i]?, _))
  | .drop .. | .crash | .outside .. => isTrue trivial

/-- What a reference records is available. -/
def RecordedAvailable (s : ArtifactStore) : Prop := ∀ id, s.Recorded id → s.Available id

variable {settings issueText} {s s' s'' : ArtifactStore}

theorem advances_of_eq (h : s'.references = s.references) : Advances s s' := by
  intro scope name
  rw [reference?, reference?, h]
  exact .inl rfl

theorem Advances.trans (h : Advances s s') (h' : Advances s' s'') : Advances s s'' := by
  intro scope name
  rcases h scope name with heq | hlt
  · rcases h' scope name with heq' | hlt'
    · exact .inl (heq'.trans heq)
    · refine .inr ?_
      rwa [revision, ← heq]
  · rcases h' scope name with heq' | hlt'
    · refine .inr ?_
      rwa [revision.eq_1 s'', heq']
    · exact .inr (hlt.trans hlt')

/-- A reference that changed has a later revision. -/
theorem Advances.lt_of_ne (h : Advances s s') {scope name : String}
    (hne : s'.reference? scope name ≠ s.reference? scope name) :
    s.revision scope name < s'.revision scope name := (h scope name).resolve_left hne

theorem Advances.le (h : Advances s s') (scope name : String) :
    s.revision scope name ≤ s'.revision scope name := by
  rcases h scope name with heq | hlt
  · rw [revision, revision, heq]
  · exact hlt.le

/-- The references are the same, and no artifact that one records becomes unavailable. -/
theorem recordedAvailable_of (hreferences : s'.references = s.references)
    (hkept : ∀ id, s.Recorded id → s.Available id → s'.Available id) (h : RecordedAvailable s) :
    RecordedAvailable s' := by
  intro id hrecorded
  have hrecorded' : s.Recorded id := by
    unfold ArtifactStore.Recorded ArtifactStore.PriorRecorded at hrecorded ⊢
    rwa [← hreferences]
  exact hkept id hrecorded' (h id hrecorded')

variable {artifactId : Uuid}

theorem Updated.advances {scope name : String} {row : ArtifactReferenceRow}
    (h : Updated s s' scope name artifactId row) : Advances s s' := by
  intro scope' name'
  by_cases hsame : scope' = scope ∧ name' = name
  · obtain ⟨rfl, rfl⟩ := hsame
    refine .inr ?_
    have hrevision := h.revision
    rw [revision.eq_1 s', h.found, Option.map_some, Option.getD_some, hrevision]
    exact Nat.lt_succ_self _
  · exact .inl (h.kept scope' name' hsame)

theorem Updated.recordedAvailable {scope name : String}
    {row : ArtifactReferenceRow} (h : Updated s s' scope name artifactId row)
    (hrecorded : RecordedAvailable s) : RecordedAvailable s' := by
  have hartifacts : ∀ id, s.Available id → s'.Available id := fun id havailable => by
    rwa [Available, h.artifacts]
  intro id hid
  refine hartifacts id ?_
  rcases hid with ⟨other, hother, rfl⟩ | ⟨other, hother, hprior⟩
  · rcases h.others other hother with rfl | hold
    · rw [h.artifactId]
      exact h.target
    · exact hrecorded _ (.inl ⟨other, hold, rfl⟩)
  · rcases h.others other hother with rfl | hold
    · exact hrecorded _ (.inl (h.prior id hprior))
    · exact hrecorded _ (.inr ⟨other, hold, hprior⟩)

/-! ### Collections -/

theorem mem_roots_of_reference {row : ArtifactReferenceRow} (h : row ∈ s.references) :
    row.artifactId ∈ s.roots settings := by
  simp only [roots, mem_append]
  exact .inl <| .inl <| .inl <| .inl <| .inl <| .inl <| .inl <| .inl <| .inl <| .inl <| .inl <|
    mem_map_of_mem h

variable {now : DateTime}

theorem Applied.available {plan : ArtifactGCPlanRow}
    (h : Applied settings s s' plan now) {id : Uuid} (hnot : id ∉ plan.candidates)
    (havailable : s.Available id) : s'.Available id := by
  obtain ⟨row, hrow, rfl, hlifecycle⟩ := havailable
  refine ⟨row, (h.artifacts row).mpr ⟨row, hrow, if_neg fun hin => hnot hin.1⟩, rfl, hlifecycle⟩

/-- No candidate is recorded: what a reference has is read, and what it had before is spared. -/
theorem Applied.recordedAvailable {plan : ArtifactGCPlanRow} (h : Applied settings s s' plan now)
    (hspared : ∀ id ∈ plan.candidates, ¬ s.PriorRecorded id) (hrecorded : RecordedAvailable s) :
    RecordedAvailable s' := by
  refine recordedAvailable_of h.references (fun id hid => h.available ?_) hrecorded
  intro hcandidate
  rcases hid with ⟨row, hrow, rfl⟩ | hprior
  · exact h.read _ hcandidate ⟨_, mem_roots_of_reference hrow, .refl⟩
  · exact hspared id hcandidate hprior

/-! ### Reconciliations -/

theorem recorded_congr (h : s'.references = s.references) {id : Uuid} :
    s'.Recorded id ↔ s.Recorded id := by
  unfold ArtifactStore.Recorded ArtifactStore.PriorRecorded
  rw [h]

theorem spares_congr (h : s'.references = s.references) {issue : ArtifactReconciliationIssue} :
    Spares s' issue ↔ Spares s issue := by
  cases issue <;> simp only [Spares, reference?, recorded_congr h, h]

theorem repair_kept {issue : ArtifactReconciliationIssue} (hspares : Spares s issue) :
    (s.repair issue).references = s.references ∧
      ∀ id, s.Recorded id → s.Available id → (s.repair issue).Available id := by
  have hlifecycle : ∀ (lifecycle : ArtifactLifecycle) (id : Uuid), ¬ s.Recorded id →
      ∀ other, s.Recorded other → s.Available other →
        (s.setLifecycle id lifecycle).Available other := by
    rintro lifecycle id hnot other hrecorded ⟨row, hrow, rfl, havailable⟩
    have hne : ¬ decide (row.id = id) = true := fun heq =>
      hnot (of_decide_eq_true heq ▸ hrecorded)
    exact ⟨row, mem_map.mpr ⟨row, hrow, if_neg hne⟩, rfl, havailable⟩
  cases issue with
  | markMissing id ref => exact ⟨rfl, hlifecycle _ id hspares⟩
  | markCorrupt id ref => exact ⟨rfl, hlifecycle _ id hspares⟩
  | deleteInvalidReference scope name =>
    refine ⟨?_, fun _ _ havailable => havailable⟩
    refine Table.ext (filter_eq_self.mpr fun row hrow => decide_eq_true fun hmatch => ?_)
    have hnone : s.reference? scope name = none := hspares
    rw [reference?_eq_some.mpr ⟨hrow, hmatch⟩] at hnone
    cases hnone
  | _ => exact ⟨rfl, fun _ _ havailable => havailable⟩

theorem repairAll_kept {issues : List ArtifactReconciliationIssue}
    (hspares : ∀ issue ∈ issues, Spares s issue) :
    (issues.foldl repair s).references = s.references ∧
      ∀ id, s.Recorded id → s.Available id → (issues.foldl repair s).Available id := by
  induction issues generalizing s with
  | nil => exact ⟨rfl, fun _ _ havailable => havailable⟩
  | cons issue issues ih =>
    obtain ⟨hreferences, havailable⟩ := repair_kept (hspares issue mem_cons_self)
    obtain ⟨hrest, hkept⟩ := @ih (s.repair issue) fun other hmem =>
      (spares_congr hreferences).mpr (hspares other (mem_cons_of_mem _ hmem))
    refine ⟨hrest.trans hreferences, fun id hid h => ?_⟩
    exact hkept id ((recorded_congr hreferences).mpr hid) (havailable id hid h)

/-! ### Steps -/

theorem recordManifest_kept {row : ArtifactUploadRow} {manifest : ArtifactManifest}
    (h : s.recordManifest settings row artifactId now = .ok (manifest, s')) :
    s'.references = s.references ∧ ∀ id, s.Available id → s'.Available id := by
  obtain rfl | ⟨artifacts, -, hinsert, rfl⟩ := recordManifest_cases h
  · exact ⟨rfl, fun _ => id⟩
  · refine ⟨rfl, ?_⟩
    rintro _ ⟨row, hrow, rfl, havailable⟩
    exact ⟨row, (mem_of_insert hinsert).mpr (.inl hrow), rfl, havailable⟩

theorem markDeleted_kept {ref : StorageRef} {id : Uuid} (h : s.Available id) :
    (s.markDeleted ref).Available id := by
  obtain ⟨row, hrow, rfl, havailable⟩ := h
  have hnot : ¬ decide (row.storageRef = ref ∧ row.lifecycle = .tombstoned) = true := by
    simp [havailable]
  exact ⟨row, mem_map.mpr ⟨row, hrow, if_neg hnot⟩, rfl, havailable⟩

/-- References only advance, and what they record stays available. -/
structure Lineage (s s' : ArtifactStore) : Prop where
  advances : Advances s s'
  recorded : RecordedAvailable s → RecordedAvailable s'

theorem Lineage.refl (s : ArtifactStore) : Lineage s s := ⟨advances_of_eq rfl, id⟩

theorem lineage_of (hreferences : s'.references = s.references)
    (hkept : ∀ id, s.Recorded id → s.Available id → s'.Available id) : Lineage s s' :=
  ⟨advances_of_eq hreferences, recordedAvailable_of hreferences hkept⟩

theorem updateReference_lineage {scope name : String} {artifactId recordId : Uuid} {expected : ℕ}
    {row : ArtifactReferenceRow}
    (h : s.updateReference scope name artifactId expected recordId now = .ok (row, s')) :
    Lineage s s' :=
  ⟨(updated_of_ok h).2.advances, (updated_of_ok h).2.recordedAvailable⟩

theorem planGc_lineage {planId : Uuid} {watermark : DateTime} {plan : GarbageCollectionPlan}
    (h : s.planGc settings planId watermark = .ok (plan, s')) : Lineage s s' := by
  simp only [planGc, bind_eq_ok, require_eq_ok, return_eq_ok] at h
  obtain ⟨_, -, -, rfl⟩ := h
  exact lineage_of rfl fun _ _ => id

theorem tombstoneCandidates_lineage {planId : Uuid} {refs : List StorageRef}
    (h : s.tombstoneCandidates settings planId now = .ok (refs, s'))
    (hspared : ∀ plan ∈ s.gcPlans, plan.id = planId → plan.appliedAt = none →
      (∀ id ∈ plan.candidates, id ∉ s.rootedIds settings) →
        ∀ id ∈ plan.candidates, ¬ s.PriorRecorded id) : Lineage s s' := by
  obtain rfl | ⟨plan, hid, happlied⟩ := tombstoneCandidates_cases h
  · exact .refl s'
  · exact ⟨advances_of_eq happlied.references,
      happlied.recordedAvailable (hspared plan happlied.mem hid happlied.pending
        fun id hid hrooted => happlied.read id hid (mem_rootedIds.mp hrooted))⟩

theorem repairAll_lineage {plan : ArtifactReconciliationPlan} {applied : Bool}
    (h : s.repairAll plan = .ok (applied, s'))
    (hspares : ∀ issue ∈ plan.issues, Spares s issue) : Lineage s s' := by
  obtain rfl | rfl := repairAll_cases h
  · exact .refl s'
  · obtain ⟨hreferences, havailable⟩ := repairAll_kept hspares
    exact lineage_of hreferences havailable

variable {v : Service}

variable {op : Operation}

/-- **A step that keeps the lineage** only advances references, and what they record stays
available. -/
theorem lineage_step (hkept : LineageKept settings v op) :
    Lineage v.shared (step settings issueText v op).shared := by
  by_cases hwrites : Writes v op
  · cases op with
    | start input =>
      obtain ⟨request, around⟩ := input
      cases request with
      | updateReference => exact commit_cases (.refl _) fun _ _ => updateReference_lineage
      | planGc => exact commit_cases (.refl _) fun _ _ => planGc_lineage
      | applyGc planId now =>
        change Lineage v.shared (orEnd (v.shared.tombstoneCandidates settings planId now) _ _).2
        cases h : v.shared.tombstoneCandidates settings planId now with
        | error e => exact .refl _
        | ok outcome => exact tombstoneCandidates_lineage h hkept
      | _ => exact hwrites.elim
    | advance i around =>
      obtain ⟨call, hcall, hwrites⟩ := hwrites
      have hcall := Option.mem_def.mp hcall
      simp only [step, Pool.step, hcall]
      cases call with
      | recordManifest =>
        refine commit_cases (.refl _) fun manifest s' h => ?_
        obtain ⟨hreferences, havailable⟩ := recordManifest_kept h
        exact lineage_of hreferences fun id _ => havailable id
      | markDeleted => exact lineage_of rfl fun _ _ => markDeleted_kept
      | repairAll plan now =>
        change Lineage v.shared (orEnd (v.shared.repairAll plan) _ _).2
        cases h : v.shared.repairAll plan with
        | error e => exact .refl _
        | ok outcome =>
          obtain ⟨applied, s'⟩ := outcome
          cases applied with
          | true => exact .refl _
          | false => exact repairAll_lineage h (hkept _ hcall)
      | _ => exact hwrites.elim
    | _ => exact hwrites.elim
  · have hsteady : Steady v.shared (step settings issueText v op).shared :=
      steady_service hwrites
    exact lineage_of hsteady.references fun id _ havailable => by
      rwa [Available, hsteady.artifacts]

/-! ### Histories -/

/-- The assertions of the service hold, and what references record is available. -/
def Traced (settings : ArtifactSettings) (issueText : ArtifactReconciliationIssue → String)
    (v : Service) : Prop :=
  (retention settings issueText).Holds v ∧ RecordedAvailable v.shared

theorem Traced.step (h : Traced settings issueText v) (hkept : LineageKept settings v op) :
    Traced settings issueText (step settings issueText v op) :=
  ⟨h.1.step op, (lineage_step hkept).recorded h.2⟩

theorem traced_empty : Traced settings issueText empty := by
  refine ⟨holds_empty settings issueText, fun id hrecorded => ?_⟩
  rcases hrecorded with ⟨row, hrow, -⟩ | ⟨row, hrow, -⟩ <;> exact absurd hrow not_mem_empty

theorem Traced.casSafe (h : Traced settings issueText v)
    (hkept : LineageKept settings v op) : CasSafe settings issueText v op where
  updates _ _ _ _ _ _ hname hfresh := updateReference_succeeds_iff hname hfresh
  advances := (lineage_step hkept).advances
  priors id hprior := by
    obtain ⟨hholds, hrecorded⟩ := h.step hkept
    obtain ⟨row, hrow, hid, havailable⟩ := hrecorded id (.inr hprior)
    exact ⟨row, hrow, hid, hholds.invariant.stored row hrow havailable⟩

theorem advances_run {ops : List Operation}
    (h : Along (step settings issueText) (LineageKept settings) v ops) :
    Advances v.shared (run (step settings issueText) v ops).shared :=
  run_rel_of_guarded (G := LineageKept settings) (I := fun _ => True)
    (R := fun v w => Advances v.shared w.shared) (fun _ => advances_of_eq rfl)
    (fun h h' => h.trans h') (fun _ _ _ _ => trivial)
    (fun _ _ _ hkept => (lineage_step hkept).advances) trivial h

/-- The store after operations on a service nothing was stored in. -/
def storeAfter (settings : ArtifactSettings) (issueText : ArtifactReconciliationIssue → String)
    (ops : List Operation) : ArtifactStore :=
  (run (step settings issueText) empty ops).shared

/-- An update from a revision that was read before the reference changed is refused. -/
def StaleRefused (settings : ArtifactSettings)
    (issueText : ArtifactReconciliationIssue → String) (ops : List Operation) : Prop :=
  ∀ early between late rest, ops = early ++ between ++ late ++ rest → ∀ scope name,
    (storeAfter settings issueText (early ++ between)).reference? scope name ≠
        (storeAfter settings issueText early).reference? scope name →
      ∀ artifactId recordId now row s',
        (storeAfter settings issueText (early ++ between ++ late)).updateReference scope name
          artifactId ((storeAfter settings issueText early).revision scope name) recordId now ≠
            .ok (row, s')

/-- **The history of the working references** of a run that keeps their lineage: updates compare and
swap, revisions only grow, what a reference had before keeps its body, and no update from a revision
read before a change succeeds. -/
theorem compare_and_swap_history (settings : ArtifactSettings)
    (issueText : ArtifactReconciliationIssue → String) (ops : List Operation)
    (h : Along (step settings issueText) (LineageKept settings) empty
      ops) :
    Along (step settings issueText) (CasSafe settings issueText)
        empty ops ∧ StaleRefused settings issueText ops := by
  refine ⟨Along.of_guarded (I := Traced settings issueText)
    (fun _ _ htraced hkept => htraced.step hkept) (fun _ _ htraced hkept => htraced.casSafe hkept)
    traced_empty h, ?_⟩
  rintro early between late rest rfl scope name hchanged artifactId recordId now row s' hupdate
  have hlate := (Along.append.mp h).1
  obtain ⟨hbetween, hlate⟩ := Along.append.mp hlate
  have hbetween := advances_run (Along.append.mp hbetween).2
  have hlate := advances_run hlate
  rw [← run_append] at hbetween hlate
  have hlt := hbetween.lt_of_ne hchanged
  have hle := hlate.le scope name
  have hcurrent := (updated_of_ok hupdate).1
  exact absurd hcurrent (Nat.ne_of_lt (Nat.lt_of_lt_of_le hlt hle))

/-! ### A history, and a reference that is deleted -/

/-- An artifact is committed, and a reference is set to it. -/
def referenced : List Operation :=
  committed 1 2 ++ [.start (.updateReference "run" "report" 2 0 7 ⟨0, 0⟩, {})]

/-- Uploads expire after a minute. -/
def expiring : ArtifactSettings := { plainSettings with stagingTtlSeconds := some 60 }

/-- When an upload that was begun at first has expired. -/
def later : DateTime := ⟨61 * second, 0⟩

/-- The reference is set to another artifact, and what it had before is pinned; a third artifact is
collected, and an upload that was left open is aborted. -/
def curated : List Operation :=
  referenced ++ committed 5 6 ++ committed 7 8 ++
    [.start (.updateReference "run" "report" 6 1 9 ⟨0, 0⟩, {}),
      .start (.pin 2 10 ⟨0, 0⟩, {}), .start (.planGc 3 ⟨1, 0⟩, {}),
      .start (.applyGc 3 ⟨1, 0⟩, {}), .advance 0 { next := emptyRequest.expectedDigest.storageRef },
      .advance 0 {}, .advance 0 {}, .start (.openUpload 11 emptyRequest ⟨0, 0⟩, {}),
      .advance 0 {}, .advance 0 {}, .advance 0 {},
      .start (.planReconciliation 4 later, { observe := fun _ => .ok (some (.of [])) }),
      .start (.applyReconciliation 4 later, { observe := fun _ => .ok (some (.of [])) }),
      .advance 0 {}, .advance 0 {}, .advance 0 {}, .advance 0 {}, .advance 0 {}]

/-- The reference has been set twice; the unreferenced artifact was collected, and the
reconciliation applied. -/
theorem curated_history :
    Along (step expiring fun _ => "") (LineageKept expiring) empty
        curated ∧
      (Along (step expiring fun _ => "") (CasSafe expiring fun _ => "")
          empty curated ∧ StaleRefused expiring (fun _ => "") curated) ∧
      (storeAfter expiring (fun _ => "") curated).revision "run" "report" = 2 ∧
      (∃ row ∈ (storeAfter expiring (fun _ => "") curated).artifacts,
        row.id = 8 ∧ row.lifecycle = .tombstoned) ∧
      ∃ row ∈ (storeAfter expiring (fun _ => "") curated).reconciliationPlans,
        row.plan.issues = [.abortExpiredUpload 11] ∧ row.appliedAt = some later := by
  have h : Along (step expiring fun _ => "") (LineageKept expiring)
      empty curated := by
    decide +kernel
  exact ⟨h, compare_and_swap_history expiring (fun _ => "") curated h, by decide +kernel⟩

/-- Its body is gone when the store is reconciled. -/
def reconciled : List Operation :=
  [.start (.planReconciliation 4 ⟨1, 0⟩, {}), .start (.applyReconciliation 4 ⟨1, 0⟩, {}),
    .advance 0 {}]

/-- A reconciliation takes a reference back to no revision. -/
theorem reference_restarts :
    ¬ Along (step plainSettings fun _ => "")
      (CasSafe plainSettings fun _ => "") empty
      (referenced ++ reconciled ++ [.advance 0 {}]) := by
  intro h
  obtain ⟨hsafe, -⟩ := (Along.append.mp h).2
  exact absurd (hsafe.advances "run" "report") (by decide +kernel)

end Mishkan.Artifacts
