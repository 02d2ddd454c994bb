import Mishkan.Artifacts.Service

/-!
# Artifacts/Changes — what a transaction of the service keeps

Most transactions leave artifacts, bodies and uploads as they are (`Untouched`); the others lower
artifacts, add to the bodies, and rewrite uploads (`Keeps`).  Only the deletion of a body and the
record of a manifest do more, and these do it at one body (`KeepsBut`).

Few steps change artifacts, references and plans of a collection: a reference is updated, a
collection is planned or applied, a manifest is recorded, a deleted body is noted, and a
reconciliation repairs the tables.  Every other step leaves the three tables as they are
(`steady_start`, `steady_step`).
-/

namespace Mishkan.Artifacts

open Refusal ArtifactStore

/-! ## What a step keeps -/

/-- A row that was this one, and is no more live and no more available than it. -/
structure LoweredFrom (row row' : ArtifactRow) : Prop where
  storageRef : row'.storageRef = row.storageRef
  digest : row'.digest = row.digest
  sizeBytes : row'.sizeBytes = row.sizeBytes
  live : ¬ ArtifactLifecycle.isDead row'.lifecycle = true →
    ¬ ArtifactLifecycle.isDead row.lifecycle = true
  available : row'.lifecycle = .available → row.lifecycle = .available

theorem LoweredFrom.refl (row : ArtifactRow) : LoweredFrom row row := ⟨rfl, rfl, rfl, id, id⟩

theorem LoweredFrom.trans {row row' row'' : ArtifactRow} (h : LoweredFrom row row')
    (h' : LoweredFrom row' row'') : LoweredFrom row row'' where
  storageRef := h'.storageRef.trans h.storageRef
  digest := h'.digest.trans h.digest
  sizeBytes := h'.sizeBytes.trans h.sizeBytes
  live := h.live ∘ h'.live
  available := h.available ∘ h'.available

/-- A lifecycle in which the artifact is dead lowers it. -/
theorem loweredFrom_setLifecycle {lifecycle : ArtifactLifecycle} (row : ArtifactRow)
    (h : ArtifactLifecycle.isDead lifecycle = true) :
    LoweredFrom row (row.setLifecycle lifecycle) where
  storageRef := rfl
  digest := rfl
  sizeBytes := rfl
  live hlive := absurd h hlive
  available := by
    rintro rfl
    cases h

/-- Except at one body, what is live was live, what is stored stays, and every upload keeps its
digest. -/
structure KeepsBut (held : Option StorageRef) (s s' : ArtifactStore) : Prop where
  artifacts : ∀ row' ∈ s'.artifacts, held ≠ some row'.storageRef →
    ∃ row ∈ s.artifacts, LoweredFrom row row'
  bodies : ∀ digest content, held ≠ some (.body digest) →
    s.bodies.content? (.body digest) = some content →
      s'.bodies.content? (.body digest) = some content
  uploads : ∀ row ∈ s.uploads, ∃ row' ∈ s'.uploads, row'.id = row.id ∧
    row'.expectedDigest = row.expectedDigest

/-- Nothing is lost. -/
abbrev Keeps := KeepsBut none

variable {s s' s'' : ArtifactStore} {held : Option StorageRef}

theorem KeepsBut.trans (h : KeepsBut held s s') (h' : KeepsBut held s' s'') :
    KeepsBut held s s'' where
  artifacts row'' hrow'' hne := by
    obtain ⟨row', hrow', hlowered'⟩ := h'.artifacts row'' hrow'' hne
    obtain ⟨row, hrow, hlowered⟩ := h.artifacts row' hrow' (hlowered'.storageRef ▸ hne)
    exact ⟨row, hrow, hlowered.trans hlowered'⟩
  bodies digest content hne hcontent :=
    h'.bodies digest content hne (h.bodies digest content hne hcontent)
  uploads row hrow := by
    obtain ⟨row', hrow', hid, hdigest⟩ := h.uploads row hrow
    obtain ⟨row'', hrow'', hid', hdigest'⟩ := h'.uploads row' hrow'
    exact ⟨row'', hrow'', hid'.trans hid, hdigest'.trans hdigest⟩

theorem Keeps.but (h : Keeps s s') : KeepsBut held s s' where
  artifacts row' hrow' _ := h.artifacts row' hrow' (by simp)
  bodies digest content _ := h.bodies digest content (by simp)
  uploads := h.uploads

/-- The artifacts, the bodies and the uploads are as they were. -/
structure Untouched (s s' : ArtifactStore) : Prop where
  artifacts : s'.artifacts = s.artifacts
  bodies : s'.bodies = s.bodies
  uploads : s'.uploads = s.uploads

/-- And so are the references and the plans of a collection. -/
structure Beside (s s' : ArtifactStore) : Prop extends Untouched s s' where
  references : s'.references = s.references
  gcPlans : s'.gcPlans = s.gcPlans

theorem Untouched.keeps (h : Untouched s s') : Keeps s s' where
  artifacts row' hrow' _ := ⟨row', h.artifacts ▸ hrow', .refl row'⟩
  bodies _ _ _ hcontent := h.bodies ▸ hcontent
  uploads row hrow := ⟨row, h.uploads ▸ hrow, rfl, rfl⟩

theorem Keeps.refl (s : ArtifactStore) : Keeps s s := Untouched.keeps ⟨rfl, rfl, rfl⟩

/-- Only the bodies change, and none of them is lost. -/
theorem keeps_bodies {bodies : BodyStore} (h : ∀ digest content,
    s.bodies.content? (.body digest) = some content →
      bodies.content? (.body digest) = some content) : Keeps s { s with bodies := bodies } where
  artifacts row' hrow' _ := ⟨row', hrow', .refl row'⟩
  bodies digest content _ := h digest content
  uploads row hrow := ⟨row, hrow, rfl, rfl⟩

/-- Artifacts are lowered. -/
theorem keeps_update_artifacts {p : ArtifactRow → Bool} {f : ArtifactRow → ArtifactRow}
    {hf : ∀ row, Keyed.key (f row) = Keyed.key row} (h : ∀ row, LoweredFrom row (f row)) :
    Keeps s { s with artifacts := s.artifacts.update p f hf } where
  artifacts row' hrow' _ := by
    have hmem : row' ∈ s.artifacts.update p f hf := hrow'
    obtain ⟨row, hrow, rfl⟩ := Table.mem_update.mp hmem
    refine ⟨row, hrow, ?_⟩
    by_cases hp : p row = true
    · rw [if_pos hp]
      exact h row
    · rw [if_neg hp]
      exact .refl row
  bodies _ _ _ := id
  uploads row hrow := ⟨row, hrow, rfl, rfl⟩

/-- An upload is rewritten, and keeps its digest. -/
theorem keeps_updateUpload {uploadId : Uuid} {f : ArtifactUploadRow → ArtifactUploadRow}
    {hf : ∀ row, Keyed.key (f row) = Keyed.key row}
    (hdigest : ∀ row, (f row).expectedDigest = row.expectedDigest) :
    Keeps s (s.updateUpload uploadId f hf) where
  artifacts row' hrow' _ := ⟨row', hrow', .refl row'⟩
  bodies _ _ _ := id
  uploads row hrow := by
    refine ⟨_, List.mem_map_of_mem hrow, ?_⟩
    by_cases hid : decide (row.id = uploadId) = true
    · rw [if_pos hid]
      exact ⟨hf row, hdigest row⟩
    · rw [if_neg hid]
      exact ⟨rfl, rfl⟩

variable {id : Uuid}

theorem keeps_setLifecycle {lifecycle : ArtifactLifecycle}
    (h : ArtifactLifecycle.isDead lifecycle = true) : Keeps s (s.setLifecycle id lifecycle) :=
  keeps_update_artifacts fun row => loweredFrom_setLifecycle row h

/-! ### The transactions -/

variable {settings : ArtifactSettings} {issueText : ArtifactReconciliationIssue → String}

variable {now : DateTime} {artifactId recordId : Uuid}

theorem updateReference_only {scope name : String} {revision : Nat} {row : ArtifactReferenceRow}
    (h : s.updateReference scope name artifactId revision recordId now = .ok (row, s')) :
    ∃ references, s' = { s with references := references } := by
  simp only [updateReference, bind_eq_ok, refuseIf_eq_ok] at h
  obtain ⟨_, -, _, -, _, -, h⟩ := h
  split at h
  · simp only [bind_eq_ok, require_eq_ok, return_eq_ok] at h
    obtain ⟨references, -, -, rfl⟩ := h
    exact ⟨references, rfl⟩
  · obtain ⟨-, rfl⟩ := return_eq_ok.mp h
    exact ⟨_, rfl⟩

theorem updateReference_untouched {scope name : String}
    {revision : Nat} {row : ArtifactReferenceRow}
    (h : s.updateReference scope name artifactId revision recordId now = .ok (row, s')) :
    Untouched s s' := by
  obtain ⟨references, rfl⟩ := updateReference_only h
  exact ⟨rfl, rfl, rfl⟩

theorem hold_beside {reason : String}
    {row : ArtifactHoldRow} (h : s.hold artifactId reason recordId now = .ok (row, s')) :
    Beside s s' := by
  simp only [hold, bind_eq_ok, refuseIf_eq_ok] at h
  obtain ⟨_, -, h⟩ := h
  split at h <;> simp only [bind_eq_ok, require_eq_ok, return_eq_ok] at h
  · obtain ⟨_, -, -, rfl⟩ := h
    exact ⟨⟨rfl, rfl, rfl⟩, rfl, rfl⟩
  · obtain ⟨holds, -, -, rfl⟩ := h
    exact ⟨⟨rfl, rfl, rfl⟩, rfl, rfl⟩

variable {artifactId : Uuid}

theorem releaseHold_beside {row : ArtifactHoldRow}
    (h : s.releaseHold artifactId = .ok (row, s')) : Beside s s' := by
  simp only [releaseHold, bind_eq_ok, require_eq_ok, return_eq_ok] at h
  obtain ⟨_, -, -, rfl⟩ := h
  exact ⟨⟨rfl, rfl, rfl⟩, rfl, rfl⟩

theorem pin_beside {row : ArtifactPinRow}
    (h : s.pin artifactId recordId now = .ok (row, s')) : Beside s s' := by
  simp only [pin, bind_eq_ok, refuseIf_eq_ok] at h
  obtain ⟨_, -, h⟩ := h
  split at h <;> simp only [bind_eq_ok, require_eq_ok, return_eq_ok] at h
  · obtain ⟨-, rfl⟩ := h
    exact ⟨⟨rfl, rfl, rfl⟩, rfl, rfl⟩
  · obtain ⟨pins, -, -, rfl⟩ := h
    exact ⟨⟨rfl, rfl, rfl⟩, rfl, rfl⟩

theorem releasePin_beside {row : ArtifactPinRow}
    (h : s.releasePin artifactId = .ok (row, s')) : Beside s s' := by
  simp only [releasePin, bind_eq_ok, require_eq_ok, return_eq_ok] at h
  obtain ⟨_, -, -, rfl⟩ := h
  exact ⟨⟨rfl, rfl, rfl⟩, rfl, rfl⟩

theorem recordCollection_beside {entries : List (String × Uuid)}
    (h : s.recordCollection id entries now = .ok s') : Beside s s' := by
  simp only [recordCollection, bind_eq_ok, require_eq_ok, pure_eq_ok] at h
  obtain ⟨collections, -, rfl⟩ := h
  exact ⟨⟨rfl, rfl, rfl⟩, rfl, rfl⟩

variable {planId : Uuid}

theorem planGc_untouched {watermark : DateTime} {plan : GarbageCollectionPlan}
    (h : s.planGc settings planId watermark = .ok (plan, s')) : Untouched s s' := by
  simp only [planGc, bind_eq_ok, require_eq_ok, return_eq_ok] at h
  obtain ⟨gcPlans, -, -, rfl⟩ := h
  exact ⟨rfl, rfl, rfl⟩

variable {plan : ArtifactReconciliationPlan}

theorem planReconciliation_beside {observe : Observations} {listed : List StorageRef}
    {plannedAt : DateTime}
    (h : s.planReconciliation settings issueText observe listed planId plannedAt =
      .ok (plan, s')) : Beside s s' := by
  simp only [planReconciliation, bind_eq_ok, require_eq_ok, return_eq_ok] at h
  obtain ⟨_, -, plans, -, -, rfl⟩ := h
  exact ⟨⟨rfl, rfl, rfl⟩, rfl, rfl⟩

theorem createStaging_beside (h : s.createStaging id = .ok s') : Beside s s' := by
  simp only [createStaging, bind_eq_ok, require_eq_ok, pure_eq_ok] at h
  obtain ⟨staging, -, rfl⟩ := h
  exact ⟨⟨rfl, rfl, rfl⟩, rfl, rfl⟩

/-- A new upload is one more. -/
theorem recordUpload_keeps {request : UploadRequest}
    (h : s.recordUpload id request now = .ok s') : Keeps s s' := by
  simp only [recordUpload, bind_eq_ok, require_eq_ok, pure_eq_ok] at h
  obtain ⟨uploads, hinsert, rfl⟩ := h
  exact
    { artifacts := fun row' hrow' _ => ⟨row', hrow', .refl row'⟩
      bodies := fun _ _ _ hcontent => hcontent
      uploads := fun row hrow => ⟨row, (Table.mem_of_insert hinsert).mpr (.inl hrow), rfl, rfl⟩ }

theorem tombstoneCandidate_keeps (now : DateTime) (acc : List StorageRef × ArtifactStore)
    (id : Uuid) : Keeps acc.2 (tombstoneCandidate now acc id).2 := by
  unfold tombstoneCandidate
  split
  · refine keeps_update_artifacts fun row => ⟨rfl, rfl, rfl, fun hlive => ?_, fun h => ?_⟩
    · exact absurd rfl hlive
    · cases h
  · exact .refl acc.2

theorem tombstoneCandidates_keeps {refs : List StorageRef}
    (h : s.tombstoneCandidates settings planId now = .ok (refs, s')) : Keeps s s' := by
  simp only [tombstoneCandidates, bind_eq_ok, require_eq_ok] at h
  obtain ⟨plan, -, h⟩ := h
  split at h
  · obtain ⟨-, rfl⟩ := return_eq_ok.mp h
    exact .refl s
  · simp only [bind_eq_ok, refuseIf_eq_ok, return_eq_ok] at h
    obtain ⟨-, -, -, rfl⟩ := h
    have hfold : ∀ (ids : List Uuid) (acc : List StorageRef × ArtifactStore),
        Keeps acc.2 (ids.foldl (tombstoneCandidate now) acc).2 := by
      intro ids
      induction ids with
      | nil => exact fun acc => .refl acc.2
      | cons id ids ih => exact fun acc => (tombstoneCandidate_keeps now acc id).trans (ih _)
    exact (hfold plan.candidates ([], s)).trans (Untouched.keeps ⟨rfl, rfl, rfl⟩)

theorem markDeleted_keeps (ref : StorageRef) : Keeps s (s.markDeleted ref) :=
  keeps_update_artifacts fun row => loweredFrom_setLifecycle row rfl

theorem repair_keeps (s : ArtifactStore) (issue : ArtifactReconciliationIssue) :
    Keeps s (s.repair issue) := by
  cases issue with
  | markMissing id ref => exact keeps_setLifecycle rfl
  | markCorrupt id ref => exact keeps_setLifecycle rfl
  | deleteOrphanBlob ref => exact .refl s
  | deleteInvalidReference scope name => exact Untouched.keeps ⟨rfl, rfl, rfl⟩
  | deleteIncompleteCollection id => exact Untouched.keeps ⟨rfl, rfl, rfl⟩
  | abortExpiredUpload id => exact keeps_updateUpload fun _ => rfl

theorem repairAll_cases {applied : Bool}
    (h : s.repairAll plan = .ok (applied, s')) : s' = s ∨ s' = plan.issues.foldl repair s := by
  simp only [repairAll, bind_eq_ok, require_eq_ok] at h
  obtain ⟨row, -, h⟩ := h
  split at h <;> cases h
  · exact .inl rfl
  · exact .inr rfl

/-- **What one repair keeps, all repairs keep.** -/
theorem repairAll_induct {applied : Bool}
    {kept : ArtifactStore → ArtifactStore → Prop} (hrefl : ∀ s, kept s s)
    (htrans : ∀ {s s' s''}, kept s s' → kept s' s'' → kept s s'')
    (hrepair : ∀ s issue, kept s (s.repair issue))
    (h : s.repairAll plan = .ok (applied, s')) : kept s s' := by
  obtain rfl | rfl := repairAll_cases h
  · exact hrefl _
  · clear h
    induction plan.issues generalizing s with
    | nil => exact hrefl s
    | cons issue issues ih => exact htrans (hrepair s issue) ih

theorem recordManifest_cases {row : ArtifactUploadRow} {manifest : ArtifactManifest}
    (h : s.recordManifest settings row artifactId now = .ok (manifest, s')) :
    s' = s ∨ ∃ artifacts, manifestOf settings row artifactId now = .ok manifest ∧
      s.artifacts.insert (artifactRow manifest) = some artifacts ∧
      s' = { s with artifacts := artifacts }.updateUpload row.id (commitRow artifactId now)
        (commitRow_key artifactId now) := by
  simp only [recordManifest, bind_eq_ok] at h
  obtain ⟨current, -, h⟩ := h
  split at h
  · simp only [return_eq_ok] at h
    exact .inl h.2.symm
  · simp only [bind_eq_ok, require_eq_ok, return_eq_ok] at h
    obtain ⟨_, -, made, hmade, artifacts, hinsert, rfl, rfl⟩ := h
    exact .inr ⟨artifacts, hmade, hinsert, rfl⟩

/-! ## Steady steps -/

/-- Artifacts, references and plans of a collection are as they were. -/
structure Steady (s s' : ArtifactStore) : Prop where
  artifacts : s'.artifacts = s.artifacts
  references : s'.references = s.references
  gcPlans : s'.gcPlans = s.gcPlans

theorem Beside.steady (h : Beside s s') : Steady s s' := ⟨h.artifacts, h.references, h.gcPlans⟩

theorem Steady.refl (s : ArtifactStore) : Steady s s := ⟨rfl, rfl, rfl⟩

theorem recordUpload_steady {request : UploadRequest}
    (h : s.recordUpload id request now = .ok s') : Steady s s' := by
  simp only [recordUpload, bind_eq_ok, require_eq_ok, pure_eq_ok] at h
  obtain ⟨_, -, rfl⟩ := h
  exact ⟨rfl, rfl, rfl⟩

theorem deleteBody_steady {ref : StorageRef} (h : s.deleteBody ref = .ok s') : Steady s s' := by
  simp only [ArtifactStore.deleteBody, bind_eq_ok, pure_eq_ok] at h
  obtain ⟨_, -, rfl⟩ := h
  exact ⟨rfl, rfl, rfl⟩

/-! ### Steps -/

theorem orEnd_steady {α : Type} {x : Except Raised α} {f : α → Progress}
    (h : ∀ a, x = .ok a → Steady s (f a).2) : Steady s (orEnd x s f).2 := by
  cases x with
  | ok a => exact h a rfl
  | error e => exact .refl s

theorem transaction_steady {α : Type} {x : Except Raised (α × ArtifactStore)}
    (h : ∀ a s', x = .ok (a, s') → Steady s s') : Steady s (transaction s x).2 :=
  commit_cases (.refl s) h

/-- The request changes one of the three tables as it begins. -/
def Request.Writes : Request → Prop
  | .updateReference .. | .planGc .. | .applyGc .. => True
  | _ => False

/-- The next step of the call changes one of the three tables. -/
def Call.Writes : Call → Prop
  | .recordManifest .. | .markDeleted .. | .repairAll .. => True
  | _ => False

/-- **A call that begins leaves the tables as they are**, unless it writes them. -/
theorem steady_start {around : Surroundings} {request : Request} (h : ¬ request.Writes) :
    Steady s (request.start settings issueText s around).2 := by
  cases request with
  | openUpload => exact orEnd_steady fun _ _ => .refl s
  | appendChunk =>
    refine orEnd_steady fun _ _ => ?_
    split <;> exact ⟨rfl, rfl, rfl⟩
  | commitUpload => exact orEnd_steady fun _ _ => .refl s
  | abortUpload => exact orEnd_steady fun _ _ => ⟨rfl, rfl, rfl⟩
  | updateReference => exact absurd trivial h
  | hold => exact transaction_steady fun _ _ h => (hold_beside h).steady
  | releaseHold => exact transaction_steady fun _ _ h => (releaseHold_beside h).steady
  | pin => exact transaction_steady fun _ _ h => (pin_beside h).steady
  | releasePin => exact transaction_steady fun _ _ h => (releasePin_beside h).steady
  | createCollection => exact .refl s
  | planGc => exact absurd trivial h
  | applyGc => exact absurd trivial h
  | planReconciliation => exact transaction_steady fun _ _ h => (planReconciliation_beside h).steady
  | applyReconciliation =>
    refine orEnd_steady fun opened _ => ?_
    obtain ⟨plan, applied⟩ := opened
    cases applied <;> exact .refl s

theorem rewriteUpload_steady (row : ArtifactUploadRow)
    (f : ArtifactUploadRow → ArtifactUploadRow) (hf : ∀ row, Keyed.key (f row) = Keyed.key row) :
    Steady s (rewriteUpload s row f hf).2 := by
  refine orEnd_steady fun current _ => ?_
  split
  · exact orEnd_steady fun _ _ => ⟨rfl, rfl, rfl⟩
  · exact .refl s

/-- **The next step of a call leaves the tables as they are**, unless it writes them. -/
theorem steady_step {others : List Call} {around : Surroundings} {call : Call}
    (h : ¬ call.Writes) : Steady s (call.step settings others s around).2 := by
  cases call with
  | validateSources id request now pending =>
    cases pending <;> exact orEnd_steady fun _ _ => .refl s
  | createStaging => exact orEnd_steady fun _ h => (createStaging_beside h).steady
  | recordUpload id request now =>
    simp only [Call.step]
    split
    · exact recordUpload_steady ‹_›
    · exact .refl s
  | advanceCursor row size now => exact rewriteUpload_steady _ _ _
  | recordAborted row now => exact rewriteUpload_steady _ _ _
  | lockBody =>
    simp only [Call.step]
    split <;> exact .refl s
  | readUpload =>
    refine orEnd_steady fun found _ => ?_
    cases found <;> exact .refl s
  | inspectStaged commitment ref row =>
    simp only [Call.step]
    split
    · exact orEnd_steady fun _ _ => .refl s
    · split
      · exact .refl s
      · split <;> exact .refl s
  | rejectSecret =>
    refine orEnd_steady fun current _ => ?_
    split <;> exact ⟨rfl, rfl, rfl⟩
  | stageBody =>
    refine orEnd_steady fun staged _ => orEnd_steady fun copied _ => ?_
    split <;> exact ⟨rfl, rfl, rfl⟩
  | linkBody commitment ref row staged =>
    simp only [Call.step]
    split <;> exact ⟨rfl, rfl, rfl⟩
  | unlinkStaged =>
    refine orEnd_steady fun after _ => ?_
    split <;> exact ⟨rfl, rfl, rfl⟩
  | requireMembers id entries pending now =>
    cases pending with
    | nil => exact orEnd_steady fun _ h => (recordCollection_beside h).steady
    | cons => exact orEnd_steady fun _ _ => .refl s
  | takeBody sweep =>
    simp only [Call.step, Sweep.take]
    split
    · exact .refl s
    · split <;> exact .refl s
    · exact .refl s
    · split <;> exact .refl s
  | checkBody =>
    simp only [Call.step]
    split <;> exact .refl s
  | deleteBody => exact orEnd_steady fun _ => deleteBody_steady
  | unlinkExpired planId pending now => cases pending <;> exact ⟨rfl, rfl, rfl⟩
  | recordManifest => exact absurd trivial h
  | markDeleted => exact absurd trivial h
  | repairAll => exact absurd trivial h
  | _ => exact ⟨rfl, rfl, rfl⟩

/-! ### The service -/

/-- The operation changes one of the three tables. -/
def Writes (v : Service) : Operation → Prop
  | .start (request, _) => request.Writes
  | .advance i _ => ∃ call ∈ v.calls[i]?, call.Writes
  | _ => False

theorem steady_service {v : Service} {op : Operation} (h : ¬ Writes v op) :
    Steady v.shared (Service.step settings issueText v op).shared := by
  cases op with
  | start input => exact steady_start h
  | advance i around =>
    simp only [Service.step, Pool.step]
    split
    · exact .refl _
    · rename_i call hcall
      exact steady_step fun hwrites => h ⟨call, hcall, hwrites⟩
  | drop i => exact .refl _
  | crash => exact .refl _
  | outside rows => exact ⟨rfl, rfl, rfl⟩

end Mishkan.Artifacts
