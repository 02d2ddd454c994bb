import Mishkan.Artifacts.Changes

/-!
# Artifacts/Retention — an available artifact has its body

A step keeps what is stored and what is live, except at the body whose lock its call has.  So what
a call that has a lock relies on stays while others advance: a commitment that has published its
body finds it there when it records its manifest, and a sweep that has checked a body deletes it
while no artifact needs it.

`retention` is the proof outline; `availableStored_run` is what it says of every run.
-/

namespace Mishkan.Artifacts

open Refusal ArtifactStore

/-! ## The body of an artifact -/

namespace ArtifactStore

/-- The body of an artifact is stored, with the recorded digest and size. -/
def BodyStored (s : ArtifactStore) (row : ArtifactRow) : Prop :=
  ∃ content, s.bodies.content? row.storageRef = some content ∧
    BodyObservation.of content = ⟨row.digest, row.sizeBytes⟩

/-- **Every artifact whose row is available has its body.** -/
def AvailableStored (s : ArtifactStore) : Prop :=
  ∀ row ∈ s.artifacts, row.lifecycle = .available → s.BodyStored row

end ArtifactStore

/-! ## What a call relies on -/

/-- The body of an upload is its content, named by it. -/
structure Verified (ref : StorageRef) (row : ArtifactUploadRow) (content : Bytes) : Prop where
  ref : ref = .body ⟨content⟩
  digest : row.expectedDigest = .canonical ⟨content⟩
  size : row.expectedSize = content.length

/-- The body of an upload is stored. -/
def Published (s : ArtifactStore) (ref : StorageRef) (row : ArtifactUploadRow) : Prop :=
  ∃ content, Verified ref row content ∧ s.bodies.content? (.body ⟨content⟩) = some content

/-- What a call relies on where it stands. -/
def Call.Relies (s : ArtifactStore) : Call → Prop
  | .lockBody commitment ref => ∃ row ∈ s.uploads, row.id = commitment.uploadId ∧
      row.expectedDigest.storageRef = ref
  | .readUpload commitment ref => ∃ row ∈ s.uploads, row.id = commitment.uploadId ∧
      row.expectedDigest.storageRef = ref
  | .inspectStaged _ ref row => row.expectedDigest.storageRef = ref
  | .stageBody _ ref row => row.expectedDigest.storageRef = ref
  | .linkBody _ ref row staged => Verified ref row staged
  | .unlinkTemporary _ ref row _ => Published s ref row
  | .unlinkStaged _ ref row _ => Published s ref row
  | .recordManifest _ ref row => Published s ref row
  | .deleteBody _ ref => ¬ s.BodyLive ref
  | _ => True

section

variable {s s' : ArtifactStore} {held : Option StorageRef} {settings : ArtifactSettings}

variable {ref : StorageRef}

theorem KeepsBut.hasUpload (h : KeepsBut held s s') {id : Uuid}
    (hupload : ∃ row ∈ s.uploads, row.id = id ∧ row.expectedDigest.storageRef = ref) :
    ∃ row ∈ s'.uploads, row.id = id ∧ row.expectedDigest.storageRef = ref := by
  obtain ⟨row, hrow, hid, href⟩ := hupload
  obtain ⟨row', hrow', hid', hdigest⟩ := h.uploads row hrow
  exact ⟨row', hrow', hid'.trans hid, by rw [hdigest, href]⟩

theorem KeepsBut.published (h : KeepsBut held s s') {row : ArtifactUploadRow}
    (hne : held ≠ some ref) (hpublished : Published s ref row) : Published s' ref row := by
  obtain ⟨content, hverified, hcontent⟩ := hpublished
  exact ⟨content, hverified, h.bodies _ _ (hverified.ref ▸ hne) hcontent⟩

theorem KeepsBut.not_bodyLive (h : KeepsBut held s s') (hne : held ≠ some ref)
    (hlive : ¬ s.BodyLive ref) : ¬ s'.BodyLive ref := by
  rintro ⟨row', hrow', rfl, hlive'⟩
  obtain ⟨row, hrow, hlowered⟩ := h.artifacts row' hrow' hne
  exact hlive ⟨row, hrow, hlowered.storageRef.symm, hlowered.live hlive'⟩

/-- **What a call relies on stays** while a call with another lock, or with none, advances. -/
theorem Call.Relies.stable {call : Call} (h : KeepsBut held s s')
    (hne : ∀ ref ∈ call.held, held ≠ some ref) (hrelies : call.Relies s) : call.Relies s' := by
  cases call with
  | lockBody => exact h.hasUpload hrelies
  | readUpload => exact h.hasUpload hrelies
  | unlinkTemporary => exact h.published (hne _ rfl) hrelies
  | unlinkStaged => exact h.published (hne _ rfl) hrelies
  | recordManifest => exact h.published (hne _ rfl) hrelies
  | deleteBody => exact h.not_bodyLive (hne _ rfl) hrelies
  | _ => exact hrelies

/-- Every available artifact has its body, and every artifact is named by one. -/
structure Retained (s : ArtifactStore) : Prop where
  stored : s.AvailableStored
  named : ∀ row ∈ s.artifacts, ∃ digest, row.storageRef = .body digest

theorem KeepsBut.bodyStored (h : KeepsBut held s s') {row row' : ArtifactRow}
    (hlowered : LoweredFrom row row') (hne : held ≠ some row'.storageRef)
    (hnamed : ∃ digest, row.storageRef = .body digest) (hstored : s.BodyStored row) :
    s'.BodyStored row' := by
  obtain ⟨content, hcontent, hobserved⟩ := hstored
  obtain ⟨digest, hdigest⟩ := hnamed
  rw [hlowered.storageRef, hdigest] at hne
  refine ⟨content, ?_, by rw [hobserved, hlowered.digest, hlowered.sizeBytes]⟩
  rw [hlowered.storageRef, hdigest]
  exact h.bodies digest content hne (hdigest ▸ hcontent)

/-- Where nothing is lost, every available artifact has its body. -/
theorem Retained.keeps (hretained : Retained s) (h : Keeps s s') : Retained s' where
  stored row' hrow' havailable := by
    obtain ⟨row, hrow, hlowered⟩ := h.artifacts row' hrow' (by simp)
    exact h.bodyStored hlowered (by simp) (hretained.named row hrow)
      (hretained.stored row hrow (hlowered.available havailable))
  named row' hrow' := by
    obtain ⟨row, hrow, hlowered⟩ := h.artifacts row' hrow' (by simp)
    rw [hlowered.storageRef]
    exact hretained.named row hrow

/-- **A deleted body is missed by no available artifact**, and nothing else is lost. -/
theorem deleteBody_retained (hretained : Retained s)
    (hlive : ¬ s.BodyLive ref) (h : s.deleteBody ref = .ok s') :
    Retained s' ∧ KeepsBut (some ref) s s' := by
  simp only [deleteBody, bind_eq_ok, pure_eq_ok] at h
  obtain ⟨bodies, hdelete, rfl⟩ := h
  obtain ⟨deleted, rfl, hcontent⟩ := delete_content hdelete
  have hkeeps : KeepsBut (some (.body deleted)) s { s with bodies := bodies } :=
    { artifacts := fun row hrow _ => ⟨row, hrow, .refl row⟩
      bodies := fun digest content hne hstored => by
        rw [hcontent, if_neg (fun heq => hne (by rw [heq])), hstored]
      uploads := fun row hrow => ⟨row, hrow, rfl, rfl⟩ }
  refine ⟨⟨fun row hrow havailable => ?_, hretained.named⟩, hkeeps⟩
  have hne : some (StorageRef.body deleted) ≠ some row.storageRef := by
    intro heq
    exact hlive ⟨row, hrow, (Option.some.inj heq).symm, by rw [havailable]; decide⟩
  exact hkeeps.bodyStored (.refl row) hne (hretained.named row hrow)
    (hretained.stored row hrow havailable)

/-- **A recorded manifest is of a stored body**, and nothing else comes to life. -/
theorem recordManifest_retained {row : ArtifactUploadRow} {artifactId : Uuid}
    {now : DateTime} {manifest : ArtifactManifest} (hretained : Retained s)
    (hpublished : Published s ref row)
    (h : s.recordManifest settings row artifactId now = .ok (manifest, s')) :
    Retained s' ∧ KeepsBut (some ref) s s' := by
  obtain rfl | ⟨artifacts, hmade, hinsert, rfl⟩ := recordManifest_cases h
  · exact ⟨hretained, (Keeps.refl s').but⟩
  · obtain ⟨content, hverified, hcontent⟩ := hpublished
    obtain ⟨hdigest, hsize⟩ :
        manifest.digest = ⟨content⟩ ∧ manifest.sizeBytes = content.length := by
      rw [manifestOf, hverified.digest] at hmade
      simp only at hmade
      split at hmade
      · obtain rfl := Except.ok.inj hmade
        exact ⟨rfl, hverified.size⟩
      · cases hmade
    have hmem : ∀ row', row' ∈ artifacts ↔ row' ∈ s.artifacts ∨ row' = artifactRow manifest :=
      fun row' => Table.mem_of_insert hinsert
    have hinserted : KeepsBut (some ref) s { s with artifacts := artifacts } :=
      { artifacts := fun row' hrow' hne => by
          rcases (hmem row').mp hrow' with hrow' | rfl
          · exact ⟨row', hrow', .refl row'⟩
          · exact absurd (by rw [hverified.ref, artifactRow, hdigest]) hne
        bodies := fun _ _ _ hstored => hstored
        uploads := fun row hrow => ⟨row, hrow, rfl, rfl⟩ }
    have hrewritten : Keeps { s with artifacts := artifacts }
        ({ s with artifacts := artifacts }.updateUpload row.id (commitRow artifactId now)
          (commitRow_key artifactId now)) := keeps_updateUpload fun _ => rfl
    refine ⟨Retained.keeps ⟨fun row' hrow' havailable => ?_, fun row' hrow' => ?_⟩ hrewritten,
      hinserted.trans hrewritten.but⟩
    · rcases (hmem row').mp hrow' with hrow' | rfl
      · exact hretained.stored row' hrow' havailable
      · refine ⟨content, ?_, ?_⟩
        · rw [artifactRow, hdigest]
          exact hcontent
        · rw [BodyObservation.of, artifactRow, hdigest, hsize]
    · rcases (hmem row').mp hrow' with hrow' | rfl
      · exact hretained.named row' hrow'
      · exact ⟨manifest.digest, rfl⟩

end

/-! ## What a step leaves -/

/-- What a step from `s` leaves is sound for the calls beside it. -/
def Progress.Sound (settings : ArtifactSettings) (s : ArtifactStore) (others : List Call)
    (progress : Progress) : Prop :=
  Pool.Sound Retained (fun s call => call.Relies s) (Call.Apart settings) s progress.2 progress.1
    others

section

variable {settings : ArtifactSettings} {s s' : ArtifactStore} {others : List Call}
  {call next : Call} {ref : StorageRef}

theorem Call.apart_of_free (h : call.held = none) :
    ∀ other ∈ others, call.Apart settings other := by
  intro other _ ref href
  simp [h] at href

/-- A call that goes on under the lock it has. -/
theorem Call.apart_of_held (h : next.held = call.held)
    (hapart : ∀ other ∈ others, call.Apart settings other) :
    ∀ other ∈ others, next.Apart settings other := by
  intro other hother ref href
  exact hapart other hother ref (h ▸ href)

/-- A call that takes a lock that is free. -/
theorem LockFree.apart (h : LockFree settings others ref) (hheld : call.held = some ref) :
    ∀ other ∈ others, call.Apart settings other := by
  intro other hother ref' href'
  obtain rfl : ref = ref' := by simpa [hheld] using href'
  exact h other hother

theorem Progress.sound_ended (hretained : Retained s) (hkeeps : Keeps s s') :
    Progress.Sound settings s others (none, s') where
  invariant := hretained.keeps hkeeps
  stable other _ hrelies := hrelies.stable hkeeps (by simp)
  established := by simp
  isApart := by simp

theorem Progress.sound_next (hretained : Retained s) (hkeeps : Keeps s s')
    (hrelies : next.Relies s') (hapart : ∀ other ∈ others, next.Apart settings other) :
    Progress.Sound settings s others (some next, s') where
  invariant := hretained.keeps hkeeps
  stable other _ hrelied := hrelied.stable hkeeps (by simp)
  established := by simpa using hrelies
  isApart := by simpa using hapart

/-- A step that changes what is at the body whose lock its call has. -/
theorem Progress.sound_held {progress : Option Call} (call : Call) (hheld : call.held = some ref)
    (hapart : ∀ other ∈ others, call.Apart settings other) (hretained : Retained s')
    (hkeeps : KeepsBut (some ref) s s')
    (hnext : ∀ next ∈ progress, next.Relies s' ∧ ∀ other ∈ others, next.Apart settings other) :
    Progress.Sound settings s others (progress, s') where
  invariant := hretained
  stable other hother hrelied := by
    refine hrelied.stable hkeeps fun ref' href' heq => ?_
    obtain rfl := Option.some.inj heq
    exact hapart other hother ref (by simp [hheld]) ref href' rfl
  established next h := (hnext next h).1
  isApart next h := (hnext next h).2

theorem orEnd_sound {α : Type} {x : Except Raised α} {s₀ : ArtifactStore} {f : α → Progress}
    (hend : Progress.Sound settings s others (none, s₀))
    (hok : ∀ a, x = .ok a → Progress.Sound settings s others (f a)) :
    Progress.Sound settings s others (orEnd x s₀ f) := by
  cases x with
  | ok a => exact hok a rfl
  | error e => exact hend

theorem transaction_sound {α : Type} {x : Except Raised (α × ArtifactStore)}
    (hretained : Retained s) (hkeeps : ∀ a s', x = .ok (a, s') → Keeps s s') :
    Progress.Sound settings s others (transaction s x) :=
  Progress.sound_ended hretained (commit_cases (.refl s) hkeeps)

variable {row : ArtifactUploadRow}

theorem rewriteUpload_sound {f : ArtifactUploadRow → ArtifactUploadRow}
    {hf : ∀ row, Keyed.key (f row) = Keyed.key row} (hretained : Retained s)
    (hdigest : ∀ row, (f row).expectedDigest = row.expectedDigest) :
    Progress.Sound settings s others (rewriteUpload s row f hf) := by
  have hend : Progress.Sound settings s others (none, s) := Progress.sound_ended hretained (.refl s)
  refine orEnd_sound hend fun current _ => ?_
  split
  · exact orEnd_sound hend fun _ _ =>
      Progress.sound_ended hretained (keeps_updateUpload hdigest)
  · exact hend

/-! ### The steps of a commitment -/

/-- The row a commitment reads has the body it has the lock of. -/
theorem readUpload_storageRef {commitment : Commitment}
    (hrelies : (Call.readUpload commitment ref).Relies s)
    (h : s.committable commitment.uploadId = .ok (.inr row)) :
    row.expectedDigest.storageRef = ref := by
  obtain ⟨known, hknown, hid, href⟩ := hrelies
  simp only [committable, bind_eq_ok, requireUpload_eq_ok] at h
  obtain ⟨current, ⟨hcurrent, hcurrentId⟩, h⟩ := h
  obtain rfl := uploads_inj hknown hcurrent (hid.trans hcurrentId.symm)
  split at h
  · simp only [pure_eq_ok, reduceCtorEq] at h
  · simp only [bind_eq_ok, refuseIf_eq_ok, pure_eq_ok, Sum.inr.injEq] at h
    obtain ⟨-, -, rfl⟩ := h
    exact href

/-- A body that is found stored is published. -/
theorem requireExistingCommittedBlob_published
    (href : row.expectedDigest.storageRef = ref)
    (h : s.requireExistingCommittedBlob row = .ok ()) : Published s ref row := by
  simp only [requireExistingCommittedBlob, bind_eq_ok, require_eq_ok, refuseIf_eq_ok, not_not] at h
  obtain ⟨found, hfound, observed, rfl, hdigest, hsize⟩ := h
  rw [← hdigest] at hfound
  simp only [BodyStore.observe, DigestText.storageRef, StorageRef.digest, ok_bind, pure_eq_ok,
    Option.map_eq_some_iff] at hfound
  obtain ⟨content, hcontent, rfl⟩ := hfound
  refine ⟨content, ⟨?_, hdigest.symm, hsize.symm⟩, hcontent⟩
  rw [← href, ← hdigest]
  rfl

theorem linkBody_published {staged : Bytes} {linked : BodyStore}
    (hverified : Verified ref row staged)
    (h : s.bodies.linkBody settings.hexdigest staged row.expectedDigest row.expectedSize =
      .ok linked) : Published { s with bodies := linked } ref row := by
  rw [hverified.digest] at h
  exact ⟨staged, hverified, (linkBody_content _ h).1⟩

/-! ### Every step -/

theorem Request.start_sound {issueText : ArtifactReconciliationIssue → String}
    {around : Surroundings} (hretained : Retained s) (request : Request) :
    Progress.Sound settings s others (request.start settings issueText s around) := by
  have hend : Progress.Sound settings s others (none, s) := Progress.sound_ended hretained (.refl s)
  cases request with
  | openUpload id request now =>
    exact orEnd_sound hend fun _ _ =>
      Progress.sound_next hretained (.refl s) trivial (Call.apart_of_free rfl)
  | appendChunk id offset content now =>
    refine orEnd_sound hend fun row _ => ?_
    split
    · exact Progress.sound_ended hretained (Untouched.keeps ⟨rfl, rfl, rfl⟩)
    · exact Progress.sound_next hretained (Untouched.keeps ⟨rfl, rfl, rfl⟩) trivial
        (Call.apart_of_free rfl)
  | commitUpload commitment =>
    refine orEnd_sound hend fun row hrow => ?_
    obtain ⟨hmem, hid⟩ := requireUpload_eq_ok.mp hrow
    exact Progress.sound_next hretained (.refl s) ⟨row, hmem, hid, rfl⟩ (Call.apart_of_free rfl)
  | abortUpload id now =>
    exact orEnd_sound hend fun row _ =>
      Progress.sound_next hretained (Untouched.keeps ⟨rfl, rfl, rfl⟩) trivial
        (Call.apart_of_free rfl)
  | updateReference =>
    exact transaction_sound hretained fun _ _ h => (updateReference_untouched h).keeps
  | hold => exact transaction_sound hretained fun _ _ h => (hold_beside h).keeps
  | releaseHold => exact transaction_sound hretained fun _ _ h => (releaseHold_beside h).keeps
  | pin => exact transaction_sound hretained fun _ _ h => (pin_beside h).keeps
  | releasePin => exact transaction_sound hretained fun _ _ h => (releasePin_beside h).keeps
  | createCollection id entries now =>
    exact Progress.sound_next hretained (.refl s) trivial (Call.apart_of_free rfl)
  | planGc => exact transaction_sound hretained fun _ _ h => (planGc_untouched h).keeps
  | applyGc planId now =>
    exact orEnd_sound hend fun _ h =>
      Progress.sound_next hretained (tombstoneCandidates_keeps h) trivial (Call.apart_of_free rfl)
  | planReconciliation =>
    exact transaction_sound hretained fun _ _ h => (planReconciliation_beside h).keeps
  | applyReconciliation planId now =>
    refine orEnd_sound hend fun opened _ => ?_
    obtain ⟨plan, applied⟩ := opened
    cases applied with
    | true => exact hend
    | false => exact Progress.sound_next hretained (.refl s) trivial (Call.apart_of_free rfl)

/-- A sweep takes a body under its lock. -/
theorem Sweep.take_sound {refNext : StorageRef} (hretained : Retained s) (sweep : Sweep) :
    Progress.Sound settings s others (sweep.take settings s others refNext) := by
  have hwait : ∀ sweep, Progress.Sound settings s others (some (.takeBody sweep), s) := fun _ =>
    Progress.sound_next hretained (.refl s) trivial (Call.apart_of_free rfl)
  unfold Sweep.take
  split
  · exact Progress.sound_ended hretained (.refl s)
  · split
    · rename_i hfree
      exact Progress.sound_next hretained (.refl s) trivial (hfree.2.apart rfl)
    · exact hwait _
  · exact Progress.sound_next hretained (.refl s) trivial (Call.apart_of_free rfl)
  · split
    · rename_i hfree
      exact Progress.sound_next hretained (.refl s) trivial (hfree.apart rfl)
    · exact hwait _

/-- **Every step of a call is sound for the calls beside it.** -/
theorem Call.step_sound {around : Surroundings} (hretained : Retained s) (hrelies : call.Relies s)
    (hapart : ∀ other ∈ others, call.Apart settings other) :
    Progress.Sound settings s others (call.step settings others s around) := by
  have hend : Progress.Sound settings s others (none, s) := Progress.sound_ended hretained (.refl s)
  cases call with
  | validateSources id request now pending =>
    cases pending with
    | nil =>
      exact orEnd_sound hend fun _ _ =>
        Progress.sound_next hretained (.refl s) trivial (Call.apart_of_free rfl)
    | cons source pending =>
      exact orEnd_sound hend fun _ _ =>
        Progress.sound_next hretained (.refl s) trivial (Call.apart_of_free rfl)
  | createStaging id request now =>
    exact orEnd_sound hend fun _ h =>
      Progress.sound_next hretained (createStaging_beside h).keeps trivial (Call.apart_of_free rfl)
  | recordUpload id request now =>
    simp only [Call.step]
    split
    · exact Progress.sound_ended hretained (recordUpload_keeps ‹_›)
    · exact Progress.sound_next hretained (.refl s) trivial (Call.apart_of_free rfl)
  | discardStaging id => exact Progress.sound_ended hretained (Untouched.keeps ⟨rfl, rfl, rfl⟩)
  | advanceCursor row size now => exact rewriteUpload_sound hretained fun _ => rfl
  | recordAborted row now => exact rewriteUpload_sound hretained fun _ => rfl
  | lockBody commitment ref =>
    simp only [Call.step]
    split
    · exact Progress.sound_next hretained (.refl s) hrelies (LockFree.apart ‹_› rfl)
    · exact Progress.sound_next hretained (.refl s) hrelies (Call.apart_of_free rfl)
  | readUpload commitment ref =>
    refine orEnd_sound hend fun found hfound => ?_
    cases found with
    | inl manifest => exact hend
    | inr row =>
      exact Progress.sound_next hretained (.refl s) (readUpload_storageRef hrelies hfound)
        (Call.apart_of_held rfl hapart)
  | inspectStaged commitment ref row =>
    simp only [Call.step]
    split
    · exact orEnd_sound hend fun _ h =>
        Progress.sound_next hretained (.refl s)
          (requireExistingCommittedBlob_published hrelies h) (Call.apart_of_held rfl hapart)
    · split
      · exact Progress.sound_next hretained (.refl s) hrelies (Call.apart_of_held rfl hapart)
      · split
        · exact Progress.sound_next hretained (.refl s) trivial (Call.apart_of_held rfl hapart)
        · exact hend
  | rejectSecret commitment ref row =>
    refine orEnd_sound hend fun current _ => ?_
    split
    · exact Progress.sound_next hretained (keeps_updateUpload fun _ => rfl) trivial
        (Call.apart_of_held rfl hapart)
    · exact Progress.sound_next hretained (.refl s) trivial (Call.apart_of_held rfl hapart)
  | discardRejected ref id =>
    exact Progress.sound_ended hretained (Untouched.keeps ⟨rfl, rfl, rfl⟩)
  | stageBody commitment ref row =>
    refine orEnd_sound hend fun staged _ => orEnd_sound hend fun copied hcopied => ?_
    split
    · exact Progress.sound_ended hretained
        (keeps_bodies fun _ _ hcontent => copyPart_content.trans hcontent)
    · obtain ⟨hdigest, hsize⟩ := stageBody_expected _ hcopied
      have hverified : Verified ref row staged :=
        ⟨by rw [← show row.expectedDigest.storageRef = ref from hrelies, hdigest]; rfl,
          hdigest, hsize⟩
      exact Progress.sound_next hretained
        (keeps_bodies fun _ _ hcontent => (stageBody_content _ hcopied).trans hcontent) hverified
        (Call.apart_of_held rfl hapart)
  | linkBody commitment ref row staged =>
    simp only [Call.step]
    split
    · rename_i linked hlinked
      exact Progress.sound_next hretained
        (keeps_bodies fun _ _ hcontent => linkBody_keeps _ hlinked hcontent)
        (linkBody_published hrelies hlinked) (Call.apart_of_held rfl hapart)
    · exact Progress.sound_next hretained (.refl s) trivial (Call.apart_of_held rfl hapart)
  | discardTemporary commitment ref row =>
    exact Progress.sound_ended hretained
      (keeps_bodies fun _ _ hcontent => unlinkTemporary_content.trans hcontent)
  | unlinkTemporary commitment ref row staged =>
    have hkeeps : Keeps s { s with
        bodies := s.bodies.unlinkTemporary row.expectedDigest commitment.nonce } :=
      keeps_bodies fun _ _ hcontent => unlinkTemporary_content.trans hcontent
    exact Progress.sound_next hretained hkeeps (hkeeps.published (by simp) hrelies)
      (Call.apart_of_held rfl hapart)
  | unlinkStaged commitment ref row staged =>
    refine orEnd_sound hend fun after _ => ?_
    split
    · exact Progress.sound_next hretained (Untouched.keeps ⟨rfl, rfl, rfl⟩) hrelies
        (Call.apart_of_held rfl hapart)
    · exact hend
  | recordManifest commitment ref row =>
    simp only [Call.step, transaction]
    cases h : s.recordManifest settings row commitment.artifactId commitment.now with
    | error e => exact hend
    | ok recorded =>
      obtain ⟨hretained', hkeeps⟩ := recordManifest_retained hretained hrelies h
      exact Progress.sound_held (.recordManifest commitment ref row) rfl hapart hretained' hkeeps
        (by simp)
  | requireMembers id entries pending now =>
    cases pending with
    | nil =>
      exact orEnd_sound hend fun _ h =>
        Progress.sound_ended hretained (recordCollection_beside h).keeps
    | cons entry pending =>
      exact orEnd_sound hend fun _ _ =>
        Progress.sound_next hretained (.refl s) trivial (Call.apart_of_free rfl)
  | takeBody sweep => exact sweep.take_sound hretained
  | checkBody sweep ref =>
    simp only [Call.step]
    split
    · exact Progress.sound_next hretained (.refl s) trivial (Call.apart_of_free rfl)
    · exact Progress.sound_next hretained (.refl s) ‹_› (Call.apart_of_held rfl hapart)
  | deleteBody sweep ref =>
    refine orEnd_sound hend fun deleted hdeleted => ?_
    obtain ⟨hretained', hkeeps⟩ := deleteBody_retained hretained hrelies hdeleted
    refine Progress.sound_held (.deleteBody sweep ref) rfl hapart hretained' hkeeps ?_
    rintro next ⟨⟩
    cases sweep with
    | gc pending => exact ⟨trivial, Call.apart_of_held rfl hapart⟩
    | reconciliation plan pending now => exact ⟨trivial, Call.apart_of_free rfl⟩
  | markDeleted pending ref =>
    exact Progress.sound_next hretained (markDeleted_keeps ref) trivial (Call.apart_of_free rfl)
  | repairAll plan now =>
    refine orEnd_sound hend fun outcome h => ?_
    obtain ⟨applied, repaired⟩ := outcome
    cases applied with
    | true => exact hend
    | false =>
      exact Progress.sound_next hretained (repairAll_induct .refl .trans repair_keeps h) trivial
        (Call.apart_of_free rfl)
  | unlinkExpired planId pending now =>
    cases pending with
    | nil => exact Progress.sound_next hretained (.refl s) trivial (Call.apart_of_free rfl)
    | cons id pending =>
      exact Progress.sound_next hretained (Untouched.keeps ⟨rfl, rfl, rfl⟩) trivial
        (Call.apart_of_free rfl)
  | finishReconciliation planId now =>
    exact Progress.sound_ended hretained (Untouched.keeps ⟨rfl, rfl, rfl⟩)

end

/-! ## Every run -/

/-- **The proof outline of the service.** -/
def retention (settings : ArtifactSettings) (issueText : ArtifactReconciliationIssue → String) :
    Pool.Outline (serviceProgram settings issueText) where
  inv := Retained
  relies s call := call.Relies s
  apart := Call.Apart settings
  apart_symm h ref href ref' href' := (h ref' href' ref href).symm
  start _ input _ hretained _ := input.1.start_sound hretained
  advance _ _ _ _ hretained hrelies _ hapart := Call.step_sound hretained hrelies hapart
  outside _ _ hretained := hretained.keeps (Untouched.keeps ⟨rfl, rfl, rfl⟩)
  outside_stable s rows _ hrelies := by
    have hkeeps : Keeps s { s with records := rows } := Untouched.keeps ⟨rfl, rfl, rfl⟩
    exact hrelies.stable hkeeps (by simp)

variable (settings : ArtifactSettings) (issueText : ArtifactReconciliationIssue → String)

/-- The assertions hold of a service nothing was stored in. -/
theorem holds_empty : (retention settings issueText).Holds Service.empty :=
  Pool.Outline.holds_idle ⟨fun _ h => absurd h Table.not_mem_empty, fun _ h =>
    absurd h Table.not_mem_empty⟩

end Mishkan.Artifacts
