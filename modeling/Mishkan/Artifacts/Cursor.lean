import Mishkan.Artifacts.Uploads
import Mishkan.Foundations.Transition

/-!
# Artifacts/Cursor — the staging file ends at the cursor

A client opens an upload with the digest and the size of its content and sends pieces of it
(`Faithful`).  As long as no append is interrupted once it has written (`Unbroken`), every staging
upload has the content up to its cursor in its file, or all of it in its body (`CursorHolds`).
-/

namespace Mishkan.Artifacts

open Refusal Transition ArtifactStore Table

/-! ## Operations -/

inductive UploadOperation where
  | openUpload (id : Uuid) (request : ArtifactStore.UploadRequest) (now : DateTime)
  | appendChunk (id : Uuid) (offset : Nat) (content : Bytes) (now : DateTime)
      (interrupted : Option Nat)
  | commitUpload (id nonce artifactId : Uuid) (now : DateTime)
      (interrupted : Option ArtifactStore.CommitPoint)

variable (settings : ArtifactSettings)

def uploadStep (s : ArtifactStore) : UploadOperation → ArtifactStore
  | .openUpload id request now => (s.openUpload settings id request now).2
  | .appendChunk id offset content now interrupted =>
    (s.appendChunk settings id offset content now interrupted).2
  | .commitUpload id nonce artifactId now interrupted =>
    (s.commitUpload settings id nonce artifactId now interrupted).2

/-- The upload is of this content. -/
structure ArtifactUploadRow.IsOf (row : ArtifactUploadRow) (content : Bytes) : Prop where
  digest : row.expectedDigest = .canonical ⟨content⟩
  size : row.expectedSize = content.length
  mediaType : row.mediaType ≠ ""

/-- A client opens an upload with the digest and the size of its content, and what it sends to an
upload is a piece of its content. -/
def Faithful (s : ArtifactStore) : UploadOperation → Prop
  | .openUpload _ request _ => ∃ content, request.expectedDigest = .canonical ⟨content⟩ ∧
      request.expectedSize = content.length ∧ request.mediaType ≠ ""
  | .appendChunk id offset content _ _ => ∀ row ∈ s.uploads, row.id = id →
      ∀ whole, row.expectedDigest = .canonical ⟨whole⟩ →
        content = (whole.drop offset).take content.length
  | .commitUpload _ _ _ _ _ => True

/-- The content can be sent and committed: the inspector passes it, the manifest can be made, and if
there is something to send a chunk may have a byte. -/
structure Acceptable (content : Bytes) (sensitivity retention : String) : Prop where
  inspected : inspect settings content = .ok ()
  sensitivity : sensitivity ≠ ""
  retention : retention ≠ ""
  chunk : content ≠ [] → 0 < settings.maxChunkBytes

/-- An upload that is opened is acceptable, and an append that is admitted is not interrupted once
it has written. -/
def Unbroken (s : ArtifactStore) : UploadOperation → Prop
  | .openUpload id request now =>
      (∃ session, (s.openUpload settings id request now).1 = .ok session) →
      ∀ content, request.expectedDigest = .canonical ⟨content⟩ →
        Acceptable settings content request.sensitivity request.retention
  | .appendChunk id offset content _ (some written) =>
      ∀ row, s.admitChunk settings id offset content = .ok row → written = 0
  | _ => True

/-! ## The invariant -/

/-- Where the content of a staging upload is: up to the cursor in its file, or in its body. -/
inductive Staged (s : ArtifactStore) (row : ArtifactUploadRow) (content : Bytes) : Prop where
  | file (h : s.staged? row.id = some (content.take row.offset))
  | published (hfile : s.staged? row.id = none) (hoffset : row.offset = content.length)
      (hbody : s.bodies.content? (.body ⟨content⟩) = some content)

/-- A committed upload has its manifest. -/
def Recorded (s : ArtifactStore) (row : ArtifactUploadRow) (content : Bytes) : Prop :=
  ∃ artifact ∈ s.artifacts, row.artifactId = some artifact.id ∧
    artifact.payload.digest = ⟨content⟩ ∧ artifact.payload.sizeBytes = content.length

/-- What holds of an upload. -/
structure UploadHolds (s : ArtifactStore) (row : ArtifactUploadRow) (content : Bytes) : Prop where
  isOf : row.IsOf content
  offset_le : row.offset ≤ content.length
  acceptable : Acceptable settings content row.metadata.sensitivity row.metadata.retention
  staged : row.state = .staging → Staged s row content
  recorded : row.state = .committed → Recorded s row content

/-- Every body is what its name says, and every staging file ends at its cursor. -/
structure CursorHolds (s : ArtifactStore) : Prop where
  honest : BodiesHonest s.bodies
  uploads : ∀ row ∈ s.uploads, ∃ content, UploadHolds settings s row content

/-! ## What an operation keeps -/

/-- All but one upload is as it was, and no body and no artifact is lost. -/
structure KeepsOthers (s s' : ArtifactStore) (id : Uuid) : Prop where
  files : ∀ id', id' ≠ id → s'.staged? id' = s.staged? id'
  bodies : ∀ digest content, s.bodies.content? (.body digest) = some content →
    s'.bodies.content? (.body digest) = some content
  artifacts : ∀ artifact ∈ s.artifacts, artifact ∈ s'.artifacts
  uploads : ∀ row ∈ s'.uploads, row.id ≠ id → row ∈ s.uploads

section

variable {settings} {s s' s'' : ArtifactStore} {id : Uuid} {row row' : ArtifactUploadRow}
  {content chunk : Bytes}

theorem KeepsOthers.trans (h : KeepsOthers s s' id) (h' : KeepsOthers s' s'' id) :
    KeepsOthers s s'' id where
  files id' hne := (h'.files id' hne).trans (h.files id' hne)
  bodies digest content hcontent := h'.bodies digest content (h.bodies digest content hcontent)
  artifacts artifact hmem := h'.artifacts artifact (h.artifacts artifact hmem)
  uploads row hrow hne := h.uploads row (h'.uploads row hrow hne) hne

/-- What holds of an upload stays where its file, the bodies and the artifacts do. -/
theorem UploadHolds.keep (h : UploadHolds settings s row content)
    (hfile : s'.staged? row.id = s.staged? row.id)
    (hbodies : ∀ digest content, s.bodies.content? (.body digest) = some content →
      s'.bodies.content? (.body digest) = some content)
    (hartifacts : ∀ artifact ∈ s.artifacts, artifact ∈ s'.artifacts) :
    UploadHolds settings s' row content where
  isOf := h.isOf
  offset_le := h.offset_le
  acceptable := h.acceptable
  staged hstate := by
    cases h.staged hstate with
    | file hcontent => exact .file (hfile.trans hcontent)
    | published hnone hoffset hbody =>
      exact .published (hfile.trans hnone) hoffset (hbodies _ _ hbody)
  recorded hstate := by
    obtain ⟨artifact, hmem, hrest⟩ := h.recorded hstate
    exact ⟨artifact, hartifacts artifact hmem, hrest⟩

/-- **An operation on one upload** leaves the invariant where it leaves that upload well. -/
theorem CursorHolds.change (h : CursorHolds settings s) (id : Uuid) (hkeeps : KeepsOthers s s' id)
    (hhonest : BodiesHonest s'.bodies)
    (hrow : ∀ row ∈ s'.uploads, row.id = id → ∃ content, UploadHolds settings s' row content) :
    CursorHolds settings s' where
  honest := hhonest
  uploads row hmem := by
    by_cases hid : row.id = id
    · exact hrow row hmem hid
    · obtain ⟨content, hholds⟩ := h.uploads row (hkeeps.uploads row hmem hid)
      exact ⟨content, hholds.keep (hkeeps.files row.id hid) hkeeps.bodies hkeeps.artifacts⟩

/-! ### Files -/

theorem staged?_unlinkStaging {id' : Uuid} : (s.unlinkStaging id).staged? id' =
    if id' = id then none else s.staged? id' := by
  have hiff : ∀ content, (s.unlinkStaging id).staged? id' = some content ↔
      s.staged? id' = some content ∧ id' ≠ id := by
    intro content
    rw [staged?_eq_some, staged?_eq_some]
    exact mem_keep.trans (and_congr_right fun _ => decide_eq_true_iff)
  by_cases hid : id' = id
  · rw [if_pos hid]
    cases hcontent : (s.unlinkStaging id).staged? id' with
    | none => rfl
    | some content => exact absurd hid ((hiff content).mp hcontent).2
  · rw [if_neg hid]
    cases hcontent : s.staged? id' with
    | some content => exact (hiff content).mpr ⟨hcontent, hid⟩
    | none =>
      cases hstill : (s.unlinkStaging id).staged? id' with
      | none => rfl
      | some content =>
        rw [((hiff content).mp hstill).1] at hcontent
        cases hcontent

theorem staged?_createStaging (id' : Uuid) (h : s.createStaging id = .ok s') :
    s'.staged? id' = if id' = id then some [] else s.staged? id' := by
  simp only [createStaging, bind_eq_ok, require_eq_ok, pure_eq_ok] at h
  obtain ⟨staging, hinsert, rfl⟩ := h
  rw [staged?, find_insert hinsert, staged?]
  by_cases hid : id' = id
  · subst hid
    have hnone : s.staging.find (·.name = id') = none := by
      rw [find_eq_none]
      intro file hfile hname
      exact not_clash_of_insert hinsert hfile (by simpa [Keyed.clash, Keyed.key] using hname)
    simp [hnone]
  · have hne : id ≠ id' := fun heq => hid heq.symm
    simp [hid, hne]

/-! ### Opening -/

variable {f : ArtifactUploadRow → ArtifactUploadRow}

/-- A row of an updated upload. -/
theorem mem_updateUpload {hf : ∀ row, Keyed.key (f row) = Keyed.key row} :
    row' ∈ (s.updateUpload id f hf).uploads ↔
      ∃ row ∈ s.uploads, (if row.id = id then f row else row) = row' := by
  unfold updateUpload
  simp only [mem_update, decide_eq_true_eq]

theorem uploadModel_ok (h : row.IsOf content) : ∃ session,
    uploadModel row = .ok session ∧ session.offset = row.offset := by
  rw [uploadModel, h.digest]
  exact ⟨_, dif_pos h.mediaType, rfl⟩

/-- Nothing changes but the files of one upload. -/
theorem keepsOthers_files (hfiles : ∀ id', id' ≠ id → s'.staged? id' = s.staged? id')
    (hbodies : s'.bodies = s.bodies) (hartifacts : s'.artifacts = s.artifacts)
    (huploads : s'.uploads = s.uploads) : KeepsOthers s s' id where
  files := hfiles
  bodies _ _ hcontent := hbodies ▸ hcontent
  artifacts _ hmem := hartifacts ▸ hmem
  uploads _ hmem _ := huploads ▸ hmem

variable {now : DateTime}

/-- **An acceptable upload that is opened** is staging, with an empty file. -/
theorem openUpload_holds {request : ArtifactStore.UploadRequest}
    (h : CursorHolds settings s) (hfaithful : Faithful s (.openUpload id request now))
    (hunbroken : Unbroken settings s (.openUpload id request now)) :
    CursorHolds settings (s.openUpload settings id request now).2 := by
  obtain ⟨content, hdigest, hsize, hmedia⟩ := hfaithful
  have hisOf : (uploadRow id request now).IsOf content :=
    ⟨hdigest, by simp [uploadRow, hsize], hmedia⟩
  simp only [Unbroken] at hunbroken
  unfold openUpload at hunbroken ⊢
  cases hvalid : s.validateRequest settings request with
  | error e => exact h
  | ok u =>
    cases hcreated : s.createStaging id with
    | error e => exact h
    | ok staged =>
      simp only [hvalid, hcreated] at hunbroken ⊢
      have hfile := fun id' => staged?_createStaging id' hcreated
      simp only [createStaging, bind_eq_ok, require_eq_ok, pure_eq_ok] at hcreated
      obtain ⟨staging, hinsertFile, rfl⟩ := hcreated
      cases hrecorded : recordUpload { s with staging := staging } id request now with
      | error e =>
        have hnone : s.staged? id = none := by
          rw [staged?, find_eq_none.mpr, Option.map_none]
          intro file hmem hname
          exact not_clash_of_insert hinsertFile hmem
            (by simpa [Keyed.clash, Keyed.key] using hname)
        have hsame : ∀ id',
            (unlinkStaging { s with staging := staging } id).staged? id' =
              s.staged? id' := by
          intro id'
          rw [staged?_unlinkStaging]
          by_cases hid : id' = id
          · rw [if_pos hid, hid, hnone]
          · rw [if_neg hid, hfile, if_neg hid]
        refine h.change id (keepsOthers_files (fun id' _ => hsame id') rfl rfl rfl) h.honest ?_
        intro row hrow _
        obtain ⟨content, hholds⟩ := h.uploads row hrow
        exact ⟨content,
          hholds.keep (hsame row.id) (fun _ _ hcontent => hcontent) fun _ hmem => hmem⟩
      | ok recorded =>
        obtain ⟨session, hsession, -⟩ := uploadModel_ok hisOf
        have hacceptable : Acceptable settings content request.sensitivity request.retention := by
          rw [hrecorded] at hunbroken
          exact hunbroken ⟨session, hsession⟩ content hdigest
        simp only [recordUpload, bind_eq_ok, require_eq_ok, pure_eq_ok] at hrecorded
        obtain ⟨uploads, hinsert, rfl⟩ := hrecorded
        have hmem : ∀ row, row ∈ uploads ↔
            row ∈ s.uploads ∨ row = uploadRow id request now :=
          fun row => mem_of_insert hinsert
        refine h.change id
          { files := fun id' hne => ?_
            bodies := fun _ _ hcontent => hcontent
            artifacts := fun _ hmem => hmem
            uploads := fun row hrow hne => ?_ } h.honest ?_
        · exact (hfile id').trans (if_neg hne)
        · rcases (hmem row).mp hrow with hrow | rfl
          · exact hrow
          · exact absurd rfl hne
        · intro row hrow hid
          rcases (hmem row).mp hrow with hrow | rfl
          · exact absurd (by simp [Keyed.clash, Keyed.key, uploadRow, hid])
              (not_clash_of_insert hinsert hrow)
          · refine ⟨content, hisOf, Nat.zero_le _, hacceptable, fun _ => .file ?_, ?_⟩
            · exact (hfile id).trans (if_pos rfl)
            · intro hstate
              cases hstate

/-! ### Chunks -/

theorem admitChunk_eq_ok {offset : Nat} : s.admitChunk settings id offset chunk = .ok row ↔
    (chunk ≠ [] ∧ chunk.length ≤ settings.maxChunkBytes) ∧ (row ∈ s.uploads ∧ row.id = id) ∧
      (row.state = .staging ∧ offset = row.offset) ∧
      row.offset + chunk.length ≤ row.expectedSize ∧
      ∃ staged, s.staged? id = some staged ∧ staged.length = row.offset := by
  simp only [admitChunk, bind_eq_ok, refuseIf_eq_ok, require_eq_ok, pure_eq_ok,
    requireUpload_eq_ok, not_or, not_not, not_lt]
  constructor
  · rintro ⟨_, hchunk, _, hrow, _, hcursor, _, hsize, staged, hstaged, _, hlength, rfl⟩
    exact ⟨hchunk, hrow, hcursor, hsize, staged, hstaged, hlength⟩
  · rintro ⟨hchunk, hrow, hcursor, hsize, staged, hstaged, hlength⟩
    exact ⟨(), hchunk, row, hrow, (), hcursor, (), hsize, staged, hstaged, (), hlength, rfl⟩

/-- An upload whose cursor advances over the next piece of its content. -/
theorem UploadHolds.advance (h : UploadHolds settings s row content)
    (hle : row.offset + chunk.length ≤ row.expectedSize) (hstate : row.state = .staging)
    (hfile : s'.staged? row.id = some (content.take row.offset ++ chunk))
    (hpiece : chunk = (content.drop row.offset).take chunk.length) :
    UploadHolds settings s' (ArtifactStore.advance chunk.length now row) content where
  isOf := ⟨h.isOf.digest, h.isOf.size, h.isOf.mediaType⟩
  offset_le := by
    rw [h.isOf.size] at hle
    exact hle
  acceptable := h.acceptable
  staged _ := by
    refine .file (hfile.trans ?_)
    rw [ArtifactStore.advance, List.take_add, ← hpiece]
  recorded hcommitted := by
    simp [ArtifactStore.advance, hstate] at hcommitted

theorem keepsOthers_writeStaging : KeepsOthers s (s.writeStaging id chunk) id :=
  keepsOthers_files (fun id' hne => by rw [staged?_writeStaging, if_neg hne]) rfl rfl
    rfl

theorem keepsOthers_unlinkStaging : KeepsOthers s (s.unlinkStaging id) id :=
  keepsOthers_files (fun id' hne => by rw [staged?_unlinkStaging, if_neg hne]) rfl rfl rfl

/-- Only one upload is rewritten. -/
theorem keepsOthers_updateUpload {hf : ∀ row, Keyed.key (f row) = Keyed.key row} :
    KeepsOthers s (s.updateUpload id f hf) id where
  files _ _ := rfl
  bodies _ _ hcontent := hcontent
  artifacts _ hmem := hmem
  uploads row hrow hne := by
    obtain ⟨old, hold, rfl⟩ := mem_updateUpload.mp hrow
    by_cases hid : old.id = id
    · rw [if_pos hid] at hne
      exact absurd ((hf old).trans hid) hne
    · rwa [if_neg hid]

/-- The row of an updated upload is the rewritten one. -/
theorem eq_of_mem_updateUpload
    (hf : ∀ row, Keyed.key (f row) = Keyed.key row) (hrow : row ∈ s.uploads) (hid : row.id = id)
    (hrow' : row' ∈ (s.updateUpload id f hf).uploads) (hid' : row'.id = id) : row' = f row := by
  obtain ⟨old, hold, rfl⟩ := mem_updateUpload.mp hrow'
  by_cases holdId : old.id = id
  · rw [if_pos holdId, uploads_inj hold hrow (holdId.trans hid.symm)]
  · rw [if_neg holdId] at hid'
    exact absurd hid' holdId

/-- **A chunk that is appended whole, or not at all**, leaves the file at the cursor. -/
theorem appendChunk_holds {offset : Nat} {interrupted : Option Nat} (h : CursorHolds settings s)
    (hfaithful : Faithful s (.appendChunk id offset chunk now interrupted))
    (hunbroken : Unbroken settings s (.appendChunk id offset chunk now interrupted)) :
    CursorHolds settings (s.appendChunk settings id offset chunk now interrupted).2 := by
  unfold appendChunk
  cases hadmitted : s.admitChunk settings id offset chunk with
  | error e => exact h
  | ok row =>
    obtain ⟨-, ⟨hrow, rfl⟩, ⟨hstate, rfl⟩, hle, staged, hstaged, -⟩ := admitChunk_eq_ok.mp hadmitted
    obtain ⟨content, hholds⟩ := h.uploads row hrow
    have hpiece := hfaithful row hrow rfl content hholds.isOf.digest
    have hfile : s.staged? row.id = some (content.take row.offset) := by
      cases hholds.staged hstate with
      | file hfile => exact hfile
      | published hnone => rw [hnone] at hstaged; cases hstaged
    cases interrupted with
    | some written =>
      obtain rfl := hunbroken row hadmitted
      have hsame : ∀ id', (s.writeStaging row.id (chunk.take 0)).staged? id' = s.staged? id' := by
        intro id'
        rw [staged?_writeStaging]
        split <;> simp
      refine h.change row.id keepsOthers_writeStaging h.honest fun row' hrow' _ => ?_
      obtain ⟨content', hholds'⟩ := h.uploads row' hrow'
      exact ⟨content',
        hholds'.keep (hsame row'.id) (fun _ _ hcontent => hcontent) fun _ hmem => hmem⟩
    | none =>
      have hisOf : (advance chunk.length now row).IsOf content :=
        ⟨hholds.isOf.digest, hholds.isOf.size, hholds.isOf.mediaType⟩
      obtain ⟨session, hsession, -⟩ := uploadModel_ok hisOf
      simp only [hsession]
      refine h.change row.id (keepsOthers_writeStaging.trans keepsOthers_updateUpload) h.honest ?_
      intro row' hrow' hid'
      obtain rfl := eq_of_mem_updateUpload (s := s.writeStaging row.id chunk)
        (advance_key chunk.length now) hrow rfl hrow' hid'
      refine ⟨content, hholds.advance hle hstate ?_ hpiece⟩
      exact (staged?_writeStaging).trans (by rw [if_pos rfl, hfile, Option.map_some])

/-! ### Commitment -/

/-- The bodies change, and none is lost. -/
theorem CursorHolds.withBodies (h : CursorHolds settings s) {bodies : BodyStore}
    (hhonest : BodiesHonest bodies)
    (hbodies : ∀ digest content, s.bodies.content? (.body digest) = some content →
      bodies.content? (.body digest) = some content) :
    CursorHolds settings { s with bodies := bodies } where
  honest := hhonest
  uploads row hrow := by
    obtain ⟨content, hholds⟩ := h.uploads row hrow
    exact ⟨content, hholds.keep rfl hbodies fun _ hmem => hmem⟩

/-- An upload that is aborted, and whose file is removed. -/
theorem rejectSecretUpload_holds (h : CursorHolds settings s) (hrow : row ∈ s.uploads)
    (hstate : row.state = .staging) (now : DateTime) :
    CursorHolds settings (s.rejectSecretUpload row now) := by
  rw [rejectSecretUpload, if_pos hstate]
  have haborted : KeepsOthers s (s.updateUpload row.id (abortRow now)
      (abortRow_key now)) row.id :=
    keepsOthers_updateUpload
  refine h.change row.id (haborted.trans keepsOthers_unlinkStaging) h.honest
    fun row' hrow' hid' => ?_
  · obtain rfl := eq_of_mem_updateUpload (abortRow_key now) hrow rfl hrow' hid'
    obtain ⟨content, hholds⟩ := h.uploads row hrow
    refine ⟨content, ⟨hholds.isOf.digest, hholds.isOf.size, hholds.isOf.mediaType⟩,
      hholds.offset_le, hholds.acceptable, ?_, ?_⟩ <;>
    · intro habsurd
      cases habsurd

/-- What a commitment that has stored the body of an upload has left. -/
structure BodyKept (s s' : ArtifactStore) (row : ArtifactUploadRow) : Prop where
  uploads : s'.uploads = s.uploads
  artifacts : s'.artifacts = s.artifacts
  file : s'.staged? row.id = none
  body : ∃ digest, row.expectedDigest = .canonical digest ∧
    s'.bodies.content? (.body digest) = some digest.of

variable {interrupted : Option ArtifactStore.CommitPoint}

/-- What is linked is the content of the upload. -/
theorem publishCopied_holds {staged : Bytes} {copied : BodyStore} {nonce : Uuid}
    (h : CursorHolds settings s) (hrow : row ∈ s.uploads) (hstate : row.state = .staging)
    (hstaged : s.staged? row.id = some staged)
    (hcopied : s.bodies.stageBody settings.hexdigest staged row.expectedDigest row.expectedSize
      nonce = .ok copied) :
    CursorHolds settings (s.publishCopied settings row staged copied nonce interrupted).2 ∧
      ((s.publishCopied settings row staged copied nonce interrupted).1 = .ok () →
        BodyKept s (s.publishCopied settings row staged copied nonce interrupted).2 row) := by
  obtain ⟨hdigest, hsize⟩ := stageBody_expected _ hcopied
  have hcopiedContent : ∀ digest, copied.content? (.body digest) =
      s.bodies.content? (.body digest) := fun _ => stageBody_content _ hcopied
  have hcopiedHonest := h.honest.of_content hcopiedContent
  unfold publishCopied
  cases hlinked : copied.linkBody settings.hexdigest staged row.expectedDigest row.expectedSize with
  | error e =>
    refine ⟨h.withBodies (hcopiedHonest.of_content fun _ => unlinkTemporary_content) ?_,
      fun habsurd => by cases habsurd⟩
    intro digest content hcontent
    rw [unlinkTemporary_content, hcopiedContent, hcontent]
  | ok linked =>
    rw [hdigest] at hlinked
    have hlinkedHonest := hcopiedHonest.linkBody _ hlinked
    have hlinkedContent := (linkBody_content _ hlinked).1
    have hkept : ∀ digest content, s.bodies.content? (.body digest) = some content →
        linked.content? (.body digest) = some content := fun digest content hcontent =>
      linkBody_keeps _ hlinked ((hcopiedContent digest).trans hcontent)
    have hpublished : CursorHolds settings
        { s with bodies := linked.unlinkTemporary row.expectedDigest nonce } :=
      h.withBodies (hlinkedHonest.of_content fun _ => unlinkTemporary_content)
        fun digest content hcontent => unlinkTemporary_content.trans (hkept digest content hcontent)
    simp only
    split
    · exact ⟨h.withBodies hlinkedHonest hkept, fun habsurd => by cases habsurd⟩
    · split
      · exact ⟨hpublished, fun habsurd => by cases habsurd⟩
      · have hbody : ({ s with
            bodies := linked.unlinkTemporary row.expectedDigest nonce }.unlinkStaging
              row.id).bodies.content? (.body ⟨staged⟩) = some staged :=
          unlinkTemporary_content.trans hlinkedContent
        have hnone : ({ s with
            bodies := linked.unlinkTemporary row.expectedDigest nonce }.unlinkStaging
              row.id).staged? row.id = none := staged?_unlinkStaging.trans (if_pos rfl)
        refine ⟨?_, fun _ => ⟨rfl, rfl, hnone, ⟨staged⟩, hdigest, hbody⟩⟩
        refine hpublished.change row.id keepsOthers_unlinkStaging hpublished.honest
          fun row' hrow' hid' => ?_
        obtain rfl := uploads_inj hrow' hrow hid'
        obtain ⟨content, hholds⟩ := h.uploads row' hrow
        have hcontent : staged = content := by
          rw [hholds.isOf.digest] at hdigest
          simpa using hdigest.symm
        subst hcontent
        refine ⟨staged, hholds.isOf, hholds.offset_le, hholds.acceptable, fun _ => ?_, ?_⟩
        · refine .published hnone ?_ hbody
          cases hholds.staged hstate with
          | file hfile =>
            rw [hstaged, Option.some.injEq] at hfile
            have hlength := congrArg List.length hfile
            rw [List.length_take] at hlength
            have hle := hholds.offset_le
            omega
          | published hnone => rw [hstaged] at hnone; cases hnone
        · intro hcommitted
          rw [hstate] at hcommitted
          cases hcommitted

/-- **Wherever a publication is interrupted**, the content is in the file or in the body. -/
theorem publish_holds {staged : Bytes} {nonce : Uuid} (h : CursorHolds settings s)
    (hrow : row ∈ s.uploads) (hstate : row.state = .staging)
    (hstaged : s.staged? row.id = some staged) :
    CursorHolds settings (s.publish settings row staged nonce now interrupted).2 ∧
      ((s.publish settings row staged nonce now interrupted).1 = .ok () →
        BodyKept s (s.publish settings row staged nonce now interrupted).2 row) := by
  unfold publish
  cases hinspected : inspect settings staged with
  | error e =>
    refine ⟨?_, fun habsurd => by cases habsurd⟩
    simp only [refuseStaged]
    split
    · exact rejectSecretUpload_holds h hrow hstate now
    · exact h
  | ok u =>
    simp only
    cases hcopied : s.bodies.stageBody settings.hexdigest staged row.expectedDigest
        row.expectedSize nonce with
    | error e => exact ⟨h, fun habsurd => by cases habsurd⟩
    | ok copied =>
      simp only
      split
      · refine ⟨h.withBodies (h.honest.of_content fun _ => copyPart_content) ?_,
          fun habsurd => by cases habsurd⟩
        exact fun _ _ hcontent => copyPart_content.trans hcontent
      · exact publishCopied_holds h hrow hstate hstaged hcopied

/-- A commitment goes on with the row of a staging upload. -/
theorem committable_inr {found : ArtifactUploadRow} (h : s.committable id = .ok (.inr found)) :
    found ∈ s.uploads ∧ found.id = id ∧ found.state = .staging := by
  simp only [committable, bind_eq_ok, requireUpload_eq_ok] at h
  obtain ⟨current, ⟨hcurrent, hid⟩, h⟩ := h
  split at h
  · simp only [pure_eq_ok, reduceCtorEq] at h
  · simp only [bind_eq_ok, refuseIf_eq_ok, not_not, pure_eq_ok, Sum.inr.injEq] at h
    obtain ⟨-, hstate, rfl⟩ := h
    exact ⟨hcurrent, hid, hstate⟩

theorem storeBody_holds (nonce : Uuid) (now : DateTime)
    (interrupted : Option ArtifactStore.CommitPoint) (h : CursorHolds settings s)
    (hrow : row ∈ s.uploads) (hstate : row.state = .staging) :
    CursorHolds settings (s.storeBody settings row nonce now interrupted).2 ∧
      ((s.storeBody settings row nonce now interrupted).1 = .ok () →
        BodyKept s (s.storeBody settings row nonce now interrupted).2 row) := by
  unfold storeBody
  cases hstaged : s.staged? row.id with
  | some staged => exact publish_holds h hrow hstate hstaged
  | none =>
    refine ⟨h, fun _ => ?_⟩
    obtain ⟨content, hholds⟩ := h.uploads row hrow
    cases hholds.staged hstate with
    | file hfile => rw [hstaged] at hfile; cases hfile
    | published _ _ hbody => exact ⟨rfl, rfl, hstaged, ⟨content⟩, hholds.isOf.digest, hbody⟩

/-- **The manifest of an acceptable upload.** -/
theorem manifestOf_ok (hisOf : row.IsOf content)
    (hacceptable : Acceptable settings content row.metadata.sensitivity row.metadata.retention)
    (artifactId : Uuid) (now : DateTime) :
    ∃ manifest, manifestOf settings row artifactId now = .ok manifest ∧
      manifest.id = artifactId ∧ manifest.digest = ⟨content⟩ ∧
        manifest.sizeBytes = content.length := by
  rw [manifestOf, hisOf.digest]
  have htexts := And.intro hisOf.mediaType (And.intro hacceptable.sensitivity hacceptable.retention)
  exact ⟨_, dif_pos htexts, rfl, rfl, hisOf.size⟩

/-- What the record of a manifest leaves. -/
theorem recordManifest_spec (hrow : row ∈ s.uploads) (hstate : row.state = .staging)
    {artifactId : Uuid} {outcome : ArtifactManifest × ArtifactStore} :
    s.recordManifest settings row artifactId now = .ok outcome ↔
      ∃ manifest, manifestOf settings row artifactId now = .ok manifest ∧
        ∃ artifacts, s.artifacts.insert (artifactRow manifest) = some artifacts ∧
          outcome = (manifest, { s with artifacts := artifacts }.updateUpload row.id
            (commitRow artifactId now)
            (commitRow_key artifactId now)) := by
  have hfound : s.requireUpload row.id = .ok row :=
    requireUpload_eq_ok.mpr ⟨hrow, rfl⟩
  have hsame : ArtifactStore.SameUpload row row := ⟨hstate, rfl, rfl, rfl, rfl⟩
  have hnot : row.state ≠ .committed := by
    rw [hstate]
    decide
  simp only [recordManifest, hfound, ok_bind, if_neg hnot, Option.bind_none,
    refuseIf_of_not (not_not.mpr hsame), bind_eq_ok, require_eq_ok, pure_eq_ok]
  constructor
  · rintro ⟨manifest, hmanifest, artifacts, hinsert, rfl⟩
    exact ⟨manifest, hmanifest, artifacts, hinsert, rfl⟩
  · rintro ⟨manifest, hmanifest, artifacts, hinsert, rfl⟩
    exact ⟨manifest, hmanifest, artifacts, hinsert, rfl⟩

/-- A committed upload has its manifest. -/
theorem recordManifest_holds (h : CursorHolds settings s) (hrow : row ∈ s.uploads)
    (hstate : row.state = .staging) {artifactId : Uuid} {outcome : ArtifactManifest × ArtifactStore}
    (hok : s.recordManifest settings row artifactId now = .ok outcome) :
    CursorHolds settings outcome.2 := by
  obtain ⟨content, hholds⟩ := h.uploads row hrow
  obtain ⟨manifest, hmanifest, artifacts, hinsert, rfl⟩ := (recordManifest_spec hrow hstate).mp hok
  obtain ⟨_, hmade, hid, hdigest, hsize⟩ :=
    manifestOf_ok hholds.isOf hholds.acceptable artifactId now
  obtain rfl := Except.ok.inj (hmade.symm.trans hmanifest)
  have hinserted : KeepsOthers s { s with artifacts := artifacts } row.id :=
    { files := fun _ _ => rfl
      bodies := fun _ _ hcontent => hcontent
      artifacts := fun _ hmem => (mem_of_insert hinsert).mpr (.inl hmem)
      uploads := fun _ hmem _ => hmem }
  refine h.change row.id (hinserted.trans keepsOthers_updateUpload) h.honest
    fun row' hrow' hid' => ?_
  obtain rfl := eq_of_mem_updateUpload (s := { s with artifacts := artifacts })
    (commitRow_key artifactId now) hrow rfl hrow' hid'
  refine ⟨content, ⟨hholds.isOf.digest, hholds.isOf.size, hholds.isOf.mediaType⟩,
    hholds.offset_le, hholds.acceptable, (fun habsurd => by cases habsurd), fun _ => ?_⟩
  exact ⟨_, (mem_of_insert hinsert).mpr (.inr rfl), by
    rw [commitRow, artifactRow, hid], hdigest, hsize⟩

/-- **A commitment leaves the invariant**, wherever it is interrupted. -/
theorem commitUpload_holds {nonce artifactId : Uuid} (h : CursorHolds settings s) :
    CursorHolds settings (s.commitUpload settings id nonce artifactId now interrupted).2 := by
  unfold commitUpload
  cases hfound : s.committable id with
  | error e => exact h
  | ok found =>
    cases found with
    | inl manifest => exact h
    | inr row =>
      obtain ⟨hrow, -, hstate⟩ := committable_inr hfound
      obtain ⟨hholds, hkept⟩ := storeBody_holds nonce now interrupted h hrow hstate
      simp only
      cases hstored : s.storeBody settings row nonce now interrupted with
      | mk result stored =>
        rw [hstored] at hholds hkept
        cases result with
        | error e => exact hholds
        | ok u =>
          simp only
          split
          · exact hholds
          · cases hrecorded : stored.recordManifest settings row artifactId now with
            | error e => exact hholds
            | ok outcome =>
              have hrow' : row ∈ stored.uploads := (hkept rfl).uploads ▸ hrow
              exact recordManifest_holds hholds hrow' hstate hrecorded

/-- **Every operation of an unbroken run leaves every file at its cursor.** -/
theorem uploadStep_holds {op : UploadOperation} (h : CursorHolds settings s)
    (hfaithful : Faithful s op) (hunbroken : Unbroken settings s op) :
    CursorHolds settings (uploadStep settings s op) := by
  cases op with
  | openUpload => exact openUpload_holds h hfaithful hunbroken
  | appendChunk => exact appendChunk_holds h hfaithful hunbroken
  | commitUpload => exact commitUpload_holds h

end

end Mishkan.Artifacts
