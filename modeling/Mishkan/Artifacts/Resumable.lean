import Mathlib.Data.Fintype.EquivFin
import Mishkan.Artifacts.Cursor

/-!
# Artifacts/Resumable — an upload goes on from its cursor

A client that reads the cursor and sends the rest of the content in chunks completes the upload
(`Resumable`), as long as the staging file ends at the cursor.  An append that is interrupted once
it has written leaves the file beyond it; every later append then raises, and the state that it
sets is rolled back with its transaction (`appendChunk_of_error`).  So the uploads of a run are
resumable exactly when no append is interrupted so (`resumable_iff`).
-/

namespace Mishkan.Artifacts

open Refusal Transition List ArtifactStore

variable (settings : ArtifactSettings)

/-! ## Going on -/

/-- A division of what is left into chunks that may be sent. -/
structure IsChunking (chunks : List Bytes) (rest : Bytes) : Prop where
  flatten : chunks.flatten = rest
  bounded : ∀ chunk ∈ chunks, chunk ≠ [] ∧ chunk.length ≤ settings.maxChunkBytes

/-- Send chunks one after the other, each at the cursor the last has left. -/
def sendChunks (id : Uuid) (now : DateTime) :
    List Bytes → Nat → ArtifactStore → Except Raised ArtifactStore
  | [], _, s => .ok s
  | chunk :: chunks, offset, s =>
    match s.appendChunk settings id offset chunk now none with
    | (.ok session, s) => sendChunks id now chunks session.offset s
    | (.error e, _) => .error e

/-- Read the cursor, and send chunks from there. -/
def sendRest (s : ArtifactStore) (id : Uuid) (now : DateTime) (chunks : List Bytes) :
    Except Raised ArtifactStore := do
  let session ← s.upload id
  sendChunks settings id now chunks session.offset s

/-- The names a commitment makes up are new. -/
structure Fresh (s : ArtifactStore) (nonce artifactId : Uuid) : Prop where
  temporary : ∀ digest, s.bodies.content? (.temporary digest nonce) = none
  artifact : s.artifact? artifactId = none

/-- The upload is settled: every commitment of it returns this manifest and changes nothing. -/
def Settled (s : ArtifactStore) (id : Uuid) (manifest : ArtifactManifest) : Prop :=
  ∀ nonce artifactId now interrupted,
    s.commitUpload settings id nonce artifactId now interrupted = (.ok manifest, s)

/-- A commitment yields one manifest, of the content, and no later one yields another. -/
def Commits (s : ArtifactStore) (id : Uuid) (content : Bytes) : Prop :=
  ∀ now nonce artifactId, Fresh s nonce artifactId → ∃ manifest committed,
    s.commitUpload settings id nonce artifactId now none = (.ok manifest, committed) ∧
      manifest.digest = ⟨content⟩ ∧ manifest.sizeBytes = content.length ∧
      committed.artifacts.rows = s.artifacts.rows ++ [artifactRow manifest] ∧
      Settled settings committed id manifest

/-- **The upload can be completed from its cursor**, however the rest is divided. -/
def Resumable (s : ArtifactStore) (row : ArtifactUploadRow) (content : Bytes) : Prop :=
  (∃ chunks, IsChunking settings chunks (content.drop row.offset)) ∧
    ∀ chunks, IsChunking settings chunks (content.drop row.offset) → ∀ now, ∃ sent,
      sendRest settings s row.id now chunks = .ok sent ∧ Commits settings sent row.id content

/-- The append finds that the staging body differs from the cursor. -/
structure FoundDiffering (s : ArtifactStore) (id : Uuid) (offset : Nat) (content : Bytes)
    (row : ArtifactUploadRow) : Prop where
  bounded : content ≠ [] ∧ content.length ≤ settings.maxChunkBytes
  addressed : row ∈ s.uploads ∧ row.id = id
  cursor : row.state = .staging ∧ offset = row.offset
  size : row.offset + content.length ≤ row.expectedSize
  differing : ¬ ∃ staged, s.staged? id = some staged ∧ staged.length = row.offset

/-- What an operation has to leave: staging uploads that can be completed, committed uploads that
are settled, and no staging upload that was found to differ from its cursor. -/
structure Resumes (s : ArtifactStore) (op : UploadOperation) : Prop where
  staging : ∀ row ∈ (uploadStep settings s op).uploads, row.state = .staging →
    ∀ content, row.IsOf content → Resumable settings (uploadStep settings s op) row content
  committed : ∀ row ∈ (uploadStep settings s op).uploads, row.state = .committed →
    ∀ content, row.IsOf content → ∃ manifest, manifest.digest = ⟨content⟩ ∧
      manifest.sizeBytes = content.length ∧
      Settled settings (uploadStep settings s op) row.id manifest
  differing : ∀ id offset content now interrupted row,
    op = .appendChunk id offset content now interrupted →
    FoundDiffering settings s id offset content row →
    ∀ row' ∈ (uploadStep settings s op).uploads, row'.id = id → row'.state ≠ .staging

section

variable {settings} {s s' : ArtifactStore} {id : Uuid} {row : ArtifactUploadRow}
  {content chunk rest : Bytes} {chunks : List Bytes} {now : DateTime}

/-! ## Sending -/

/-- What is left can be divided, if a chunk may have a byte. -/
theorem exists_chunking (h : rest ≠ [] → 0 < settings.maxChunkBytes) :
    ∃ chunks, IsChunking settings chunks rest := by
  refine ⟨rest.map fun byte => [byte], ?_, fun chunk hchunk => ?_⟩
  · induction rest with
    | nil => rfl
    | cons byte rest ih =>
      rw [map_cons, flatten_cons, ih fun _ => h (cons_ne_nil _ _)]
      rfl
  · obtain ⟨byte, hbyte, rfl⟩ := mem_map.mp hchunk
    exact ⟨cons_ne_nil _ _, h (ne_nil_of_mem hbyte)⟩

/-- A chunk at the cursor is appended. -/
theorem appendChunk_ok (now : DateTime) (hrow : row ∈ s.uploads) (hstate : row.state = .staging)
    (hisOf : row.IsOf content) (hfile : s.staged? row.id = some (content.take row.offset))
    (hchunk : chunk ≠ [] ∧ chunk.length ≤ settings.maxChunkBytes)
    (hle : row.offset + chunk.length ≤ content.length) :
    ∃ session, s.appendChunk settings row.id row.offset chunk now none =
        (.ok session, (s.writeStaging row.id chunk).updateUpload row.id
          (advance chunk.length now) (advance_key chunk.length now)) ∧
      session.offset = row.offset + chunk.length := by
  have hadmitted : s.admitChunk settings row.id row.offset chunk = .ok row := by
    refine admitChunk_eq_ok.mpr ⟨hchunk, ⟨hrow, rfl⟩, ⟨hstate, rfl⟩, hisOf.size ▸ hle, _, hfile, ?_⟩
    rw [length_take]
    omega
  have hadvanced : (advance chunk.length now row).IsOf content :=
    ⟨hisOf.digest, hisOf.size, hisOf.mediaType⟩
  obtain ⟨session, hsession, hoffset⟩ := uploadModel_ok hadvanced
  refine ⟨session, ?_, hoffset⟩
  simp only [appendChunk, hadmitted, hsession]

/-- What sending the rest of a content has left. -/
structure Sent (s sent : ArtifactStore) (row : ArtifactUploadRow) (content : Bytes) : Prop where
  upload : ∃ row' ∈ sent.uploads, row'.id = row.id ∧ row'.state = .staging ∧
    row'.IsOf content ∧ row'.metadata = row.metadata
  file : sent.staged? row.id = some content
  bodies : sent.bodies = s.bodies
  artifacts : sent.artifacts = s.artifacts

/-- **The rest of a content is sent** where the file ends at the cursor. -/
theorem sendChunks_ok (now : DateTime) (hrow : row ∈ s.uploads) (hstate : row.state = .staging)
    (hisOf : row.IsOf content) (hfile : s.staged? row.id = some (content.take row.offset))
    (hchunking : IsChunking settings chunks (content.drop row.offset)) :
    ∃ sent, sendChunks settings row.id now chunks row.offset s = .ok sent ∧
      Sent s sent row content := by
  induction chunks generalizing s row with
  | nil =>
    have hdone : content.length ≤ row.offset := by
      rw [← drop_eq_nil_iff, ← hchunking.flatten]
      rfl
    refine ⟨s, rfl, ⟨row, hrow, rfl, hstate, hisOf, rfl⟩, ?_, rfl, rfl⟩
    rw [hfile, take_of_length_le hdone]
  | cons chunk chunks ih =>
    have hsplit : chunk ++ chunks.flatten = content.drop row.offset := hchunking.flatten
    have hlength : chunk.length + chunks.flatten.length = content.length - row.offset := by
      rw [← length_append, hsplit, length_drop]
    have hchunk := hchunking.bounded chunk mem_cons_self
    have hpos := length_pos_iff.mpr hchunk.1
    obtain ⟨session, hsession, hoffset⟩ :=
      appendChunk_ok now hrow hstate hisOf hfile hchunk (by omega)
    have hrow' : advance chunk.length now row ∈
        ((s.writeStaging row.id chunk).updateUpload row.id (advance chunk.length now)
          (advance_key chunk.length now)).uploads :=
      mem_updateUpload.mpr ⟨row, hrow, if_pos rfl⟩
    have hisOf' : (advance chunk.length now row).IsOf content :=
      ⟨hisOf.digest, hisOf.size, hisOf.mediaType⟩
    have hfile' : ((s.writeStaging row.id chunk).updateUpload row.id
        (advance chunk.length now)
        (advance_key chunk.length now)).staged? row.id =
          some (content.take (row.offset + chunk.length)) := by
      refine (staged?_writeStaging).trans ?_
      rw [if_pos rfl, hfile, Option.map_some, take_add, ← hsplit, take_left]
    have hchunking' : IsChunking settings chunks (content.drop (row.offset + chunk.length)) := by
      refine ⟨?_, fun chunk' hmem => hchunking.bounded chunk' (mem_cons_of_mem chunk hmem)⟩
      rw [← drop_drop, ← hsplit, drop_left]
    obtain ⟨sent, hsent, hleft⟩ := ih hrow' hstate hisOf' hfile' hchunking'
    refine ⟨sent, ?_, hleft.upload, hleft.file, hleft.bodies, hleft.artifacts⟩
    rw [sendChunks, hsession]
    simp only [hoffset]
    exact hsent

/-! ## Committing -/

/-- An upload that has its manifest is settled. -/
theorem settled_of_recorded {artifact : ArtifactRow} (hrow : row ∈ s.uploads)
    (hstate : row.state = .committed) (hmem : artifact ∈ s.artifacts)
    (hartifact : row.artifactId = some artifact.id) :
    Settled settings s row.id artifact.payload := by
  intro nonce artifactId now interrupted
  have hfound : s.requireUpload row.id = .ok row :=
    requireUpload_eq_ok.mpr ⟨hrow, rfl⟩
  have hcommitted : s.committable row.id = .ok (.inl artifact.payload) := by
    simp only [committable, hfound, ok_bind, if_pos hstate, hartifact,
      Option.bind_some, artifact?_eq_some.mpr ⟨hmem, rfl⟩]
    rfl
  simp only [commitUpload, hcommitted]

theorem committable_staging (hrow : row ∈ s.uploads) (hstate : row.state = .staging) :
    s.committable row.id = .ok (.inr row) := by
  have hfound : s.requireUpload row.id = .ok row :=
    requireUpload_eq_ok.mpr ⟨hrow, rfl⟩
  have hnot : row.state ≠ .committed := by
    rw [hstate]
    decide
  simp only [committable, hfound, ok_bind, if_neg hnot, Option.bind_none,
    refuseIf_of_not (not_not.mpr hstate)]
  rfl

/-- Where the whole content of an upload is. -/
inductive Whole (s : ArtifactStore) (id : Uuid) (content : Bytes) : Prop where
  | file (h : s.staged? id = some content)
  | body (hfile : s.staged? id = none)
      (hbody : s.bodies.content? (.body ⟨content⟩) = some content)

/-- The body of an upload whose content passes the inspector is stored. -/
theorem storeBody_ok (now : DateTime) {nonce : Uuid} (hisOf : row.IsOf content)
    (hinspected : inspect settings content = .ok ()) (hhonest : BodiesHonest s.bodies)
    (hfresh : s.bodies.content? (.temporary ⟨content⟩ nonce) = none)
    (hwhole : Whole s row.id content) :
    ∃ stored, s.storeBody settings row nonce now none = (.ok (), stored) ∧
      stored.uploads = s.uploads ∧ stored.artifacts = s.artifacts := by
  cases hwhole with
  | body hfile hbody =>
    refine ⟨s, ?_, rfl, rfl⟩
    have hexisting : s.requireExistingCommittedBlob row = .ok () := by
      simp only [requireExistingCommittedBlob, hisOf.digest, DigestText.storageRef,
        BodyStore.observe, StorageRef.digest, ok_bind, hbody, Option.map_some, bind_eq_ok,
        require_eq_ok, pure_eq_ok, refuseIf_eq_ok, not_not]
      exact ⟨_, rfl, _, rfl, rfl, hisOf.size.symm⟩
    simp only [storeBody, hfile, hexisting]
  | file hfile =>
    obtain ⟨copied, hcopied⟩ := stageBody_ok settings.hexdigest hfresh
    have hcopiedHonest : BodiesHonest copied :=
      hhonest.of_content fun _ => stageBody_content _ hcopied
    obtain ⟨linked, hlinked⟩ : ∃ linked, copied.linkBody settings.hexdigest content
        (.canonical ⟨content⟩) content.length = .ok linked := linkBody_ok _ hcopiedHonest
    refine ⟨unlinkStaging { s with
      bodies := linked.unlinkTemporary (.canonical ⟨content⟩) nonce } row.id, ?_, rfl, rfl⟩
    simp only [storeBody, hfile, publish, hinspected, hisOf.digest,
      hisOf.size, hcopied, publishCopied, hlinked, reduceCtorEq, if_false]

/-- **An acceptable upload whose whole content is there commits.** -/
theorem commits_ok (hrow : row ∈ s.uploads) (hstate : row.state = .staging)
    (hisOf : row.IsOf content)
    (hacceptable : Acceptable settings content row.metadata.sensitivity row.metadata.retention)
    (hhonest : BodiesHonest s.bodies) (hwhole : Whole s row.id content) :
    Commits settings s row.id content := by
  intro now nonce artifactId hfresh
  obtain ⟨stored, hstored, huploads, hartifacts⟩ := storeBody_ok now hisOf
    hacceptable.inspected hhonest (hfresh.temporary ⟨content⟩) hwhole
  have hrow' : row ∈ stored.uploads := huploads ▸ hrow
  obtain ⟨manifest, hmanifest, hid, hdigest, hsize⟩ :=
    manifestOf_ok hisOf hacceptable artifactId now
  have hfree : ∀ artifact ∈ stored.artifacts, ¬ Keyed.clash (Keyed.key artifact)
      (Keyed.key (artifactRow manifest)) := by
    intro artifact hmem hclash
    have hsame : artifact.id = artifactId := by
      simpa [Keyed.clash, Keyed.key, artifactRow, hid] using hclash
    have hfound := artifact?_eq_some.mpr ⟨hartifacts ▸ hmem, hsame⟩
    rw [hfresh.artifact] at hfound
    cases hfound
  obtain ⟨artifacts, hinsert⟩ := Table.exists_insert hfree
  have hrecorded : stored.recordManifest settings row artifactId now = .ok (manifest,
      { stored with artifacts := artifacts }.updateUpload row.id
        (commitRow artifactId now) (commitRow_key artifactId now)) :=
    (recordManifest_spec hrow' hstate).mpr ⟨manifest, hmanifest, artifacts, hinsert, rfl⟩
  have hcommitted : s.commitUpload settings row.id nonce artifactId now none = (.ok manifest,
      { stored with artifacts := artifacts }.updateUpload row.id
        (commitRow artifactId now) (commitRow_key artifactId now)) := by
    simp only [commitUpload, committable_staging hrow hstate, hstored, reduceCtorEq,
      if_false, hrecorded]
  refine ⟨manifest, _, hcommitted, hdigest, hsize, ?_, ?_⟩
  · exact (Table.insert_eq_some.mp hinsert).1.trans (by rw [hartifacts])
  · have hrow'' : commitRow artifactId now row ∈
        ({ stored with artifacts := artifacts }.updateUpload row.id
          (commitRow artifactId now)
          (commitRow_key artifactId now)).uploads :=
      mem_updateUpload.mpr ⟨row, hrow', if_pos rfl⟩
    exact settled_of_recorded hrow'' rfl ((Table.mem_of_insert hinsert).mpr (.inr rfl))
      (by rw [commitRow, artifactRow, hid])

/-! ## Where the file ends at the cursor -/

theorem upload_ok (hrow : row ∈ s.uploads) (hisOf : row.IsOf content) : ∃ session,
    s.upload row.id = .ok session ∧ session.offset = row.offset := by
  have hfound : s.requireUpload row.id = .ok row :=
    requireUpload_eq_ok.mpr ⟨hrow, rfl⟩
  obtain ⟨session, hsession, hoffset⟩ := uploadModel_ok hisOf
  exact ⟨session, by rw [upload, hfound, ok_bind, hsession], hoffset⟩

/-- **A staging upload can be completed.** -/
theorem CursorHolds.resumable (h : CursorHolds settings s) (hrow : row ∈ s.uploads)
    (hstate : row.state = .staging) (hisOf : row.IsOf content) :
    Resumable settings s row content := by
  obtain ⟨whole, hholds⟩ := h.uploads row hrow
  obtain rfl : content = whole := by
    have hdigest := hisOf.digest.symm.trans hholds.isOf.digest
    simpa using hdigest
  obtain ⟨session, hsession, hoffset⟩ := upload_ok hrow hisOf
  refine ⟨exists_chunking fun hrest => hholds.acceptable.chunk ?_, fun chunks hchunking now => ?_⟩
  · rintro rfl
    exact hrest drop_nil
  · have hrest : sendRest settings s row.id now chunks =
        sendChunks settings row.id now chunks row.offset s := by
      rw [sendRest, hsession, ok_bind, hoffset]
    rw [hrest]
    cases hholds.staged hstate with
    | file hfile =>
      obtain ⟨sent, hsent, hleft⟩ := sendChunks_ok now hrow hstate hisOf hfile hchunking
      obtain ⟨row', hrow', hid, hstate', hisOf', hmetadata⟩ := hleft.upload
      refine ⟨sent, hsent, ?_⟩
      rw [← hid]
      refine commits_ok hrow' hstate' hisOf' (hmetadata ▸ hholds.acceptable)
        (hleft.bodies ▸ h.honest) (.file ?_)
      rw [hid, hleft.file]
    | published hfile hdone hbody =>
      have hnil : chunks = [] := by
        cases chunks with
        | nil => rfl
        | cons chunk chunks =>
          have hflatten : chunk ++ chunks.flatten = content.drop row.offset := hchunking.flatten
          rw [hdone, drop_length] at hflatten
          exact absurd (append_eq_nil_iff.mp hflatten).1
            (hchunking.bounded chunk mem_cons_self).1
      subst hnil
      exact ⟨s, rfl, commits_ok hrow hstate hisOf hholds.acceptable h.honest (.body hfile hbody)⟩

/-- No staging upload is found to differ from its cursor. -/
theorem CursorHolds.not_foundDiffering (h : CursorHolds settings s) {offset : Nat} :
    ¬ FoundDiffering settings s id offset chunk row := by
  intro hfound
  obtain ⟨hrow, rfl⟩ := hfound.addressed
  obtain ⟨content, hholds⟩ := h.uploads row hrow
  cases hholds.staged hfound.cursor.1 with
  | file hfile =>
    refine hfound.differing ⟨_, hfile, ?_⟩
    rw [length_take, Nat.min_eq_left hholds.offset_le]
  | published _ hdone _ =>
    have hle := hfound.size
    have hpos := length_pos_iff.mpr hfound.bounded.1
    rw [hholds.isOf.size] at hle
    omega

/-- **What an operation of an unbroken run leaves.** -/
theorem CursorHolds.resumes {op : UploadOperation} (h : CursorHolds settings s)
    (hstep : CursorHolds settings (uploadStep settings s op)) : Resumes settings s op where
  staging _ hrow hstate _ hisOf := hstep.resumable hrow hstate hisOf
  committed row hrow hstate content hisOf := by
    obtain ⟨whole, hholds⟩ := hstep.uploads row hrow
    obtain rfl : content = whole := by
      have hdigest := hisOf.digest.symm.trans hholds.isOf.digest
      simpa using hdigest
    obtain ⟨artifact, hmem, hartifact, hdigest, hsize⟩ := hholds.recorded hstate
    exact ⟨artifact.payload, hdigest, hsize, settled_of_recorded hrow hstate hmem hartifact⟩
  differing _ _ _ _ _ _ _ hfound := absurd hfound h.not_foundDiffering

/-! ## Where it does not -/

/-- **An append that raises leaves everything as it was**, also the state it has set. -/
theorem appendChunk_of_error {offset : Nat} {interrupted : Option Nat} {e : Raised}
    (h : s.admitChunk settings id offset chunk = .error e) :
    s.appendChunk settings id offset chunk now interrupted = (.error e, s) := by
  simp only [appendChunk, h]

/-- What a client has to send first is admitted. -/
theorem admitted_of_sendRest {sent : ArtifactStore} (hrow : row ∈ s.uploads)
    (hisOf : row.IsOf content) (h : sendRest settings s row.id now (chunk :: chunks) = .ok sent) :
    ∃ staged, s.staged? row.id = some staged ∧ staged.length = row.offset := by
  obtain ⟨session, hsession, hoffset⟩ := upload_ok hrow hisOf
  rw [sendRest, hsession, ok_bind, hoffset, sendChunks] at h
  cases hadmitted : s.admitChunk settings row.id row.offset chunk with
  | error e =>
    rw [appendChunk_of_error hadmitted] at h
    cases h
  | ok admitted =>
    obtain ⟨-, ⟨hmem, hid⟩, -, -, hstaged⟩ := admitChunk_eq_ok.mp hadmitted
    rwa [uploads_inj hmem hrow hid] at hstaged

/-- **An append that is interrupted once it has written** leaves an upload that cannot be
completed. -/
theorem not_resumable_of_written {written : Nat}
    (hadmitted : s.admitChunk settings id row.offset chunk = .ok row) (hwritten : written ≠ 0)
    (hisOf : row.IsOf content) :
    ¬ Resumable settings (s.writeStaging id (chunk.take written)) row content := by
  obtain ⟨hchunk, ⟨hrow, rfl⟩, ⟨hstate, -⟩, hle, staged, hstaged, hlength⟩ :=
    admitChunk_eq_ok.mp hadmitted
  have hpos := length_pos_iff.mpr hchunk.1
  rw [hisOf.size] at hle
  rintro ⟨⟨chunks, hchunking⟩, hsend⟩
  cases chunks with
  | nil =>
    have hlength : content.length - row.offset = 0 := by
      rw [← length_drop, ← hchunking.flatten]
      rfl
    omega
  | cons first chunks =>
    obtain ⟨sent, hsent, -⟩ := hsend (first :: chunks) hchunking ⟨0, 0⟩
    obtain ⟨after, hafter, hafterLength⟩ := admitted_of_sendRest
      (s := s.writeStaging row.id (chunk.take written)) hrow hisOf hsent
    rw [staged?_writeStaging, if_pos rfl, hstaged, Option.map_some,
      Option.some.injEq] at hafter
    rw [← hafter, length_append, length_take] at hafterLength
    omega

/-- There are names no temporary file and no artifact has. -/
theorem exists_fresh (s : ArtifactStore) : ∃ nonce artifactId, Fresh s nonce artifactId := by
  let nonces := s.bodies.rows.filterMap fun file => match file.name with
    | .temporary _ nonce => some nonce
    | _ => none
  obtain ⟨nonce, hnonce⟩ := Infinite.exists_notMem_finset nonces.toFinset
  obtain ⟨artifactId, hartifactId⟩ :=
    Infinite.exists_notMem_finset (s.artifacts.rows.map (·.id)).toFinset
  refine ⟨nonce, artifactId, fun digest => ?_, ?_⟩
  · cases hcontent : s.bodies.content? (.temporary digest nonce) with
    | none => rfl
    | some content =>
      refine absurd (mem_toFinset.mpr (mem_filterMap.mpr ?_)) hnonce
      exact ⟨_, mem_iff_content.mpr hcontent, rfl⟩
  · cases hartifact : s.artifact? artifactId with
    | none => rfl
    | some artifact =>
      obtain ⟨hmem, hid⟩ := artifact?_eq_some.mp hartifact
      exact absurd (mem_toFinset.mpr (mem_map.mpr ⟨artifact, hmem, hid⟩)) hartifactId

theorem manifestOf_texts {artifactId : Uuid} {manifest : ArtifactManifest}
    (h : manifestOf settings row artifactId now = .ok manifest) :
    row.metadata.sensitivity ≠ "" ∧ row.metadata.retention ≠ "" := by
  unfold manifestOf at h
  split at h
  · split at h
    · rename_i htexts
      exact htexts.2
    · cases h
  · cases h

/-- **An upload that commits its whole content is acceptable.** -/
theorem acceptable_of_commits (hrow : row ∈ s.uploads) (hstate : row.state = .staging)
    (hisOf : row.IsOf content) (hhonest : BodiesHonest s.bodies)
    (hfile : s.staged? row.id = some content) (h : Commits settings s row.id content) :
    inspect settings content = .ok () ∧ row.metadata.sensitivity ≠ "" ∧
      row.metadata.retention ≠ "" := by
  obtain ⟨nonce, artifactId, hfresh⟩ := exists_fresh s
  obtain ⟨manifest, committed, hcommitted, -⟩ := h ⟨0, 0⟩ nonce artifactId hfresh
  simp only [commitUpload, committable_staging hrow hstate] at hcommitted
  have hinspected : inspect settings content = .ok () := by
    cases hinspected : inspect settings content with
    | ok u => rfl
    | error e =>
      simp only [storeBody, hfile, publish, hinspected] at hcommitted
      cases hcommitted
  obtain ⟨stored, hstored, huploads, -⟩ := storeBody_ok ⟨0, 0⟩ hisOf hinspected hhonest
    (hfresh.temporary ⟨content⟩) (.file hfile)
  simp only [hstored, reduceCtorEq, if_false] at hcommitted
  have hrow' : row ∈ stored.uploads := huploads ▸ hrow
  cases hrecorded : stored.recordManifest settings row artifactId ⟨0, 0⟩ with
  | error e =>
    simp only [hrecorded] at hcommitted
    cases hcommitted
  | ok outcome =>
    obtain ⟨made, hmade, -⟩ := (recordManifest_spec hrow' hstate).mp hrecorded
    exact ⟨hinspected, manifestOf_texts hmade⟩

/-- The upload that is opened is there, with an empty file. -/
theorem openUpload_ok {request : ArtifactStore.UploadRequest} {session : UploadSession}
    (h : (s.openUpload settings id request now).1 = .ok session) :
    uploadRow id request now ∈ (s.openUpload settings id request now).2.uploads ∧
      (s.openUpload settings id request now).2.staged? id = some [] ∧
      (s.openUpload settings id request now).2.bodies = s.bodies := by
  unfold openUpload at h ⊢
  cases hvalid : s.validateRequest settings request with
  | error e => simp [hvalid] at h
  | ok u =>
    simp only [hvalid] at h ⊢
    cases hcreated : s.createStaging id with
    | error e => simp [hcreated] at h
    | ok staged =>
      simp only [hcreated] at h ⊢
      have hfile := staged?_createStaging id hcreated
      rw [if_pos rfl] at hfile
      simp only [createStaging, bind_eq_ok, require_eq_ok, pure_eq_ok] at hcreated
      obtain ⟨staging, -, rfl⟩ := hcreated
      cases hrecorded : recordUpload { s with staging := staging } id request now with
      | error e => simp [hrecorded] at h
      | ok recorded =>
        simp only [recordUpload, bind_eq_ok, require_eq_ok, pure_eq_ok] at hrecorded
        obtain ⟨uploads, hinsert, rfl⟩ := hrecorded
        exact ⟨(Table.mem_of_insert hinsert).mpr (.inr rfl), hfile, rfl⟩

/-- **An upload that can be completed once it is opened is acceptable.** -/
theorem acceptable_of_opened {request : ArtifactStore.UploadRequest} {session : UploadSession}
    (h : CursorHolds settings s) (hopened : (s.openUpload settings id request now).1 = .ok session)
    (hisOf : (uploadRow id request now).IsOf content)
    (hresumable : Resumable settings (s.openUpload settings id request now).2
      (uploadRow id request now) content) :
    Acceptable settings content request.sensitivity request.retention := by
  obtain ⟨hrow, hfile, hbodies⟩ := openUpload_ok hopened
  obtain ⟨⟨chunks, hchunking⟩, hsend⟩ := hresumable
  obtain ⟨sent, hsent, hcommits⟩ := hsend chunks hchunking ⟨0, 0⟩
  obtain ⟨session', hsession', hoffset⟩ := upload_ok hrow hisOf
  rw [sendRest, hsession', ok_bind, hoffset] at hsent
  obtain ⟨sent', hsent', hleft⟩ := sendChunks_ok ⟨0, 0⟩ hrow rfl hisOf hfile hchunking
  obtain rfl := Except.ok.inj (hsent.symm.trans hsent')
  obtain ⟨row', hrow', hid, hstate, hisOf', hmetadata⟩ := hleft.upload
  have hhonest : BodiesHonest sent.bodies := by
    rw [hleft.bodies, hbodies]
    exact h.honest
  obtain ⟨hinspected, hsensitivity, hretention⟩ := acceptable_of_commits hrow' hstate hisOf' hhonest
    (by rw [hid, hleft.file]) (by rw [hid]; exact hcommits)
  rw [hmetadata] at hsensitivity hretention
  refine ⟨hinspected, hsensitivity, hretention, fun hne => ?_⟩
  cases chunks with
  | nil =>
    have hnil : content = [] := hchunking.flatten.symm
    exact absurd hnil hne
  | cons chunk chunks =>
    obtain ⟨hchunk, hle⟩ := hchunking.bounded chunk mem_cons_self
    exact Nat.lt_of_lt_of_le (length_pos_iff.mpr hchunk) hle

/-- **The uploads are resumable after an operation exactly when it breaks none.** -/
theorem resumes_iff {op : UploadOperation} (h : CursorHolds settings s)
    (hfaithful : Faithful s op) : Resumes settings s op ↔ Unbroken settings s op := by
  refine ⟨fun hresumes => ?_, fun hunbroken =>
    h.resumes (uploadStep_holds h hfaithful hunbroken)⟩
  cases op with
  | openUpload id request now =>
    rintro ⟨session, hopened⟩ content hdigest
    obtain ⟨whole, hwhole, hsize, hmedia⟩ := hfaithful
    obtain rfl : content = whole := by
      have hsame := hdigest.symm.trans hwhole
      simpa using hsame
    have hisOf : (uploadRow id request now).IsOf content :=
      ⟨hdigest, by simp [uploadRow, hsize], hmedia⟩
    exact acceptable_of_opened h hopened hisOf
      (hresumes.staging _ (openUpload_ok hopened).1 rfl content hisOf)
  | appendChunk id offset chunk now interrupted =>
    cases interrupted with
    | none => trivial
    | some written =>
      intro row hadmitted
      by_contra hwritten
      obtain ⟨-, ⟨hrow, rfl⟩, ⟨hstate, rfl⟩, -⟩ := admitChunk_eq_ok.mp hadmitted
      obtain ⟨content, hholds⟩ := h.uploads row hrow
      refine not_resumable_of_written hadmitted hwritten hholds.isOf ?_
      have hstep : uploadStep settings s (.appendChunk row.id row.offset chunk now (some written)) =
            s.writeStaging row.id (chunk.take written) := by
        simp only [uploadStep, appendChunk, hadmitted]
      have hresumable := hresumes.staging
      rw [hstep] at hresumable
      exact hresumable row hrow hstate content hholds.isOf
  | commitUpload => trivial

end

/-! ## Every run -/

/-- **Uploads are resumable from the durable cursor** in exactly the runs in which no upload is
opened that cannot be committed and no append is interrupted once it has written. -/
theorem resumable_iff (settings : ArtifactSettings) (ops : List UploadOperation)
    (hfaithful : Along (uploadStep settings) Faithful .empty ops) :
    Along (uploadStep settings) (Resumes settings) .empty ops ↔
      Along (uploadStep settings) (Unbroken settings) .empty ops :=
  Along.congr_of_guarded (I := CursorHolds settings)
    (fun _ _ h hfaithful hunbroken => uploadStep_holds h hfaithful hunbroken)
    (fun _ _ h hfaithful => resumes_iff h hfaithful)
    ⟨fun _ _ h => absurd (mem_iff_content.mpr h) Table.not_mem_empty,
      fun _ h => absurd h Table.not_mem_empty⟩ hfaithful

/-- An upload of two bytes. -/
def twoBytes : ArtifactStore.UploadRequest where
  expectedSize := 2
  expectedDigest := .canonical ⟨[1, 2]⟩
  mediaType := "text/plain"
  provenance := .unknown

/-- The first chunk of an upload is written, and the cursor is not advanced. -/
def firstInterrupted : List UploadOperation :=
  [.openUpload 1 twoBytes ⟨0, 0⟩, .appendChunk 1 0 [1] ⟨0, 0⟩ (some 1)]

theorem resumable_iff_interrupted :
    Along (uploadStep plainSettings) Faithful .empty firstInterrupted ∧
      (Along (uploadStep plainSettings) (Resumes plainSettings) .empty firstInterrupted ↔
        Along (uploadStep plainSettings) (Unbroken plainSettings) .empty firstInterrupted) := by
  have hrows : ∀ row ∈ (uploadStep plainSettings .empty (.openUpload 1 twoBytes ⟨0, 0⟩)).uploads,
      row.expectedDigest = .canonical ⟨[1, 2]⟩ := by decide +kernel
  have hfaithful : Along (uploadStep plainSettings) Faithful .empty firstInterrupted := by
    refine ⟨⟨[1, 2], rfl, rfl, by decide⟩, ?_, trivial⟩
    intro row hrow _ whole hwhole
    obtain rfl : [1, 2] = whole := by simpa using (hrows row hrow).symm.trans hwhole
    rfl
  exact ⟨hfaithful, resumable_iff plainSettings firstInterrupted hfaithful⟩

/-- A client that sends the chunk again is refused, and the upload stays staging. -/
theorem interrupted_upload_sticks : ¬ Along (uploadStep plainSettings) (Resumes plainSettings)
    .empty (firstInterrupted ++ [.appendChunk 1 0 [1] ⟨0, 0⟩ none]) := by
  intro h
  have hresumes := (Along.append.mp h).2.1
  have hstaged : (run (uploadStep plainSettings) .empty firstInterrupted).staged? 1 =
      some [1] := by decide +kernel
  refine hresumes.differing 1 0 [1] ⟨0, 0⟩ none (uploadRow 1 twoBytes ⟨0, 0⟩) rfl
    ⟨by decide, ⟨by decide +kernel, rfl⟩, ⟨rfl, rfl⟩, by decide, ?_⟩
    (uploadRow 1 twoBytes ⟨0, 0⟩) (by decide +kernel) rfl rfl
  rintro ⟨staged, hfound, hlength⟩
  obtain rfl := Option.some.inj (hstaged.symm.trans hfound)
  cases hlength

end Mishkan.Artifacts
