import Mishkan.Artifacts.Store

/-!
# Artifacts/Uploads — staging a content and committing it

A call may end before it is done, by a crash of the process or an error of the system; what it has
done to the files and committed to the tables then stays (`Outcome`).  A transaction that ends in an
error leaves the tables as they were.
-/

namespace Mishkan.Artifacts

open Refusal

/-- How a call ends, and what it leaves. -/
abbrev Outcome (α : Type) := Except Raised α × ArtifactStore

variable (settings : ArtifactSettings)

namespace ArtifactStore

/-! ## Opening -/

structure UploadRequest where
  expectedSize : Int
  expectedDigest : DigestText
  mediaType : String
  provenance : ArtifactProvenance
  sensitivity : String := "internal"
  retention : String := "run"
deriving DecidableEq

def validateDigest : DigestText → Except Raised Unit
  | .malformed _ => .error <| fault .artifact "artifact digest is invalid"
  | _ => .ok ()

/-- A source of a derived artifact is available. -/
def requireSource (s : ArtifactStore) (id : Uuid) : Except Raised Unit := do
  let source ← s.manifest id
  refuseIf (source.lifecycle ≠ .available) <|
    fault .artifact "derived artifact source is unavailable"
      [("artifact", .str (artifactReference id)), ("lifecycle", .str source.lifecycle.value)]

def validateProvenance (s : ArtifactStore) (provenance : ArtifactProvenance) :
    Except Raised Unit :=
  provenance.sourceArtifacts.forM s.requireSource

def requireSize (request : UploadRequest) : Except Raised Unit :=
  refuseIf (request.expectedSize < 0 ∨ (settings.maxArtifactBytes : Int) < request.expectedSize) <|
    fault .artifact "artifact upload size is outside the configured bound"
      [("size_bytes", .int request.expectedSize), ("limit", .int settings.maxArtifactBytes)]

def validateRequest (s : ArtifactStore) (request : UploadRequest) : Except Raised Unit := do
  validateDigest request.expectedDigest
  s.validateProvenance request.provenance
  requireSize settings request

/-- Create the empty staging file of an upload. -/
def createStaging (s : ArtifactStore) (id : Uuid) : Except Raised ArtifactStore := do
  let staging ← require (s.staging.insert ⟨id, []⟩) .osError
  return { s with staging := staging }

/-- The row of a new upload. -/
def uploadRow (id : Uuid) (request : UploadRequest) (now : DateTime) : ArtifactUploadRow where
  id := id
  expectedDigest := request.expectedDigest
  expectedSize := request.expectedSize.toNat
  mediaType := request.mediaType
  offset := 0
  state := .staging
  metadata := ⟨request.provenance, request.sensitivity, request.retention⟩
  createdAt := now
  updatedAt := now

def recordUpload (s : ArtifactStore) (id : Uuid) (request : UploadRequest) (now : DateTime) :
    Except Raised ArtifactStore := do
  let uploads ← require (s.uploads.insert (uploadRow id request now)) .integrityError
  return { s with uploads := uploads }

/-- An upload as its client is shown it; one whose digest or media type is not well-formed is
shown to none. -/
def uploadModel (row : ArtifactUploadRow) : Except Raised UploadSession :=
  match row.expectedDigest with
  | .canonical digest =>
    if h : row.mediaType ≠ "" then .ok
      { uploadId := row.id
        expectedSize := row.expectedSize
        expectedDigest := digest
        mediaType := row.mediaType
        offset := row.offset
        lifecycle := row.state.observed
        createdAt := row.createdAt
        mediaTypeNonempty := h }
    else .error <| .valueError "media_type should have at least 1 character"
  | _ => .error <| .valueError "expected_digest should match its pattern"

def openUpload (s : ArtifactStore) (id : Uuid) (request : UploadRequest) (now : DateTime) :
    Outcome UploadSession :=
  match s.validateRequest settings request with
  | .error e => (.error e, s)
  | .ok () =>
    match s.createStaging id with
    | .error e => (.error e, s)
    | .ok staged =>
      match staged.recordUpload id request now with
      | .error e => (.error e, staged.unlinkStaging id)
      | .ok recorded => (uploadModel (uploadRow id request now), recorded)

def upload (s : ArtifactStore) (id : Uuid) : Except Raised UploadSession := do
  let row ← s.requireUpload id
  uploadModel row

/-! ## Chunks -/

/-- A chunk is admitted at the cursor of a staging upload whose file ends there.  Where the file
does not, the row is set to uncertain in the transaction that the error rolls back. -/
def admitChunk (s : ArtifactStore) (id : Uuid) (offset : Nat) (content : Bytes) :
    Except Raised ArtifactUploadRow := do
  refuseIf (content = [] ∨ settings.maxChunkBytes < content.length) <|
    fault .artifact "artifact chunk is empty or exceeds the configured backpressure bound"
      [("size_bytes", .int content.length), ("limit", .int settings.maxChunkBytes)]
  let row ← s.requireUpload id
  refuseIf (row.state ≠ .staging ∨ offset ≠ row.offset) <|
    fault .revisionMismatch "artifact chunk offset does not match the durable upload cursor"
      [("expected_offset", .int row.offset), ("received_offset", .int offset)]
  refuseIf (row.expectedSize < row.offset + content.length) <|
    fault .artifact "artifact chunk exceeds expected size"
  let staged ← require (s.staged? id) <|
    fault .artifact "artifact staging body could not be opened without following links"
  refuseIf (staged.length ≠ row.offset) <|
    fault .artifact "artifact staging body differs from its durable cursor"
      [("durable_offset", .int row.offset), ("observed_size", .int staged.length)]
  return row

/-- The row of an upload whose cursor has advanced. -/
def advance (size : Nat) (now : DateTime) (row : ArtifactUploadRow) : ArtifactUploadRow :=
  { row with offset := row.offset + size, updatedAt := now }

theorem advance_key (size : Nat) (now : DateTime) (row : ArtifactUploadRow) :
    Keyed.key (advance size now row) = Keyed.key row := rfl

/-- Append a chunk.  A call that is interrupted, by a crash or by a write that is short or not
synchronized, has written so many bytes of the chunk and has not advanced the cursor. -/
def appendChunk (s : ArtifactStore) (id : Uuid) (offset : Nat) (content : Bytes) (now : DateTime)
    (interrupted : Option Nat) : Outcome UploadSession :=
  match s.admitChunk settings id offset content with
  | .error e => (.error e, s)
  | .ok row =>
    match interrupted with
    | some written => (.error .osError, s.writeStaging id (content.take written))
    | none =>
      match uploadModel (advance content.length now row) with
      | .error e => (.error e, s.writeStaging id content)
      | .ok session => (.ok session, (s.writeStaging id content).updateUpload id
          (advance content.length now) (advance_key content.length now))

/-! ## Commitment -/

/-- The manifest of a committed upload, or the row of one that can be committed. -/
def committable (s : ArtifactStore) (id : Uuid) :
    Except Raised (ArtifactManifest ⊕ ArtifactUploadRow) := do
  let row ← s.requireUpload id
  match (if row.state = .committed then row.artifactId else none).bind s.artifact? with
  | some artifact => return .inl artifact.payload
  | none =>
    refuseIf (row.state ≠ .staging) <| fault .artifact "artifact upload is not committable"
    return .inr row

/-- The content passes the inspector, if there is one. -/
def inspect (content : Bytes) : Except Raised Unit :=
  match settings.inspector with
  | some inspector => inspector content
  | none => .ok ()

/-- The body a commitment without a staging file is about is stored. -/
def requireExistingCommittedBlob (s : ArtifactStore) (row : ArtifactUploadRow) :
    Except Raised Unit := do
  let observed ← require (← s.bodies.observe row.expectedDigest.storageRef) <|
    fault .artifact "artifact staging body and committed CAS body are unavailable"
  refuseIf (¬ (.canonical observed.digest = row.expectedDigest ∧
      observed.sizeBytes = row.expectedSize)) <|
    fault .artifact "artifact CAS recovery body failed size or digest verification"

def abortRow (now : DateTime) (row : ArtifactUploadRow) : ArtifactUploadRow :=
  { row with state := .aborted, updatedAt := now }

theorem abortRow_key (now : DateTime) (row : ArtifactUploadRow) :
    Keyed.key (abortRow now row) = Keyed.key row := rfl

/-- Abort a staging upload whose content holds a secret, and remove its file. -/
def rejectSecretUpload (s : ArtifactStore) (row : ArtifactUploadRow) (now : DateTime) :
    ArtifactStore :=
  if row.state = .staging then
    (s.updateUpload row.id (abortRow now) (abortRow_key now)).unlinkStaging row.id
  else s.unlinkStaging row.id

/-- The failure of an inspection, and what it does to the upload. -/
def refuseStaged (s : ArtifactStore) (row : ArtifactUploadRow) (now : DateTime) (e : Raised) :
    ArtifactStore :=
  if e.envelope?.map (·.code) = some .secretContent then s.rejectSecretUpload row now else s

/-- The manifest of an upload. -/
def manifestOf (row : ArtifactUploadRow) (artifactId : Uuid) (now : DateTime) :
    Except Raised ArtifactManifest :=
  match row.expectedDigest with
  | .canonical digest =>
    if h : row.mediaType ≠ "" ∧ row.metadata.sensitivity ≠ "" ∧ row.metadata.retention ≠ "" then .ok
      { id := artifactId
        digest := digest
        sizeBytes := row.expectedSize
        declaredMediaType := row.mediaType
        provenance := row.metadata.provenance
        sensitivity := row.metadata.sensitivity
        retention := row.metadata.retention
        validation := .integrityVerified
        lifecycle := .available
        facts :=
          { integrity := .passed
            securityScan := if settings.inspector.isSome then .passed else .notEvaluated
            availability := .available }
        createdAt := now
        mediaTypeNonempty := h.1
        sensitivityNonempty := h.2.1
        retentionNonempty := h.2.2 }
    else .error <| .valueError "manifest text should have at least 1 character"
  | _ => .error <| .valueError "digest should match its pattern"

/-- The row of a new artifact. -/
def artifactRow (manifest : ArtifactManifest) : ArtifactRow where
  id := manifest.id
  digest := manifest.digest
  sizeBytes := manifest.sizeBytes
  lifecycle := manifest.lifecycle
  storageRef := .body manifest.digest
  payload := manifest
  createdAt := manifest.createdAt

def commitRow (artifactId : Uuid) (now : DateTime) (row : ArtifactUploadRow) : ArtifactUploadRow :=
  { row with state := .committed, artifactId := some artifactId, updatedAt := now }

theorem commitRow_key (artifactId : Uuid) (now : DateTime) (row : ArtifactUploadRow) :
    Keyed.key (commitRow artifactId now row) = Keyed.key row := rfl

/-- The upload is the one that was verified. -/
def SameUpload (row verified : ArtifactUploadRow) : Prop :=
  row.state = .staging ∧ row.expectedDigest = verified.expectedDigest
    ∧ row.expectedSize = verified.expectedSize ∧ row.mediaType = verified.mediaType
    ∧ row.metadata = verified.metadata

instance (row verified : ArtifactUploadRow) : Decidable (SameUpload row verified) :=
  inferInstanceAs (Decidable (_ ∧ _))

/-- Record the manifest of an upload whose body is stored. -/
def recordManifest (s : ArtifactStore) (verified : ArtifactUploadRow) (artifactId : Uuid)
    (now : DateTime) : Except Raised (ArtifactManifest × ArtifactStore) := do
  let row ← s.requireUpload verified.id
  match (if row.state = .committed then row.artifactId else none).bind s.artifact? with
  | some artifact => return (artifact.payload, s)
  | none =>
    refuseIf (¬ SameUpload row verified) <|
      fault .revisionMismatch "artifact upload changed while content was being verified"
    let manifest ← manifestOf settings verified artifactId now
    let artifacts ← require (s.artifacts.insert (artifactRow manifest)) .integrityError
    return (manifest, { s with artifacts := artifacts }.updateUpload verified.id
      (commitRow artifactId now) (commitRow_key artifactId now))

/-- Where a commitment is interrupted: once so much of the body is copied, once it is linked, or
published, or once the staging file is gone. -/
inductive CommitPoint where
  | copied (written : Nat) | linked | published | unlinked
deriving DecidableEq

/-- Link the copied body of an upload, and remove its staging file, up to a point. -/
def publishCopied (s : ArtifactStore) (row : ArtifactUploadRow) (staged : Bytes)
    (copied : BodyStore) (nonce : Uuid) (interrupted : Option CommitPoint) : Outcome Unit :=
  match copied.linkBody settings.hexdigest staged row.expectedDigest row.expectedSize with
  | .error e => (.error e, { s with bodies := copied.unlinkTemporary row.expectedDigest nonce })
  | .ok linked =>
    if interrupted = some .linked then (.error .osError, { s with bodies := linked })
    else
      let s := { s with bodies := linked.unlinkTemporary row.expectedDigest nonce }
      if interrupted = some .published then (.error .osError, s)
      else (.ok (), s.unlinkStaging row.id)

/-- Publish the staged content of an upload, up to a point. -/
def publish (s : ArtifactStore) (row : ArtifactUploadRow) (staged : Bytes) (nonce : Uuid)
    (now : DateTime) (interrupted : Option CommitPoint) : Outcome Unit :=
  match inspect settings staged with
  | .error e => (.error e, s.refuseStaged row now e)
  | .ok () =>
    match s.bodies.stageBody settings.hexdigest staged row.expectedDigest row.expectedSize
        nonce with
    | .error e => (.error e, s)
    | .ok copied =>
      match interrupted with
      | some (.copied written) =>
        (.error .osError,
          { s with bodies := s.bodies.copyPart staged written row.expectedDigest nonce })
      | _ => s.publishCopied settings row staged copied nonce interrupted

/-- Store the body of an upload: publish its staged content, or find it stored. -/
def storeBody (s : ArtifactStore) (row : ArtifactUploadRow) (nonce : Uuid) (now : DateTime)
    (interrupted : Option CommitPoint) : Outcome Unit :=
  match s.staged? row.id with
  | some staged => s.publish settings row staged nonce now interrupted
  | none => (s.requireExistingCommittedBlob row, s)

def commitUpload (s : ArtifactStore) (id : Uuid) (nonce artifactId : Uuid) (now : DateTime)
    (interrupted : Option CommitPoint) : Outcome ArtifactManifest :=
  match s.committable id with
  | .error e => (.error e, s)
  | .ok (.inl manifest) => (.ok manifest, s)
  | .ok (.inr row) =>
    match s.storeBody settings row nonce now interrupted with
    | (.error e, s) => (.error e, s)
    | (.ok (), s) =>
      if interrupted = some .unlinked then (.error .osError, s)
      else
        match s.recordManifest settings row artifactId now with
        | .error e => (.error e, s)
        | .ok (manifest, s) => (.ok manifest, s)

/-! ## Abortion -/

/-- The row of an upload that is not committed. -/
def abortable (s : ArtifactStore) (id : Uuid) : Except Raised ArtifactUploadRow := do
  let row ← s.requireUpload id
  refuseIf (row.state = .committed) <|
    fault .artifact "committed artifact upload cannot be aborted"
  return row

end ArtifactStore
end Mishkan.Artifacts
