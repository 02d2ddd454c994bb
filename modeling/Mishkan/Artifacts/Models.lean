import Mishkan.Domain.Errors
import Mishkan.Foundations.Table

/-!
# Artifacts/Models — immutable artifacts, their uploads, and what refers to them

The text a client gives as a digest is the text of one or not; a body is stored under its digest.
A row that is written once with its record carries the record.
-/

namespace Mishkan.Artifacts

/-- The content of a file. -/
abbrev Bytes := List UInt8

/-- An instant with the offset from UTC, in microseconds, it is written with. -/
structure DateTime where
  instant : Instant
  offset : Int := 0
deriving DecidableEq

/-- What is given as a digest: the text of one; a text that only `_validate_digest` accepts, such as
one in upper case; or a text it refuses. -/
inductive DigestText where
  | canonical (digest : Digest Bytes)
  | irregular (text : String)
  | malformed (text : String)
deriving DecidableEq

/-- A name below the root of the bodies: of a body, or of the temporary file of a publication, or a
name that is refused. -/
inductive StorageRef where
  | body (digest : Digest Bytes)
  | temporary (digest : Digest Bytes) (nonce : Uuid)
  | irregular (text : String)
deriving DecidableEq

def DigestText.storageRef : DigestText → StorageRef
  | .canonical digest => .body digest
  | .irregular text => .irregular text
  | .malformed text => .irregular text

/-! ## Artifacts -/

inductive ArtifactLifecycle where
  | staging | validating | available | quarantined | rejected | expired | missing | corrupt
  | tombstoned | deleted
deriving DecidableEq

def ArtifactLifecycle.value : ArtifactLifecycle → String
  | .staging => "staging"
  | .validating => "validating"
  | .available => "available"
  | .quarantined => "quarantined"
  | .rejected => "rejected"
  | .expired => "expired"
  | .missing => "missing"
  | .corrupt => "corrupt"
  | .tombstoned => "tombstoned"
  | .deleted => "deleted"

inductive ArtifactValidation where
  | integrityVerified | partialContent
deriving DecidableEq

inductive ArtifactFactState where
  | notEvaluated | passed | failed
deriving DecidableEq

inductive ArtifactTrust where
  | untrusted | trusted | quarantined
deriving DecidableEq

inductive ArtifactAvailability where
  | available | unavailable
deriving DecidableEq

structure ArtifactFacts where
  integrity : ArtifactFactState := .notEvaluated
  securityScan : ArtifactFactState := .notEvaluated
  trust : ArtifactTrust := .untrusted
  availability : ArtifactAvailability := .unavailable
deriving DecidableEq

structure ArtifactProvenance where
  sourceArtifacts : List Uuid := []
  engine : Option String := none
  content : Json := .null
  derivedByEngine : sourceArtifacts ≠ [] → engine ≠ none
deriving DecidableEq

/-- The provenance of what nothing is known about. -/
def ArtifactProvenance.unknown : ArtifactProvenance where
  derivedByEngine h := absurd rfl h

structure ArtifactManifest where
  id : Uuid
  digest : Digest Bytes
  sizeBytes : Nat
  declaredMediaType : String
  provenance : ArtifactProvenance
  sensitivity : String
  retention : String
  validation : ArtifactValidation
  lifecycle : ArtifactLifecycle
  facts : ArtifactFacts
  createdAt : DateTime
  mediaTypeNonempty : declaredMediaType ≠ ""
  sensitivityNonempty : sensitivity ≠ ""
  retentionNonempty : retention ≠ ""
deriving DecidableEq

/-- The artifact and where its body is. -/
structure ArtifactRow where
  id : Uuid
  digest : Digest Bytes
  sizeBytes : Nat
  lifecycle : ArtifactLifecycle
  storageRef : StorageRef
  payload : ArtifactManifest
  createdAt : DateTime
  tombstonedAt : Option DateTime := none
deriving DecidableEq

instance : Keyed ArtifactRow := .ofKey (·.id)

/-- A body is available in these states, as its facts say it. -/
def ArtifactLifecycle.availability : ArtifactLifecycle → ArtifactAvailability
  | .available | .quarantined | .rejected | .expired => .available
  | _ => .unavailable

/-- The row of an artifact whose lifecycle is set. -/
def ArtifactRow.setLifecycle (lifecycle : ArtifactLifecycle) (row : ArtifactRow) : ArtifactRow :=
  { row with
    lifecycle := lifecycle
    payload :=
      { row.payload with
        lifecycle := lifecycle
        facts :=
          { row.payload.facts with
            availability := lifecycle.availability
            integrity :=
              if lifecycle = .missing ∨ lifecycle = .corrupt then .failed
              else row.payload.facts.integrity
            trust :=
              if lifecycle = .quarantined then .quarantined else row.payload.facts.trust } } }

theorem ArtifactRow.setLifecycle_key (lifecycle : ArtifactLifecycle) (row : ArtifactRow) :
    Keyed.key (row.setLifecycle lifecycle) = Keyed.key row := rfl

/-! ## Uploads -/

inductive UploadState where
  | staging | committed | aborted | uncertain
deriving DecidableEq

/-- What an upload keeps for its manifest. -/
structure UploadMetadata where
  provenance : ArtifactProvenance
  sensitivity : String
  retention : String
deriving DecidableEq

structure ArtifactUploadRow where
  id : Uuid
  expectedDigest : DigestText
  expectedSize : Nat
  mediaType : String
  offset : Nat
  state : UploadState
  artifactId : Option Uuid := none
  metadata : UploadMetadata
  createdAt : DateTime
  updatedAt : DateTime
deriving DecidableEq

instance : Keyed ArtifactUploadRow := .ofKey (·.id)

inductive UploadLifecycle where
  | staging | committed | aborted
deriving DecidableEq

/-- An upload as its client sees it. -/
structure UploadSession where
  uploadId : Uuid
  expectedSize : Nat
  expectedDigest : Digest Bytes
  mediaType : String
  offset : Nat
  lifecycle : UploadLifecycle
  createdAt : DateTime
  mediaTypeNonempty : mediaType ≠ ""
deriving DecidableEq

/-- A state that no client is shown is shown as aborted. -/
def UploadState.observed : UploadState → UploadLifecycle
  | .staging => .staging
  | .committed => .committed
  | .aborted => .aborted
  | .uncertain => .aborted

/-- A file below the staging directory or below the root of the bodies. -/
structure StoredFile (ι : Type) where
  name : ι
  content : Bytes
deriving DecidableEq

instance {ι : Type} [DecidableEq ι] : Keyed (StoredFile ι) where
  Key := ι
  key f := f.name
  clash := fun k l => k = l
  clash_symm := by simp [eq_comm]

/-! ## What refers to artifacts -/

structure ArtifactCollectionRow where
  id : Uuid
  entries : List (String × Uuid)
  createdAt : DateTime
deriving DecidableEq

instance : Keyed ArtifactCollectionRow := .ofKey (·.id)

structure ArtifactReferenceRow where
  scope : String
  name : String
  recordId : Uuid
  artifactId : Uuid
  revision : Nat
  priorArtifactId : Option Uuid := none
  priorRevision : Option Nat := none
  updatedAt : DateTime
deriving DecidableEq

instance : Keyed ArtifactReferenceRow := .ofKeys fun r => ((r.scope, r.name), r.recordId)

structure ArtifactHoldRow where
  artifactId : Uuid
  recordId : Uuid
  reason : String
  createdAt : DateTime
deriving DecidableEq

instance : Keyed ArtifactHoldRow := .ofKeys fun r => (r.artifactId, r.recordId)

structure ArtifactPinRow where
  artifactId : Uuid
  recordId : Uuid
  createdAt : DateTime
deriving DecidableEq

instance : Keyed ArtifactPinRow := .ofKeys fun r => (r.artifactId, r.recordId)

/-! ## Plans -/

structure ArtifactGCPlanRow where
  id : Uuid
  watermark : DateTime
  candidates : List Uuid
  appliedAt : Option DateTime := none
deriving DecidableEq

instance : Keyed ArtifactGCPlanRow := .ofKey (·.id)

structure GarbageCollectionPlan where
  planId : Uuid
  candidates : List Uuid
  watermark : DateTime
  applied : Bool := false
deriving DecidableEq

inductive ArtifactReconciliationIssue where
  | markMissing (artifactId : Uuid) (storageRef : StorageRef)
  | markCorrupt (artifactId : Uuid) (storageRef : StorageRef)
  | deleteOrphanBlob (storageRef : StorageRef)
  | deleteInvalidReference (scope name : String)
  | deleteIncompleteCollection (collectionId : Uuid)
  | abortExpiredUpload (uploadId : Uuid)
deriving DecidableEq

structure ArtifactReconciliationPlan where
  planId : Uuid
  issues : List ArtifactReconciliationIssue
  createdAt : DateTime
  applied : Bool := false
deriving DecidableEq

structure ArtifactReconciliationPlanRow where
  plan : ArtifactReconciliationPlan
  appliedAt : Option DateTime := none
deriving DecidableEq

instance : Keyed ArtifactReconciliationPlanRow := .ofKey (·.plan.planId)

end Mishkan.Artifacts
