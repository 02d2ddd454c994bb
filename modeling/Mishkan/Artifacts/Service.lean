import Mishkan.Artifacts.Reconciliation
import Mishkan.Artifacts.Uploads
import Mishkan.Foundations.Pool

/-!
# Artifacts/Service — the calls of the service, step by step

A call is a sequence of transactions and of steps on the files; `Call` says which is the next, and
what the call knows by then.  Between two steps other calls of the process run, and any step may be
the last of its call.  At most one call at a time is between taking and leaving the lock of a body
(`Call.held`).
-/

namespace Mishkan.Artifacts

open Refusal ArtifactStore

/-! ## Requests -/

/-- A commitment: its upload, its temporary file, the artifact it makes, and when. -/
structure Commitment where
  uploadId : Uuid
  nonce : Uuid
  artifactId : Uuid
  now : DateTime
deriving DecidableEq

inductive Request where
  | openUpload (id : Uuid) (request : UploadRequest) (now : DateTime)
  | appendChunk (id : Uuid) (offset : Nat) (content : Bytes) (now : DateTime)
  | commitUpload (commitment : Commitment)
  | abortUpload (id : Uuid) (now : DateTime)
  | updateReference (scope name : String) (artifactId : Uuid) (expectedRevision : Nat)
      (recordId : Uuid) (now : DateTime)
  | hold (artifactId : Uuid) (reason : String) (recordId : Uuid) (now : DateTime)
  | releaseHold (artifactId : Uuid)
  | pin (artifactId recordId : Uuid) (now : DateTime)
  | releasePin (artifactId : Uuid)
  | createCollection (id : Uuid) (entries : List (String × Uuid)) (now : DateTime)
  | planGc (planId : Uuid) (watermark : DateTime)
  | applyGc (planId : Uuid) (now : DateTime)
  | planReconciliation (planId : Uuid) (plannedAt : DateTime)
  | applyReconciliation (planId : Uuid) (now : DateTime)

/-- What a step meets: how much of a file is written when a write is cut short, which body of a set
is taken next, and what a reconciliation sees of the bodies while others write. -/
structure Surroundings where
  interrupted : Option Nat := none
  next : StorageRef := .irregular ""
  observe : Observations := fun _ => .ok none
  listed : List StorageRef := []

/-! ## Calls -/

/-- Who deletes a body, and what is left to do then. -/
inductive Sweep where
  | gc (pending : List StorageRef)
  | reconciliation (plan : ArtifactReconciliationPlan) (pending : List StorageRef) (now : DateTime)
deriving DecidableEq

/-- What a running call does next. -/
inductive Call where
  -- `open_upload`
  | validateSources (id : Uuid) (request : UploadRequest) (now : DateTime) (pending : List Uuid)
  | createStaging (id : Uuid) (request : UploadRequest) (now : DateTime)
  | recordUpload (id : Uuid) (request : UploadRequest) (now : DateTime)
  | discardStaging (id : Uuid)
  -- `append_chunk` and `abort_upload`, once the file is changed
  | advanceCursor (row : ArtifactUploadRow) (size : Nat) (now : DateTime)
  | recordAborted (row : ArtifactUploadRow) (now : DateTime)
  -- `commit_upload`
  | lockBody (commitment : Commitment) (ref : StorageRef)
  | readUpload (commitment : Commitment) (ref : StorageRef)
  | inspectStaged (commitment : Commitment) (ref : StorageRef) (row : ArtifactUploadRow)
  | rejectSecret (commitment : Commitment) (ref : StorageRef) (row : ArtifactUploadRow)
  | discardRejected (ref : StorageRef) (id : Uuid)
  | stageBody (commitment : Commitment) (ref : StorageRef) (row : ArtifactUploadRow)
  | linkBody (commitment : Commitment) (ref : StorageRef) (row : ArtifactUploadRow) (staged : Bytes)
  | discardTemporary (commitment : Commitment) (ref : StorageRef) (row : ArtifactUploadRow)
  | unlinkTemporary (commitment : Commitment) (ref : StorageRef) (row : ArtifactUploadRow)
      (staged : Bytes)
  | unlinkStaged (commitment : Commitment) (ref : StorageRef) (row : ArtifactUploadRow)
      (staged : Bytes)
  | recordManifest (commitment : Commitment) (ref : StorageRef) (row : ArtifactUploadRow)
  -- `create_collection`
  | requireMembers (id : Uuid) (entries pending : List (String × Uuid)) (now : DateTime)
  -- `apply_gc` and `apply_reconciliation`
  | takeBody (sweep : Sweep)
  | checkBody (sweep : Sweep) (ref : StorageRef)
  | deleteBody (sweep : Sweep) (ref : StorageRef)
  | markDeleted (pending : List StorageRef) (ref : StorageRef)
  | repairAll (plan : ArtifactReconciliationPlan) (now : DateTime)
  | unlinkExpired (planId : Uuid) (pending : List Uuid) (now : DateTime)
  | finishReconciliation (planId : Uuid) (now : DateTime)
deriving DecidableEq

/-- The body whose lock the call has. -/
def Call.held : Call → Option StorageRef
  | .readUpload _ ref => some ref
  | .inspectStaged _ ref _ => some ref
  | .rejectSecret _ ref _ => some ref
  | .discardRejected ref _ => some ref
  | .stageBody _ ref _ => some ref
  | .linkBody _ ref _ _ => some ref
  | .discardTemporary _ ref _ => some ref
  | .unlinkTemporary _ ref _ _ => some ref
  | .unlinkStaged _ ref _ _ => some ref
  | .recordManifest _ ref _ => some ref
  | .checkBody _ ref => some ref
  | .deleteBody _ ref => some ref
  | .markDeleted _ ref => some ref
  | _ => none

variable (settings : ArtifactSettings) (issueText : ArtifactReconciliationIssue → String)

/-- The calls do not have the same lock. -/
def Call.Apart (call other : Call) : Prop :=
  ∀ ref ∈ call.held, ∀ ref' ∈ other.held, settings.casLock ref ≠ settings.casLock ref'

/-- No other call has the lock of a body. -/
def LockFree (others : List Call) (ref : StorageRef) : Prop :=
  ∀ other ∈ others, ∀ ref' ∈ other.held, settings.casLock ref ≠ settings.casLock ref'

instance (others : List Call) (ref : StorageRef) : Decidable (LockFree settings others ref) :=
  inferInstanceAs (Decidable (∀ _ ∈ _, _))

/-- What a call does next, if it does not end, and what it leaves. -/
abbrev Progress := Option Call × ArtifactStore

/-- Go on with a result; a call that raises has ended. -/
def orEnd {α : Type} (x : Except Raised α) (s : ArtifactStore) (next : α → Progress) : Progress :=
  match x with
  | .ok a => next a
  | .error _ => (none, s)

/-- A call that is one transaction. -/
def transaction {α : Type} (s : ArtifactStore) (x : Except Raised (α × ArtifactStore)) : Progress :=
  (none, commit s x)

/-- The next body is taken under its lock, when it is free; else the call waits. -/
def Sweep.take (s : ArtifactStore) (others : List Call) (next : StorageRef) (sweep : Sweep) :
    Progress :=
  match sweep with
  | .gc [] => (none, s)
  | .gc pending =>
    if next ∈ pending ∧ LockFree settings others next then
      (some (.checkBody (.gc (pending.erase next)) next), s)
    else (some (.takeBody (.gc pending)), s)
  | .reconciliation plan [] now => (some (.repairAll plan now), s)
  | .reconciliation plan (ref :: pending) now =>
    if LockFree settings others ref then
      (some (.checkBody (.reconciliation plan pending now) ref), s)
    else (some (.takeBody (.reconciliation plan (ref :: pending) now)), s)

/-- What follows the deletion of a body. -/
def Sweep.deleted (ref : StorageRef) : Sweep → Call
  | .gc pending => .markDeleted pending ref
  | .reconciliation plan pending now => .takeBody (.reconciliation plan pending now)

/-- The first step of a call. -/
def Request.start (s : ArtifactStore) (around : Surroundings) : Request → Progress
  | .openUpload id request now =>
    orEnd (validateDigest request.expectedDigest) s fun _ =>
      (some (.validateSources id request now request.provenance.sourceArtifacts), s)
  | .appendChunk id offset content now =>
    orEnd (s.admitChunk settings id offset content) s fun row =>
      match around.interrupted with
      | some written => (none, s.writeStaging id (content.take written))
      | none => (some (.advanceCursor row content.length now), s.writeStaging id content)
  | .commitUpload commitment =>
    orEnd (s.requireUpload commitment.uploadId) s fun row =>
      (some (.lockBody commitment row.expectedDigest.storageRef), s)
  | .abortUpload id now =>
    orEnd (s.abortable id) s fun row => (some (.recordAborted row now), s.unlinkStaging id)
  | .updateReference scope name artifactId expectedRevision recordId now =>
    transaction s (s.updateReference scope name artifactId expectedRevision recordId now)
  | .hold artifactId reason recordId now => transaction s (s.hold artifactId reason recordId now)
  | .releaseHold artifactId => transaction s (s.releaseHold artifactId)
  | .pin artifactId recordId now => transaction s (s.pin artifactId recordId now)
  | .releasePin artifactId => transaction s (s.releasePin artifactId)
  | .createCollection id entries now => (some (.requireMembers id entries entries now), s)
  | .planGc planId watermark => transaction s (s.planGc settings planId watermark)
  | .applyGc planId now =>
    orEnd (s.tombstoneCandidates settings planId now) s fun (refs, tombstoned) =>
      (some (.takeBody (.gc refs)), tombstoned)
  | .planReconciliation planId plannedAt =>
    transaction s
      (s.planReconciliation settings issueText around.observe around.listed planId plannedAt)
  | .applyReconciliation planId now =>
    orEnd (s.openReconciliation settings around.observe planId) s fun (plan, applied) =>
      if applied then (none, s)
      else
        (some (.takeBody (.reconciliation plan
          (plan.issues.filterMap ArtifactReconciliationIssue.orphan) now)), s)

/-- The transaction in which a row was read ends with a rewritten row, if the row is as it was. -/
def rewriteUpload (s : ArtifactStore) (row : ArtifactUploadRow)
    (f : ArtifactUploadRow → ArtifactUploadRow) (hf : ∀ row, Keyed.key (f row) = Keyed.key row) :
    Progress :=
  orEnd (s.requireUpload row.id) s fun current =>
    if current = row then orEnd (uploadModel (f row)) s fun _ => (none, s.updateUpload row.id f hf)
    else (none, s)

/-- The next step of a call. -/
def Call.step (others : List Call) (s : ArtifactStore) (around : Surroundings) : Call → Progress
  | .validateSources id request now [] =>
    orEnd (requireSize settings request) s fun _ => (some (.createStaging id request now), s)
  | .validateSources id request now (source :: pending) =>
    orEnd (s.requireSource source) s fun _ =>
      (some (.validateSources id request now pending), s)
  | .createStaging id request now =>
    orEnd (s.createStaging id) s fun staged => (some (.recordUpload id request now), staged)
  | .recordUpload id request now =>
    match s.recordUpload id request now with
    | .ok recorded => (none, recorded)
    | .error _ => (some (.discardStaging id), s)
  | .discardStaging id => (none, s.unlinkStaging id)
  | .advanceCursor row size now => rewriteUpload s row (advance size now) (advance_key size now)
  | .recordAborted row now => rewriteUpload s row (abortRow now) (abortRow_key now)
  | .lockBody commitment ref =>
    if LockFree settings others ref then (some (.readUpload commitment ref), s)
    else (some (.lockBody commitment ref), s)
  | .readUpload commitment ref =>
    orEnd (s.committable commitment.uploadId) s fun
      | .inl _ => (none, s)
      | .inr row => (some (.inspectStaged commitment ref row), s)
  | .inspectStaged commitment ref row =>
    match s.staged? row.id with
    | none =>
      orEnd (s.requireExistingCommittedBlob row) s fun _ =>
        (some (.recordManifest commitment ref row), s)
    | some staged =>
      match inspect settings staged with
      | .ok () => (some (.stageBody commitment ref row), s)
      | .error e =>
        if e.envelope?.map (·.code) = some .secretContent then
          (some (.rejectSecret commitment ref row), s)
        else (none, s)
  | .rejectSecret commitment ref row =>
    orEnd (s.requireUpload row.id) s fun current =>
      if current.state = .staging then
        (some (.discardRejected ref row.id),
          s.updateUpload row.id (abortRow commitment.now) (abortRow_key commitment.now))
      else (some (.discardRejected ref row.id), s)
  | .discardRejected _ id => (none, s.unlinkStaging id)
  | .stageBody commitment ref row =>
    orEnd (require (s.staged? row.id) .osError) s fun staged =>
      orEnd (s.bodies.stageBody settings.hexdigest staged row.expectedDigest row.expectedSize
          commitment.nonce) s fun copied =>
        match around.interrupted with
        | some written =>
          (none, { s with
            bodies := s.bodies.copyPart staged written row.expectedDigest commitment.nonce })
        | none => (some (.linkBody commitment ref row staged), { s with bodies := copied })
  | .linkBody commitment ref row staged =>
    match s.bodies.linkBody settings.hexdigest staged row.expectedDigest row.expectedSize with
    | .ok linked =>
      (some (.unlinkTemporary commitment ref row staged), { s with bodies := linked })
    | .error _ => (some (.discardTemporary commitment ref row), s)
  | .discardTemporary commitment _ row =>
    (none, { s with bodies := s.bodies.unlinkTemporary row.expectedDigest commitment.nonce })
  | .unlinkTemporary commitment ref row staged =>
    (some (.unlinkStaged commitment ref row staged),
      { s with bodies := s.bodies.unlinkTemporary row.expectedDigest commitment.nonce })
  | .unlinkStaged commitment ref row staged =>
    orEnd (require (s.staged? row.id) .osError) s fun after =>
      if after.length = staged.length then
        (some (.recordManifest commitment ref row), s.unlinkStaging row.id)
      else (none, s)
  | .recordManifest commitment _ row =>
    transaction s (s.recordManifest settings row commitment.artifactId commitment.now)
  | .requireMembers id entries [] now =>
    orEnd (s.recordCollection id entries now) s fun recorded => (none, recorded)
  | .requireMembers id entries (entry :: pending) now =>
    orEnd (s.requireMember entry) s fun _ => (some (.requireMembers id entries pending now), s)
  | .takeBody sweep => sweep.take settings s others around.next
  | .checkBody sweep ref =>
    if s.BodyLive ref then (some (.takeBody sweep), s) else (some (.deleteBody sweep ref), s)
  | .deleteBody sweep ref =>
    orEnd (s.deleteBody ref) s fun deleted => (some (sweep.deleted ref), deleted)
  | .markDeleted pending ref => (some (.takeBody (.gc pending)), s.markDeleted ref)
  | .repairAll plan now =>
    orEnd (s.repairAll plan) s fun (applied, repaired) =>
      if applied then (none, s)
      else
        (some (.unlinkExpired plan.planId
          (plan.issues.filterMap ArtifactReconciliationIssue.expired) now), repaired)
  | .unlinkExpired planId [] now => (some (.finishReconciliation planId now), s)
  | .unlinkExpired planId (id :: pending) now =>
    (some (.unlinkExpired planId pending now), s.unlinkStaging id)
  | .finishReconciliation planId now => (none, s.finishReconciliation planId now)

/-! ## The process -/

/-- The calls of the service over what is stored; from outside the rows of the other services are
written. -/
def serviceProgram :
    Pool.Program ArtifactStore Call (Request × Surroundings) Surroundings RecordRows where
  start s input := input.1.start settings issueText s input.2
  advance others s around call := call.step settings others s around
  outside s rows := { s with records := rows }

/-- The service, with the calls that run in its process. -/
abbrev Service := Pool ArtifactStore Call

abbrev Operation := Pool.Operation (Request × Surroundings) Surroundings RecordRows

/-- A service nothing was stored in. -/
def Service.empty : Service := ⟨.empty, []⟩

abbrev Service.step : Service → Operation → Service :=
  Pool.step (serviceProgram settings issueText)

end Mishkan.Artifacts
