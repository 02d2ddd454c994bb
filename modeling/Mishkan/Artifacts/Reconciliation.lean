import Mishkan.Artifacts.Collector
import Mishkan.Artifacts.References

/-!
# Artifacts/Reconciliation — what the tables say against what is stored

A plan lists what differs: expired uploads, bodies that are missing, altered or orphaned, and
references and collections of what is unavailable.  While it is made and validated others may write,
so it is a function of what was observed of the bodies.  `issueText` is the text by which the issues
of a plan are ordered.
-/

namespace Mishkan.Artifacts

open Refusal

variable (settings : ArtifactSettings) (issueText : ArtifactReconciliationIssue → String)

/-- What is observed of the bodies while a plan is made or validated. -/
abbrev Observations := StorageRef → Except Raised (Option BodyObservation)

/-- The instant of a plan minus the time an upload may stage. -/
def stagingCutoff (plannedAt : DateTime) (ttlSeconds : Nat) : DateTime :=
  { plannedAt with instant := plannedAt.instant - ttlSeconds * second }

namespace ArtifactStore

/-! ## Planning -/

def expiredUploads (s : ArtifactStore) (plannedAt : DateTime) : List ArtifactReconciliationIssue :=
  match settings.stagingTtlSeconds with
  | none => []
  | some ttl =>
    (s.uploads.select fun upload => (upload.state = .staging ∨ upload.state = .aborted)
      ∧ settings.isoformat upload.updatedAt < settings.isoformat (stagingCutoff plannedAt ttl)).map
        fun upload => .abortExpiredUpload upload.id

/-- The lifecycles whose body must be there. -/
def ArtifactLifecycle.needsBody : ArtifactLifecycle → Bool
  | .available | .validating | .quarantined => true
  | _ => false

/-- What is wrong with the body of an artifact. -/
def bodyIssue (observe : Observations) (row : ArtifactRow) :
    Except Raised (Option ArtifactReconciliationIssue) := do
  match ← observe row.storageRef with
  | none => return some (.markMissing row.id row.storageRef)
  | some observed =>
    if observed.sizeBytes ≠ row.sizeBytes ∨ observed.digest ≠ row.digest then
      return some (.markCorrupt row.id row.storageRef)
    else return none

/-- The artifact is not available, or about to be marked so. -/
def Unavailable (s : ArtifactStore) (unavailable : List Uuid) (id : Uuid) : Prop :=
  ¬ ∃ row ∈ s.artifact? id, row.id ∉ unavailable ∧ row.lifecycle = .available

instance (s : ArtifactStore) (unavailable : List Uuid) (id : Uuid) :
    Decidable (s.Unavailable unavailable id) :=
  inferInstanceAs (Decidable (¬ _))

/-- The path of a member is unsafe, or the member is unavailable. -/
def CollectionIncomplete (s : ArtifactStore) (unavailable : List Uuid)
    (collection : ArtifactCollectionRow) : Prop :=
  ∃ entry ∈ collection.entries, (validateLogicalPath entry.1).toOption = none
    ∨ s.Unavailable unavailable entry.2

instance (s : ArtifactStore) (unavailable : List Uuid) (collection : ArtifactCollectionRow) :
    Decidable (s.CollectionIncomplete unavailable collection) :=
  inferInstanceAs (Decidable (∃ _ ∈ _, _))

/-- The artifact an issue marks. -/
def ArtifactReconciliationIssue.marked : ArtifactReconciliationIssue → Option Uuid
  | .markMissing id _ => some id
  | .markCorrupt id _ => some id
  | _ => none

/-- What differs, given what is observed of the bodies and which bodies are listed. -/
def reconciliationIssues (s : ArtifactStore) (observe : Observations) (listed : List StorageRef)
    (plannedAt : DateTime) : Except Raised (List ArtifactReconciliationIssue) := do
  let all := s.artifacts.select fun row => row.lifecycle ≠ .tombstoned ∧ row.lifecycle ≠ .deleted
  let bodies ← (all.filter fun row => ArtifactLifecycle.needsBody row.lifecycle).mapM
    (bodyIssue observe)
  let marks := bodies.filterMap id
  let unavailable := marks.filterMap ArtifactReconciliationIssue.marked
  let orphans := (listed.filter (· ∉ all.map (·.storageRef))).map .deleteOrphanBlob
  let references := (s.references.select fun row => s.Unavailable unavailable row.artifactId).map
    fun row => .deleteInvalidReference row.scope row.name
  let collections := (s.collections.select fun row => s.CollectionIncomplete unavailable row).map
    fun row => .deleteIncompleteCollection row.id
  return s.expiredUploads settings plannedAt ++ marks ++ orphans ++ references ++ collections

def planReconciliation (s : ArtifactStore) (observe : Observations) (listed : List StorageRef)
    (planId : Uuid) (plannedAt : DateTime) :
    Except Raised (ArtifactReconciliationPlan × ArtifactStore) := do
  let issues ← s.reconciliationIssues settings observe listed plannedAt
  let plan : ArtifactReconciliationPlan :=
    { planId := planId
      issues := issues.insertionSort fun a b => issueText a ≤ issueText b
      createdAt := plannedAt }
  let plans ← require (s.reconciliationPlans.insert ⟨plan, none⟩) .integrityError
  return (plan, { s with reconciliationPlans := plans })

/-! ## Validation -/

/-- An issue of a plan is still one. -/
def validateIssue (s : ArtifactStore) (observe : Observations)
    (plan : ArtifactReconciliationPlan) : ArtifactReconciliationIssue → Except Raised Unit
  | .markMissing id ref => do
    refuseIf (¬ ∃ row ∈ s.artifact? id, row.storageRef = ref) <|
      fault .revisionMismatch "artifact changed after planning"
    refuseIf ((← observe ref) ≠ none) <|
      fault .revisionMismatch "missing artifact reappeared after planning"
  | .markCorrupt id ref => do
    let row ← require ((s.artifact? id).filter (·.storageRef = ref)) <|
      fault .revisionMismatch "artifact changed after planning"
    let observed ← require (← observe ref) <|
      fault .revisionMismatch "corrupt artifact became missing after planning"
    refuseIf (observed.sizeBytes = row.sizeBytes ∧ observed.digest = row.digest) <|
      fault .revisionMismatch "corrupt artifact was repaired after planning"
  | .deleteOrphanBlob ref =>
    refuseIf (∃ row ∈ s.artifacts, row.storageRef = ref ∧ row.lifecycle ≠ .tombstoned
        ∧ row.lifecycle ≠ .deleted) <|
      fault .revisionMismatch "orphan blob became referenced after planning"
  | .deleteInvalidReference scope name =>
    match s.reference? scope name with
    | none => .ok ()
    | some reference =>
      refuseIf (¬ s.Unavailable (plan.issues.filterMap ArtifactReconciliationIssue.marked)
          reference.artifactId) <|
        fault .revisionMismatch "working reference was repaired after planning"
  | .deleteIncompleteCollection id =>
    match s.collections.find (·.id = id) with
    | none => .ok ()
    | some collection =>
      refuseIf (¬ s.CollectionIncomplete
          (plan.issues.filterMap ArtifactReconciliationIssue.marked) collection) <|
        fault .revisionMismatch "collection was repaired after planning"
  | .abortExpiredUpload id => do
    let ttl ← require settings.stagingTtlSeconds <|
      fault .artifact "expired upload issue is incomplete"
    let upload ← require ((s.uploads.find (·.id = id)).filter fun upload =>
        upload.state = .staging ∨ upload.state = .aborted) <|
      fault .revisionMismatch "artifact upload changed after expiration planning"
    refuseIf ((stagingCutoff plan.createdAt ttl).instant ≤ upload.updatedAt.instant) <|
      fault .revisionMismatch "artifact upload was refreshed after expiration planning"

/-- The plan, and whether it is applied already; one that is not is validated. -/
def openReconciliation (s : ArtifactStore) (observe : Observations) (planId : Uuid) :
    Except Raised (ArtifactReconciliationPlan × Bool) := do
  let row ← require (s.reconciliationPlans.find (·.plan.planId = planId)) <|
    fault .artifact "artifact reconciliation plan is absent"
  if row.appliedAt ≠ none then return (row.plan, true)
  else
    row.plan.issues.forM (s.validateIssue settings observe row.plan)
    return (row.plan, false)

/-! ## Application -/

/-- The body an issue deletes. -/
def ArtifactReconciliationIssue.orphan : ArtifactReconciliationIssue → Option StorageRef
  | .deleteOrphanBlob ref => some ref
  | _ => none

/-- The upload an issue aborts. -/
def ArtifactReconciliationIssue.expired : ArtifactReconciliationIssue → Option Uuid
  | .abortExpiredUpload id => some id
  | _ => none

/-- An expired upload. -/
def expire (row : ArtifactUploadRow) : ArtifactUploadRow := { row with state := .aborted }

theorem expire_key (row : ArtifactUploadRow) : Keyed.key (expire row) = Keyed.key row := rfl

/-- What the transaction of an application does about an issue. -/
def repair (s : ArtifactStore) : ArtifactReconciliationIssue → ArtifactStore
  | .markMissing id _ => s.setLifecycle id .missing
  | .markCorrupt id _ => s.setLifecycle id .corrupt
  | .deleteOrphanBlob _ => s
  | .deleteInvalidReference scope name =>
    { s with references := s.references.keep fun row => ¬ (row.scope = scope ∧ row.name = name) }
  | .deleteIncompleteCollection id =>
    { s with collections := s.collections.keep (·.id ≠ id) }
  | .abortExpiredUpload id => s.updateUpload id expire expire_key

/-- The transaction of an application that repairs the tables; whether the plan was applied. -/
def repairAll (s : ArtifactStore) (plan : ArtifactReconciliationPlan) :
    Except Raised (Bool × ArtifactStore) := do
  let row ← require (s.reconciliationPlans.find (·.plan.planId = plan.planId)) <|
    fault .artifact "artifact reconciliation plan is absent"
  if row.appliedAt ≠ none then return (true, s)
  else return (false, plan.issues.foldl repair s)

def markReconciled (now : DateTime) (row : ArtifactReconciliationPlanRow) :
    ArtifactReconciliationPlanRow :=
  { row with appliedAt := some now }

theorem markReconciled_key (now : DateTime) (row : ArtifactReconciliationPlanRow) :
    Keyed.key (markReconciled now row) = Keyed.key row := rfl

/-- The last transaction of an application. -/
def finishReconciliation (s : ArtifactStore) (planId : Uuid) (now : DateTime) : ArtifactStore :=
  { s with
    reconciliationPlans := s.reconciliationPlans.update (·.plan.planId = planId)
      (markReconciled now) (markReconciled_key now) }

end ArtifactStore
end Mishkan.Artifacts
