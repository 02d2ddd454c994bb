import Mishkan.Foundations.Transactions
import Mishkan.Skills.Repository
import Mishkan.Skills.Versions

/-!
# Skills/Learning — from learning sources to a candidate version

`learn` resolves its sources and the skill they are about, has a draft proposed and reviewed, and
registers the package it is written as: a candidate that follows the active version of the skill.
Every step it takes is a transaction on the request's record or on the skill versions, so what was
committed before an exception stays, and the record is then marked as failed.
-/

namespace Mishkan

open Refusal Lines

/-! ## Requests, reviews and records -/

inductive SkillLearningSourceKind where
  | text | artifact | url | repositoryEvidence | executionEvidence
deriving DecidableEq

inductive SkillLearningState where
  | requested | researching | reviewing | proposed | refused | failed
deriving DecidableEq

structure SkillLearningSource where
  kind : SkillLearningSourceKind
  locator : String
deriving DecidableEq

structure SkillLearningRequest where
  requestId : Uuid
  taskClass : String
  suggestedName : Option String := none
  sources : List SkillLearningSource
  platform : String
  organizationVersion : String
  availableTools : List String := []
deriving DecidableEq

structure SkillLearningReview where
  draftFingerprint : Digest SkillPackageDraft
  accepted : Bool
deriving DecidableEq

structure SkillLearningRecord where
  request : SkillLearningRequest
  state : SkillLearningState
  sourceFingerprints : List String
  baseVersionId : Option Uuid := none
  draft : Option SkillPackageDraft := none
  review : Option SkillLearningReview := none
  packageCollectionId : Option Uuid := none
  candidateVersionId : Option Uuid := none
  policyFingerprint : String
  refusalCode : Option String := none
  revision : Nat := 1
  updatedAt : Instant
deriving DecidableEq

instance : Keyed SkillLearningRecord := .ofKey (·.request.requestId)

/-- The records of learning requests, and the skill versions. -/
structure Learning where
  requests : Table SkillLearningRecord := ∅
  lifecycle : SkillStore := {}

/-! ## The records of requests -/

namespace Learning

def request? (s : Learning) (requestId : Uuid) : Option SkillLearningRecord :=
  s.requests.find (·.request.requestId = requestId)

/-- `SQLiteSkillLearningRepository.create`. -/
def create (s : Learning) (record : SkillLearningRecord) :
    Except Raised (SkillLearningRecord × Learning) :=
  match s.request? record.request.requestId with
  | some observed => do
    refuseIf (observed ≠ record) <|
      fault .duplicateResult "skill learning request identity already contains different content"
    return (observed, s)
  | none => do
    let requests ← require (s.requests.insert record) .integrityError
    return (record, { s with requests := requests })

/-- `_require_row`. -/
def requireRequest (s : Learning) (requestId : Uuid) : Except Raised SkillLearningRecord :=
  require (s.request? requestId) <|
    fault .skillSelection "skill learning request does not exist"
      [("request_id", .str requestId.text)]

/-- The record written over a row: all but the identity of the row. -/
def overwrite (record row : SkillLearningRecord) : SkillLearningRecord :=
  { record with request := { record.request with requestId := row.request.requestId } }

/-- `SQLiteSkillLearningRepository.update`. -/
def update (s : Learning) (record : SkillLearningRecord) (expectedRevision : Nat) :
    Except Raised (SkillLearningRecord × Learning) := do
  let current ← s.requireRequest record.request.requestId
  refuseIf (current.revision ≠ expectedRevision) <|
    fault .revisionMismatch "skill learning record revision changed"
      [("observed_revision", .int current.revision)]
  refuseIf (record.revision ≠ expectedRevision + 1) <|
    fault .skillContract "skill learning update must advance exactly one revision"
  let requests := s.requests.update (·.request.requestId = record.request.requestId)
    (overwrite record) (fun _ => rfl)
  return (record, { s with requests := requests })

end Learning

/-! ## The target of a request -/

/-- The task classes of a version, as its metadata has them. -/
def SkillVersionRecord.taskClasses (record : SkillVersionRecord) : List String :=
  match record.content with
  | .obj members =>
    match Json.lookup members "metadata" with
    | some (.obj metadata) =>
      match Json.lookup metadata "task_classes" with
      | some (.arr classes) => classes.filterMap Json.asStr?
      | _ => []
    | _ => []
  | _ => []

/-- `active_versions(limit=...)`: the first of the active versions by name and identifier. -/
def SkillStore.activeVersionsUpTo (s : SkillStore) (limit : Nat) :
    Except Raised (List SkillVersionRecord) := do
  refuseIf (limit < 1 ∨ limit > 100000) <|
    fault .outputContract "active skill query bound is invalid"
  return (s.activeVersions.mergeSort fun v w =>
    v.skillName < w.skillName ||
      (v.skillName = w.skillName && v.id.text ≤ w.id.text)).take limit

/-- `_resolve_target`: the version the request is about, if there is one, and the name of its
skill. -/
def resolveTarget (maxCatalogCandidates : Nat) (s : SkillStore) (request : SkillLearningRequest) :
    Except Raised (Option SkillVersionRecord × String) :=
  match request.suggestedName with
  | some name => (s.active name).map fun base => (base, name)
  | none => do
    let candidates ← s.activeVersionsUpTo maxCatalogCandidates
    match candidates.filter fun version => request.taskClass ∈ version.taskClasses with
    | [version] => .ok (some version, version.skillName)
    | [] =>
      .error (fault .skillSelection "a new skill proposal requires an exact suggested name")
    | applicable =>
      .error (fault .skillSelection
        "multiple active skills match the learning task; an exact skill name is required"
        [("matching_skills", .strings (applicable.map (·.skillName)))])

/-- `_validate_draft`. -/
def validateDraft (request : SkillLearningRequest) (draft : SkillPackageDraft)
    (desiredName : String) (sourceFingerprints : List String) : Except Raised Unit := do
  refuseIf (draft.skillName ≠ desiredName) <|
    fault .skillTrust "Research draft changed the resolved identity"
  refuseIf (request.taskClass ∉ draft.taskClasses) <|
    fault .skillTrust "Research draft omitted its task class"
  refuseIf (draft.sourceFingerprints ≠ sourceFingerprints) <|
    fault .skillTrust "Research draft changed its source lineage"
  let expected := (request.sources.filter (·.kind = .url)).map (·.locator)
  refuseIf (¬ (draft.retrievalReferences ⊆ expected ∧ expected ⊆ draft.retrievalReferences)) <|
    fault .skillTrust "Research draft changed its attributed retrieval references"
  let unknown := draft.requiredTools.filter (· ∉ request.availableTools)
  refuseIf (unknown ≠ []) <|
    fault .skillTrust "Research draft requires tools absent from the observed task context"
      [("unavailable_tools", .strings (unknown.dedup.mergeSort (· ≤ ·)))]

/-! ## Inspection -/

/-- The bounds of an inspection profile, and what its rules find in a file. -/
structure SkillPackageInspector where
  profileId : String
  maxScannedFiles : Nat
  maxScannedFileBytes : Nat
  maxTotalBytes : Nat
  findings : String → List UInt8 → List Json
  /-- Whether a finding is as severe as what the profile quarantines. -/
  isSevere : Json → Bool

/-- `_bounded_error`. -/
def SkillPackageInspector.boundedError (inspector : SkillPackageInspector) (dimension : String) :
    Raised :=
  fault .skillTrust "skill package exceeds configured inspection bounds"
    [("profile_id", .str inspector.profileId), ("dimension", .str dimension)]

/-- Whether a logical path stays in its package. -/
def isLogicalPath (path : String) : Bool :=
  path ≠ "" && path.toList.all (fun c => c ≠ '\\' && c ≠ '\x00') &&
    path.toList.head? ≠ some '/' && (path.toList.splitOn '/').all (· ≠ "..".toList)

/-- `inspect_entries`. -/
def SkillPackageInspector.inspectEntries (inspector : SkillPackageInspector)
    (sha256 : List UInt8 → List UInt8) (entries : List (String × List UInt8))
    (expectedFingerprint : String) : Except Raised SkillInspectionResult := do
  refuseIf (entries.length > inspector.maxScannedFiles) (inspector.boundedError "file count")
  let sorted := entries.mergeSort fun a b => a.1 ≤ b.1
  let _ ← sorted.foldlM (fun scanned entry => do
    refuseIf (¬ isLogicalPath entry.1) (fault .skillContract "skill package path is invalid")
    refuseIf (entry.2.length > inspector.maxScannedFileBytes) (inspector.boundedError "file bytes")
    refuseIf (scanned + entry.2.length > inspector.maxTotalBytes)
      (inspector.boundedError "total bytes")
    return scanned + entry.2.length) 0
  let observed := filesFingerprint sha256 sorted
  refuseIf (observed ≠ expectedFingerprint) <|
    fault .skillTrust "skill package differs from its provenance lock"
      [("expected", .str expectedFingerprint), ("observed", .str observed)]
  let findings := sorted.flatMap fun entry => inspector.findings entry.1 entry.2
  return {
    packageFingerprint := observed
    quarantined := findings.any inspector.isSevere
    content := .arr findings }

/-! ## The candidate -/

/-- What the service works with. -/
structure LearningServices where
  yaml : Yaml.Codec
  sha256 : List UInt8 → List UInt8
  inspector : SkillPackageInspector
  maxCatalogCandidates : Nat

/-- A request, and what comes back from outside while it is worked on. -/
structure LearningCall where
  request : SkillLearningRequest
  policyFingerprint : String
  /-- The fingerprints of the sources, from `_resolve_sources`. -/
  sources : Except Raised (List String)
  proposed : Except Raised SkillPackageDraft
  reviewed : Except Raised SkillLearningReview
  /-- The collection the artifact service keeps the document in. -/
  stored : List UInt8 → Except Raised Uuid
  /-- The new identifier of the candidate. -/
  candidateId : Uuid
  now : Instant

/-- The version the candidate gets. -/
def nextVersion : Option SkillVersionRecord → Except Raised String
  | none => .ok "0.1.0"
  | some base => nextPatch base.skillVersion

/-- `"sha256:" + "0" * 64`. -/
def blankFingerprint : String := "sha256:" ++ String.ofList (List.replicate 64 '0')

/-- The metadata of a candidate, before its package has a fingerprint. -/
def candidateMetadata (request : SkillLearningRequest) (draft : SkillPackageDraft)
    (version : String) : SkillMetadata where
  name := draft.skillName
  description := draft.description
  version := version
  sourceId := "research-learning"
  sourceKind := .project
  sourceRevision := "learning:" ++ request.requestId.text
  packageUri := "research-learning:" ++ draft.skillName ++ "@" ++ request.requestId.text
  packageFingerprint := blankFingerprint
  trust := .untrusted
  activation := .candidate
  authorClaim := some "Research_Synthesizer"
  platforms := [request.platform]
  requiredTools := draft.requiredTools
  fallbackTools := draft.fallbackTools
  organizationVersions := [request.organizationVersion]
  taskClasses := draft.taskClasses

/-- What a version keeps of its metadata. -/
def SkillMetadata.json (metadata : SkillMetadata) : Json :=
  .obj [("name", .str metadata.name), ("description", .str metadata.description),
    ("version", .str metadata.version), ("source_id", .str metadata.sourceId),
    ("source_revision", .str metadata.sourceRevision), ("package_uri", .str metadata.packageUri),
    ("package_fingerprint", .str metadata.packageFingerprint),
    ("author_claim", .ofOption metadata.authorClaim), ("platforms", .strings metadata.platforms),
    ("required_tools", .strings metadata.requiredTools),
    ("fallback_tools", .obj (metadata.fallbackTools.map fun fallback =>
      (fallback.1, .strings fallback.2))),
    ("organization_versions", .strings metadata.organizationVersions),
    ("task_classes", .strings metadata.taskClasses)]

/-- The candidate with its metadata, whose package is kept in a collection. -/
def candidateRecord (call : LearningCall) (base : Option SkillVersionRecord)
    (metadata : SkillMetadata) (collection : Uuid) : SkillVersionRecord where
  id := call.candidateId
  skillName := metadata.name
  skillVersion := metadata.version
  state := .candidate
  packageFingerprint := metadata.packageFingerprint
  content := .obj [("metadata", metadata.json), ("package_collection_id", .str collection.text),
    ("base_version_id", .ofOption (base.map (·.id.text))),
    ("mutation_action", .str (if base.isNone then "create" else "patch"))]
  policyFingerprint := call.policyFingerprint
  updatedAt := call.now

/-- `_materialize_candidate`: the candidate and its document. -/
def materializeCandidate (services : LearningServices) (call : LearningCall)
    (draft : SkillPackageDraft) (base : Option SkillVersionRecord) :
    Except Raised (SkillVersionRecord × Uuid × List UInt8) := do
  let version ← nextVersion base
  let metadata ← (candidateMetadata call.request draft version).validate
  let content := skillDocument services.yaml metadata draft
  let fingerprint := filesFingerprint services.sha256 [("SKILL.md", content)]
  let metadata := { metadata with packageFingerprint := fingerprint }
  let content := skillDocument services.yaml metadata draft
  let observed := filesFingerprint services.sha256 [("SKILL.md", content)]
  refuseIf (observed ≠ fingerprint) <|
    fault .skillContract "skill package rendering is unstable"
  let _ ← validateSkillMetadataDocument services.yaml services.sha256 metadata content
  let collection ← call.stored content
  return (candidateRecord call base metadata collection, collection, content)

/-! ## Learning -/

/-- `_advance`: the record as it is given, one revision further. -/
def advance (record : SkillLearningRecord) (now : Instant) :
    Transactions Learning Raised SkillLearningRecord :=
  .transact fun s =>
    s.update { record with revision := record.revision + 1, updatedAt := now } record.revision

/-- `_mark_failed`. -/
def markFailed (requestId : Uuid) (code : String) (now : Instant) :
    Transactions Learning Raised PUnit := do
  let current ← .read (·.requireRequest requestId)
  if current.state = .proposed ∨ current.state = .refused then
    return ⟨⟩
  else do
    let _ ← advance { current with state := .failed, refusalCode := some code } now
    return ⟨⟩

/-- The code a failure is recorded under. -/
def failureCode (e : Raised) : String :=
  match e.envelope? with
  | some error => error.code.value
  | none => ErrorCode.requiredDependency.value

/-- A transaction on the skill versions. -/
def lifecycleStep (f : SkillStore → Except Raised (SkillVersionRecord × SkillStore)) :
    Transactions Learning Raised SkillVersionRecord :=
  .transact fun s => (f s.lifecycle).map fun (record, lifecycle) =>
    (record, { s with lifecycle := lifecycle })

/-- What `learn` does with an accepted draft. -/
def settleDraft (services : LearningServices) (call : LearningCall)
    (record : SkillLearningRecord) (draft : SkillPackageDraft) (review : SkillLearningReview)
    (base : Option SkillVersionRecord) : Transactions Learning Raised SkillLearningRecord := do
  let (candidate, collection, content) ← .check (materializeCandidate services call draft base)
  let registered ← lifecycleStep (·.registerCandidate candidate)
  let inspection ← .check (services.inspector.inspectEntries services.sha256
    [("SKILL.md", content)] registered.packageFingerprint)
  let inspected ← lifecycleStep
    (·.recordInspection registered.id inspection registered.revision call.now)
  advance { record with
    state := .proposed
    review := some review
    packageCollectionId := some collection
    candidateVersionId := some inspected.id } call.now

/-- What `learn` does once its request is recorded. -/
def workOn (services : LearningServices) (call : LearningCall) (fingerprints : List String)
    (base : Option SkillVersionRecord) (desiredName : String) (record : SkillLearningRecord) :
    Transactions Learning Raised SkillLearningRecord := do
  let record ← advance { record with state := .researching } call.now
  let draft ← .check call.proposed
  let _ ← .check (validateDraft call.request draft desiredName fingerprints)
  let record ← advance { record with state := .reviewing, draft := some draft } call.now
  let review ← .check call.reviewed
  let _ ← .check <| refuseIf (review.draftFingerprint ≠ ⟨draft⟩) <|
    fault .skillTrust "Research evaluation belongs to another skill draft"
  if review.accepted then
    settleDraft services call record draft review base
  else
    advance { record with
      state := .refused
      review := some review
      refusalCode := some "research_evaluation_refused" } call.now

/-- `learn`. -/
def learn (services : LearningServices) (call : LearningCall) :
    Transactions Learning Raised SkillLearningRecord := do
  let fingerprints ← .check call.sources
  let (base, desiredName) ← .read fun s =>
    resolveTarget services.maxCatalogCandidates s.lifecycle call.request
  let record ← .transact (·.create {
    request := call.request
    state := .requested
    sourceFingerprints := fingerprints
    baseVersionId := base.map (·.id)
    policyFingerprint := call.policyFingerprint
    updatedAt := call.now })
  .rescue (workOn services call fingerprints base desiredName record) fun e =>
    markFailed call.request.requestId (failureCode e) call.now

/-! ## Histories -/

/-- A call of the learning service, or an operation on the skill versions. -/
inductive LearningOperation where
  | learn (call : LearningCall)
  | lifecycle (op : SkillStore.Operation)

/-- A version that is registered from elsewhere has a semantic version. -/
def LearningOperation.Valid : LearningOperation → Prop
  | .lifecycle (.registerCandidate record) => isSkillVersion record.skillVersion = true
  | _ => True

/-- The state after an operation. -/
def Learning.step (services : LearningServices) (s : Learning) : LearningOperation → Learning
  | .learn call => (Mishkan.learn services call s).2
  | .lifecycle op => { s with lifecycle := s.lifecycle.step op }

theorem Learning.step_learn (services : LearningServices) (s : Learning) (call : LearningCall) :
    s.step services (.learn call) = (Mishkan.learn services call s).2 := rfl

end Mishkan
