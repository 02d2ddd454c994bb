import Mishkan.Artifacts.Store
import Mishkan.Foundations.Worklist

/-!
# Artifacts/Collector — which artifacts are reachable from a record, and garbage collection

`rootedIds` starts from the references it reads in the tables and follows the sources of derived
artifacts.  Three kinds of reference are in no table it reads, or in a column of one it does not
read (`unreadRoots`).

A plan lists available artifacts that are not rooted.  Applying it tombstones them in one
transaction, and then deletes, under its lock, every body that no live artifact has.
-/

namespace Mishkan.Artifacts

open Relation Refusal

variable (settings : ArtifactSettings)

/-- The artifact a text refers to. -/
def referenceId (reference : String) : Option Uuid :=
  if "artifact:".toList.isPrefixOf reference.toList then
    settings.uuid (String.ofList (reference.toList.drop 9))
  else none

mutual

/-- The artifacts the texts of a payload refer to. -/
def artifactIdsInPayload : Json → List Uuid
  | .str text => (referenceId settings text).toList
  | .arr items => artifactIdsInItems items
  | .obj members => artifactIdsInMembers members
  | _ => []

def artifactIdsInItems : List Json → List Uuid
  | [] => []
  | item :: items => artifactIdsInPayload item ++ artifactIdsInItems items

def artifactIdsInMembers : List (String × Json) → List Uuid
  | [] => []
  | (_, value) :: members => artifactIdsInPayload value ++ artifactIdsInMembers members

end

/-- The artifacts an execution session refers to. -/
def SessionReferences.artifactIds (session : SessionReferences) : List Uuid :=
  artifactIdsInPayload settings session.effectEvidence ++ session.stdoutArtifact.toList
    ++ session.stderrArtifact.toList ++ session.producedArtifacts

namespace ArtifactStore

/-- The artifacts the read tables refer to. -/
def roots (s : ArtifactStore) : List Uuid :=
  s.references.rows.map (·.artifactId) ++ s.holds.rows.map (·.artifactId)
  ++ s.pins.rows.map (·.artifactId) ++ s.collections.rows.flatMap (·.entries.map (·.2))
  ++ s.records.results.flatMap (artifactIdsInPayload settings)
  ++ s.records.browserObservations.flatMap (artifactIdsInPayload settings)
  ++ s.records.browserActions.flatMap (artifactIdsInPayload settings)
  ++ s.records.mcpCalls.flatMap (fun call => artifactIdsInPayload settings call.1
    ++ call.2.toList.flatMap (artifactIdsInPayload settings))
  ++ s.records.mcpProgress.flatMap (artifactIdsInPayload settings)
  ++ s.records.executionSessions.flatMap (·.artifactIds settings)
  ++ s.records.changeSetDiffs.filterMap id
  ++ s.records.changeOperations.filterMap (·.preimage)

/-- The sources of an artifact. -/
def sources (s : ArtifactStore) (id : Uuid) : List Uuid :=
  ((s.artifact? id).map (·.payload.provenance.sourceArtifacts)).getD []

/-- All sources. -/
def allSources (s : ArtifactStore) : List Uuid :=
  s.artifacts.rows.flatMap (·.payload.provenance.sourceArtifacts)

def rootedIds (s : ArtifactStore) : List Uuid :=
  Worklist.reached s.sources s.allSources (s.roots settings)

/-! ## Reachability -/

/-- What is not read: the artifact a working reference had before, the profile a browser session
keeps, and the content a change operation takes from an artifact. -/
def unreadRoots (s : ArtifactStore) : List Uuid :=
  s.references.rows.filterMap (·.priorArtifactId)
  ++ s.records.browserSessions.flatMap (artifactIdsInPayload settings)
  ++ s.records.changeOperations.filterMap (·.artifactReference)

/-- A path over the sources of derived artifacts leads from a root to the artifact. -/
def ReachedFrom (s : ArtifactStore) (roots : List Uuid) (id : Uuid) : Prop :=
  ∃ root ∈ roots, ReflTransGen (Worklist.Edge s.sources) root id

/-- **The artifact is reachable from a record.** -/
def ReachableFromRecords (s : ArtifactStore) (id : Uuid) : Prop :=
  s.ReachedFrom (s.roots settings ++ s.unreadRoots settings) id

variable {s : ArtifactStore} {id : Uuid} {roots roots' : List Uuid} {settings}

theorem reachedFrom_append : s.ReachedFrom (roots ++ roots') id ↔
    s.ReachedFrom roots id ∨ s.ReachedFrom roots' id := by
  simp only [ReachedFrom, List.mem_append, or_and_right, exists_or]

theorem mem_allSources {source : Uuid} (h : source ∈ s.sources id) : source ∈ s.allSources := by
  unfold sources at h
  cases hrow : s.artifact? id with
  | none => simp [hrow] at h
  | some row =>
    rw [hrow] at h
    exact List.mem_flatMap.mpr ⟨row, (artifact?_eq_some.mp hrow).1, h⟩

/-- **The rooted artifacts are those reached from what is read.** -/
theorem mem_rootedIds : id ∈ s.rootedIds settings ↔ s.ReachedFrom (s.roots settings) id :=
  Worklist.mem_reached fun _ _ => mem_allSources

end ArtifactStore

namespace ArtifactStore

/-! ## Planning -/

/-- The artifact was created before the watermark, as the texts of the instants compare. -/
def createdBefore (watermark : DateTime) (row : ArtifactRow) : Prop :=
  settings.isoformat row.createdAt < settings.isoformat watermark

instance (watermark : DateTime) (row : ArtifactRow) :
    Decidable (createdBefore settings watermark row) := inferInstanceAs (Decidable (_ < _))

/-- The artifacts a plan lists. -/
def gcCandidates (s : ArtifactStore) (watermark : DateTime) : List Uuid :=
  let rooted := s.rootedIds settings
  ((s.artifacts.select fun row => row.lifecycle = .available
    ∧ createdBefore settings watermark row).filter (·.id ∉ rooted)).map (·.id)

def planGc (s : ArtifactStore) (planId : Uuid) (watermark : DateTime) :
    Except Raised (GarbageCollectionPlan × ArtifactStore) := do
  let candidates := s.gcCandidates settings watermark
  let gcPlans ← require (s.gcPlans.insert ⟨planId, watermark, candidates, none⟩) .integrityError
  return (⟨planId, candidates, watermark, false⟩, { s with gcPlans := gcPlans })

/-! ## Application -/

/-- An artifact that is tombstoned. -/
def tombstone (now : DateTime) (row : ArtifactRow) : ArtifactRow :=
  { row.setLifecycle .tombstoned with tombstonedAt := some now }

theorem tombstone_key (now : DateTime) (row : ArtifactRow) :
    Keyed.key (tombstone now row) = Keyed.key row := rfl

/-- Tombstone an artifact if it is available, and note its body. -/
def tombstoneCandidate (now : DateTime) (acc : List StorageRef × ArtifactStore) (id : Uuid) :
    List StorageRef × ArtifactStore :=
  match (acc.2.artifact? id).filter (·.lifecycle = .available) with
  | some row =>
    (if row.storageRef ∈ acc.1 then acc.1 else acc.1 ++ [row.storageRef],
      { acc.2 with
        artifacts := acc.2.artifacts.update (·.id = id) (tombstone now) (tombstone_key now) })
  | none => acc

def markGcApplied (now : DateTime) (row : ArtifactGCPlanRow) : ArtifactGCPlanRow :=
  { row with appliedAt := some now }

theorem markGcApplied_key (now : DateTime) (row : ArtifactGCPlanRow) :
    Keyed.key (markGcApplied now row) = Keyed.key row := rfl

/-- The first transaction of an application: tombstone the candidates of a plan, none of which may
be rooted by now.  The bodies that may be deleted then are what it returns; a plan that is applied
has none. -/
def tombstoneCandidates (s : ArtifactStore) (planId : Uuid) (now : DateTime) :
    Except Raised (List StorageRef × ArtifactStore) := do
  let plan ← require (s.gcPlans.find (·.id = planId)) <|
    fault .artifact "garbage collection plan does not exist"
  if plan.appliedAt ≠ none then return ([], s)
  else
    let rooted := s.rootedIds settings
    refuseIf (∃ id ∈ plan.candidates, id ∈ rooted) <|
      fault .revisionMismatch "garbage collection roots changed after planning"
        [("artifact", .str ((plan.candidates.find? (· ∈ rooted)).elim "" artifactReference))]
    let (refs, tombstoned) := plan.candidates.foldl (tombstoneCandidate now) ([], s)
    return (refs, { tombstoned with
      gcPlans := tombstoned.gcPlans.update (·.id = planId) (markGcApplied now)
        (markGcApplied_key now) })

/-- The states in which an artifact does not need its body. -/
def ArtifactLifecycle.isDead : ArtifactLifecycle → Bool
  | .tombstoned | .deleted | .missing | .corrupt => true
  | _ => false

/-- An artifact that needs its body has this one. -/
def BodyLive (s : ArtifactStore) (ref : StorageRef) : Prop :=
  ∃ row ∈ s.artifacts, row.storageRef = ref ∧ ¬ ArtifactLifecycle.isDead row.lifecycle = true

instance (s : ArtifactStore) (ref : StorageRef) : Decidable (s.BodyLive ref) :=
  inferInstanceAs (Decidable (∃ _ ∈ s.artifacts, _))

/-- Delete a body. -/
def deleteBody (s : ArtifactStore) (ref : StorageRef) : Except Raised ArtifactStore := do
  let bodies ← s.bodies.delete ref
  return { s with bodies := bodies }

/-- The tombstoned artifacts of a deleted body are deleted. -/
def markDeleted (s : ArtifactStore) (ref : StorageRef) : ArtifactStore :=
  { s with
    artifacts := s.artifacts.update (fun row => row.storageRef = ref ∧ row.lifecycle = .tombstoned)
      (·.setLifecycle .deleted) (ArtifactRow.setLifecycle_key .deleted) }

end ArtifactStore

end Mishkan.Artifacts
