import Mishkan.Artifacts.Bodies

/-!
# Artifacts/Store — what the artifact service keeps durable

The tables of the service, the staging files, the bodies, and of the tables of the other services
what can refer to an artifact.
-/

namespace Mishkan.Artifacts

open Refusal Table

/-- What the service is composed with: its bounds, its inspector, the texts of digests and instants,
how a UUID is read from a text, and the lock of each storage name. -/
structure ArtifactSettings where
  maxArtifactBytes : Nat
  maxChunkBytes : Nat
  stagingTtlSeconds : Option Nat := none
  inspector : Option (Bytes → Except Raised Unit) := none
  hexdigest : Bytes → String
  isoformat : DateTime → String
  uuid : String → Option Uuid
  casLock : StorageRef → Nat

/-- A service that inspects nothing. -/
def plainSettings : ArtifactSettings where
  maxArtifactBytes := 16
  maxChunkBytes := 4
  hexdigest _ := ""
  isoformat time := if time.instant = 0 then "2026-01-01" else "2026-01-02"
  uuid text := if text = Uuid.text 2 then some 2 else none
  casLock _ := 0

/-- The artifact references of an execution session. -/
structure SessionReferences where
  effectEvidence : Json := .null
  stdoutArtifact : Option Uuid := none
  stderrArtifact : Option Uuid := none
  producedArtifacts : List Uuid := []
deriving DecidableEq

/-- The artifact references of a change operation: its preimage, and the source of its content. -/
structure OperationReferences where
  preimage : Option Uuid := none
  artifactReference : Option Uuid := none
deriving DecidableEq

/-- The rows of the other services that can refer to an artifact; a payload that is no JSON text is
read as `null`. -/
structure RecordRows where
  results : List Json := []
  browserSessions : List Json := []
  browserObservations : List Json := []
  browserActions : List Json := []
  mcpCalls : List (Json × Option Json) := []
  mcpProgress : List Json := []
  executionSessions : List SessionReferences := []
  changeSetDiffs : List (Option Uuid) := []
  changeOperations : List OperationReferences := []
deriving DecidableEq

structure ArtifactStore where
  uploads : Table ArtifactUploadRow := ∅
  artifacts : Table ArtifactRow := ∅
  collections : Table ArtifactCollectionRow := ∅
  references : Table ArtifactReferenceRow := ∅
  holds : Table ArtifactHoldRow := ∅
  pins : Table ArtifactPinRow := ∅
  gcPlans : Table ArtifactGCPlanRow := ∅
  reconciliationPlans : Table ArtifactReconciliationPlanRow := ∅
  records : RecordRows := {}
  staging : Table (StoredFile Uuid) := ∅
  bodies : BodyStore := ∅

/-- How an artifact is referred to. -/
def artifactReference (id : Uuid) : String := "artifact:" ++ id.text

namespace ArtifactStore

/-- A service nothing was stored in. -/
def empty : ArtifactStore := {}

def requireUpload (s : ArtifactStore) (id : Uuid) : Except Raised ArtifactUploadRow :=
  require (s.uploads.find (·.id = id)) <| fault .artifact "artifact upload session does not exist"

/-- The row of an artifact. -/
def artifact? (s : ArtifactStore) (id : Uuid) : Option ArtifactRow :=
  s.artifacts.find (·.id = id)

def manifest (s : ArtifactStore) (id : Uuid) : Except Raised ArtifactManifest := do
  let row ← require (s.artifact? id) <| fault .artifact "artifact manifest does not exist"
  return { row.payload with lifecycle := row.lifecycle }

/-- The staging body of an upload. -/
def staged? (s : ArtifactStore) (id : Uuid) : Option Bytes :=
  (s.staging.find (·.name = id)).map (·.content)

/-- A file with more at its end. -/
def extended (content : Bytes) (file : StoredFile Uuid) : StoredFile Uuid :=
  { file with content := file.content ++ content }

theorem extended_key (content : Bytes) (file : StoredFile Uuid) :
    Keyed.key (extended content file) = Keyed.key file := rfl

/-- Write at the end of a staging file. -/
def writeStaging (s : ArtifactStore) (id : Uuid) (content : Bytes) : ArtifactStore :=
  { s with
    staging := s.staging.update (·.name = id) (extended content) (extended_key content) }

def unlinkStaging (s : ArtifactStore) (id : Uuid) : ArtifactStore :=
  { s with staging := s.staging.keep (·.name ≠ id) }

/-- Rewrite the row of an upload. -/
def updateUpload (s : ArtifactStore) (id : Uuid) (f : ArtifactUploadRow → ArtifactUploadRow)
    (hf : ∀ row, Keyed.key (f row) = Keyed.key row) : ArtifactStore :=
  { s with uploads := s.uploads.update (·.id = id) f hf }

/-- Set the lifecycle of an artifact. -/
def setLifecycle (s : ArtifactStore) (id : Uuid) (lifecycle : ArtifactLifecycle) :
    ArtifactStore :=
  { s with
    artifacts := s.artifacts.update (·.id = id) (·.setLifecycle lifecycle)
      (ArtifactRow.setLifecycle_key lifecycle) }

section

variable {s : ArtifactStore} {id : Uuid} {row : ArtifactUploadRow} {artifact : ArtifactRow}
  {content : Bytes}

/-- Its identifier finds an upload. -/
theorem requireUpload_eq_ok : s.requireUpload id = .ok row ↔ row ∈ s.uploads ∧ row.id = id := by
  rw [requireUpload, require_eq_ok, find_decide]
  simp +contextual [Keyed.clash, Keyed.key]

/-- Its identifier finds an artifact. -/
theorem artifact?_eq_some : s.artifact? id = some artifact ↔
    artifact ∈ s.artifacts ∧ artifact.id = id := by
  rw [artifact?, find_decide]
  simp +contextual [Keyed.clash, Keyed.key]

theorem staged?_eq_some : s.staged? id = some content ↔
    (⟨id, content⟩ : StoredFile Uuid) ∈ s.staging := by
  have hfind : ∀ file, s.staging.find (·.name = id) = some file ↔
      file ∈ s.staging ∧ file.name = id := fun file => by
    rw [find_decide]
    simp +contextual [Keyed.clash, Keyed.key]
  rw [staged?, Option.map_eq_some_iff]
  constructor
  · rintro ⟨file, hfile, rfl⟩
    obtain ⟨hmem, rfl⟩ := (hfind file).mp hfile
    exact hmem
  · exact fun h => ⟨_, (hfind _).mpr ⟨h, rfl⟩, rfl⟩

/-- Two rows of one upload are one row. -/
theorem uploads_inj {row' : ArtifactUploadRow} (h : row ∈ s.uploads) (h' : row' ∈ s.uploads)
    (hid : row.id = row'.id) : row = row' :=
  eq_of_clash h h' (by simp [Keyed.clash, Keyed.key, hid])

theorem staged?_writeStaging {id' : Uuid} : (s.writeStaging id content).staged? id' =
    if id' = id then (s.staged? id').map (· ++ content) else s.staged? id' := by
  rw [staged?, writeStaging]
  simp only
  rw [find_update (f := extended content) fun _ => rfl, Option.map_map]
  by_cases h : id' = id
  · subst h
    rw [if_pos rfl, staged?, Option.map_map]
    cases hfind : s.staging.find (·.name = id') with
    | none => rfl
    | some file =>
      have hname : file.name = id' := by simpa using of_find hfind
      simp [hname, extended]
  · rw [if_neg h, staged?]
    cases hfind : s.staging.find (·.name = id') with
    | none => rfl
    | some file =>
      have hname : file.name = id' := by simpa using of_find hfind
      simp [hname, h]

end

end ArtifactStore
end Mishkan.Artifacts
