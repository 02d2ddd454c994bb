import Mishkan.Artifacts.Store

/-!
# Artifacts/References — working references, holds, pins and collections

Each operation is one transaction; a collection reads its members one by one before it is recorded.
-/

namespace Mishkan.Artifacts

open Refusal

namespace ArtifactStore

/-! ## Working references -/

/-- The characters of a reference name, after its first. -/
def isNameCharacter (c : Char) : Bool := c.isAlphanum || c ∈ ['.', '_', '/', '-']

/-- What `WorkingReference` requires of its scope and its name. -/
def requireReferenceName (scope name : String) : Except Raised Unit := do
  refuseIf (scope = "" ∨ 256 < scope.length) <|
    .valueError "scope should have between 1 and 256 characters"
  refuseIf (¬ (1 ≤ name.length ∧ name.length ≤ 256 ∧ (name.toList.head?.any (·.isAlphanum))
      ∧ name.toList.all isNameCharacter)) <|
    .valueError "name should match its pattern"

/-- A reference that moves to another artifact. -/
def repoint (artifactId : Uuid) (now : DateTime) (row : ArtifactReferenceRow) :
    ArtifactReferenceRow :=
  { row with
    priorArtifactId := some row.artifactId
    priorRevision := some row.revision
    artifactId := artifactId
    revision := row.revision + 1
    updatedAt := now }

theorem repoint_key (artifactId : Uuid) (now : DateTime) (row : ArtifactReferenceRow) :
    Keyed.key (repoint artifactId now row) = Keyed.key row := rfl

def reference? (s : ArtifactStore) (scope name : String) : Option ArtifactReferenceRow :=
  s.references.find fun row => row.scope = scope ∧ row.name = name

/-- Advance a working reference from an expected revision. -/
def updateReference (s : ArtifactStore) (scope name : String) (artifactId : Uuid)
    (expectedRevision : Nat) (recordId : Uuid) (now : DateTime) :
    Except Raised (ArtifactReferenceRow × ArtifactStore) := do
  requireReferenceName scope name
  refuseIf (¬ ∃ artifact ∈ s.artifact? artifactId, artifact.lifecycle = .available) <|
    fault .artifact "working reference target is unavailable"
  let row := s.reference? scope name
  let current := (row.map (·.revision)).getD 0
  refuseIf (current ≠ expectedRevision) <|
    fault .revisionMismatch "working reference compare-and-swap revision differs"
      [("expected", .int expectedRevision), ("current", .int current)]
  match row with
  | none =>
    let row : ArtifactReferenceRow :=
      { scope := scope
        name := name
        recordId := recordId
        artifactId := artifactId
        revision := 1
        updatedAt := now }
    let references ← require (s.references.insert row) .integrityError
    return (row, { s with references := references })
  | some row =>
    return (repoint artifactId now row,
      { s with
        references := s.references.update (fun row => row.scope = scope ∧ row.name = name)
          (repoint artifactId now) (repoint_key artifactId now) })

/-! ## Holds and pins -/

def hold (s : ArtifactStore) (artifactId : Uuid) (reason : String) (recordId : Uuid)
    (now : DateTime) : Except Raised (ArtifactHoldRow × ArtifactStore) := do
  refuseIf (s.artifact? artifactId = none) <|
    fault .artifact "artifact hold target does not exist"
  match s.holds.find (·.artifactId = artifactId) with
  | some existing =>
    refuseIf (existing.reason ≠ reason) <|
      fault .revisionMismatch "artifact already has a hold with a different reason"
    return (existing, s)
  | none =>
    let row : ArtifactHoldRow := ⟨artifactId, recordId, reason, now⟩
    let holds ← require (s.holds.insert row) .integrityError
    return (row, { s with holds := holds })

def releaseHold (s : ArtifactStore) (artifactId : Uuid) :
    Except Raised (ArtifactHoldRow × ArtifactStore) := do
  let row ← require (s.holds.find (·.artifactId = artifactId)) <|
    fault .artifact "artifact hold does not exist"
  return (row, { s with holds := s.holds.keep (·.artifactId ≠ artifactId) })

def pin (s : ArtifactStore) (artifactId : Uuid) (recordId : Uuid) (now : DateTime) :
    Except Raised (ArtifactPinRow × ArtifactStore) := do
  refuseIf (s.artifact? artifactId = none) <|
    fault .artifact "artifact pin target does not exist"
  match s.pins.find (·.artifactId = artifactId) with
  | some existing => return (existing, s)
  | none =>
    let row : ArtifactPinRow := ⟨artifactId, recordId, now⟩
    let pins ← require (s.pins.insert row) .integrityError
    return (row, { s with pins := pins })

def releasePin (s : ArtifactStore) (artifactId : Uuid) :
    Except Raised (ArtifactPinRow × ArtifactStore) := do
  let row ← require (s.pins.find (·.artifactId = artifactId)) <|
    fault .artifact "artifact pin does not exist"
  return (row, { s with pins := s.pins.keep (·.artifactId ≠ artifactId) })

/-! ## Collections -/

/-- A path inside a collection stays below its root; a single dot is no part of a path. -/
def validateLogicalPath (value : String) : Except Raised Unit :=
  refuseIf (value = "" ∨ value.toList.head? = some '/' ∨ ".." ∈ value.splitOn "/") <|
    fault .artifact "collection logical path is unsafe"

/-- A member of a collection is available. -/
def requireMember (s : ArtifactStore) (entry : String × Uuid) : Except Raised Unit := do
  validateLogicalPath entry.1
  let member ← s.manifest entry.2
  refuseIf (member.lifecycle ≠ .available) <|
    fault .artifact "artifact collection member is unavailable"
      [("artifact", .str (artifactReference entry.2)), ("lifecycle", .str member.lifecycle.value)]

/-- Record a collection whose members were read. -/
def recordCollection (s : ArtifactStore) (id : Uuid) (entries : List (String × Uuid))
    (now : DateTime) : Except Raised ArtifactStore := do
  let collections ← require (s.collections.insert ⟨id, entries, now⟩) .integrityError
  return { s with collections := collections }

end ArtifactStore
end Mishkan.Artifacts
