import Mishkan.Context.Models
import Mishkan.Foundations.Disk

/-!
# Context/Materializer — materializing a context pack, and verifying what is there

A pack is written into a staging directory, which becomes the destination by one rename.  The
answers of the file system are given (`Io`); what stands at a destination later is any disk.
-/

namespace Mishkan.ContextPack

open Refusal Disk
open Artifacts (Bytes ArtifactManifest)

/-- The tree of a pack. -/
abbrev PackTree := Tree String Bytes

/-- `ContextArtifactReader` -/
structure ContextArtifactReader where
  readManifest : String → Except Raised ArtifactManifest
  readBytes : String → Except Raised Bytes

/-- What the file system is asked for. -/
inductive Step where
  | mkdtemp
  | write (logicalPath : String)
  | metadata
  | replace
  | fsync
deriving DecidableEq

/-- The steps that fail. -/
abbrev Io := Step → Bool

/-- A destination, with what the file system says of it. -/
structure Destination where
  absolute : Bool
  parts : List String
  root : List String
  /-- The parent, with its links resolved. -/
  parent : List String
  /-- The parent is another after it is made. -/
  moved : Bool := false
  occupied : Bool := false

/-- A failure of a pack. -/
def contextFault (message : String) (details : JsonObject) : Raised :=
  fault .context message details

/-- `_target` -/
def Destination.target (destination : Destination) : Except Raised (List String) := do
  let details := [("destination", .str ("/".intercalate destination.parts))]
  refuseIf (destination.absolute ∨ destination.parts.any (· ∈ ["", ".", ".."])) <|
    contextFault "context materialization destination must be a safe relative path" details
  let target := destination.parent ++ (destination.parts.getLast?).toList
  refuseIf (¬ destination.root <+: target) <|
    contextFault "context materialization destination escapes its configured root" details
  return target

/-- `_new_target` -/
def Destination.newTarget (destination : Destination) : Except Raised (List String) := do
  let target ← destination.target
  refuseIf (destination.moved ∨ destination.occupied) <|
    contextFault "context materialization destination must not already exist"
      [("destination", .str ("/" ++ "/".intercalate target))]
  return target

/-- `_read_verified` -/
def readVerified (artifacts : ContextArtifactReader) (entry : ContextPackEntry) :
    Except Raised Bytes := do
  let (artifact, content) ← (do
    let artifact ← artifacts.readManifest entry.artifactReference
    let content ← artifacts.readBytes entry.artifactReference
    return (artifact, content) : Except Raised (ArtifactManifest × Bytes)).mapError fun raised =>
      match raised with
      | .mishkan _ => contextFault "context source artifact is unavailable"
          [("logical_path", .str entry.logicalPath),
            ("artifact_reference", .str entry.artifactReference),
            ("required", .bool entry.required)]
      | raised => raised
  let observed : Digest Bytes := ⟨content⟩
  refuseIf (artifact.digest ≠ entry.digest ∨ artifact.sizeBytes ≠ entry.sizeBytes ∨
      observed ≠ entry.digest ∨ content.length ≠ entry.sizeBytes ∨
      artifact.declaredMediaType ≠ entry.mediaType ∨ artifact.sensitivity ≠ entry.sensitivity ∨
      artifact.lifecycle ≠ .available ∨ artifact.validation ≠ .integrityVerified) <|
    contextFault "context source does not match the accepted manifest"
      [("logical_path", .str entry.logicalPath),
        ("artifact_reference", .str entry.artifactReference)]
  return content

/-! ## Materializing -/

/-- What is staged of a pack. -/
structure Staging where
  materialized : List MaterializedContextEntry := []
  omitted : List String := []
  tree : PackTree := .directory []

/-- The record of a file that is written. -/
def ContextPackEntry.materialized (entry : ContextPackEntry) (content : Bytes) :
    MaterializedContextEntry :=
  { logicalPath := entry.logicalPath
    artifactReference := entry.artifactReference
    digest := entry.digest
    sizeBytes := content.length }

/-- A new file, with its directories. -/
def writeNewFile (failed : Bool) (path : List String) (content : Bytes) (tree : PackTree) :
    Except Raised PackTree := do
  refuseIf failed .osError
  require (write path content (some tree)) .osError

/-- The body of the loop over the entries. -/
def stageEntry (artifacts : ContextArtifactReader) (io : Io) (s : Staging)
    (entry : ContextPackEntry) : Except Raised Staging :=
  match readVerified artifacts entry with
  | .error (.mishkan error) =>
    if entry.required then .error (.mishkan error)
    else .ok { s with omitted := s.omitted ++ [entry.logicalPath] }
  | .error raised => .error raised
  | .ok content => do
    let tree ← writeNewFile (io (.write entry.logicalPath)) entry.parts content s.tree
    return { s with materialized := s.materialized ++ [entry.materialized content], tree := tree }

/-- `_result` -/
def materializationOf (manifest : ContextPackManifest) (entries : List MaterializedContextEntry)
    (omitted : List String) : ContextPackMaterialization :=
  { contextPackId := manifest.contextPackId
    manifestFingerprint := manifest.fingerprint
    treeDigest := ⟨entries⟩
    entries := entries
    omittedOptionalPaths := omitted
    totalBytes := (entries.map (·.sizeBytes)).sum }

/-- Where the manifest of a pack is kept. -/
def manifestPath : List String := [".mishkan", "context-pack.json"]

/-- The files of a pack, in the staging directory. -/
def stage (library : ContextLibrary) (artifacts : ContextArtifactReader) (io : Io)
    (manifest : ContextPackManifest) : Except Raised (ContextPackMaterialization × PackTree) := do
  let s ← manifest.entries.foldlM (stageEntry artifacts io) {}
  let result := materializationOf manifest s.materialized s.omitted
  let tree ← writeNewFile (io .metadata) manifestPath (library.metadataBytes manifest result) s.tree
  return (result, tree)

/-- How a materialization ends, and what it has put at the destination. -/
structure Outcome where
  result : Except Raised ContextPackMaterialization
  destination : Option PackTree

/-- `materialize`; the staging directory is removed when it fails. -/
def materialize (library : ContextLibrary) (artifacts : ContextArtifactReader) (io : Io)
    (destination : Destination) (manifest : ContextPackManifest) : Outcome :=
  match (do
    let _ ← destination.newTarget
    refuseIf (io .mkdtemp) .osError
    let staged ← stage library artifacts io manifest
    refuseIf (io .replace) .osError
    return staged : Except Raised (ContextPackMaterialization × PackTree)) with
  | .error raised => ⟨.error raised, none⟩
  | .ok (result, tree) =>
    -- the staging directory is the destination from here on
    if io .fsync then ⟨.error .osError, some tree⟩ else ⟨.ok result, some tree⟩

/-! ## Verifying -/

section Verify

variable {ο : Type}

/-- `path.read_bytes()` of what is no link. -/
def readFile (object : ο → Object String Bytes ο) (root : ο) (path : List String) : Option Bytes :=
  match (leads object root path).map object with
  | some (.file content) => content
  | _ => none

/-- `verify`, of what stands at the destination now. -/
def verify (library : ContextLibrary) (manifest : ContextPackManifest)
    (materialization : ContextPackMaterialization) (destination : Destination)
    (object : ο → Object String Bytes ο) (root : Option ο) : Bool :=
  match destination.target, root with
  | .ok _, some root =>
    ((follow object root).any fun start => object start matches .directory _) &&
      decide (materialization.manifestFingerprint = manifest.fingerprint) &&
      materialization.entries.all (fun entry =>
        (readFile object root (posixParts entry.logicalPath)).any fun content =>
          (⟨content⟩ : Digest Bytes) = entry.digest && content.length = entry.sizeBytes) &&
      (readFile object root manifestPath).any (fun content =>
        content = library.metadataBytes manifest materialization) &&
      decide ((⟨materialization.entries⟩ : Digest _) = materialization.treeDigest)
  | _, _ => false

end Verify

end Mishkan.ContextPack
