import Mishkan.Artifacts.Models
import Mishkan.Skills.Catalog

/-!
# Context/Models — manifests of context packs, and when they are accepted

An entry projects an artifact at a logical path.  Manifests are validated in the order of the
source, and a failed check gives its message.  Unicode normalization and case folding are given
(`ContextLibrary`).
-/

namespace Mishkan.ContextPack

open Refusal List
open Artifacts (Bytes)

/-! ## Entries -/

structure ContextPackEntry where
  logicalPath : String
  layer : String
  order : ℕ
  artifactReference : String
  digest : Digest Bytes
  sizeBytes : ℕ
  mediaType : String
  sensitivity : String
  required : Bool := true
  sourceRevision : Option String := none
deriving DecidableEq

/-- `PurePosixPath(path).parts`, but for the root of an absolute path. -/
def posixParts (path : String) : List String :=
  ((path.toList.splitOn '/').filter fun part => part ≠ [] ∧ part ≠ ['.']).map String.ofList

/-- `PurePosixPath(path).as_posix()`, of a relative path. -/
def asPosix (path : String) : String :=
  if posixParts path = [] then "." else "/".intercalate (posixParts path)

/-- The parts of the path of an entry. -/
def ContextPackEntry.parts (entry : ContextPackEntry) : List String := posixParts entry.logicalPath

/-- What is there of a pack. -/
structure ContextPackManifest where
  contextPackId : Uuid
  agentIdentity : String
  taskId : String
  outputContractReference : String
  outputContractDigest : Digest Bytes
  verificationContractReference : String
  verificationContractDigest : Digest Bytes
  maxEntries : ℕ
  maxEntryBytes : ℕ
  maxTotalBytes : ℕ
  entries : List ContextPackEntry
  skillLoads : List SkillLoadEvidence := []
  /-- The revisions, the run and the mission. -/
  content : Json := .null
deriving DecidableEq

structure MaterializedContextEntry where
  logicalPath : String
  artifactReference : String
  digest : Digest Bytes
  sizeBytes : ℕ
deriving DecidableEq

structure ContextPackMaterialization where
  contextPackId : Uuid
  manifestFingerprint : Digest ContextPackManifest
  treeDigest : Digest (List MaterializedContextEntry)
  entries : List MaterializedContextEntry
  omittedOptionalPaths : List String := []
  totalBytes : ℕ

/-- What is given of Unicode and of serialization. -/
structure ContextLibrary where
  /-- `unicodedata.normalize("NFC", text)` -/
  nfc : String → String
  /-- The full case folding of a character. -/
  fold : Char → List Char
  digestText : Digest Bytes → String
  /-- `_metadata_bytes` -/
  metadataBytes : ContextPackManifest → ContextPackMaterialization → Bytes

/-- `text.casefold()` -/
def ContextLibrary.casefold (library : ContextLibrary) (text : String) : String :=
  String.ofList (text.toList.flatMap library.fold)

def ContextPackManifest.fingerprint (manifest : ContextPackManifest) :
    Digest ContextPackManifest := ⟨manifest⟩

/-! ## Validation -/

/-- `logical_path_is_safe_and_normalized` -/
def ContextPackEntry.check (library : ContextLibrary) (entry : ContextPackEntry) :
    Except String Unit := do
  let value := entry.logicalPath
  refuseIf ('\\' ∈ value.toList ∨ '\x00' ∈ value.toList)
    "context logical path must use safe POSIX separators"
  refuseIf (library.nfc value ≠ value) "context logical path must use NFC Unicode normalization"
  refuseIf (value.toList.head? = some '/' ∨ (posixParts value).any (· ∈ ["", ".", ".."]))
    "context logical path must be normalized and relative"
  let first ← require (posixParts value).head? "tuple index out of range"
  refuseIf (first = ".mishkan") "context logical path uses the reserved manifest namespace"
  refuseIf (asPosix value ≠ value) "context logical path must be normalized and relative"

/-- The checks of the skills that are loaded. -/
def checkLoads (library : ContextLibrary) (manifest : ContextPackManifest)
    (digests : List String) : List String → List SkillLoadEvidence → Except String Unit
  | _, [] => .ok ()
  | names, load :: loads => do
    refuseIf (load.taskId ≠ manifest.taskId ∨ load.consumingIdentity ≠ manifest.agentIdentity)
      "context skill evidence must belong to its consuming task and identity"
    refuseIf (load.skillName ∈ names)
      "context pack must not contain duplicate loaded skill identities"
    let instructions ← require (if load.outcome = .miss then none else load.instructionFingerprint)
      "context pack may include only loaded hit or partial skills"
    refuseIf ((instructions :: load.loadedResources.map (·.fingerprint)).any (· ∉ digests))
      "context pack must materialize every loaded skill content item"
    checkLoads library manifest digests (load.skillName :: names) loads

/-- The file at one path would be a directory on the way to another. -/
def Contains (left right : List String) : Prop :=
  left ≠ right ∧ left.length < right.length ∧ right.take left.length = left

instance (left right : List String) : Decidable (Contains left right) :=
  inferInstanceAs (Decidable (_ ∧ _))

/-- The order of entries is that of their keys. -/
def KeysLe (a b : ContextPackEntry) : Prop :=
  a.order < b.order ∨ a.order = b.order ∧ a.logicalPath ≤ b.logicalPath

instance (a b : ContextPackEntry) : Decidable (KeysLe a b) :=
  inferInstanceAs (Decidable (_ ∨ _))

/-- `entries_are_unique_ordered_and_bounded`, after the checks of the entries. -/
def ContextPackManifest.check (library : ContextLibrary) (manifest : ContextPackManifest) :
    Except String Unit := do
  let entries := manifest.entries
  entries.forM (ContextPackEntry.check library)
  refuseIf (entries = []) "Tuple should have at least 1 item after validation, not 0"
  refuseIf (manifest.maxEntries < entries.length) "context pack exceeds its entry-count bound"
  let paths : List String := entries.map ContextPackEntry.logicalPath
  refuseIf (¬ paths.Nodup) "context pack logical paths must be unique"
  refuseIf (¬ (paths.map library.casefold).Nodup)
    "context pack logical paths must be portable across case rules"
  let parts : List (List String) := paths.map posixParts
  refuseIf (∃ left ∈ parts, ∃ right ∈ parts, Contains left right)
    "context pack file paths must not contain another file path"
  refuseIf (¬ entries.Pairwise KeysLe) "context pack entries must use deterministic order"
  refuseIf (∃ entry ∈ entries, manifest.maxEntryBytes < entry.sizeBytes)
    "context pack entry exceeds its byte bound"
  refuseIf (manifest.maxTotalBytes < (entries.map (·.sizeBytes)).sum)
    "context pack exceeds its total byte bound"
  let identities := (entries.filter (·.required)).map fun e => (e.artifactReference, e.digest)
  refuseIf ((manifest.outputContractReference, manifest.outputContractDigest) ∉ identities)
    "context pack must materialize its exact output contract"
  refuseIf
    ((manifest.verificationContractReference, manifest.verificationContractDigest) ∉ identities)
    "context pack must materialize its exact verification contract"
  checkLoads library manifest (entries.map fun e => library.digestText e.digest) []
    manifest.skillLoads

/-- A manifest that is accepted. -/
def ContextPackManifest.Accepted (library : ContextLibrary) (manifest : ContextPackManifest) :
    Prop := manifest.check library = .ok ()

/-! ## Collisions -/

/-- On a file system without cases, the file of one entry is that of another, or on the way to
it. -/
def Collides (library : ContextLibrary) (a b : ContextPackEntry) : Prop :=
  a.parts.map library.casefold <+: b.parts.map library.casefold ∨
    b.parts.map library.casefold <+: a.parts.map library.casefold

section Accepted

variable {library : ContextLibrary} {manifest : ContextPackManifest} {a b : ContextPackEntry}

/-- What is known of the paths of a manifest that is accepted. -/
structure PathsAccepted (library : ContextLibrary) (manifest : ContextPackManifest) : Prop where
  entries : ∀ entry ∈ manifest.entries, entry.parts ≠ [] ∧ entry.parts.head? ≠ some ".mishkan" ∧
    asPosix entry.logicalPath = entry.logicalPath
  folded : manifest.entries.Pairwise fun a b =>
    library.casefold a.logicalPath ≠ library.casefold b.logicalPath
  apart : ∀ a ∈ manifest.entries, ∀ b ∈ manifest.entries, ¬ Contains a.parts b.parts

theorem check_eq_ok {entry : ContextPackEntry} (h : entry.check library = .ok ()) :
    entry.parts ≠ [] ∧ entry.parts.head? ≠ some ".mishkan" ∧
      asPosix entry.logicalPath = entry.logicalPath := by
  simp only [ContextPackEntry.check, bind_eq_ok, refuseIf_eq_ok, require_eq_ok] at h
  obtain ⟨_, -, _, -, _, -, first, hfirst, _, hreserved, hnormal⟩ := h
  refine ⟨fun hnil => ?_, fun hmishkan => ?_, not_not.mp hnormal⟩
  · rw [ContextPackEntry.parts] at hnil
    rw [hnil] at hfirst
    cases hfirst
  · exact hreserved (Option.some.inj (hfirst.symm.trans hmishkan))

/-- **The paths of an accepted manifest.** -/
theorem pathsAccepted (h : manifest.Accepted library) : PathsAccepted library manifest := by
  simp only [ContextPackManifest.Accepted, ContextPackManifest.check, bind_eq_ok, refuseIf_eq_ok,
    not_not] at h
  obtain ⟨_, hentries, _, -, _, -, _, -, _, hfolded, _, hapart, -⟩ := h
  refine ⟨fun entry hentry => check_eq_ok (forM_eq_ok.mp hentries entry hentry), ?_, ?_⟩
  · rw [map_map] at hfolded
    exact pairwise_map.mp hfolded
  · intro a ha b hb hcontains
    refine hapart ⟨a.parts, ?_, b.parts, ?_, hcontains⟩
    · exact mem_map_of_mem (mem_map_of_mem ha)
    · exact mem_map_of_mem (mem_map_of_mem hb)

/-- The characters of a path without cases are made of those of its parts. -/
theorem casefold_logicalPath (hne : a.parts ≠ [])
    (hnormal : asPosix a.logicalPath = a.logicalPath) :
    library.casefold a.logicalPath = String.ofList (List.intercalate (library.fold '/')
      ((a.parts.map library.casefold).map String.toList)) := by
  have hflatMap : ∀ parts : List (List Char), (List.intercalate ['/'] parts).flatMap library.fold =
      List.intercalate (library.fold '/') (parts.map fun part => part.flatMap library.fold) := by
    intro parts
    induction parts with
    | nil => rfl
    | cons part rest ih =>
      cases rest with
      | nil => simp
      | cons next rest =>
        simp only [intercalate_cons_cons, flatMap_append, ih, map_cons,
          flatMap_singleton]
  have htext : a.logicalPath.toList = List.intercalate ['/'] (a.parts.map String.toList) := by
    have hparts : posixParts a.logicalPath ≠ [] := hne
    rw [← hnormal, asPosix, if_neg hparts, String.toList_intercalate]
    rfl
  rw [ContextLibrary.casefold, htext, hflatMap, map_map, map_map]
  simp only [Function.comp_def, ContextLibrary.casefold, String.toList_ofList]

/-- **Paths whose parts are the same without cases** are refused. -/
theorem PathsAccepted.folded_parts (h : PathsAccepted library manifest) :
    manifest.entries.Pairwise fun a b =>
      a.parts.map library.casefold ≠ b.parts.map library.casefold := by
  refine List.Pairwise.imp_of_mem ?_ h.folded
  intro a b ha hb hne heq
  obtain ⟨hpa, -, hna⟩ := h.entries a ha
  obtain ⟨hpb, -, hnb⟩ := h.entries b hb
  exact hne (by rw [casefold_logicalPath hpa hna, casefold_logicalPath hpb hnb, heq])

/-- **The files of an accepted manifest** do not stand on the way to one another. -/
theorem PathsAccepted.beside (h : PathsAccepted library manifest) :
    manifest.entries.Pairwise fun a b => ¬ a.parts <+: b.parts ∧ ¬ b.parts <+: a.parts := by
  have hstart : ∀ a ∈ manifest.entries, ∀ b ∈ manifest.entries, a.parts <+: b.parts →
      a.parts = b.parts := by
    intro a ha b hb hle
    by_contra hne
    refine h.apart a ha b hb ⟨hne, lt_of_le_of_ne hle.length_le fun hlength => ?_, ?_⟩
    · exact hne (hle.eq_of_length hlength)
    · exact (prefix_iff_eq_take.mp hle).symm
  refine List.Pairwise.imp_of_mem ?_ h.folded_parts
  intro a b ha hb hne
  exact ⟨fun hle => hne (by rw [hstart a ha b hb hle]),
    fun hle => hne (by rw [hstart b hb a ha hle])⟩

end Accepted

end Mishkan.ContextPack
