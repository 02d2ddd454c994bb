import Mishkan.Domain.Errors
import Mishkan.Foundations.ObjectHeap

/-!
# Config/Loader — configuration layers and the sources of their fields

`ConfigLoader.load` lays the documents of its sources over one another, in place (`deepMerge`), and
keeps of every leaf path the source that has set it last.  The documents are objects of a heap, as
the YAML reader leaves them: an alias is one more reference to an object.  What pydantic and the
language do with a document is given by a `ConfigLibrary`.
-/

namespace Mishkan

open Overlay Refusal

/-- How loading fails. -/
inductive LoadFailure where
  | mishkan (error : MishkanError)
  /-- The recursion is too deep, or a mapping changes its size while it is iterated. -/
  | runtimeError
deriving DecidableEq

/-- A failure of the configuration. -/
def configFault (code : ErrorCode) (message : String) (details : JsonObject := []) : LoadFailure :=
  .mishkan ⟨code, message, details⟩

variable {κ α β : Type}

/-- What is done with documents by the language and by the model of a configuration. -/
structure ConfigLibrary (κ α β : Type) where
  /-- The text of a key. -/
  text : κ → String
  /-- The key of the schema version. -/
  versionKey : κ
  /-- The text of a value; none has the empty one. -/
  str : α → String
  validate : Tree κ α Unit → Except MishkanError β
  /-- The canonical serialization of a configuration. -/
  canonical : β → String

structure ConfigLayer where
  source : String
  precedence : Nat
  sha256 : String
deriving DecidableEq

/-- What a source is read as: its document is an object of the heap. -/
structure LayerDocument where
  source : String
  sha256 : String
  document : Nat
deriving DecidableEq

structure EffectiveConfig (β : Type) where
  value : β
  layers : List ConfigLayer
  fieldSources : List (String × String)
  fingerprint : Digest String

namespace ConfigLoader

/-! ## Merging in place -/

section Merge

variable [DecidableEq κ]

/-- `target[key] = value` -/
def setItem (h : Heap κ α Nat) (target : Nat) (key : κ) (value : Cell α Nat) : Heap κ α Nat :=
  Function.update h target (some (.mapping (put key value (h.entries target))))

/-- The body of the loop over the items of an overlay. -/
def mergeItem (deepMerge : Heap κ α Nat → Nat → Nat → Except LoadFailure (Heap κ α Nat))
    (target : Nat) (h : Heap κ α Nat) (key : κ) (value : Cell α Nat) :
    Except LoadFailure (Heap κ α Nat) :=
  match (h.entries target).lookup key, value with
  | some (.ref current), .ref overlay =>
    if h.isMapping (.ref current) && h.isMapping (.ref overlay) then deepMerge h current overlay
    else .ok (setItem h target key value)
  | _, _ => .ok (setItem h target key value)

/-- The loop over the items of an overlay, of which `rest` are left; every turn sees whether the
overlay still has its size. -/
def mergeItems (deepMerge : Heap κ α Nat → Nat → Nat → Except LoadFailure (Heap κ α Nat))
    (target overlay size : Nat) : Nat → Heap κ α Nat → Except LoadFailure (Heap κ α Nat)
  | 0, h => if (h.entries overlay).length = size then .ok h else .error .runtimeError
  | rest + 1, h =>
    if (h.entries overlay).length = size then
      match (h.entries overlay)[size - (rest + 1)]? with
      | none => .ok h
      | some (key, value) => do
        let h ← mergeItem deepMerge target h key value
        mergeItems deepMerge target overlay size rest h
    else .error .runtimeError

/-- `_deep_merge` -/
def deepMerge : Nat → Heap κ α Nat → Nat → Nat → Except LoadFailure (Heap κ α Nat)
  | 0, _, _, _ => .error .runtimeError
  | depth + 1, h, target, overlay =>
    mergeItems (deepMerge depth) target overlay (h.entries overlay).length
      (h.entries overlay).length h

end Merge

/-! ## Leaf paths -/

mutual

/-- `_leaf_paths` -/
def leafPaths (text : κ → String) : Tree κ α Nat → String → List String
  | .mapping _ entries, before => leafPathsOf text entries before
  | _, before => if before = "" then [] else [before]

def leafPathsOf (text : κ → String) : List (κ × Tree κ α Nat) → String → List String
  | [], _ => []
  | (key, child) :: rest, before =>
    let path := if before = "" then text key else before ++ "." ++ text key
    let leaves := leafPaths text child path
    (if leaves = [] then [path] else leaves) ++ leafPathsOf text rest before

end

/-! ## Loading -/

/-- The versions of a configuration that are supported. -/
def supportedVersions : List String :=
  ["1.0", "1.1", "1.2", "1.3", "1.4", "1.5", "1.6", "1.7", "1.8", "1.9"]

/-- `require_supported`, for the schema version of a document; the details of a refused mapping or
list, which have its text, are left out. -/
def requireSupported [DecidableEq κ] (library : ConfigLibrary κ α β) (h : Heap κ α Nat)
    (document : Nat) : Except LoadFailure String := do
  let normalized ←
    require (match (h.entries document).lookup library.versionKey with
      | none => some ""
      | some (.atom version) => some (library.str version)
      | some (.ref _) => none)
      (configFault .version "unsupported schema version for mishkan.config")
  refuseIf (normalized ∉ supportedVersions) <|
    configFault .version "unsupported schema version for mishkan.config"
      [("contract", .str "mishkan.config"),
        ("received", if normalized = "" then .null else .str normalized),
        ("supported", .arr (supportedVersions.map .str)), ("automatic_migration", .bool false)]
  return normalized

/-- What is there after some of the layers. -/
structure LoadState (κ α : Type) where
  heap : Heap κ α Nat
  layers : List ConfigLayer := []
  fieldSources : List (String × String) := []
  version : Option String := none

/-- One layer: the limit of the recursion is `depth`. -/
def loadLayer [DecidableEq κ] (library : ConfigLibrary κ α β) (depth root : Nat)
    (state : LoadState κ α) (source : Except MishkanError LayerDocument) :
    Except LoadFailure (LoadState κ α) := do
  let layer ← source.mapError .mishkan
  let version ← requireSupported library state.heap layer.document
  refuseIf (state.version.any (· ≠ version)) <|
    configFault .version "configuration layers use different schema versions"
      [("source", .str layer.source), ("received", .str version),
        ("expected", .str (state.version.getD "")), ("automatic_migration", .bool false)]
  let heap ← deepMerge depth state.heap root layer.document
  let document ← unfold .runtimeError heap depth (.ref layer.document)
  return { heap := heap
           layers := state.layers ++ [⟨layer.source, state.layers.length, layer.sha256⟩]
           fieldSources := (leafPaths library.text document "").foldl
             (fun sources field => put field layer.source sources) state.fieldSources
           version := some version }

/-- The layers, laid over an empty mapping one after another. -/
def loadLayers [DecidableEq κ] (library : ConfigLibrary κ α β) (depth root : Nat)
    (h : Heap κ α Nat) (sources : List (Except MishkanError LayerDocument)) :
    Except LoadFailure (LoadState κ α) := do
  refuseIf (sources = []) <|
    configFault .configuration "no configuration source was provided" [("field", .str "config")]
  sources.foldlM (loadLayer library depth root) { heap := h }

/-- The merged document, validated. -/
def effectiveConfig (library : ConfigLibrary κ α β) (depth root : Nat) (state : LoadState κ α) :
    Except LoadFailure (EffectiveConfig β) := do
  let merged ← unfold .runtimeError state.heap depth (.ref root)
  let value ← (library.validate merged.erase).mapError .mishkan
  return { value := value
           layers := state.layers
           fieldSources := state.fieldSources
           fingerprint := ⟨library.canonical value⟩ }

/-- `load`; `root` is the mapping the layers are merged into. -/
def load [DecidableEq κ] (library : ConfigLibrary κ α β) (depth root : Nat) (h : Heap κ α Nat)
    (sources : List (Except MishkanError LayerDocument)) :
    Except LoadFailure (EffectiveConfig β) := do
  let state ← loadLayers library depth root h sources
  effectiveConfig library depth root state

end ConfigLoader

end Mishkan
