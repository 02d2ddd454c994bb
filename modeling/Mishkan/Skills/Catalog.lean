import Mishkan.Foundations.Transition
import Mishkan.Skills.Documents

/-!
# Skills/Catalog — selecting a skill and loading it in stages

A catalogue holds the metadata of the packages it has discovered.  `select` decides whether one is
eligible, `loadInstructions` reads its `SKILL.md` and then fingerprints its package, and
`loadResource` reads one more file of it.  The directory may change at any time, so what each read
sees is an argument of the call.  A `CatalogCall` is one call, on what earlier calls have returned.
-/

namespace Mishkan

open Refusal Lines

/-! ## Selection -/

inductive SkillUseOutcome where
  | hit | partialHit | miss
deriving DecidableEq

structure SkillSelectionContext where
  taskId : String
  taskClass : String
  consumingIdentity : String
  platform : String
  organizationVersion : String
  availableTools : List String := []
deriving DecidableEq

structure SkillSelection where
  requestedName : String
  context : SkillSelectionContext
  outcome : SkillUseOutcome
  selected : Option SkillMetadata := none
  reason : String
  missingConditions : List String := []
  fallbackBindings : List (String × String) := []
  /-- Nothing is selected exactly on a miss. -/
  selectedUnlessMiss : selected = none ↔ outcome = .miss

def SkillActivationState.value : SkillActivationState → String
  | .candidate => "candidate"
  | .active => "active"
  | .inactive => "inactive"
  | .quarantined => "quarantined"
  | .archived => "archived"

/-- `_availability`: the conditions of the context a skill does not meet. -/
def SkillMetadata.unmet (metadata : SkillMetadata) (context : SkillSelectionContext) :
    List String :=
  let missing :=
    (if metadata.activation ≠ .active then ["activation:" ++ metadata.activation.value] else []) ++
    (if metadata.trust = .quarantined then ["trust:quarantined"] else []) ++
    (if "*" ∉ metadata.platforms ∧ context.platform ∉ metadata.platforms then
      ["platform:" ++ context.platform] else []) ++
    (if "*" ∉ metadata.organizationVersions ∧
        context.organizationVersion ∉ metadata.organizationVersions then
      ["organization:" ++ context.organizationVersion] else []) ++
    (if metadata.taskClasses ≠ [] ∧ context.taskClass ∉ metadata.taskClasses then
      ["task_class:" ++ context.taskClass] else [])
  missing.insertionSort (· ≤ ·)

/-- The tool a required tool is replaced by, if there is one. -/
def SkillMetadata.fallback (metadata : SkillMetadata) (context : SkillSelectionContext)
    (tool : String) : Option String :=
  ((metadata.fallbackTools.lookup tool).getD []).find? (· ∈ context.availableTools)

/-- A skill that is not selected. -/
def SkillSelection.missed (requestedName : String) (context : SkillSelectionContext)
    (reason : String) (missingConditions : List String) : SkillSelection where
  requestedName := requestedName
  context := context
  outcome := .miss
  reason := reason
  missingConditions := missingConditions
  selectedUnlessMiss := iff_of_true rfl rfl

theorem outcome_ne_miss (p : Prop) [Decidable p] :
    (if p then SkillUseOutcome.hit else .partialHit) ≠ .miss := by
  split <;> decide

/-- `select_skill_metadata`. -/
def selectSkillMetadata (requestedName : String) (metadata : Option SkillMetadata)
    (context : SkillSelectionContext) : SkillSelection :=
  match metadata with
  | none => .missed requestedName context "skill is not present in the configured catalogue"
    ["skill:" ++ requestedName]
  | some metadata =>
    let unavailable := metadata.unmet context
    let needed := metadata.requiredTools.filter (· ∉ context.availableTools)
    let missingTools := (needed.filter fun tool => metadata.fallback context tool = none).map
      ("tool:" ++ ·)
    let bindings := needed.filterMap fun tool =>
      (metadata.fallback context tool).map (tool, ·)
    if unavailable ≠ [] then
      .missed requestedName context "skill is not eligible for this task context" unavailable
    else if missingTools ≠ [] then
      .missed requestedName context "skill required tools are unavailable"
        (missingTools.insertionSort (· ≤ ·))
    else
      { requestedName := requestedName
        context := context
        outcome := if bindings = [] then .hit else .partialHit
        selected := some metadata
        reason := if bindings = [] then "skill is eligible" else "compatible fallback tool selected"
        fallbackBindings := bindings
        selectedUnlessMiss := iff_of_false (by rintro ⟨⟩) (outcome_ne_miss _) }

/-! ## Loading -/

structure SkillLoadedResource where
  path : String
  fingerprint : String
  sizeBytes : Nat
deriving DecidableEq

structure SkillLoadEvidence where
  taskId : String
  taskClass : String
  consumingIdentity : String
  skillName : String
  skillVersion : String
  packageFingerprint : String
  outcome : SkillUseOutcome
  reason : String
  instructionFingerprint : Option String := none
  loadedResources : List SkillLoadedResource := []
deriving DecidableEq

structure LoadedSkill where
  metadata : SkillMetadata
  instructions : Text
  evidence : SkillLoadEvidence
  resources : List (SkillLoadedResource × List UInt8) := []
deriving DecidableEq

/-- The bounds of a catalogue, with those of loading. -/
structure SkillCatalogBounds extends SkillBounds where
  maxManifestBytes : Nat
  maxResourceBytes : Nat

/-- The metadata of the skills that were discovered, each under its name. -/
structure SkillCatalog where
  metadata : List SkillMetadata
  bounds : SkillCatalogBounds

/-- What one read of a file sees: the size it has when it is asked for, and the content. -/
structure FileRead where
  size : Nat
  content : List UInt8
deriving DecidableEq

/-- `_read_bounded`, of a file that can be read or not. -/
def readBounded (read : Option FileRead) (limit : Nat) (label : String) :
    Except Raised (List UInt8) := do
  let read ← require read <| fault .skillContract (label ++ " could not be read")
    [("reason", .str "OSError")]
  refuseIf (read.size > limit) <|
    fault .skillContract (label ++ " exceeds configured byte bound")
      [("size_bytes", .int read.size), ("limit", .int limit)]
  return read.content

/-- `sha256:` and the digest of a content. -/
def contentFingerprint (sha256 : List UInt8 → List UInt8) (content : List UInt8) : String :=
  "sha256:" ++ hexdigest (sha256 content)

namespace SkillCatalog

variable (catalog : SkillCatalog) (yaml : Yaml.Codec) (sha256 : List UInt8 → List UInt8)

def select (name : String) (context : SkillSelectionContext) : SkillSelection :=
  selectSkillMetadata name (catalog.metadata.find? (·.name = name)) context

/-- Load the instructions of a selected skill.  `manifest` is what the read of `SKILL.md` sees, and
`package` the directory as it is fingerprinted afterwards. -/
def loadInstructions (selection : SkillSelection) (manifest : Option FileRead)
    (package : SkillPackage) : Except Raised LoadedSkill := do
  let metadata ← require selection.selected <|
    fault .skillSelection "skill instructions cannot be loaded for a miss"
      [("skill", .str selection.requestedName)]
  let content ← readBounded manifest catalog.bounds.maxManifestBytes "skill manifest"
  let text ← require (decode? content) <|
    fault .skillContract "SKILL.md must be UTF-8 text" [("skill", .str metadata.name)]
  let (frontmatter, body) ← parseDocument yaml text package.manifest
  refuseIf (¬ (Yaml.get frontmatter "name").equals metadata.name ∨ strip body = []) <|
    fault .skillContract
      "loaded SKILL.md differs from catalogue metadata or has no instructions"
      [("skill", .str metadata.name)]
  let (observed, _) ← packageFingerprint sha256 catalog.bounds.toSkillBounds package
  refuseIf (observed ≠ metadata.packageFingerprint) <|
    fault .skillSelection "skill package changed after catalogue selection"
      [("skill", .str metadata.name)]
  return {
    metadata := metadata
    instructions := text
    evidence := {
      taskId := selection.context.taskId
      taskClass := selection.context.taskClass
      consumingIdentity := selection.context.consumingIdentity
      skillName := metadata.name
      skillVersion := metadata.version
      packageFingerprint := metadata.packageFingerprint
      outcome := selection.outcome
      reason := selection.reason
      instructionFingerprint := some (contentFingerprint sha256 content) } }

/-- `_safe_resource_path`. -/
def safeResourcePath (value : String) : Except Raised String := do
  refuseIf ('\\' ∈ value.toList ∨ '\x00' ∈ value.toList) <|
    fault .skillContract "skill resource path is invalid"
  let parts := (value.toList.splitOn '/').filter fun part => part ≠ [] ∧ part ≠ ['.']
  refuseIf (value.toList.head? = some '/' ∨ ['.', '.'] ∈ parts) <|
    fault .skillContract "skill resource path is invalid"
  refuseIf (parts.length - 1 > catalog.bounds.maxResourceDepth) <|
    fault .skillContract "skill resource path exceeds depth bound"
  return if parts = [] then "." else String.ofList (List.intercalate ['/'] parts)

/-- Load a resource of a loaded skill.  `resolves` says that its path leads to a file below the
package, and `read` is what the read of it sees. -/
def loadResource (loaded : LoadedSkill) (relativePath : String) (resolves : Bool)
    (read : Option FileRead) : Except Raised LoadedSkill := do
  let normalized ← catalog.safeResourcePath relativePath
  let details := [("skill", Json.str loaded.metadata.name), ("path", .str normalized)]
  refuseIf (normalized ∉ loaded.metadata.resourcePaths) <|
    fault .skillContract "skill resource is not part of the selected package" details
  refuseIf (¬ normalized.toList <:+: loaded.instructions) <|
    fault .skillContract "skill resource was not referenced by the loaded instructions" details
  if loaded.resources.any fun item => item.1.path = normalized then return loaded
  else
    refuseIf (¬ resolves) <|
      fault .skillContract "skill resource does not resolve to a package file" details
    let content ← readBounded read catalog.bounds.maxResourceBytes "skill resource"
    let record : SkillLoadedResource :=
      { path := normalized
        fingerprint := contentFingerprint sha256 content
        sizeBytes := content.length }
    let resources := loaded.resources ++ [(record, content)]
    return { loaded with
      evidence := { loaded.evidence with loadedResources := resources.map Prod.fst }
      resources := resources }

end SkillCatalog

/-! ## Calls -/

/-- One call, and what its reads see. -/
inductive CatalogCall where
  | select (name : String) (context : SkillSelectionContext)
  /-- Load the instructions of an earlier selection. -/
  | loadInstructions (selection : Nat) (manifest : Option FileRead) (package : SkillPackage)
  /-- Load a resource of a skill that was loaded earlier. -/
  | loadResource (loaded : Nat) (relativePath : String) (resolves : Bool) (read : Option FileRead)

/-- A skill that was loaded, and the files of its package as they were fingerprinted. -/
structure Loading where
  skill : LoadedSkill
  files : List (String × List UInt8)

/-- The files of a package. -/
def SkillPackage.files (package : SkillPackage) : List (String × List UInt8) :=
  package.entries.map fun entry => (entry.relative, entry.content)

/-- What the calls have returned so far. -/
structure CatalogRun where
  selections : List SkillSelection := []
  loadings : List Loading := []

namespace CatalogRun

variable (catalog : SkillCatalog) (yaml : Yaml.Codec) (sha256 : List UInt8 → List UInt8)

/-- How a call on what was returned ends: with a selection or with a loaded skill. -/
def call (run : CatalogRun) : CatalogCall → Except Raised (SkillSelection ⊕ Loading)
  | .select name context => .ok (.inl (catalog.select name context))
  | .loadInstructions i manifest package => do
    let selection ← require run.selections[i]? (.keyError "selection")
    let skill ← catalog.loadInstructions yaml sha256 selection manifest package
    return .inr ⟨skill, package.files⟩
  | .loadResource i relativePath resolves read => do
    let loading ← require run.loadings[i]? (.keyError "loaded")
    let skill ← catalog.loadResource sha256 loading.skill relativePath resolves read
    return .inr { loading with skill := skill }

/-- What has been returned after a call; one that raises returns nothing. -/
def step (run : CatalogRun) (c : CatalogCall) : CatalogRun :=
  match run.call catalog yaml sha256 c with
  | .ok (.inl selection) => { run with selections := run.selections ++ [selection] }
  | .ok (.inr loading) => { run with loadings := run.loadings ++ [loading] }
  | .error _ => run

end CatalogRun
end Mishkan
