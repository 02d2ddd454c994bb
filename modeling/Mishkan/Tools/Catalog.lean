import Mathlib.Data.Prod.Lex
import Mishkan.Foundations.Precedence
import Mishkan.Foundations.Refusal
import Mishkan.Tools.Models

/-!
# Tools/Catalog — the catalogue of configured tools, toolsets and runtime contracts

A catalogue is built from source indices, contracts of the running process and the overrides of the
registry lifecycle.  It refuses identities that several of them claim without a precedence, lists
the metadata of its tools, resolves toolsets, and takes snapshots of the contracts that were asked
for.
-/

namespace Mishkan

open Refusal Precedence

/-! ## Definitions -/

inductive SourceKind where
  | native | project | operator | mcp
deriving DecidableEq

structure AvailabilityConditions where
  platforms : List String := ["*"]
  runtimes : List String := ["*"]
  credentialRefs : List String := []
  services : List String := []
  healthChecks : List String := []
  dependencies : List String := []
  minMemoryMb : Option Nat := none
deriving DecidableEq

/-- What a source index says of a tool. -/
structure ToolMetadata where
  toolId : String
  version : String
  summary : String
  effectClass : EffectClass
  sourceId : String
  sourceKind : SourceKind
  contractUri : String
  availability : AvailabilityConditions := {}
deriving DecidableEq

/-- A contract, with the fields the catalogue reads. -/
structure CatalogContract extends ToolContract where
  summary : String
  sourceId : String
  sourceKind : SourceKind
  availability : AvailabilityConditions := {}
deriving DecidableEq

structure ToolsetDefinition where
  toolsetId : String
  version : String
  summary : String
  tools : List String := []
  toolsets : List String := []
  excludeTools : List String := []
  maxDepth : Nat := 8
  availability : AvailabilityConditions := {}
  maxDepth_le : maxDepth ≤ 64

/-- What a source defines: no identity twice, and no tool of another source. -/
structure ToolSourceIndex where
  sourceId : String
  sourceKind : SourceKind
  revision : String
  tools : List ToolMetadata := []
  toolsets : List ToolsetDefinition := []
  toolsUnique : (tools.map (·.toolId)).Nodup
  toolsetsUnique : (toolsets.map (·.toolsetId)).Nodup
  toolsOwned : ∀ tool ∈ tools, tool.sourceId = sourceId

structure RegistryLifecycleProjection where
  sourceIndices : List ToolSourceIndex := []
  toolContracts : List CatalogContract := []
  toolsets : List ToolsetDefinition := []
  disabledSources : List String := []
  disabledAdapters : List String := []
  disabledTools : List String := []
  disabledToolsets : List String := []
  sourcePrecedence : List (String × Int) := []

/-- `source_precedence.get(source, 0)`. -/
def RegistryLifecycleProjection.precedence (lifecycle : RegistryLifecycleProjection)
    (source : String) : Int :=
  (lifecycle.sourcePrecedence.lookup source).getD 0

/-- What the catalogue reads of its surroundings, and the digests of what it defines. -/
structure CatalogEnvironment where
  /-- `platform.system().lower()`. -/
  system : String
  loadIndex : String → Except Raised ToolSourceIndex
  loadContract : String → Except Raised CatalogContract
  contractFingerprint : CatalogContract → String
  indexFingerprint : ToolSourceIndex → String
  snapshotFingerprint : List CatalogContract → List (String × List String) →
    List (String × String) → String

/-- The arguments of the constructor. -/
structure CatalogConfiguration where
  sourceUris : List String
  runtime : String := "python"
  availableServices : List String := []
  healthyChecks : List String := []
  availableDependencies : List String := []
  availableCredentials : List String := []
  availableAdapters : List String := []
  runtimeContracts : List CatalogContract := []
  memoryMb : Option Nat := none
  lifecycle : Option RegistryLifecycleProjection := none

structure ToolCatalog where
  environment : CatalogEnvironment
  runtime : String
  services : List String
  healthyChecks : List String
  dependencies : List String
  credentials : List String
  adapters : List String
  runtimeContracts : List CatalogContract
  memoryMb : Option Nat
  indices : List ToolSourceIndex
  runtimeToolsets : List ToolsetDefinition
  lifecycle : Option RegistryLifecycleProjection

/-! ## Merging the sources -/

/-- `positions.get(index.source_id, len(positions))`: where the source is configured. -/
def position (configured : List ToolSourceIndex) (sourceId : String) : Nat :=
  ((configured.zipIdx.findRev? (·.1.sourceId = sourceId)).map Prod.snd).getD
    (configured.map (·.sourceId)).dedup.length

/-- The key the merged sources are sorted by. -/
def sortKey (lifecycle : RegistryLifecycleProjection) (configured : List ToolSourceIndex)
    (index : ToolSourceIndex) : Int ×ₗ Nat ×ₗ String :=
  toLex (-lifecycle.precedence index.sourceId,
    toLex (position configured index.sourceId, index.sourceId))

/-- The enabled sources, those of the lifecycle in place of the configured ones.  The order the
mapping has does not matter: its sources are distinct and the sort is by source in the end. -/
def mergedIndices (lifecycle : RegistryLifecycleProjection) (configured : List ToolSourceIndex) :
    List ToolSourceIndex :=
  keepLast (·.sourceId)
    ((configured ++ lifecycle.sourceIndices).filter (·.sourceId ∉ lifecycle.disabledSources))

/-- The sources in the order they are searched. -/
def effectiveIndices (lifecycle : Option RegistryLifecycleProjection)
    (configured : List ToolSourceIndex) : List ToolSourceIndex :=
  match lifecycle with
  | none => configured
  | some lifecycle => (mergedIndices lifecycle configured).insertionSort fun a b =>
      sortKey lifecycle configured a ≤ sortKey lifecycle configured b

namespace ToolCatalog

/-! ## Collisions -/

/-- The sources and runtime contracts that claim a tool. -/
def toolClaims (catalog : ToolCatalog) (identity : String) : List String :=
  ((catalog.indices.filter fun index => index.tools.any (·.toolId = identity)).map (·.sourceId)) ++
    ((catalog.runtimeContracts.filter (·.toolId = identity)).map fun contract =>
      "runtime:" ++ contract.sourceId)

/-- The sources that claim a toolset. -/
def toolsetClaims (catalog : ToolCatalog) (identity : String) : List String :=
  (catalog.indices.filter fun index => index.toolsets.any (·.toolsetId = identity)).map (·.sourceId)

/-- What `{**claims, **toolset_claims}` has under an identity. -/
def claims (catalog : ToolCatalog) (identity : String) : List String :=
  if catalog.toolsetClaims identity = [] then catalog.toolClaims identity
  else catalog.toolsetClaims identity

/-- The keys of that mapping. -/
def identities (catalog : ToolCatalog) : List String :=
  keepFirst id
    (catalog.indices.flatMap (fun index => index.tools.map (·.toolId)) ++
      catalog.runtimeContracts.map (·.toolId) ++
      catalog.indices.flatMap fun index => index.toolsets.map (·.toolsetId))

/-- The identities with several claims. -/
def collisions (catalog : ToolCatalog) : List (String × List String) :=
  (catalog.identities.map fun identity => (identity, catalog.claims identity)).filter
    fun collision => collision.2.length > 1

/-- Whether an explicit entry or the precedences decide a collision. -/
def isDecided (lifecycle : RegistryLifecycleProjection) (collision : String × List String) : Bool :=
  lifecycle.toolContracts.any (·.toolId = collision.1) ||
  lifecycle.toolsets.any (·.toolsetId = collision.1) ||
  let scores := collision.2.map lifecycle.precedence
  scores.max?.any (fun highest => scores.count highest = 1) &&
    collision.2.any fun source => (lifecycle.sourcePrecedence.lookup source).isSome

/-- `_validate_collisions`. -/
def validateCollisions (catalog : ToolCatalog) : Except Raised Unit :=
  let unresolved := match catalog.lifecycle with
    | none => catalog.collisions
    | some lifecycle => catalog.collisions.filter fun collision => !isDecided lifecycle collision
  refuseIf (unresolved ≠ []) <|
    fault .toolDrift "tool or toolset identities collide across configured sources"
      [("collisions", .obj (unresolved.map fun collision =>
        (collision.1, .strings collision.2)))]

/-- `ToolCatalog(...)`. -/
def create (environment : CatalogEnvironment) (configuration : CatalogConfiguration) :
    Except Raised ToolCatalog := do
  refuseIf (configuration.sourceUris = []) <|
    fault .toolContract "at least one configured tool source is required"
  let lifecycle := configuration.lifecycle
  let effective := configuration.runtimeContracts ++ (lifecycle.elim [] (·.toolContracts))
  refuseIf (¬ (effective.map (·.toolId)).Nodup) <|
    fault .toolDrift "runtime tool contract identity collides"
  let configured ← configuration.sourceUris.mapM environment.loadIndex
  let catalog : ToolCatalog := {
    environment := environment
    runtime := configuration.runtime
    services := configuration.availableServices
    healthyChecks := configuration.healthyChecks
    dependencies := configuration.availableDependencies
    credentials := configuration.availableCredentials
    adapters := configuration.availableAdapters.filter
      (· ∉ lifecycle.elim [] (·.disabledAdapters))
    runtimeContracts := effective
    memoryMb := configuration.memoryMb
    indices := effectiveIndices lifecycle configured
    runtimeToolsets := lifecycle.elim [] (·.toolsets)
    lifecycle := lifecycle }
  catalog.validateCollisions
  return catalog

/-! ## Listing -/

/-- The metadata a runtime contract is listed with. -/
def runtimeMetadata (catalog : ToolCatalog) (contract : CatalogContract) : ToolMetadata where
  toolId := contract.toolId
  version := contract.version
  summary := contract.summary
  effectClass := contract.effectClass
  sourceId := contract.sourceId
  sourceKind := contract.sourceKind
  contractUri := "runtime://" ++ catalog.environment.contractFingerprint contract
  availability := contract.availability

/-- `list_metadata`. -/
def listMetadata (catalog : ToolCatalog) : List ToolMetadata :=
  let configured := catalog.indices.flatMap (·.tools)
  let runtime := catalog.runtimeContracts.map catalog.runtimeMetadata
  match catalog.lifecycle with
  | none => configured ++ runtime
  | some lifecycle => keepFirst (·.toolId)
      ((runtime ++ configured).filter (·.toolId ∉ lifecycle.disabledTools))

/-- `_missing_conditions`. -/
def missingConditions (catalog : ToolCatalog) (conditions : AvailabilityConditions) :
    List String :=
  let absent := fun (kind : String) (present : List String) (items : List String) =>
    (items.filter (· ∉ present)).map fun item => kind ++ ":" ++ item
  let platform :=
    if "*" ∉ conditions.platforms ∧ catalog.environment.system ∉ conditions.platforms then
      ["platform:" ++ catalog.environment.system]
    else []
  let runtime :=
    if "*" ∉ conditions.runtimes ∧ catalog.runtime ∉ conditions.runtimes then
      ["runtime:" ++ catalog.runtime]
    else []
  let memory := match conditions.minMemoryMb with
    | none => []
    | some least => if catalog.memoryMb.all (· < least) then [s!"memory_mb:{least}"] else []
  (platform ++ runtime ++
    absent "credential" catalog.credentials conditions.credentialRefs ++
    absent "service" catalog.services conditions.services ++
    absent "health" catalog.healthyChecks conditions.healthChecks ++
    absent "dependency" catalog.dependencies conditions.dependencies ++ memory).mergeSort (· ≤ ·)

/-! ## Toolsets -/

/-- `_toolset`. -/
def toolset? (catalog : ToolCatalog) (toolsetId : String) :
    Except Raised (Option ToolsetDefinition) := do
  if catalog.lifecycle.any (toolsetId ∈ ·.disabledToolsets) then
    return none
  else
    let found := (catalog.runtimeToolsets ++ catalog.indices.flatMap (·.toolsets)).filter
      (·.toolsetId = toolsetId)
    refuseIf (found.length > 1 ∧ catalog.lifecycle.isNone) <|
      fault .toolDrift "toolset identity collides across configured sources"
        [("toolset_id", .str toolsetId)]
    return found.head?

/-- `_resolve_toolset`. -/
def resolveToolset (catalog : ToolCatalog) (toolsetId : String) (stack : List String)
    (depth : Nat) : Except Raised (List String) := do
  let toolset ← require (← catalog.toolset? toolsetId) <|
    fault .toolContract "nested toolset is unknown" [("toolset_id", .str toolsetId)]
  refuseIf (toolsetId ∈ stack) <|
    fault .toolContract "toolset resolution cycle detected"
      [("toolset_id", .str toolsetId), ("stack", .strings (stack.mergeSort (· ≤ ·)))]
  let missing := catalog.missingConditions toolset.availability
  refuseIf (missing ≠ []) <|
    fault .toolUnavailable "requested toolset is unavailable"
      [("toolset_id", .str toolsetId), ("missing_conditions", .strings missing)]
  if _h : toolset.maxDepth ≤ depth then
    .error (fault .toolContract "toolset nesting bound exceeded"
      [("toolset_id", .str toolsetId), ("max_depth", .int toolset.maxDepth)])
  else
    let nested ← toolset.toolsets.mapM fun nested =>
      catalog.resolveToolset nested (toolsetId :: stack) (depth + 1)
    return keepFirst id
      ((toolset.tools ++ nested.flatten).filter (· ∉ toolset.excludeTools))
termination_by 64 - depth
decreasing_by
  have := toolset.maxDepth_le
  omega

/-- `_resolve_requested`. -/
def resolveRequested (catalog : ToolCatalog) (requested : List String) :
    Except Raised (List String) := do
  let knownTools := catalog.listMetadata.map (·.toolId)
  let resolved ← requested.mapM fun item =>
    if item ∈ knownTools then .ok [item]
    else do
      let _ ← require (← catalog.toolset? item) <|
        fault .toolContract "requested tool or toolset is unknown" [("identity", .str item)]
      catalog.resolveToolset item [] 0
  return keepFirst id resolved.flatten

/-! ## Snapshots -/

/-- The contract of a tool that is listed: that of the running process, or the one its metadata
point to. -/
def contractOf (catalog : ToolCatalog) (metadata : ToolMetadata) :
    Except Raised CatalogContract :=
  match catalog.runtimeContracts.find? (·.toolId = metadata.toolId) with
  | some contract => .ok contract
  | none => catalog.environment.loadContract metadata.contractUri

/-- The contract a snapshot takes of a tool. -/
def snapshotContract (catalog : ToolCatalog) (toolId : String) :
    Except Raised CatalogContract := do
  let metadata ← require (catalog.listMetadata.findRev? (·.toolId = toolId)) <|
    fault .toolContract "requested tool is not present in configured sources"
      [("tool_id", .str toolId)]
  let missing := catalog.missingConditions metadata.availability
  refuseIf (missing ≠ []) <|
    fault .toolUnavailable "requested tool is unavailable"
      [("tool_id", .str toolId), ("missing_conditions", .strings missing)]
  let contract ← catalog.contractOf metadata
  refuseIf (contract.toolId ≠ metadata.toolId ∨ contract.version ≠ metadata.version ∨
      contract.sourceId ≠ metadata.sourceId ∨ contract.effectClass ≠ metadata.effectClass) <|
    fault .toolDrift "tool contract differs from deferred catalogue metadata"
      [("tool_id", .str toolId), ("source_id", .str metadata.sourceId)]
  refuseIf (contract.adapter ∉ catalog.adapters) <|
    fault .toolUnavailable "requested tool adapter is unavailable"
      [("tool_id", .str toolId), ("missing_conditions", .strings ["adapter:" ++ contract.adapter])]
  return contract

/-- The requested toolsets with what they resolve to. -/
def resolvedToolsets (catalog : ToolCatalog) (requested : List String) :
    Except Raised (List (String × List String)) := do
  let resolved ← requested.mapM fun item => do
    match ← catalog.toolset? item with
    | none => return []
    | some _ => return [(item, ← catalog.resolveToolset item [] 0)]
  return resolved.flatten

/-- `snapshot`. -/
def snapshot (catalog : ToolCatalog) (requested : List String) :
    Except Raised RegistrySnapshot := do
  let toolIds ← catalog.resolveRequested requested
  let contracts ← toolIds.mapM catalog.snapshotContract
  let toolsets ← catalog.resolvedToolsets requested
  let sources := (catalog.indices.map fun index =>
      (index.sourceId, catalog.environment.indexFingerprint index)) ++
    catalog.runtimeContracts.map fun contract =>
      ("runtime:" ++ contract.sourceId ++ ":" ++ contract.toolId,
        catalog.environment.contractFingerprint contract)
  -- The model of a snapshot wants at least one tool.
  refuseIf (contracts = []) (.valueError "registry snapshot has no tools")
  return {
    tools := contracts.map (·.toToolContract)
    fingerprint := catalog.environment.snapshotFingerprint contracts toolsets
      (sources.mergeSort fun a b => a.1 < b.1 ∨ (a.1 = b.1 ∧ a.2 ≤ b.2)) }

end ToolCatalog

end Mishkan
