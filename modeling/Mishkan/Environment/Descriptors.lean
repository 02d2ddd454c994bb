import Mishkan.Artifacts.Models
import Mishkan.Environment.Jsonc
import Mishkan.Foundations.Yaml
import Mishkan.Missions.Store
import Mishkan.Tools.Effects

/-!
# Environment/Descriptors — validation of environment descriptors

A set of descriptors is checked against the binding it is made for and the observation under that
binding, member by member: its path, its format, its artifact and the definition observed at its
path, and then what the artifact holds by the rules of the format.  Only an artifact that cannot be
had is caught; every other exception ends the validation.
-/

namespace Mishkan.Environment

open Refusal

/-! ## Bindings, observations, descriptors -/

structure DescriptorObservation where
  logicalPath : String
  digest : String
deriving DecidableEq

structure EnvironmentObservation where
  fingerprint : String
  repositoryRevision : Option String
  descriptors : List DescriptorObservation

structure EnvironmentBindingRequest where
  observationId : String
  requestedOutcome : EnvironmentOutcome
  targetPlatform : String
  targetArchitecture : String
  allowedDescriptorFormats : List String := []

structure EnvironmentBinding where
  request : EnvironmentBindingRequest
  state : EnvironmentBindingState

structure EnvironmentDescriptorMember where
  format : String
  logicalPath : String
  artifactReference : String
  baseRevision : Option String := none

structure EnvironmentDescriptorSet where
  descriptorSetId : String
  bindingId : String
  contextFingerprint : String
  targetPlatform : String
  targetArchitecture : String
  members : List EnvironmentDescriptorMember
  members_ne_nil : members ≠ []

structure DescriptorValidationResult where
  descriptorSetId : String
  bindingId : String
  valid : Bool
  validatedMembers : List String
  violations : List String
  validatorRevision : String

/-- What is read of an artifact's manifest. -/
structure DescriptorManifest where
  lifecycle : Artifacts.ArtifactLifecycle
  digest : String

/-- Where bindings, observations and artifacts come from. -/
structure DescriptorSources where
  binding : String → Except Raised EnvironmentBinding
  observation : String → Except Raised EnvironmentObservation
  manifest : String → Except Raised DescriptorManifest
  readBytes : String → Except Raised (List UInt8)

/-- The readers of the formats, which yield nothing where they raise an error of syntax. -/
structure DescriptorReaders where
  /-- `yaml.safe_load` -/
  safeLoad : List Char → Option Yaml
  /-- `yaml.safe_load_all` -/
  safeLoadAll : List Char → Option (List Yaml)
  /-- `ConfigParser.read_string`, and the sections. -/
  sections : List Char → Option (List String)
  /-- `tomllib.loads` -/
  toml : List Char → Bool

/-! ## Paths -/

/-- `Path.is_absolute` -/
def isAbsolute (path : String) : Bool := pathRoot path ≠ 0

/-- `_relative` -/
def relative (value : String) : Bool :=
  value ≠ "" ∧ ¬ isAbsolute value ∧ (pathParts value).all (· ≠ ['.', '.'])

/-- `Path.as_posix`, of a path with that root and those parts. -/
def asPosix (root : ℕ) (parts : List (List Char)) : String :=
  if root = 0 ∧ parts = [] then "."
  else String.ofList (List.replicate root '/' ++ ['/'].intercalate parts)

/-- `(Path(logical_path).parent / reference).as_posix()` -/
def besidePath (logicalPath reference : String) : String :=
  if isAbsolute reference then asPosix (pathRoot reference) (pathParts reference)
  else asPosix (pathRoot logicalPath) ((pathParts logicalPath).dropLast ++ pathParts reference)

/-! ## The formats -/

/-- `isinstance(value, str) and _relative(value)` -/
def isRelativePath : Json → Bool
  | .str path => relative path
  | _ => false

/-- `build` in a development container. -/
def devcontainerBuild : Json → Except Raised Unit
  | .str _ => .ok ()
  | .obj build => ["dockerfile", "context"].forM fun key =>
    refuseIf ((build.lookup key).any fun path => !isRelativePath path)
      (invalidDescriptor s!"devcontainer-build-{key}-path")
  | _ => .error (invalidDescriptor "devcontainer-build-shape")

/-- `dockerComposeFile` in a development container. -/
def devcontainerCompose (value : Json) : Except Raised Unit :=
  let values := match value with
    | .str path => Json.arr [.str path]
    | _ => value
  match values with
  | .arr items =>
    refuseIf (items = [] ∨ ¬ items.all isRelativePath)
      (invalidDescriptor "devcontainer-compose-path")
  | _ => .error (invalidDescriptor "devcontainer-compose-path")

def whenPresent (value : Option Json) (check : Json → Except Raised Unit) : Except Raised Unit :=
  match value with
  | some value => check value
  | none => .ok ()

/-- `_devcontainer`, which is only given objects. -/
def devcontainer (document : JsonObject) : Except Raised Unit := do
  let choices := ["image", "build", "dockerComposeFile"].filter fun name =>
    (document.lookup name).isSome
  refuseIf (choices.length ≠ 1) (invalidDescriptor "devcontainer-source-selection")
  whenPresent (document.lookup "build") devcontainerBuild
  whenPresent (document.lookup "dockerComposeFile") devcontainerCompose

/-- `_compose` -/
def composeDescriptor (document : Yaml) : Except Raised Unit :=
  match document.asMap?.bind fun members => (Yaml.get members "services").asMap? with
  | none => .error (invalidDescriptor "compose-services")
  | some services => refuseIf (services = []) (invalidDescriptor "compose-empty-services")

/-- What `_podman_kube` may be given: what `safe_load` reads, or a tuple. -/
inductive KubeArgument where
  | value (document : Yaml)
  | tuple (documents : List Yaml)

/-- A mapping with `apiVersion` and `kind`. -/
def isKubeObject : KubeArgument → Bool
  | .value (.map members) =>
    (Yaml.get members "apiVersion").truthy && (Yaml.get members "kind").truthy
  | _ => false

/-- `_podman_kube` -/
def podmanKube (document : KubeArgument) : Except Raised Unit :=
  let documents : List KubeArgument := match document with
    | .value (.seq items) => items.map KubeArgument.value
    | _ => [document]
  refuseIf (documents.isEmpty ∨ documents.any fun item => !isKubeObject item)
    (invalidDescriptor "kubernetes-object")

/-- `line.upper().startswith("FROM ")`; where the upper case of a character is longer than one
letter, it begins no word of these. -/
def startsWithFrom (line : List Char) : Bool :=
  ['F', 'R', 'O', 'M', ' '].isPrefixOf (line.map Char.toUpper)

/-- `_containerfile`; what ends a line is white space too. -/
def containerfile (text : List Char) : Except Raised Unit :=
  let instructions := ((Lines.splitLines text).map Lines.strip).filter fun line =>
    line ≠ [] ∧ line.head? ≠ some '#'
  refuseIf (instructions = [] ∨ ¬ instructions.any startsWithFrom)
    (invalidDescriptor "containerfile-from")

def quadletSections : List String := ["Container", "Pod", "Kube"]

/-- What a reader yields, or its exception. -/
def parsed {α : Type} (value : Option α) : Except Raised α :=
  require value (.valueError "syntax")

/-- `_quadlet` -/
def quadlet (readers : DescriptorReaders) (text : List Char) : Except Raised Unit := do
  let sections ← parsed (readers.sections text)
  refuseIf (¬ sections.any (· ∈ quadletSections)) (invalidDescriptor "quadlet-section")

/-- The branches of `_validate_content`. -/
def validateFormat (readers : DescriptorReaders) (format : String) (text : List Char) :
    Except Raised Unit :=
  if format = "devcontainer" then do
    devcontainer (← jsonc text)
  else if format = "compose" then do
    composeDescriptor (← parsed (readers.safeLoad text))
  else if format = "podman_kube" then do
    podmanKube (.tuple (← parsed (readers.safeLoadAll text)))
  else if format = "containerfile" then containerfile text
  else if format = "quadlet" then quadlet readers text
  else if format = "nix" then
    refuseIf (Lines.strip text = []) (invalidDescriptor "empty-document")
  else if format = "mise" then
    refuseIf (readers.toml text = false) (.valueError "TOMLDecodeError")
  else .error (invalidDescriptor "unsupported-format")

/-- Errors of syntax become violations of the descriptor. -/
def asInvalid : Raised → Raised
  | .mishkan error => .mishkan error
  | _ => invalidDescriptor "syntax"

/-- `_validate_content` -/
def validateContent (readers : DescriptorReaders) (format : String) (content : List UInt8) :
    Except Raised Unit := do
  let text ← require (Lines.decode? content) (invalidDescriptor "encoding")
  (validateFormat readers format text).mapError asInvalid

/-- The texts a composition is read from. -/
def composeReferences : Option Json → List String
  | some (.str path) => [path]
  | some (.arr items) => items.filterMap fun item =>
    match item with
    | .str path => some path
    | _ => none
  | _ => []

/-- The file an image is built from. -/
def buildReferences : Option Json → List String
  | some (.obj build) =>
    match build.lookup "dockerfile" with
    | some (.str path) => [path]
    | _ => []
  | _ => []

/-- `_referenced_paths` -/
def referencedPaths (format : String) (content : List UInt8) : Except Raised (List String) :=
  if format ≠ "devcontainer" then .ok []
  else
    match Lines.decode? content with
    | none => .ok []
    | some text =>
      match jsonc text with
      | .error (.mishkan _) => .ok []
      | .error raised => .error raised
      | .ok document => .ok (composeReferences (document.lookup "dockerComposeFile") ++
          buildReferences (document.lookup "build")).eraseDups

/-! ## The set -/

/-- `_validate_member` -/
def validateMember (member : EnvironmentDescriptorMember) (allowedFormats : List String) :
    List String :=
  (if isAbsolute member.logicalPath ∨ (pathParts member.logicalPath).any (· = ['.', '.']) ∨
      '\\' ∈ member.logicalPath.toList then ["unsafe-logical-path"] else []) ++
  (if allowedFormats ≠ [] ∧ member.format ∉ allowedFormats then
    ["format-not-authorized-by-binding"] else [])

/-- A member made for another revision than the one observed is stale. -/
def baseViolations (member : EnvironmentDescriptorMember) (repositoryRevision : Option String) :
    List String :=
  if member.baseRevision ≠ none ∧ member.baseRevision ≠ repositoryRevision then
    ["stale-base-revision"] else []

/-- The violations of one member, and whether it is reported as validated. -/
structure MemberReport where
  violations : List String
  validated : Bool
deriving DecidableEq

/-- `existing.get(path)`: where a path is observed twice, the later observation counts. -/
def EnvironmentObservation.existing (observation : EnvironmentObservation) (path : String) :
    Option DescriptorObservation :=
  observation.descriptors.reverse.find? (·.logicalPath = path)

/-- What the definition observed at the path of a member says about its artifact. -/
def definitionViolations (outcome : EnvironmentOutcome) (prior : Option DescriptorObservation)
    (digest : String) : List String :=
  if outcome = .reuseExisting then
    if prior.map (·.digest) ≠ some digest then ["existing-definition-digest-mismatch"] else []
  else if prior.any (·.digest ≠ digest) then ["existing-definition-protected"] else []

/-- `error.envelope.details.get("category", "invalid")` -/
def categoryOf (error : MishkanError) : String :=
  match error.details.lookup "category" with
  | some (.str category) => category
  | _ => "invalid"

/-- The manifest and the bytes of an artifact, and nothing when it is not available. -/
def artifactOf (sources : DescriptorSources) (reference : String) :
    Except Raised (Option (DescriptorManifest × List UInt8)) :=
  match (do return (← sources.manifest reference, ← sources.readBytes reference)) with
  | .ok artifact => .ok (some artifact)
  | .error (.mishkan _) => .ok none
  | .error raised => .error raised

/-- The references of a member that name no member. -/
def missingInputs (member : EnvironmentDescriptorMember) (memberPaths references : List String) :
    List String :=
  ((references.map (besidePath member.logicalPath)).filter (· ∉ memberPaths)).map
    fun path => s!"referenced-input-missing:{path}"

/-- The end of the body of the loop: what the content says, behind what has been found `early`. -/
def checkContent (readers : DescriptorReaders) (memberPaths : List String)
    (member : EnvironmentDescriptorMember) (content : List UInt8) (early : List String) :
    Except Raised MemberReport :=
  match validateContent readers member.format content with
  | .error (.mishkan error) => .ok ⟨early ++ [categoryOf error], false⟩
  | .error raised => .error raised
  | .ok () => (referencedPaths member.format content).map fun references =>
      ⟨early ++ missingInputs member memberPaths references, true⟩

/-- The body of the loop of `validate`; the path of the member is put in front of its violations
at the end. -/
def checkMember (readers : DescriptorReaders) (sources : DescriptorSources)
    (maxDescriptorBytes : ℕ) (request : EnvironmentBindingRequest)
    (observation : EnvironmentObservation) (memberPaths : List String)
    (member : EnvironmentDescriptorMember) : Except Raised MemberReport := do
  let early := validateMember member request.allowedDescriptorFormats ++
    baseViolations member observation.repositoryRevision
  match ← artifactOf sources member.artifactReference with
  | none => return ⟨early ++ ["artifact-unavailable"], false⟩
  | some (manifest, content) =>
    if manifest.lifecycle ≠ .available then
      return ⟨early ++ ["artifact-not-available"], false⟩
    else if maxDescriptorBytes < content.length then
      return ⟨early ++ ["descriptor-size-bound"], false⟩
    else
      checkContent readers memberPaths member content <| early ++
        definitionViolations request.requestedOutcome (observation.existing member.logicalPath)
          manifest.digest

/-- What is wrong with the set as a whole. -/
def setViolations (descriptorSet : EnvironmentDescriptorSet) (request : EnvironmentBindingRequest)
    (observation : EnvironmentObservation) : List String :=
  (if descriptorSet.contextFingerprint ≠ observation.fingerprint then
    ["context-fingerprint-mismatch"] else []) ++
  (if descriptorSet.targetPlatform ≠ request.targetPlatform then
    ["target-platform-mismatch"] else []) ++
  (if descriptorSet.targetArchitecture ≠ request.targetArchitecture then
    ["target-architecture-mismatch"] else [])

/-- `EnvironmentDescriptorValidator.validate` -/
def validateDescriptors (readers : DescriptorReaders) (sources : DescriptorSources)
    (maxDescriptorBytes : ℕ) (descriptorSet : EnvironmentDescriptorSet) :
    Except Raised DescriptorValidationResult := do
  let binding ← sources.binding descriptorSet.bindingId
  refuseIf (binding.state ≠ .compatible)
    (fault .engineering "descriptor validation requires a compatible environment binding")
  let observation ← sources.observation binding.request.observationId
  let reports ← descriptorSet.members.mapM <| checkMember readers sources maxDescriptorBytes
    binding.request observation (descriptorSet.members.map (·.logicalPath))
  let reported := descriptorSet.members.zip reports
  let violations := setViolations descriptorSet binding.request observation ++
    reported.flatMap fun x => x.2.violations.map fun item => s!"{x.1.logicalPath}:{item}"
  return {
    descriptorSetId := descriptorSet.descriptorSetId
    bindingId := descriptorSet.bindingId
    valid := violations.isEmpty
    validatedMembers := (reported.filter (·.2.validated)).map (·.1.logicalPath)
    violations := violations.eraseDups
    validatorRevision := "mishkan.environment-descriptor@1" }

end Mishkan.Environment
