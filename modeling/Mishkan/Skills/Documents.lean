import Mishkan.Domain.Errors
import Mishkan.Foundations.Frontmatter
import Mishkan.Foundations.JsonText
import Mishkan.Foundations.Refusal
import Mishkan.Foundations.Yaml

/-!
# Skills/Documents — the text of a skill package

`skillDocument` writes the `SKILL.md` of a learned skill: its Level-0 metadata between two marker
lines, then the instructions.  Two readers take such a file apart: discovery makes the metadata of a
local package out of it (`metadataFromManifest`), and `validateSkillMetadataDocument` compares
metadata a client supplies with what the file declares.
-/

namespace Mishkan

open Refusal Lines

/-! ## Metadata -/

inductive SkillSourceKind where
  | bundled | project | operator | community | sourceControl | url | hub
deriving DecidableEq

inductive SkillTrustState where
  | untrusted | trusted | quarantined
deriving DecidableEq

inductive SkillActivationState where
  | candidate | active | inactive | quarantined | archived
deriving DecidableEq

/-- A mapping of texts to lists of texts. -/
abbrev Alternatives := List (String × List String)

/-- Two mappings are equal when they have the same keys, with the same values. -/
def Alternatives.same (xs ys : Alternatives) : Bool :=
  (xs.map Prod.fst ++ ys.map Prod.fst).all fun key => xs.lookup key = ys.lookup key

/-- `[a-z0-9]+(?:-[a-z0-9]+)*`. -/
def isSkillName (name : String) : Bool :=
  (name.toList.splitOn '-').all fun part =>
    part ≠ [] && part.all fun c => c.isLower || c.isDigit

/-- `[0-9]+`. -/
def isNumber (digits : Text) : Bool := digits ≠ [] && digits.all Char.isDigit

/-- What stands in front of the first hyphen or plus sign. -/
def versionCore (version : String) : Text := version.toList.takeWhile fun c => c ≠ '-' ∧ c ≠ '+'

/-- `[0-9]+\.[0-9]+\.[0-9]+(?:[-+][A-Za-z0-9.-]+)?`. -/
def isSkillVersion (version : String) : Bool :=
  let numbers := (versionCore version).splitOn '.'
  let suffix := version.toList.drop (versionCore version).length
  numbers.length = 3 && numbers.all isNumber &&
    (suffix = [] ||
      suffix.tail ≠ [] && suffix.tail.all fun c => c.isAlphanum || c = '.' || c = '-')

/-- `sha256:[a-f0-9]{64}`. -/
def isFingerprint (fingerprint : String) : Bool :=
  fingerprint.toList.take 7 = "sha256:".toList && fingerprint.length = 71 &&
    (fingerprint.toList.drop 7).all fun c => c.isDigit || ('a' ≤ c && c ≤ 'f')

structure SkillMetadata where
  name : String
  description : String
  version : String
  sourceId : String
  sourceKind : SkillSourceKind
  sourceRevision : String
  packageUri : String
  packageFingerprint : String
  trust : SkillTrustState
  activation : SkillActivationState
  license : Option String := none
  compatibilitySummary : Option String := none
  allowedToolsHint : Option String := none
  authorClaim : Option String := none
  platforms : List String := ["*"]
  requiredTools : List String := []
  fallbackTools : Alternatives := []
  organizationVersions : List String := ["*"]
  taskClasses : List String := []
  resourcePaths : List String := []
deriving DecidableEq

/-- A text is not empty and at most so long. -/
def bounded (limit : Nat) (text : String) : Bool := 1 ≤ text.length && text.length ≤ limit

/-- What the model requires of its fields. -/
def SkillMetadata.accepted (metadata : SkillMetadata) : Bool :=
  isSkillName metadata.name && metadata.name.length ≤ 64 && bounded 1024 metadata.description &&
  isSkillVersion metadata.version && bounded 128 metadata.sourceId &&
  bounded 512 metadata.sourceRevision && bounded 4096 metadata.packageUri &&
  isFingerprint metadata.packageFingerprint && metadata.license.all (bounded 512) &&
  metadata.compatibilitySummary.all (bounded 500) &&
  metadata.allowedToolsHint.all (bounded 2048) && metadata.authorClaim.all (bounded 512) &&
  metadata.fallbackTools.all fun fallback => metadata.requiredTools.contains fallback.1

/-- `SkillMetadata(...)`: the fields are validated. -/
def SkillMetadata.validate (metadata : SkillMetadata) : Except Raised SkillMetadata := do
  refuseIf (¬ metadata.accepted) (.valueError "skill metadata is invalid")
  return metadata

structure SkillPackageDraft where
  skillName : String
  description : String
  instructionsMarkdown : String
  requiredTools : List String
  fallbackTools : Alternatives := []
  taskClasses : List String
  retrievalReferences : List String
  sourceFingerprints : List String
  rationale : String
deriving DecidableEq

/-- What the model requires of its fields. -/
def SkillPackageDraft.accepted (draft : SkillPackageDraft) : Bool :=
  isSkillName draft.skillName && draft.skillName.length ≤ 64 && bounded 1024 draft.description &&
  bounded 262144 draft.instructionsMarkdown && draft.requiredTools.length ≤ 256 &&
  draft.taskClasses ≠ [] && draft.taskClasses.length ≤ 256 &&
  draft.retrievalReferences.length ≤ 128 && draft.sourceFingerprints ≠ [] &&
  draft.sourceFingerprints.length ≤ 128 && bounded 4096 draft.rationale &&
  (draft.fallbackTools.all fun fallback => draft.requiredTools.contains fallback.1) &&
  decide draft.taskClasses.Nodup

/-! ## Writing -/

/-- The values the frontmatter of a learned skill is written from. -/
def SkillMetadata.header (metadata : SkillMetadata) : Yaml :=
  .map [
    (.str "name", .str metadata.name),
    (.str "description", .str metadata.description),
    (.str "metadata", .map [
      (.str "version", .str metadata.version),
      (.str "author", .ofOption metadata.authorClaim),
      (.str "mishkan", .map [
        (.str "platforms", .strings metadata.platforms),
        (.str "required_tools", .strings metadata.requiredTools),
        (.str "fallback_tools", .map (metadata.fallbackTools.map fun fallback =>
          (.str fallback.1, .strings fallback.2))),
        (.str "organization_versions", .strings metadata.organizationVersions),
        (.str "task_classes", .strings metadata.taskClasses)])])]

/-- The section that attributes what was retrieved. -/
def SkillPackageDraft.references (draft : SkillPackageDraft) : Text :=
  if draft.retrievalReferences = [] then []
  else "\n\n## Attributed retrieval references\n\n".toList ++
    List.intercalate ['\n']
      (draft.retrievalReferences.map fun value => "- ".toList ++ value.toList)

/-- The text behind the frontmatter: the instructions and the references. -/
def SkillPackageDraft.body (draft : SkillPackageDraft) : Text :=
  '\n' :: (strip draft.instructionsMarkdown.toList ++ draft.references ++ ['\n'])

/-- The frontmatter, as it is written between the markers. -/
def SkillMetadata.frontmatter (yaml : Yaml.Codec) (metadata : SkillMetadata) : Text :=
  strip (yaml.dump metadata.header) ++ ['\n']

/-- `_skill_document`. -/
def skillDocument (yaml : Yaml.Codec) (metadata : SkillMetadata) (draft : SkillPackageDraft) :
    List UInt8 :=
  encode (Frontmatter.fenced (metadata.frontmatter yaml) draft.body)

/-! ## Discovery -/

structure SkillBounds where
  maxFrontmatterBytes : Nat
  maxPackageBytes : Nat
  maxPackageFiles : Nat
  maxResourceDepth : Nat
  allowFrontmatterExtensions : Bool
deriving DecidableEq

structure SkillSourceDefinition where
  sourceId : String
  kind : SkillSourceKind
  revision : String
  trust : SkillTrustState
  defaultActivation : SkillActivationState
  packageActivation : List (String × SkillActivationState) := []
deriving DecidableEq

/-- A file or a symbolic link of a package. -/
structure PackageEntry where
  relative : String
  isLink : Bool := false
  content : List UInt8
deriving DecidableEq

/-- A package directory: its entries in the order of their paths. -/
structure SkillPackage where
  path : String
  name : String
  entries : List PackageEntry
deriving DecidableEq

/-- `_contract_error`. -/
def contractError (message path : String) : Raised :=
  fault .skillContract message [("path", .str path)]

def SkillPackage.manifest (package : SkillPackage) : String := package.path ++ "/SKILL.md"

def hexdigest (bytes : List UInt8) : String := String.ofList <|
  bytes.flatMap fun b => [Json.hexDigit (b.toNat / 16), Json.hexDigit (b.toNat % 16)]

/-- The fingerprint of the files of a package: the digest of their paths and of their digests. -/
def filesFingerprint (sha256 : List UInt8 → List UInt8) (files : List (String × List UInt8)) :
    String :=
  "sha256:" ++ hexdigest (sha256 (files.flatMap fun file =>
    encode file.1.toList ++ [0] ++ sha256 file.2))

/-- `_package_fingerprint`: the fingerprint, and the paths of the resources. -/
def packageFingerprint (sha256 : List UInt8 → List UInt8) (bounds : SkillBounds)
    (package : SkillPackage) : Except Raised (String × List String) := do
  let (files, _) ← package.entries.foldlM (fun (files, total) entry => do
    let path := package.path ++ "/" ++ entry.relative
    refuseIf entry.isLink (contractError "skill package contains a symbolic link" path)
    refuseIf (entry.relative.toList.count '/' > bounds.maxResourceDepth) <|
      contractError "skill resource exceeds configured depth" path
    refuseIf (files.length ≥ bounds.maxPackageFiles) <|
      contractError "skill package exceeds configured file count" path
    refuseIf (entry.content.length > bounds.maxPackageBytes) <|
      fault .skillContract "skill package file exceeds configured byte bound"
        [("size_bytes", .int entry.content.length), ("limit", .int bounds.maxPackageBytes)]
    let total := total + entry.content.length
    refuseIf (total > bounds.maxPackageBytes) <|
      contractError "skill package exceeds configured byte bound" package.path
    return (files ++ [(entry.relative, entry.content)], total)) ([], 0)
  return (filesFingerprint sha256 files, (files.map Prod.fst).filter (· ≠ "SKILL.md"))

/-- The lines of a file of bytes, each with its line feed. -/
def byteLines : List UInt8 → List (List UInt8)
  | [] => []
  | b :: rest =>
    if b = 10 then [b] :: byteLines rest
    else
      match byteLines rest with
      | [] => [[b]]
      | line :: lines => (b :: line) :: lines

/-- `line.rstrip(b"\r\n") == b"---"`. -/
def isDelimiter (line : List UInt8) : Bool :=
  line.rdropWhile (fun b => b = 13 ∨ b = 10) = [45, 45, 45]

/-- The bytes collected up to the second delimiter line. -/
def collectFrontmatter (limit : Nat) (path : String) :
    List UInt8 → Nat → List (List UInt8) → Except Raised (List UInt8)
  | _, _, [] => .error (contractError "SKILL.md frontmatter is incomplete" path)
  | collected, delimiters, line :: lines =>
    let collected := collected ++ line
    if collected.length > limit then
      .error (contractError "SKILL.md frontmatter exceeds configured bound" path)
    else if isDelimiter line then
      if delimiters + 1 = 2 then .ok collected
      else collectFrontmatter limit path collected (delimiters + 1) lines
    else collectFrontmatter limit path collected delimiters lines

/-- `_read_frontmatter`. -/
def readFrontmatter (bounds : SkillBounds) (path : String) (manifest : List UInt8) :
    Except Raised (List UInt8) :=
  collectFrontmatter bounds.maxFrontmatterBytes path [] 0 (byteLines manifest)

/-- What is wrong with a document without a header. -/
def faultMessage : Frontmatter.Fault → String
  | .start => "SKILL.md must start with YAML frontmatter"
  | .incomplete => "SKILL.md frontmatter is incomplete"

/-- `_parse_document`. -/
def parseDocument (yaml : Yaml.Codec) (text : Text) (path : String) :
    Except Raised (Yaml.Members × Text) := do
  let (header, body) ← (Frontmatter.split text).mapError fun e =>
    contractError (faultMessage e) path
  let raw ← require (yaml.load header) (contractError "SKILL.md frontmatter is invalid YAML" path)
  let members ← require (raw.asMap?.filter fun members => members.all fun m => m.1.asStr?.isSome) <|
    contractError "SKILL.md frontmatter must be a string-keyed mapping" path
  return (members, body)

/-- `_parse_frontmatter`. -/
def parseFrontmatter (yaml : Yaml.Codec) (content : List UInt8) (path : String) :
    Except Raised Yaml.Members := do
  let text ← require (decode? content) (contractError "SKILL.md frontmatter must be UTF-8" path)
  let (members, _) ← parseDocument yaml text path
  return members

/-- Whether nothing but whitespace is written. -/
def isBlank (text : String) : Bool := strip text.toList = []

/-- `_optional_string`. -/
def optionalString (members : Yaml.Members) (key : String) : Except Raised (Option String) :=
  match Yaml.get members key with
  | .null => .ok none
  | value => do
    let text ← require (value.asStr?.filter fun text => !isBlank text) <|
      fault .skillContract s!"skill {key} must be a non-empty string"
    return some (String.ofList (strip text.toList))

/-- `_string_tuple`. -/
def stringTuple (members : Yaml.Members) (key : String) (default : List String) :
    Except Raised (List String) :=
  match Yaml.get members key with
  | .null => .ok default
  | value =>
    require (value.strings?.filter fun values => values.all (· ≠ "")) <|
      fault .skillContract s!"skill {key} must be a string list"

/-- The alternatives under the keys of a mapping, if each is a list of texts that pass. -/
def alternatives? (permitted : String → Bool) (members : Yaml.Members) : Option Alternatives :=
  members.mapM fun m => do
    let key ← m.1.asStr?
    let values ← m.2.strings?
    if values.all permitted then some (key, values) else none

/-- `_fallback_mapping`. -/
def fallbackMapping (members : Yaml.Members) : Except Raised Alternatives := do
  let fallbacks ← require (Yaml.get members "fallback_tools" (.map [])).asMap? <|
    fault .skillContract "skill fallback_tools must be a mapping"
  require (alternatives? (· ≠ "") fallbacks) <|
    fault .skillContract "skill fallback_tools is invalid"

/-- The keys the frontmatter of a skill may have. -/
def frontmatterKeys : List String :=
  ["name", "description", "license", "compatibility", "metadata", "allowed-tools"]

/-- The mapping under a key; an absent one, or one that is null, is empty. -/
def mappingOrNull (members : Yaml.Members) (key : String) : Option Yaml.Members :=
  match Yaml.get members key (.map []) with
  | .null => some []
  | value => value.asMap?

/-- `_metadata_from_manifest`, of a package whose manifest has the bytes. -/
def metadataFromManifest (yaml : Yaml.Codec) (sha256 : List UInt8 → List UInt8)
    (bounds : SkillBounds) (source : SkillSourceDefinition) (package : SkillPackage)
    (manifest : List UInt8) : Except Raised SkillMetadata := do
  let path := package.manifest
  let header ← readFrontmatter bounds path manifest
  let document ← parseFrontmatter yaml header path
  let name ← require ((Yaml.get document "name").asStr?.filter fun name =>
    isSkillName name && name.length ≤ 64) (contractError "skill name is invalid" path)
  refuseIf (name ≠ package.name) (contractError "skill name must match its directory" path)
  let description ← require ((Yaml.get document "description").asStr?.filter fun description =>
    !isBlank description && description.length ≤ 1024)
    (contractError "skill description is invalid" path)
  refuseIf ((document.any fun m => m.1.asStr?.any (· ∉ frontmatterKeys)) ∧
      ¬ bounds.allowFrontmatterExtensions) <|
    contractError "SKILL.md contains unsupported frontmatter fields" path
  let declared ← require (mappingOrNull document "metadata")
    (contractError "skill metadata must be a mapping" path)
  let version ← require (Yaml.get declared "version").asStr?
    (contractError "skill metadata.version is required" path)
  let mishkan ← require (mappingOrNull declared "mishkan")
    (contractError "skill metadata.mishkan must be a mapping" path)
  let (fingerprint, resources) ← packageFingerprint sha256 bounds package
  let activation := (source.packageActivation.lookup name).getD source.defaultActivation
  let license ← optionalString document "license"
  let compatibility ← optionalString document "compatibility"
  let allowedTools ← optionalString document "allowed-tools"
  let author ← optionalString declared "author"
  let platforms ← stringTuple mishkan "platforms" ["*"]
  let requiredTools ← stringTuple mishkan "required_tools" []
  let fallbackTools ← fallbackMapping mishkan
  let organizationVersions ← stringTuple mishkan "organization_versions" ["*"]
  let taskClasses ← stringTuple mishkan "task_classes" []
  SkillMetadata.validate {
    name := name
    description := String.ofList (strip description.toList)
    version := version
    sourceId := source.sourceId
    sourceKind := source.kind
    sourceRevision := source.revision
    packageUri := source.sourceId ++ ":" ++ name ++ "@" ++ source.revision
    packageFingerprint := fingerprint
    trust := source.trust
    activation := if source.trust = .quarantined then .quarantined else activation
    license := license
    compatibilitySummary := compatibility
    allowedToolsHint := allowedTools
    authorClaim := author
    platforms := platforms
    requiredTools := requiredTools
    fallbackTools := fallbackTools
    organizationVersions := organizationVersions
    taskClasses := taskClasses
    resourcePaths := resources }

/-! ## Validation -/

/-- What a document declares, as it was read. -/
structure SkillDeclaration where
  name : Yaml
  description : Yaml
  version : Yaml
  license : Yaml
  compatibilitySummary : Yaml
  allowedToolsHint : Yaml
  authorClaim : Yaml
  platforms : List String
  requiredTools : List String
  fallbackTools : Alternatives
  organizationVersions : List String
  taskClasses : List String

/-- `declared == observed`. -/
def SkillDeclaration.matches (declared : SkillDeclaration) (metadata : SkillMetadata) : Bool :=
  declared.name.equals metadata.name && declared.description.equals metadata.description &&
  declared.version.equals metadata.version && declared.license.equals metadata.license &&
  declared.compatibilitySummary.equals metadata.compatibilitySummary &&
  declared.allowedToolsHint.equals metadata.allowedToolsHint &&
  declared.authorClaim.equals metadata.authorClaim &&
  declared.platforms = metadata.platforms && declared.requiredTools = metadata.requiredTools &&
  declared.fallbackTools.same metadata.fallbackTools &&
  declared.organizationVersions = metadata.organizationVersions &&
  declared.taskClasses = metadata.taskClasses

/-- The lists of a document are lists of texts; an absent one has its default. -/
def declaredStrings (members : Yaml.Members) (key : String) (default : List String) :
    Except Raised (List String) :=
  require (Yaml.get members key (.strings default)).strings? <|
    fault .skillContract s!"skill {key} must be a string list"

/-- What a document declares. -/
def declarationOf (document : Yaml) : Except Raised SkillDeclaration := do
  let members ← require document.asMap? <|
    fault .skillContract "SKILL.md frontmatter must be a mapping"
  let declaredMetadata ← require (Yaml.get members "metadata").orEmpty.asMap? <|
    fault .skillContract "skill metadata must be a mapping"
  let mishkan ← require (Yaml.get declaredMetadata "mishkan").orEmpty.asMap? <|
    fault .skillContract "skill metadata.mishkan must be a mapping"
  let rawFallbacks ← require (Yaml.get mishkan "fallback_tools" (.map [])).asMap? <|
    fault .skillContract "skill fallback_tools is invalid"
  let fallbacks ← require (alternatives? (fun _ => true) rawFallbacks) <|
    fault .skillContract "skill fallback_tools is invalid"
  let platforms ← declaredStrings mishkan "platforms" ["*"]
  let requiredTools ← declaredStrings mishkan "required_tools" []
  let organizationVersions ← declaredStrings mishkan "organization_versions" ["*"]
  let taskClasses ← declaredStrings mishkan "task_classes" []
  return {
    name := Yaml.get members "name"
    description := Yaml.get members "description"
    version := Yaml.get declaredMetadata "version"
    license := Yaml.get members "license"
    compatibilitySummary := Yaml.get members "compatibility"
    allowedToolsHint := Yaml.get members "allowed-tools"
    authorClaim := Yaml.get declaredMetadata "author"
    platforms := platforms
    requiredTools := requiredTools
    fallbackTools := fallbacks
    organizationVersions := organizationVersions
    taskClasses := taskClasses }

/-- `validate_skill_metadata_document`. -/
def validateSkillMetadataDocument (yaml : Yaml.Codec) (sha256 : List UInt8 → List UInt8)
    (metadata : SkillMetadata) (content : List UInt8) : Except Raised String := do
  let text ← require (decode? content) (fault .skillContract "SKILL.md must be UTF-8 text")
  let (header, body) ← (Frontmatter.split text).mapError fun e =>
    fault .skillContract (faultMessage e)
  let document ← require (yaml.load header) <|
    fault .skillContract "SKILL.md frontmatter is invalid YAML"
  let declared ← declarationOf document
  refuseIf (¬ declared.matches metadata) <|
    fault .skillTrust "skill Level-0 metadata differs from immutable SKILL.md frontmatter"
  refuseIf (strip body = []) (fault .skillContract "SKILL.md has no operating instructions")
  return "sha256:" ++ hexdigest (sha256 content)

end Mishkan
