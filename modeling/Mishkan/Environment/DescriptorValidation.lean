import Mishkan.Environment.Descriptors

/-!
# Environment/DescriptorValidation — which sets of descriptors are valid

What a valid set is, said without the order of the checks (`Required`), and that `validate` reports
a set valid exactly when it is one, has no member for `podman kube`, and puts a space behind a
`FROM` of each container file (`valid_iff`).
-/

namespace Mishkan.Environment

open Refusal List Lines

/-! ## What is required of the content -/

/-- The value is a relative path. -/
def IsRelativePath (value : Json) : Prop := ∃ path, value = .str path ∧ relative path = true

/-- A development container has one source, and its files are given by relative paths. -/
structure IsDevcontainer (document : JsonObject) : Prop where
  source : ∃ name ∈ ["image", "build", "dockerComposeFile"], (document.lookup name).isSome ∧
    ∀ other ∈ ["image", "build", "dockerComposeFile"], (document.lookup other).isSome → other = name
  build : ∀ value ∈ document.lookup "build", (∃ path, value = .str path) ∨
    ∃ build, value = .obj build ∧ ∀ key ∈ ["dockerfile", "context"], ∀ path ∈ build.lookup key,
      IsRelativePath path
  compose : ∀ value ∈ document.lookup "dockerComposeFile", IsRelativePath value ∨
    ∃ items, value = .arr items ∧ items ≠ [] ∧ ∀ item ∈ items, IsRelativePath item

/-- The files a development container refers to. -/
inductive RefersTo (document : JsonObject) : String → Prop
  | compose {path : String} (h : document.lookup "dockerComposeFile" = some (.str path)) :
    RefersTo document path
  | composeItem {path : String} {items : List Json}
    (h : document.lookup "dockerComposeFile" = some (.arr items)) (hitem : .str path ∈ items) :
    RefersTo document path
  | dockerfile {path : String} {build : JsonObject}
    (h : document.lookup "build" = some (.obj build))
    (hfile : build.lookup "dockerfile" = some (.str path)) : RefersTo document path

/-- A `FROM` instruction that has `blank` behind its keyword. -/
def IsFrom (line : List Char) (blank : Char) : Prop :=
  ∃ keyword rest, line = keyword ++ blank :: rest ∧
    keyword.map Char.toUpper = ['F', 'R', 'O', 'M']

/-- The content is well formed for its format. -/
inductive WellFormed (readers : DescriptorReaders) : String → List Char → Prop
  | devcontainer {text : List Char} {document : JsonObject} (h : jsonc text = .ok document)
    (hdocument : IsDevcontainer document) : WellFormed readers "devcontainer" text
  | compose {text : List Char} {members services : Yaml.Members}
    (h : readers.safeLoad text = some (.map members))
    (hservices : Yaml.get members "services" = .map services) (hne : services ≠ []) :
    WellFormed readers "compose" text
  | podmanKube {text : List Char} {documents : List Yaml}
    (h : readers.safeLoadAll text = some documents) (hne : documents ≠ [])
    (hkube : ∀ document ∈ documents, isKubeObject (.value document) = true) :
    WellFormed readers "podman_kube" text
  | containerfile {text : List Char}
    (h : ∃ line ∈ splitLines text, ∃ blank, isSpace blank = true ∧
      IsFrom (strip line) blank) : WellFormed readers "containerfile" text
  | quadlet {text : List Char} {sections : List String} (h : readers.sections text = some sections)
    (hknown : ∃ name ∈ sections, name ∈ quadletSections) : WellFormed readers "quadlet" text
  | nix {text : List Char} (h : ∃ c ∈ text, isSpace c = false) : WellFormed readers "nix" text
  | mise {text : List Char} (h : readers.toml text = true) : WellFormed readers "mise" text

/-! ## What is required of the set -/

section Requirements

variable (readers : DescriptorReaders) (sources : DescriptorSources) (maxDescriptorBytes : ℕ)
  (request : EnvironmentBindingRequest) (observation : EnvironmentObservation)
  (members : List EnvironmentDescriptorMember)

/-- A relative path that does not climb, and is written with slashes. -/
structure IsSafePath (path : String) : Prop where
  relative : isAbsolute path = false
  inside : ['.', '.'] ∉ pathParts path
  slashes : '\\' ∉ path.toList

/-- An artifact agrees with the definition observed at its path: it is that definition when an
existing one is to be used, and replaces none with another content otherwise. -/
def Consistent (outcome : EnvironmentOutcome) (prior : Option DescriptorObservation)
    (digest : String) : Prop :=
  (∀ definition ∈ prior, definition.digest = digest) ∧
    (outcome = .reuseExisting → prior ≠ none)

/-- The content of a member is well formed, and the files it refers to are members. -/
structure ContentRequired (member : EnvironmentDescriptorMember) (text : List Char) : Prop where
  wellFormed : WellFormed readers member.format text
  references : member.format = "devcontainer" → ∀ document, jsonc text = .ok document →
    ∀ path, RefersTo document path →
      ∃ other ∈ members, other.logicalPath = besidePath member.logicalPath path

structure MemberRequired (member : EnvironmentDescriptorMember) : Prop where
  path : IsSafePath member.logicalPath
  format : request.allowedDescriptorFormats = [] ∨
    member.format ∈ request.allowedDescriptorFormats
  base : ∀ revision ∈ member.baseRevision, observation.repositoryRevision = some revision
  artifact : ∃ manifest content text, sources.manifest member.artifactReference = .ok manifest ∧
    sources.readBytes member.artifactReference = .ok content ∧ manifest.lifecycle = .available ∧
    content.length ≤ maxDescriptorBytes ∧
    Consistent request.requestedOutcome (observation.existing member.logicalPath) manifest.digest ∧
    decode? content = some text ∧ ContentRequired readers members member text

/-- What a valid set of descriptors is. -/
structure Required (descriptorSet : EnvironmentDescriptorSet) : Prop where
  context : descriptorSet.contextFingerprint = observation.fingerprint
  platform : descriptorSet.targetPlatform = request.targetPlatform
  architecture : descriptorSet.targetArchitecture = request.targetArchitecture
  members : ∀ member ∈ descriptorSet.members, MemberRequired readers sources maxDescriptorBytes
    request observation descriptorSet.members member

/-- The member is none for `podman kube`, and a container file puts a space behind a `FROM`. -/
structure Served (member : EnvironmentDescriptorMember) : Prop where
  kube : member.format ≠ "podman_kube"
  containerfile : member.format = "containerfile" → ∀ content,
    sources.readBytes member.artifactReference = .ok content →
    ∀ text, decode? content = some text →
      ∃ line ∈ splitLines text, IsFrom (strip line) ' '

end Requirements

/-! ## The formats -/

section Formats

variable {readers : DescriptorReaders} {text line : List Char} {format : String}

variable {value : Json}

theorem isRelativePath_iff : isRelativePath value = true ↔ IsRelativePath value := by
  cases value <;> simp [IsRelativePath, isRelativePath]

theorem devcontainerBuild_eq_ok_iff : devcontainerBuild value = .ok () ↔
    (∃ path, value = .str path) ∨ ∃ build, value = .obj build ∧
      ∀ key ∈ ["dockerfile", "context"], ∀ path ∈ build.lookup key, IsRelativePath path := by
  cases value with
  | str path => simp [devcontainerBuild]
  | obj build =>
    have hkey : ∀ key : String,
        (¬ ((build.lookup key).any fun path => !isRelativePath path) = true) ↔
          ∀ path ∈ build.lookup key, IsRelativePath path := by
      intro key
      cases build.lookup key with
      | none => simp
      | some path => simp [isRelativePath_iff]
    have hkeys : devcontainerBuild (.obj build) = .ok () ↔
        ∀ key ∈ ["dockerfile", "context"], ∀ path ∈ build.lookup key, IsRelativePath path := by
      simp only [forall_mem_cons, ← hkey]
      simp [devcontainerBuild]
    simp [hkeys]
  | _ => simp [devcontainerBuild]

theorem devcontainerCompose_eq_ok_iff : devcontainerCompose value = .ok () ↔
    IsRelativePath value ∨
      ∃ items, value = .arr items ∧ items ≠ [] ∧ ∀ item ∈ items, IsRelativePath item := by
  cases value with
  | str path => simp [devcontainerCompose, IsRelativePath, isRelativePath]
  | arr items =>
    simp only [devcontainerCompose, refuseIf_eq_ok, not_or, not_not, all_eq_true,
      isRelativePath_iff]
    simp [IsRelativePath]
  | _ => simp [devcontainerCompose, IsRelativePath]

/-- Of three names one is present exactly when the list of those present has one element. -/
theorem length_filter_eq_one_iff {α : Type} {p : α → Bool} {l : List α} (h : l.Nodup) :
    (l.filter p).length = 1 ↔ ∃ a ∈ l, p a = true ∧ ∀ b ∈ l, p b = true → b = a := by
  rw [length_eq_one_iff]
  constructor
  · rintro ⟨a, ha⟩
    have hmem : ∀ b, b ∈ l ∧ p b = true ↔ b = a := fun b => by
      rw [← mem_filter, ha, mem_singleton]
    obtain ⟨hal, hpa⟩ := (hmem a).mpr rfl
    exact ⟨a, hal, hpa, fun b hb hpb => (hmem b).mp ⟨hb, hpb⟩⟩
  · rintro ⟨a, hal, hpa, hunique⟩
    refine ⟨a, perm_singleton.mp ((perm_ext_iff_of_nodup (h.filter p)
      (nodup_singleton a)).mpr fun b => ?_)⟩
    rw [mem_filter, mem_singleton]
    exact ⟨fun hb => hunique b hb.1 hb.2, fun hb => hb ▸ ⟨hal, hpa⟩⟩

theorem whenPresent_eq_ok_iff {value : Option Json} {check : Json → Except Raised Unit} :
    whenPresent value check = .ok () ↔ ∀ x ∈ value, check x = .ok () := by
  cases value <;> simp [whenPresent]

theorem devcontainer_eq_ok_iff {document : JsonObject} :
    devcontainer document = .ok () ↔ IsDevcontainer document := by
  simp only [devcontainer, bind_eq_ok, refuseIf_eq_ok, not_not, whenPresent_eq_ok_iff,
    devcontainerCompose_eq_ok_iff,
    length_filter_eq_one_iff (show ["image", "build", "dockerComposeFile"].Nodup by decide)]
  constructor
  · rintro ⟨_, hsource, _, hbuild, hcompose⟩
    exact ⟨hsource, fun value hvalue =>
      devcontainerBuild_eq_ok_iff.mp (whenPresent_eq_ok_iff.mp hbuild value hvalue), hcompose⟩
  · exact fun h => ⟨(), h.source, (), whenPresent_eq_ok_iff.mpr fun value hvalue =>
      devcontainerBuild_eq_ok_iff.mpr (h.build value hvalue), h.compose⟩

theorem composeDescriptor_eq_ok_iff {document : Yaml} : composeDescriptor document = .ok () ↔
    ∃ members services, document = .map members ∧
      Yaml.get members "services" = .map services ∧ services ≠ [] := by
  have hmap : ∀ value : Yaml, ∀ services, value.asMap? = some services ↔ value = .map services := by
    intro value services
    cases value <;> simp [Yaml.asMap?]
  rw [composeDescriptor]
  cases hservices : document.asMap?.bind fun members => (Yaml.get members "services").asMap? with
  | none =>
    simp only [reduceCtorEq, false_iff]
    rintro ⟨members, services, rfl, hget, -⟩
    rw [Yaml.asMap?_map, Option.bind_some, hget, Yaml.asMap?_map] at hservices
    cases hservices
  | some services =>
    simp only [refuseIf_eq_ok]
    obtain ⟨members, hmembers, hget⟩ := Option.bind_eq_some_iff.mp hservices
    rw [hmap] at hmembers hget
    subst hmembers
    constructor
    · exact fun hne => ⟨members, services, rfl, hget, hne⟩
    · rintro ⟨members', services', heq, hget', hne⟩
      obtain rfl := Yaml.map.inj heq
      rw [hget] at hget'
      obtain rfl := Yaml.map.inj hget'
      exact hne

/-- **Nothing that is given as a tuple is an object of Kubernetes**: not the tuple is iterated, but
a list with the tuple in it. -/
theorem podmanKube_tuple (documents : List Yaml) :
    podmanKube (.tuple documents) = .error (invalidDescriptor "kubernetes-object") := rfl

theorem startsWithFrom_iff : startsWithFrom line = true ↔ IsFrom line ' ' := by
  have hspace : ∀ c : Char, c.toUpper = ' ' → c = ' ' := by
    intro c hc
    delta Char.toUpper at hc
    split_ifs at hc with h
    · have hval := congrArg (fun d => d.val.toNat) hc
      have hlower : 97 ≤ c.val.toNat := h.1
      have hupper : c.val.toNat ≤ 122 := h.2
      have hshift : ('A'.val - 'a'.val).toNat = 4294967264 := by decide
      have hblank : ' '.val.toNat = 32 := by decide
      simp only [UInt32.toNat_add] at hval
      rw [hshift, hblank] at hval
      omega
    · exact hc
  rw [startsWithFrom, isPrefixOf_iff_prefix]
  constructor
  · rintro ⟨rest, hrest⟩
    have hline : line.map Char.toUpper = ['F', 'R', 'O', 'M'] ++ (' ' :: rest) := hrest.symm
    obtain ⟨keyword, left, rfl, hkeyword, hleft⟩ := map_eq_append_iff.mp hline
    obtain ⟨c, left, rfl, hc, -⟩ := map_eq_cons_iff.mp hleft
    exact ⟨keyword, left, by rw [hspace c hc], hkeyword⟩
  · rintro ⟨keyword, rest, rfl, hkeyword⟩
    rw [map_append, hkeyword]
    exact ⟨rest.map Char.toUpper, rfl⟩

/-- A line with a `FROM` is neither empty nor a comment. -/
theorem IsFrom.isInstruction {blank : Char} (h : IsFrom line blank) :
    line ≠ [] ∧ line.head? ≠ some '#' := by
  obtain ⟨keyword, rest, rfl, hkeyword⟩ := h
  cases keyword with
  | nil => cases hkeyword
  | cons c keyword =>
    refine ⟨cons_ne_nil _ _, fun hhead => ?_⟩
    obtain rfl := Option.some.inj hhead
    exact absurd (List.cons.inj hkeyword).1 (by decide)

theorem containerfile_eq_ok_iff : containerfile text = .ok () ↔
    ∃ line ∈ splitLines text, IsFrom (strip line) ' ' := by
  rw [containerfile, refuseIf_eq_ok, not_or, not_not, any_eq_true]
  constructor
  · rintro ⟨-, instruction, hmem, hfrom⟩
    obtain ⟨hmem, -⟩ := mem_filter.mp hmem
    obtain ⟨line, hline, rfl⟩ := mem_map.mp hmem
    exact ⟨line, hline, startsWithFrom_iff.mp hfrom⟩
  · rintro ⟨line, hline, hfrom⟩
    have hmem : strip line ∈ ((splitLines text).map strip).filter fun line =>
        line ≠ [] ∧ line.head? ≠ some '#' :=
      mem_filter.mpr ⟨mem_map_of_mem hline, decide_eq_true hfrom.isInstruction⟩
    exact ⟨ne_nil_of_mem hmem, _, hmem, startsWithFrom_iff.mpr hfrom⟩

theorem quadlet_eq_ok_iff : quadlet readers text = .ok () ↔
    ∃ sections, readers.sections text = some sections ∧
      ∃ name ∈ sections, name ∈ quadletSections := by
  simp [quadlet, parsed]

theorem strip_ne_nil_iff : strip text ≠ [] ↔ ∃ c ∈ text, isSpace c = false := by
  rw [Ne, strip_eq_nil]
  simp

/-- **A text passes for a format exactly when it is well formed for it**, is none for `podman kube`,
and has a space behind a `FROM` when it is a container file. -/
theorem validateFormat_eq_ok_iff : validateFormat readers format text = .ok () ↔
    WellFormed readers format text ∧ format ≠ "podman_kube" ∧ (format = "containerfile" →
      ∃ line ∈ splitLines text, IsFrom (strip line) ' ') := by
  constructor
  · intro h
    rw [validateFormat] at h
    split_ifs at h with h1 h2 h3 h4 h5 h6 h7
    · subst h1
      obtain ⟨document, hjsonc, hdocument⟩ := bind_eq_ok.mp h
      exact ⟨.devcontainer hjsonc (devcontainer_eq_ok_iff.mp hdocument), by decide,
        fun heq => absurd heq (by decide)⟩
    · subst h2
      obtain ⟨document, hload, hdocument⟩ := bind_eq_ok.mp h
      obtain ⟨members, services, rfl, hget, hne⟩ := composeDescriptor_eq_ok_iff.mp hdocument
      exact ⟨.compose (require_eq_ok.mp hload) hget hne, by decide,
        fun heq => absurd heq (by decide)⟩
    · obtain ⟨documents, -, hkube⟩ := bind_eq_ok.mp h
      rw [podmanKube_tuple] at hkube
      cases hkube
    · subst h4
      obtain ⟨line, hline, hfrom⟩ := containerfile_eq_ok_iff.mp h
      exact ⟨.containerfile ⟨line, hline, ' ', by decide, hfrom⟩, by decide,
        fun _ => ⟨line, hline, hfrom⟩⟩
    · subst h5
      obtain ⟨sections, hsections, hknown⟩ := quadlet_eq_ok_iff.mp h
      exact ⟨.quadlet hsections hknown, by decide, fun heq => absurd heq (by decide)⟩
    · subst h6
      exact ⟨.nix (strip_ne_nil_iff.mp (refuseIf_eq_ok.mp h)), by decide,
        fun heq => absurd heq (by decide)⟩
    · subst h7
      exact ⟨.mise (Bool.eq_true_of_not_eq_false (refuseIf_eq_ok.mp h)), by decide,
        fun heq => absurd heq (by decide)⟩
  · rintro ⟨hformed, hkube, hfrom⟩
    cases hformed with
    | devcontainer h hdocument =>
      exact bind_eq_ok.mpr ⟨_, h, devcontainer_eq_ok_iff.mpr hdocument⟩
    | compose h hservices hne =>
      exact bind_eq_ok.mpr ⟨_, require_eq_ok.mpr h,
        composeDescriptor_eq_ok_iff.mpr ⟨_, _, rfl, hservices, hne⟩⟩
    | podmanKube => exact absurd rfl hkube
    | containerfile => exact containerfile_eq_ok_iff.mpr (hfrom rfl)
    | quadlet h hknown => exact quadlet_eq_ok_iff.mpr ⟨_, h, hknown⟩
    | nix h => exact refuseIf_eq_ok.mpr (strip_ne_nil_iff.mpr h)
    | mise h => exact refuseIf_eq_ok.mpr (by rw [h]; decide)

/-- The files a development container refers to are those that are looked for. -/
theorem mem_references_iff {document : JsonObject} {path : String} :
    path ∈ (composeReferences (document.lookup "dockerComposeFile") ++
      buildReferences (document.lookup "build")).eraseDups ↔ RefersTo document path := by
  rw [mem_eraseDups, mem_append]
  constructor
  · rintro (h | h)
    · cases hvalue : document.lookup "dockerComposeFile" with
      | none => simp [hvalue, composeReferences] at h
      | some value =>
        rw [hvalue] at h
        cases value with
        | str text =>
          obtain rfl := mem_singleton.mp h
          exact .compose hvalue
        | arr items =>
          obtain ⟨item, hitem, hpath⟩ := mem_filterMap.mp h
          cases item with
          | str text =>
            obtain rfl := Option.some.inj hpath
            exact .composeItem hvalue hitem
          | _ => cases hpath
        | _ => cases h
    · cases hvalue : document.lookup "build" with
      | none => simp [hvalue, buildReferences] at h
      | some value =>
        rw [hvalue] at h
        cases value with
        | obj build =>
          rw [buildReferences] at h
          cases hfile : build.lookup "dockerfile" with
          | none => simp [hfile] at h
          | some file =>
            rw [hfile] at h
            cases file with
            | str text =>
              obtain rfl := mem_singleton.mp h
              exact .dockerfile hvalue hfile
            | _ => cases h
        | _ => cases h
  · intro h
    cases h with
    | compose h =>
      rw [h]
      exact .inl mem_cons_self
    | composeItem h hitem =>
      rw [h]
      exact .inl (mem_filterMap.mpr ⟨_, hitem, rfl⟩)
    | dockerfile h hfile =>
      rw [h, buildReferences, hfile]
      exact .inr mem_cons_self

end Formats

/-! ## Members -/

section Members

variable {readers : DescriptorReaders} {sources : DescriptorSources} {maxDescriptorBytes : ℕ}
  {request : EnvironmentBindingRequest} {observation : EnvironmentObservation}
  {members : List EnvironmentDescriptorMember} {member : EnvironmentDescriptorMember}
  {content : List UInt8} {text : List Char} {manifest : DescriptorManifest}

theorem validateMember_eq_nil_iff {allowed : List String} : validateMember member allowed = [] ↔
    IsSafePath member.logicalPath ∧ (allowed = [] ∨ member.format ∈ allowed) := by
  rw [validateMember, append_eq_nil_iff, ite_eq_right_iff, ite_eq_right_iff]
  refine and_congr ⟨fun h => ?_, fun h hunsafe => ?_⟩ ?_
  · simp only [cons_ne_nil, imp_false, not_or] at h
    have hinside : ['.', '.'] ∉ pathParts member.logicalPath := fun hmem =>
      h.2.1 (any_eq_true.mpr ⟨_, hmem, decide_eq_true rfl⟩)
    exact ⟨Bool.eq_false_of_not_eq_true h.1, hinside, h.2.2⟩
  · rcases hunsafe with habsolute | hclimbs | hslash
    · rw [h.relative] at habsolute
      cases habsolute
    · obtain ⟨part, hmem, hpart⟩ := any_eq_true.mp hclimbs
      exact absurd (of_decide_eq_true hpart ▸ hmem) h.inside
    · exact absurd hslash h.slashes
  · simp only [cons_ne_nil, imp_false]
    tauto

theorem definitionViolations_eq_nil_iff {outcome : EnvironmentOutcome}
    {prior : Option DescriptorObservation} {digest : String} :
    definitionViolations outcome prior digest = [] ↔ Consistent outcome prior digest := by
  rw [definitionViolations, Consistent]
  by_cases houtcome : outcome = .reuseExisting
  · cases prior <;> simp [houtcome]
  · cases prior <;> simp [houtcome]

theorem validateContent_eq_ok_iff {format : String} :
    validateContent readers format content = .ok () ↔ ∃ text,
      decode? content = some text ∧ validateFormat readers format text = .ok () := by
  simp [validateContent]

theorem artifactOf_eq_ok_iff {reference : String} :
    artifactOf sources reference = .ok (some (manifest, content)) ↔
      sources.manifest reference = .ok manifest ∧ sources.readBytes reference = .ok content := by
  rw [artifactOf]
  cases hmanifest : sources.manifest reference with
  | error raised =>
    rw [show (do return (← Except.error raised, ← sources.readBytes reference)) =
      (.error raised : Except Raised (DescriptorManifest × List UInt8)) from rfl]
    cases raised <;> simp
  | ok found =>
    cases hbytes : sources.readBytes reference with
    | error raised =>
      rw [show (do return (← Except.ok found, ← Except.error raised)) =
        (.error raised : Except Raised (DescriptorManifest × List UInt8)) from rfl]
      cases raised <;> simp
    | ok bytes =>
      rw [show (do return (← Except.ok found, ← Except.ok bytes)) =
        (.ok (found, bytes) : Except Raised (DescriptorManifest × List UInt8)) from rfl]
      simp

theorem missingInputs_eq_nil_iff {paths references : List String} :
    missingInputs member paths references = [] ↔
      ∀ reference ∈ references, besidePath member.logicalPath reference ∈ paths := by
  simp [missingInputs]

/-- The files a member that passed refers to. -/
theorem referencedPaths_of_validated (hdecode : decode? content = some text)
    (hformat : validateFormat readers member.format text = .ok ()) :
    ∃ references, referencedPaths member.format content = .ok references ∧
      ∀ path, path ∈ references ↔ member.format = "devcontainer" ∧
        ∃ document, jsonc text = .ok document ∧ RefersTo document path := by
  rw [referencedPaths]
  by_cases hdevcontainer : member.format = "devcontainer"
  · rw [hdevcontainer, validateFormat, if_pos rfl] at hformat
    obtain ⟨document, hjsonc, -⟩ := bind_eq_ok.mp hformat
    rw [if_neg (not_not.mpr hdevcontainer), hdecode]
    simp only [hjsonc]
    refine ⟨_, rfl, fun path => mem_references_iff.trans ⟨fun h => ?_, ?_⟩⟩
    · exact ⟨hdevcontainer, document, rfl, h⟩
    · rintro ⟨-, found, hfound, h⟩
      obtain rfl := Except.ok.inj hfound
      exact h
  · rw [if_pos hdevcontainer]
    exact ⟨[], rfl, fun path => by simp [hdevcontainer]⟩

theorem checkContent_iff {early : List String} :
    (∃ report, checkContent readers (members.map (·.logicalPath)) member content early =
      .ok report ∧ report.violations = []) ↔
    early = [] ∧ ∃ text, decode? content = some text ∧
      ContentRequired readers members member text ∧ member.format ≠ "podman_kube" ∧
      (member.format = "containerfile" →
        ∃ line ∈ splitLines text, IsFrom (strip line) ' ') := by
  rw [checkContent]
  constructor
  · rintro ⟨report, h, hreport⟩
    cases hcontent : validateContent readers member.format content with
    | error raised =>
      rw [hcontent] at h
      cases raised with
      | mishkan error =>
        obtain rfl := Except.ok.inj h
        simp at hreport
      | _ => cases h
    | ok _ =>
      obtain ⟨text, hdecode, hformat⟩ := validateContent_eq_ok_iff.mp hcontent
      obtain ⟨references, hreferences, hmem⟩ := referencedPaths_of_validated hdecode hformat
      obtain ⟨hformed, hkube, hfrom⟩ := validateFormat_eq_ok_iff.mp hformat
      rw [hcontent] at h
      simp only [hreferences] at h
      obtain rfl := Except.ok.inj h
      obtain ⟨hearly, hmissing⟩ := append_eq_nil_iff.mp hreport
      refine ⟨hearly, text, hdecode, ⟨hformed, fun hdev document hjsonc path hpath => ?_⟩, hkube,
        hfrom⟩
      have hpath := missingInputs_eq_nil_iff.mp hmissing path
        ((hmem path).mpr ⟨hdev, document, hjsonc, hpath⟩)
      exact mem_map.mp hpath
  · rintro ⟨rfl, text, hdecode, hrequired, hkube, hfrom⟩
    have hformat := validateFormat_eq_ok_iff.mpr ⟨hrequired.wellFormed, hkube, hfrom⟩
    obtain ⟨references, hreferences, hmem⟩ := referencedPaths_of_validated hdecode hformat
    rw [validateContent_eq_ok_iff.mpr ⟨text, hdecode, hformat⟩]
    simp only [hreferences]
    refine ⟨_, rfl, missingInputs_eq_nil_iff.mpr fun path hpath => ?_⟩
    obtain ⟨hdev, document, hjsonc, hrefers⟩ := (hmem path).mp hpath
    exact mem_map.mpr (hrequired.references hdev document hjsonc path hrefers)

theorem baseViolations_eq_nil_iff {revision : Option String} :
    baseViolations member revision = [] ↔ ∀ base ∈ member.baseRevision, revision = some base := by
  rw [baseViolations]
  cases hbase : member.baseRevision with
  | none => simp
  | some base => simp [eq_comm]

/-- **A member is reported without violations exactly when it is as required**, and of those the
validator serves. -/
theorem checkMember_iff :
    (∃ report, checkMember readers sources maxDescriptorBytes request observation
      (members.map (·.logicalPath)) member = .ok report ∧ report.violations = []) ↔
    MemberRequired readers sources maxDescriptorBytes request observation members member ∧
      Served sources member := by
  constructor
  · rintro ⟨report, h, hreport⟩
    rw [checkMember] at h
    obtain ⟨artifact, hartifact, h⟩ := bind_eq_ok.mp h
    cases artifact with
    | none =>
      obtain rfl := Except.ok.inj h
      simp at hreport
    | some artifact =>
      obtain ⟨manifest, content⟩ := artifact
      obtain ⟨hmanifest, hbytes⟩ := artifactOf_eq_ok_iff.mp hartifact
      simp only at h
      split_ifs at h with havailable hsize
      · obtain rfl := Except.ok.inj h
        simp at hreport
      · obtain rfl := Except.ok.inj h
        simp at hreport
      · obtain ⟨hearly, text, hdecode, hrequired, hkube, hfrom⟩ :=
          checkContent_iff.mp ⟨report, h, hreport⟩
        simp only [append_eq_nil_iff] at hearly
        obtain ⟨⟨hmember, hbase⟩, hdefinition⟩ := hearly
        obtain ⟨hpath, hformat⟩ := validateMember_eq_nil_iff.mp hmember
        refine ⟨⟨hpath, hformat, baseViolations_eq_nil_iff.mp hbase, manifest, content, text,
          hmanifest, hbytes, not_not.mp havailable, Nat.not_lt.mp hsize,
          definitionViolations_eq_nil_iff.mp hdefinition, hdecode, hrequired⟩, hkube, ?_⟩
        intro hcontainerfile content' hbytes' text' hdecode'
        obtain rfl := Except.ok.inj (hbytes.symm.trans hbytes')
        obtain rfl := Option.some.inj (hdecode.symm.trans hdecode')
        exact hfrom hcontainerfile
  · rintro ⟨⟨hpath, hformat, hbase, manifest, content, text, hmanifest, hbytes, havailable, hsize,
      hconsistent, hdecode, hrequired⟩, hkube, hfrom⟩
    obtain ⟨report, h, hreport⟩ := checkContent_iff.mpr ⟨rfl, text, hdecode, hrequired, hkube,
      fun heq => hfrom heq content hbytes text hdecode⟩
    refine ⟨report, ?_, hreport⟩
    rw [checkMember]
    refine bind_eq_ok.mpr ⟨_, artifactOf_eq_ok_iff.mpr ⟨hmanifest, hbytes⟩, ?_⟩
    simp only
    rw [if_neg (not_not.mpr havailable), if_neg (Nat.not_lt.mpr hsize),
      validateMember_eq_nil_iff.mpr ⟨hpath, hformat⟩, baseViolations_eq_nil_iff.mpr hbase,
      definitionViolations_eq_nil_iff.mpr hconsistent]
    exact h

end Members

/-! ## Sets -/

/-- The set is made for a compatible binding, under which there is an observation. -/
structure OnCompatibleBinding (sources : DescriptorSources)
    (descriptorSet : EnvironmentDescriptorSet) (binding : EnvironmentBinding)
    (observation : EnvironmentObservation) : Prop where
  binding_found : sources.binding descriptorSet.bindingId = .ok binding
  compatible : binding.state = .compatible
  observation_found : sources.observation binding.request.observationId = .ok observation

section Sets

variable {readers : DescriptorReaders} {sources : DescriptorSources} {maxDescriptorBytes : ℕ}
  {descriptorSet : EnvironmentDescriptorSet} {request : EnvironmentBindingRequest}
  {binding : EnvironmentBinding} {observation : EnvironmentObservation}

theorem setViolations_eq_nil_iff : setViolations descriptorSet request observation = [] ↔
    descriptorSet.contextFingerprint = observation.fingerprint ∧
      descriptorSet.targetPlatform = request.targetPlatform ∧
      descriptorSet.targetArchitecture = request.targetArchitecture := by
  simp [setViolations]

/-- Nothing is reported exactly when nothing is reported of any member. -/
theorem reported_eq_nil_iff {members : List EnvironmentDescriptorMember}
    {reports : List MemberReport} (h : members.length = reports.length) :
    ((members.zip reports).flatMap fun x =>
      x.2.violations.map fun item => s!"{x.1.logicalPath}:{item}") = [] ↔
      ∀ report ∈ reports, report.violations = [] := by
  simp only [flatMap_eq_nil_iff, map_eq_nil_iff]
  constructor
  · intro hall report hreport
    rw [← map_snd_zip h.ge] at hreport
    obtain ⟨x, hx, rfl⟩ := mem_map.mp hreport
    exact hall x hx
  · exact fun hall x hx => hall x.2 (of_mem_zip hx).2

/-- **A set on a compatible binding is reported valid exactly when it is as required and the
validator serves all of its members.** -/
theorem valid_iff (h : OnCompatibleBinding sources descriptorSet binding observation) :
    (∃ result, validateDescriptors readers sources maxDescriptorBytes descriptorSet = .ok result ∧
      result.valid = true) ↔
    Required readers sources maxDescriptorBytes binding.request observation descriptorSet ∧
      ∀ member ∈ descriptorSet.members, Served sources member := by
  have hmembers : (∃ reports, descriptorSet.members.mapM (checkMember readers sources
        maxDescriptorBytes binding.request observation
          (descriptorSet.members.map (·.logicalPath))) = .ok reports ∧
        ∀ report ∈ reports, report.violations = []) ↔
      ∀ member ∈ descriptorSet.members, MemberRequired readers sources maxDescriptorBytes
        binding.request observation descriptorSet.members member ∧ Served sources member :=
    exists_mapM_iff.trans (forall₂_congr fun _ _ => checkMember_iff)
  simp only [validateDescriptors, bind_eq_ok, h.binding_found, refuseIf_eq_ok, not_not,
    Except.ok.injEq, pure_eq_ok]
  constructor
  · rintro ⟨result, ⟨_, rfl, _, -, found, hfound, reports, hreports, rfl⟩, hvalid⟩
    obtain rfl := Except.ok.inj (h.observation_found.symm.trans hfound)
    simp only [List.isEmpty_iff, List.append_eq_nil_iff] at hvalid
    obtain ⟨hset, hreported⟩ := hvalid
    obtain ⟨hcontext, hplatform, harchitecture⟩ := setViolations_eq_nil_iff.mp hset
    have hall := hmembers.mp ⟨reports, hreports,
      (reported_eq_nil_iff (mapM_eq_ok.mp hreports).length_eq).mp hreported⟩
    exact ⟨⟨hcontext, hplatform, harchitecture, fun member hmem => (hall member hmem).1⟩,
      fun member hmem => (hall member hmem).2⟩
  · rintro ⟨hrequired, hserved⟩
    obtain ⟨reports, hreports, hnone⟩ := hmembers.mpr fun member hmem =>
      ⟨hrequired.members member hmem, hserved member hmem⟩
    refine ⟨_, ⟨binding, rfl, (), h.compatible, observation, h.observation_found, reports, hreports,
      rfl⟩, ?_⟩
    simp only [List.isEmpty_iff, List.append_eq_nil_iff]
    exact ⟨setViolations_eq_nil_iff.mpr
      ⟨hrequired.context, hrequired.platform, hrequired.architecture⟩,
      (reported_eq_nil_iff (mapM_eq_ok.mp hreports).length_eq).mpr hnone⟩

/-- **The report is right exactly for the sets that fail a requirement anyway, and for those without
a member for `podman kube` and with a space behind a `FROM` of every container file.** -/
theorem valid_iff_required (h : OnCompatibleBinding sources descriptorSet binding observation) :
    ((∃ result, validateDescriptors readers sources maxDescriptorBytes descriptorSet = .ok result ∧
        result.valid = true) ↔
      Required readers sources maxDescriptorBytes binding.request observation descriptorSet) ↔
    (Required readers sources maxDescriptorBytes binding.request observation descriptorSet →
      ∀ member ∈ descriptorSet.members, Served sources member) := by
  rw [valid_iff h]
  constructor
  · exact fun hiff hrequired => (hiff.mpr hrequired).2
  · exact fun hserved => ⟨And.left, fun hrequired => ⟨hrequired, hserved hrequired⟩⟩

end Sets

/-! ## A pod -/

namespace PodExample

/-- What is read of the descriptor of a pod. -/
def pod : Yaml := .map [(.str "apiVersion", .str "v1"), (.str "kind", .str "Pod")]

def readers : DescriptorReaders where
  safeLoad := fun text => if text = "apiVersion: v1\nkind: Pod\n".toList then some pod else none
  safeLoadAll := fun text =>
    if text = "apiVersion: v1\nkind: Pod\n".toList then some [pod] else none
  sections := fun _ => none
  toml := fun _ => false

def observation : EnvironmentObservation where
  fingerprint := "f"
  repositoryRevision := none
  descriptors := []

def binding : EnvironmentBinding where
  request := ⟨"o", .generate, "linux", "x86_64", ["podman_kube"]⟩
  state := .compatible

def sources : DescriptorSources where
  binding := fun _ => .ok binding
  observation := fun _ => .ok observation
  manifest := fun _ => .ok ⟨.available, "sha256:d"⟩
  readBytes := fun _ => .ok (encode "apiVersion: v1\nkind: Pod\n".toList)

def member : EnvironmentDescriptorMember where
  format := "podman_kube"
  logicalPath := "podman-kube.yaml"
  artifactReference := "artifact:a"

def descriptorSet : EnvironmentDescriptorSet where
  descriptorSetId := "s"
  bindingId := "b"
  contextFingerprint := "f"
  targetPlatform := "linux"
  targetArchitecture := "x86_64"
  members := [member]
  members_ne_nil := cons_ne_nil _ _

theorem onCompatibleBinding : OnCompatibleBinding sources descriptorSet binding observation :=
  ⟨rfl, rfl, rfl⟩

theorem required : Required readers sources 1000 binding.request observation descriptorSet := by
  refine ⟨rfl, rfl, rfl, fun member hmember => ?_⟩
  obtain rfl := mem_singleton.mp hmember
  have hload : readers.safeLoadAll "apiVersion: v1\nkind: Pod\n".toList = some [pod] := by
    simp only [readers, if_true]
  have hformed : WellFormed readers "podman_kube" "apiVersion: v1\nkind: Pod\n".toList := by
    refine .podmanKube hload (cons_ne_nil _ _) fun document hdocument => ?_
    rw [mem_singleton.mp hdocument]
    decide
  exact ⟨⟨by decide, by decide, by decide⟩, .inr mem_cons_self,
    fun _ h => absurd h (Option.not_mem_none _), _, _, _, rfl, rfl, rfl, by decide,
    ⟨fun _ h => absurd h (Option.not_mem_none _), fun h => absurd h (by decide)⟩,
    decode?_encode _, hformed, fun h => absurd h (by decide)⟩

/-- The report is never that the set is valid. -/
theorem pod_rejected : OnCompatibleBinding sources descriptorSet binding observation ∧
    Required readers sources 1000 binding.request observation descriptorSet ∧
    ¬ ∃ result, validateDescriptors readers sources 1000 descriptorSet = .ok result ∧
      result.valid = true := by
  refine ⟨onCompatibleBinding, required, fun h => ?_⟩
  obtain ⟨-, hserved⟩ := (valid_iff onCompatibleBinding).mp h
  exact (hserved member mem_cons_self).kube rfl

theorem valid_iff_required_pod :
    ((∃ result, validateDescriptors readers sources 1000 descriptorSet = .ok result ∧
        result.valid = true) ↔
      Required readers sources 1000 binding.request observation descriptorSet) ↔
    (Required readers sources 1000 binding.request observation descriptorSet →
      ∀ member ∈ descriptorSet.members, Served sources member) :=
  valid_iff_required onCompatibleBinding

end PodExample

end Mishkan.Environment
