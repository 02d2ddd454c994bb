import Mishkan.Skills.Catalog

/-!
# Skills/ProgressiveLoading — whether what is loaded is of the package that was selected

The files a package is fingerprinted from are those of the selected package, as the fingerprint is
compared; the instructions are read before that and the resources after it.  `Loading.Faithful` says
that what a loaded skill holds are contents of these files, and `loading_faithful_iff` that this is
so along exactly the runs whose reads see the contents that are fingerprinted.
-/

namespace Mishkan

open Refusal Transition Lines List

section

variable {catalog : SkillCatalog} {yaml : Yaml.Codec} {sha256 : List UInt8 → List UInt8}

/-! ## Fingerprints -/

/-- **The fingerprint of a package is that of its files.** -/
theorem packageFingerprint_files {bounds : SkillBounds} {package : SkillPackage}
    {fingerprint : String} {resources : List String}
    (h : packageFingerprint sha256 bounds package = .ok (fingerprint, resources)) :
    fingerprint = filesFingerprint sha256 package.files := by
  obtain ⟨⟨files, total⟩, hfold, hresult⟩ := bind_eq_ok.mp h
  cases hresult
  have hfiles : files = [] ++ package.entries.map fun entry => (entry.relative, entry.content) := by
    refine foldlM_collects Prod.fst _ (fun acc entry acc' hstep => ?_) hfold
    simp only [bind_eq_ok, pure_eq_ok] at hstep
    obtain ⟨-, -, -, -, -, -, -, -, -, -, rfl⟩ := hstep
    rfl
  rw [hfiles]
  rfl

/-! ## What a loaded skill holds -/

/-- What a loaded skill holds are contents of the files of the selected package, with their
fingerprints as evidence. -/
structure Loading.Faithful (sha256 : List UInt8 → List UInt8) (x : Loading) : Prop where
  package : filesFingerprint sha256 x.files = x.skill.metadata.packageFingerprint
  evidence : x.skill.evidence.packageFingerprint = x.skill.metadata.packageFingerprint
  instructions : ∃ content, x.files.lookup "SKILL.md" = some content ∧
    decode? content = some x.skill.instructions ∧
    x.skill.evidence.instructionFingerprint = some (contentFingerprint sha256 content)
  resources : ∀ item ∈ x.skill.resources, x.files.lookup item.1.path = some item.2 ∧
    item.1.fingerprint = contentFingerprint sha256 item.2 ∧ item.1.sizeBytes = item.2.length
  loaded : x.skill.evidence.loadedResources = x.skill.resources.map Prod.fst

/-- What loading the instructions has checked. -/
structure LoadsInstructions (catalog : SkillCatalog) (yaml : Yaml.Codec)
    (sha256 : List UInt8 → List UInt8) (selection : SkillSelection) (read : FileRead)
    (package : SkillPackage) (metadata : SkillMetadata) (text : Text) : Prop where
  selected : selection.selected = some metadata
  size : read.size ≤ catalog.bounds.maxManifestBytes
  decodes : decode? read.content = some text
  document : ∃ frontmatter body,
    parseDocument yaml text package.manifest = .ok (frontmatter, body) ∧
      (Yaml.get frontmatter "name").equals metadata.name ∧ strip body ≠ []
  fingerprint : ∃ resources, packageFingerprint sha256 catalog.bounds.toSkillBounds package =
    .ok (metadata.packageFingerprint, resources)

/-- What loading a resource that is not loaded yet has checked. -/
structure LoadsResource (catalog : SkillCatalog) (loaded : LoadedSkill) (relativePath : String)
    (resolves : Bool) (read : FileRead) (normalized : String) : Prop where
  path : catalog.safeResourcePath relativePath = .ok normalized
  declared : normalized ∈ loaded.metadata.resourcePaths
  referenced : normalized.toList <:+: loaded.instructions
  unloaded : ¬ loaded.resources.any (fun item => item.1.path = normalized)
  resolves : resolves = true
  size : read.size ≤ catalog.bounds.maxResourceBytes

theorem readBounded_eq_ok {read : Option FileRead} {limit : Nat} {label : String}
    {content : List UInt8} : readBounded read limit label = .ok content ↔
      ∃ r, read = some r ∧ r.size ≤ limit ∧ r.content = content := by
  simp only [readBounded, bind_eq_ok, require_eq_ok, refuseIf_eq_ok, pure_eq_ok, not_lt,
    exists_and_left, exists_const]

/-- **Instructions are loaded exactly when the checks pass**, and are what was read. -/
theorem loadInstructions_eq_ok {selection : SkillSelection} {manifest : Option FileRead}
    {package : SkillPackage} {skill : LoadedSkill} :
    catalog.loadInstructions yaml sha256 selection manifest package = .ok skill ↔
      ∃ read metadata text, manifest = some read ∧
        LoadsInstructions catalog yaml sha256 selection read package metadata text ∧
        skill =
          { metadata := metadata
            instructions := text
            evidence :=
              { taskId := selection.context.taskId
                taskClass := selection.context.taskClass
                consumingIdentity := selection.context.consumingIdentity
                skillName := metadata.name
                skillVersion := metadata.version
                packageFingerprint := metadata.packageFingerprint
                outcome := selection.outcome
                reason := selection.reason
                instructionFingerprint := some (contentFingerprint sha256 read.content) } } := by
  simp only [SkillCatalog.loadInstructions, bind_eq_ok, require_eq_ok, readBounded_eq_ok,
    refuseIf_eq_ok, pure_eq_ok, Prod.exists, not_or, not_not]
  constructor
  · rintro ⟨metadata, hselected, content, ⟨read, rfl, hsize, rfl⟩, text, hdecodes, frontmatter,
      body, hparse, _, ⟨hname, hbody⟩, fingerprint, resources, hfingerprint, _, rfl, rfl⟩
    exact ⟨read, metadata, text, rfl, ⟨hselected, hsize, hdecodes,
      ⟨frontmatter, body, hparse, hname, hbody⟩, resources, hfingerprint⟩, rfl⟩
  · rintro ⟨read, metadata, text, rfl, ⟨hselected, hsize, hdecodes,
      ⟨frontmatter, body, hparse, hname, hbody⟩, resources, hfingerprint⟩, rfl⟩
    exact ⟨metadata, hselected, read.content, ⟨read, rfl, hsize, rfl⟩, text, hdecodes, frontmatter,
      body, hparse, ⟨⟩, ⟨hname, hbody⟩, _, resources, hfingerprint, ⟨⟩, rfl, rfl⟩

/-- The record of a resource. -/
def resourceRecord (sha256 : List UInt8 → List UInt8) (path : String) (content : List UInt8) :
    SkillLoadedResource :=
  ⟨path, contentFingerprint sha256 content, content.length⟩

/-- A loaded skill with one more resource. -/
def LoadedSkill.withResource (loaded : LoadedSkill) (record : SkillLoadedResource)
    (content : List UInt8) : LoadedSkill :=
  { loaded with
    evidence :=
      { loaded.evidence with
        loadedResources := (loaded.resources ++ [(record, content)]).map Prod.fst }
    resources := loaded.resources ++ [(record, content)] }

/-- **A resource that is loaded is the skill it was loaded for, or adds what was read.** -/
theorem loadResource_cases {loaded skill : LoadedSkill} {relativePath : String} {resolves : Bool}
    {read : Option FileRead}
    (h : catalog.loadResource sha256 loaded relativePath resolves read = .ok skill) :
    skill = loaded ∨ ∃ r normalized, read = some r ∧
      LoadsResource catalog loaded relativePath resolves r normalized ∧
      skill = loaded.withResource (resourceRecord sha256 normalized r.content) r.content := by
  obtain ⟨normalized, hpath, h⟩ := bind_eq_ok.mp h
  obtain ⟨_, hdeclared, h⟩ := bind_eq_ok.mp h
  obtain ⟨_, hreferenced, h⟩ := bind_eq_ok.mp h
  split at h
  · cases h
    exact .inl rfl
  · rename_i hunloaded
    obtain ⟨_, hresolves, h⟩ := bind_eq_ok.mp h
    obtain ⟨content, hread, h⟩ := bind_eq_ok.mp h
    obtain ⟨r, rfl, hsize, rfl⟩ := readBounded_eq_ok.mp hread
    cases h
    exact .inr ⟨r, normalized, rfl, ⟨hpath, not_not.mp (refuseIf_eq_ok.mp hdeclared),
      not_not.mp (refuseIf_eq_ok.mp hreferenced), hunloaded,
      not_not.mp (refuseIf_eq_ok.mp hresolves), hsize⟩, rfl⟩

/-- A resource that passes the checks is loaded. -/
theorem loadResource_of_loads {loaded : LoadedSkill} {relativePath normalized : String}
    {resolves : Bool} {read : FileRead}
    (h : LoadsResource catalog loaded relativePath resolves read normalized) :
    catalog.loadResource sha256 loaded relativePath resolves (some read) =
      .ok (loaded.withResource (resourceRecord sha256 normalized read.content) read.content) := by
  refine bind_eq_ok.mpr ⟨normalized, h.path, bind_eq_ok.mpr ⟨⟨⟩, ?_, bind_eq_ok.mpr ⟨⟨⟩, ?_, ?_⟩⟩⟩
  · exact refuseIf_eq_ok.mpr (not_not.mpr h.declared)
  · exact refuseIf_eq_ok.mpr (not_not.mpr h.referenced)
  · rw [if_neg h.unloaded]
    refine bind_eq_ok.mpr ⟨⟨⟩, refuseIf_eq_ok.mpr (not_not.mpr h.resolves), ?_⟩
    exact bind_eq_ok.mpr ⟨read.content, readBounded_eq_ok.mpr ⟨read, rfl, h.size, rfl⟩, rfl⟩

/-! ## One call -/

/-- What a call returns is faithful. -/
def ReturnsFaithful (catalog : SkillCatalog) (yaml : Yaml.Codec) (sha256 : List UInt8 → List UInt8)
    (run : CatalogRun) (c : CatalogCall) : Prop :=
  ∀ x, run.call catalog yaml sha256 c = .ok (.inr x) → x.Faithful sha256

/-- The reads of a call that passes its checks see the contents that were fingerprinted. -/
def ReadsFingerprinted (catalog : SkillCatalog) (yaml : Yaml.Codec)
    (sha256 : List UInt8 → List UInt8) (run : CatalogRun) : CatalogCall → Prop
  | .select _ _ => True
  | .loadInstructions i manifest package => ∀ selection ∈ run.selections[i]?, ∀ read ∈ manifest,
    ∀ metadata text,
      LoadsInstructions catalog yaml sha256 selection read package metadata text →
        package.files.lookup "SKILL.md" = some read.content
  | .loadResource i relativePath resolves read => ∀ x ∈ run.loadings[i]?, ∀ r ∈ read,
    ∀ normalized, LoadsResource catalog x.skill relativePath resolves r normalized →
      x.files.lookup normalized = some r.content

section

variable {run : CatalogRun} {c : CatalogCall}

/-- Loaded instructions are faithful exactly when they are what was fingerprinted. -/
theorem faithful_instructions_iff {selection : SkillSelection} {read : FileRead}
    {package : SkillPackage} {metadata : SkillMetadata} {text : Text} {skill : LoadedSkill}
    (h : LoadsInstructions catalog yaml sha256 selection read package metadata text)
    (hmetadata : skill.metadata = metadata) (htext : skill.instructions = text)
    (hevidence : skill.evidence.packageFingerprint = metadata.packageFingerprint)
    (hfingerprint : skill.evidence.instructionFingerprint =
      some (contentFingerprint sha256 read.content))
    (hresources : skill.resources = []) (hloaded : skill.evidence.loadedResources = []) :
    (Loading.mk skill package.files).Faithful sha256 ↔
      package.files.lookup "SKILL.md" = some read.content := by
  obtain ⟨_, hpackage⟩ := h.fingerprint
  constructor
  · intro hfaithful
    obtain ⟨content, hlookup, hdecodes, -⟩ := hfaithful.instructions
    rw [htext] at hdecodes
    have hsame : content = read.content :=
      (decode?_eq_some.mp hdecodes).symm.trans (decode?_eq_some.mp h.decodes)
    exact hsame ▸ hlookup
  · intro hlookup
    refine ⟨?_, ?_, ⟨read.content, hlookup, ?_, hfingerprint⟩, ?_, ?_⟩
    · exact (packageFingerprint_files hpackage).symm.trans (congrArg _ hmetadata.symm)
    · exact hevidence.trans (congrArg _ hmetadata.symm)
    · exact htext ▸ h.decodes
    · rw [hresources]
      exact fun item hitem => absurd hitem not_mem_nil
    · rw [hresources, hloaded]
      rfl

/-- One more resource is faithful exactly when it is what was fingerprinted. -/
theorem faithful_withResource_iff {x : Loading} {path : String} {content : List UInt8}
    (h : x.Faithful sha256) :
    ({ x with skill := x.skill.withResource (resourceRecord sha256 path content) content } :
        Loading).Faithful sha256 ↔ x.files.lookup path = some content := by
  constructor
  · intro hfaithful
    exact (hfaithful.resources (resourceRecord sha256 path content, content) (by
      simp [LoadedSkill.withResource])).1
  · intro hlookup
    refine ⟨h.package, h.evidence, h.instructions, fun item hitem => ?_, rfl⟩
    rcases mem_append.mp hitem with hitem | hitem
    · exact h.resources item hitem
    · rw [mem_singleton.mp hitem]
      exact ⟨hlookup, rfl, rfl⟩

/-- **What a call returns is faithful exactly when its reads see what was fingerprinted.** -/
theorem returnsFaithful_iff (h : ∀ x ∈ run.loadings, x.Faithful sha256) :
    ReturnsFaithful catalog yaml sha256 run c ↔ ReadsFingerprinted catalog yaml sha256 run c := by
  cases c with
  | select name context => exact iff_of_true (fun x hx => by cases hx) trivial
  | loadInstructions i manifest package =>
    constructor
    · intro hreturns selection hselection read hread metadata text hloads
      have hload := loadInstructions_eq_ok.mpr ⟨read, metadata, text, hread, hloads, rfl⟩
      have hcall : run.call catalog yaml sha256 (.loadInstructions i manifest package) =
          .ok (.inr ⟨_, package.files⟩) :=
        bind_eq_ok.mpr ⟨selection, require_eq_ok.mpr hselection, bind_eq_ok.mpr ⟨_, hload, rfl⟩⟩
      exact (faithful_instructions_iff hloads rfl rfl rfl rfl rfl rfl).mp (hreturns _ hcall)
    · intro hreads x hx
      obtain ⟨selection, hselection, hx⟩ := bind_eq_ok.mp hx
      obtain ⟨skill, hload, hx⟩ := bind_eq_ok.mp hx
      cases hx
      obtain ⟨read, metadata, text, hread, hloads, rfl⟩ := loadInstructions_eq_ok.mp hload
      exact (faithful_instructions_iff hloads rfl rfl rfl rfl rfl rfl).mpr
        (hreads selection (require_eq_ok.mp hselection) read hread metadata text hloads)
  | loadResource i relativePath resolves read =>
    constructor
    · intro hreturns x hx r hr normalized hloads
      obtain rfl : read = some r := hr
      have hcall : run.call catalog yaml sha256 (.loadResource i relativePath resolves (some r)) =
          .ok (.inr { x with skill :=
            x.skill.withResource (resourceRecord sha256 normalized r.content) r.content }) :=
        bind_eq_ok.mpr ⟨x, require_eq_ok.mpr hx,
          bind_eq_ok.mpr ⟨_, loadResource_of_loads hloads, rfl⟩⟩
      exact (faithful_withResource_iff (h x (mem_of_getElem? hx))).mp (hreturns _ hcall)
    · intro hreads y hy
      obtain ⟨x, hx, hy⟩ := bind_eq_ok.mp hy
      obtain ⟨skill, hload, hy⟩ := bind_eq_ok.mp hy
      cases hy
      have hx := require_eq_ok.mp hx
      have hfaithful := h x (mem_of_getElem? hx)
      rcases loadResource_cases hload with rfl | ⟨r, normalized, hread, hloads, rfl⟩
      · exact hfaithful
      · exact (faithful_withResource_iff hfaithful).mpr (hreads x hx r hread normalized hloads)

/-- A call that returns something faithful keeps what was returned faithful. -/
theorem faithful_step (h : ∀ x ∈ run.loadings, x.Faithful sha256)
    (hreturns : ReturnsFaithful catalog yaml sha256 run c) :
    ∀ x ∈ (run.step catalog yaml sha256 c).loadings, x.Faithful sha256 := by
  unfold CatalogRun.step
  split
  · exact h
  · rename_i loading hcall
    intro x hx
    rcases mem_append.mp hx with hx | hx
    · exact h x hx
    · rw [mem_singleton.mp hx]
      exact hreturns loading hcall
  · exact h

end

end

/-- **Everything that is loaded is of the selected package, exactly along the runs whose reads see
the contents that are fingerprinted**: the instructions as the package is compared, a resource as
it was then. -/
theorem loading_faithful_iff (catalog : SkillCatalog) (yaml : Yaml.Codec)
    (sha256 : List UInt8 → List UInt8) (calls : List CatalogCall) :
    Along (CatalogRun.step catalog yaml sha256) (ReturnsFaithful catalog yaml sha256) {} calls ↔
      Along (CatalogRun.step catalog yaml sha256) (ReadsFingerprinted catalog yaml sha256) {}
        calls :=
  Along.congr_of_guarded (F := fun _ _ => True) (I := fun run => ∀ x ∈ run.loadings,
    x.Faithful sha256) (fun _ _ h _ hreads => faithful_step h ((returnsFaithful_iff h).mpr hreads))
    (fun _ _ h _ => returnsFaithful_iff h) (fun _ hx => absurd hx not_mem_nil)
    (Along.of_forall (fun _ _ _ => trivial) _)

/-! ## The defect

A resource is changed after the instructions that refer to it have been loaded. -/

namespace CatalogSample

/-- A digest that tells the contents with a byte 255 from the others. -/
def sha256 (bytes : List UInt8) : List UInt8 := List.replicate 32 (if 255 ∈ bytes then 255 else 0)

def text : Text := "---\nname: ship\n---\nSee notes.md\n".toList

def package : SkillPackage :=
  ⟨"/skills/ship", "ship", [{ relative := "SKILL.md", content := encode text },
    { relative := "notes.md", content := [111, 107] }]⟩

def metadata : SkillMetadata where
  name := "ship"
  description := "Ship it"
  version := "1.0.0"
  sourceId := "local"
  sourceKind := .project
  sourceRevision := "1"
  packageUri := "local:ship@1"
  packageFingerprint := filesFingerprint sha256 package.files
  trust := .trusted
  activation := .active
  resourcePaths := ["notes.md"]

def catalog : SkillCatalog := ⟨[metadata], ⟨⟨4096, 65536, 16, 4, false⟩, 4096, 4096⟩⟩

/-- Reads every header as the one of the package. -/
def yaml : Yaml.Codec where
  dump _ := []
  load _ := some (.map [(.str "name", .str "ship")])

def context : SkillSelectionContext := ⟨"task", "release", "pm", "linux", "1", []⟩

/-- The instructions are loaded as they are in the package, and the resource after it changed. -/
def calls : List CatalogCall :=
  [.select "ship" context,
    .loadInstructions 0 (some ⟨(encode text).length, encode text⟩) package,
    .loadResource 0 "notes.md" true (some ⟨1, [255]⟩)]

theorem changed_digest : 255 ∈ sha256 [255] := by decide

/-- Every package with the changed resource has another fingerprint. -/
theorem fingerprint_of_changed {files : List (String × List UInt8)} {path : String}
    (h : files.lookup path = some [255]) :
    filesFingerprint sha256 files ≠ metadata.packageFingerprint := by
  obtain ⟨before, after, rfl, -⟩ := lookup_eq_some_iff.mp h
  generalize hfiles : before ++ (path, [255]) :: after = files
  have hmem : (path, [255]) ∈ files := hfiles ▸ mem_append_right _ mem_cons_self
  have hbyte : 255 ∈ files.flatMap fun file => encode file.1.toList ++ [0] ++ sha256 file.2 :=
    mem_flatMap.mpr ⟨_, hmem, mem_append_right _ changed_digest⟩
  have hfingerprint : filesFingerprint sha256 files =
      "sha256:" ++ hexdigest (List.replicate 32 255) :=
    congrArg (fun byte => "sha256:" ++ hexdigest (List.replicate 32 byte)) (if_pos hbyte)
  rw [hfingerprint]
  decide +kernel

end CatalogSample

open CatalogSample in
/-- **A resource is returned that no package with the fingerprint in its evidence has.** -/
theorem changed_resource_loaded :
    ¬ ∀ (catalog : SkillCatalog) (yaml : Yaml.Codec) (sha256 : List UInt8 → List UInt8)
      (calls : List CatalogCall),
      ∀ x ∈ (run (CatalogRun.step catalog yaml sha256) {} calls).loadings, ∃ files,
        filesFingerprint sha256 files = x.skill.evidence.packageFingerprint ∧
          ∀ item ∈ x.skill.resources, files.lookup item.1.path = some item.2 := by
  intro h
  have hloaded : ∃ x ∈ (run (CatalogRun.step catalog yaml sha256) {} calls).loadings,
      x.skill.evidence.packageFingerprint = metadata.packageFingerprint ∧
        x.skill.resources.map Prod.snd = [[255]] := by
    decide +kernel
  obtain ⟨x, hx, hfingerprint, hresources⟩ := hloaded
  obtain ⟨files, hfiles, hlookup⟩ := h catalog yaml sha256 calls x hx
  obtain ⟨item, hitem, hcontent⟩ : ∃ item ∈ x.skill.resources, item.2 = [255] :=
    mem_map.mp (hresources ▸ mem_singleton.mpr rfl)
  exact fingerprint_of_changed (hcontent ▸ hlookup item hitem) (hfiles.trans hfingerprint)

end Mishkan
