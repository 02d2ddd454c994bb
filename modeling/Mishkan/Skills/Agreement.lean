import Mishkan.Skills.Documents

/-!
# Skills/Agreement — the writer of a skill document and its two readers

What `skillDocument` writes is accepted for the metadata it was written from unless a line of the
frontmatter reads as a marker, the frontmatter declares other values once it is stripped, or nothing
is instructed.  What discovery reads is accepted for the metadata it discovered unless the document
is padded where discovery strips, null where discovery takes a default, or not read to its end.
-/

namespace Mishkan

open Refusal Lines List Yaml

/-! ## The writer -/

section Writer

variable (yaml : Yaml.Codec) (sha256 : List UInt8 → List UInt8) (metadata : SkillMetadata)
  (draft : SkillPackageDraft)

/-- The body a reader finds in a document. -/
def documentBody (content : List UInt8) : Option Text :=
  (decode? content).bind fun text => (Frontmatter.split text).toOption.map Prod.snd

/-- **The written document is accepted for its metadata**, and its body is what the draft says. -/
def WriterAgrees : Prop :=
  (∃ fingerprint, validateSkillMetadataDocument yaml sha256 metadata
    (skillDocument yaml metadata draft) = .ok fingerprint) ∧
  documentBody (skillDocument yaml metadata draft) = some draft.body

/-- The frontmatter is read as a document that declares the metadata. -/
def Rereads (header : Text) : Prop :=
  ∃ document, yaml.load header = some document ∧
    ∃ declared, declarationOf document = .ok declared ∧ declared.matches metadata = true

/-- No line of the frontmatter reads as a marker, it declares the metadata once it is stripped, and
something is instructed. -/
structure Writable : Prop where
  unmarked : ∀ line ∈ splitLines (metadata.frontmatter yaml), Frontmatter.isMarker line = false
  declares : Rereads yaml metadata (metadata.frontmatter yaml)
  instructed : isBlank draft.instructionsMarkdown = false ∨ draft.retrievalReferences ≠ []

/-- The frontmatter has no field for these. -/
def SkillMetadata.Unhinted : Prop :=
  metadata.license = none ∧ metadata.compatibilitySummary = none ∧ metadata.allowedToolsHint = none

instance : Decidable metadata.Unhinted := inferInstanceAs (Decidable (_ ∧ _ ∧ _))

variable {yaml sha256 metadata draft}

theorem getLast?_frontmatter : (metadata.frontmatter yaml).getLast? = some '\n' := by
  simp [SkillMetadata.frontmatter]

theorem strip_body_eq_nil : strip draft.body = [] ↔
    isBlank draft.instructionsMarkdown = true ∧ draft.retrievalReferences = [] := by
  have hreferences : strip draft.references = [] ↔ draft.retrievalReferences = [] := by
    by_cases h : draft.retrievalReferences = []
    · simp [SkillPackageDraft.references, h]
    · refine iff_of_false (fun hblank => ?_) h
      rw [SkillPackageDraft.references, if_neg h, strip_append_eq_nil] at hblank
      exact absurd hblank.1 (by decide)
  rw [SkillPackageDraft.body, ← singleton_append, strip_append_eq_nil, strip_append_eq_nil,
    strip_append_eq_nil, strip_strip_eq_nil, hreferences]
  have hline : strip ['\n'] = [] := by decide
  simp [hline, isBlank]

/-- What the validator asks of a document whose header and body are given. -/
theorem validate_iff {content : List UInt8} : (∃ fingerprint,
    validateSkillMetadataDocument yaml sha256 metadata content = .ok fingerprint) ↔
      ∃ text header body, decode? content = some text ∧
        Frontmatter.split text = .ok (header, body) ∧ Rereads yaml metadata header ∧
        strip body ≠ [] := by
  simp only [validateSkillMetadataDocument, bind_eq_ok, require_eq_ok, mapError_eq_ok,
    refuseIf_eq_ok, pure_eq_ok, Prod.exists, Rereads]
  constructor
  · rintro ⟨_, text, htext, header, body, hsplit, document, hload, declared, hdeclared, -, hmatch,
      -, hbody, -⟩
    exact ⟨text, header, body, htext, hsplit,
      ⟨document, hload, declared, hdeclared, by simpa using hmatch⟩, hbody⟩
  · rintro ⟨text, header, body, htext, hsplit, ⟨document, hload, declared, hdeclared, hmatch⟩,
      hbody⟩
    exact ⟨_, text, htext, header, body, hsplit, document, hload, declared, hdeclared, ⟨⟩,
      by simpa using hmatch, ⟨⟩, hbody, rfl⟩

theorem documentBody_skillDocument : documentBody (skillDocument yaml metadata draft) =
    some draft.body ↔
      ∀ line ∈ splitLines (metadata.frontmatter yaml), Frontmatter.isMarker line = false := by
  rw [← Frontmatter.split_fenced_iff getLast?_frontmatter draft.body]
  simp [documentBody, skillDocument, Refusal.toOption_eq_some]

/-- **When the document a draft is written as is accepted.** -/
theorem writerAgrees_iff :
    WriterAgrees yaml sha256 metadata draft ↔ Writable yaml metadata draft := by
  rw [WriterAgrees, documentBody_skillDocument, validate_iff]
  simp only [skillDocument, decode?_encode, Option.some.injEq]
  constructor
  · rintro ⟨⟨_, header, body, rfl, hsplit, hdeclares, hbody⟩, hlines⟩
    rw [Frontmatter.split_fenced getLast?_frontmatter hlines] at hsplit
    obtain ⟨rfl, rfl⟩ := Prod.mk.inj (Except.ok.inj hsplit)
    refine ⟨hlines, hdeclares, ?_⟩
    by_contra hblank
    rw [not_or, Bool.not_eq_false, not_not] at hblank
    exact hbody (strip_body_eq_nil.mpr hblank)
  · rintro ⟨hlines, hdeclares, hinstructed⟩
    refine ⟨⟨_, _, _, rfl, Frontmatter.split_fenced getLast?_frontmatter hlines draft.body,
      hdeclares, fun hblank => ?_⟩, hlines⟩
    obtain ⟨hblank, hnone⟩ := strip_body_eq_nil.mp hblank
    rcases hinstructed with h | h
    · exact absurd hblank (by simp [h])
    · exact h hnone

theorem Alternatives.same_self (xs : Alternatives) : xs.same xs = true := by
  simp [Alternatives.same]

theorem alternatives?_header (fallbacks : Alternatives) :
    alternatives? (fun _ => true) (fallbacks.map fun fallback =>
      (str fallback.1, strings fallback.2)) = some fallbacks := by
  rw [alternatives?, mapM_map]
  induction fallbacks with
  | nil => rfl
  | cons fallback fallbacks ih =>
    rw [mapM_cons, ih]
    simp [asStr?]

/-- What the values a header is written from declare. -/
theorem declarationOf_header : declarationOf metadata.header = .ok {
    name := .str metadata.name
    description := .str metadata.description
    version := .str metadata.version
    license := .null
    compatibilitySummary := .null
    allowedToolsHint := .null
    authorClaim := .ofOption metadata.authorClaim
    platforms := metadata.platforms
    requiredTools := metadata.requiredTools
    fallbackTools := metadata.fallbackTools
    organizationVersions := metadata.organizationVersions
    taskClasses := metadata.taskClasses } := by
  simp [declarationOf, declaredStrings, SkillMetadata.header, Yaml.get, Yaml.member?, Yaml.asStr?,
    Yaml.asMap?, Yaml.orEmpty, Yaml.truthy, require, alternatives?_header, pure, Except.pure]

/-- They declare all that the metadata has, but for the hints. -/
theorem declares_header (h : yaml.Inverts metadata.header) (htrims : yaml.Trims metadata.header) :
    Rereads yaml metadata (metadata.frontmatter yaml) ↔ metadata.Unhinted := by
  rw [Rereads, SkillMetadata.frontmatter, htrims, h]
  simp only [Option.some.injEq, exists_eq_left', declarationOf_header, Except.ok.injEq,
    SkillDeclaration.matches, Bool.and_eq_true, decide_eq_true_eq, null_equals,
    equals_ofOption, Alternatives.same_self, equals_some, and_true, true_and,
    SkillMetadata.Unhinted, and_assoc]

end Writer

/-! ## Reading up to the second marker -/

section Header

/-- Every line that another follows ends in a line feed. -/
theorem byteLines_terminated {bytes : List UInt8} {front rest : List (List UInt8)}
    {line : List UInt8} (h : byteLines bytes = front ++ line :: rest) (hrest : rest ≠ []) :
    line.getLast? = some 10 := by
  induction bytes generalizing front line with
  | nil => simp [byteLines] at h
  | cons b bytes ih =>
    rw [byteLines] at h
    split_ifs at h with hb
    · cases front with
      | nil =>
        obtain ⟨rfl, -⟩ := List.cons.inj h
        simp [hb]
      | cons first front => exact ih (List.cons.inj h).2
    · split at h
      · rename_i hlines
        cases front with
        | nil => exact absurd (List.cons.inj h).2.symm hrest
        | cons first front => simp at h
      · rename_i first lines hlines
        cases front with
        | nil =>
          obtain ⟨rfl, rfl⟩ := List.cons.inj h
          have hlast := @ih [] _ hlines
          cases first with
          | nil => simp at hlast
          | cons c first => rwa [List.getLast?_cons_cons]
        | cons _ front =>
          exact @ih (first :: front) _ (by rw [hlines, (List.cons.inj h).2]; rfl)

theorem flatten_byteLines (bytes : List UInt8) : (byteLines bytes).flatten = bytes := by
  induction bytes with
  | nil => rfl
  | cons b bytes ih =>
    rw [byteLines]
    split_ifs
    · rw [flatten_cons, ih]
      rfl
    · revert ih
      cases byteLines bytes with
      | nil => simp
      | cons line lines => simp

variable {path : String}

/-- What is collected are the first lines. -/
theorem collectFrontmatter_ok {limit : Nat} {collected : List UInt8}
    {delimiters : Nat} {lines : List (List UInt8)} {header : List UInt8}
    (h : collectFrontmatter limit path collected delimiters lines = .ok header) :
    ∃ front line rest, lines = front ++ line :: rest ∧
      header = collected ++ (front ++ [line]).flatten := by
  induction lines generalizing collected delimiters with
  | nil => cases h
  | cons line lines ih =>
    rw [collectFrontmatter] at h
    split_ifs at h
    · obtain rfl := Except.ok.inj h
      exact ⟨[], line, lines, rfl, by simp⟩
    all_goals
      obtain ⟨front, last, rest, rfl, rfl⟩ := ih h
      exact ⟨line :: front, last, rest, rfl, by simp⟩

/-- **The header that is read is where the manifest begins**, and ends with a line or with it. -/
theorem readFrontmatter_ok {bounds : SkillBounds} {manifest header : List UInt8}
    (h : readFrontmatter bounds path manifest = .ok header) :
    ∃ rest, manifest = header ++ rest ∧ (rest ≠ [] → header.getLast? = some 10) := by
  obtain ⟨front, line, rest, hlines, rfl⟩ := collectFrontmatter_ok h
  refine ⟨rest.flatten, ?_, fun hrest => ?_⟩
  · rw [← flatten_byteLines manifest, hlines]
    simp
  · have hlast := byteLines_terminated hlines fun hnil => hrest (by simp [hnil])
    rw [nil_append, flatten_append, flatten_singleton,
      List.getLast?_append_of_ne_nil _ (fun hnil => by simp [hnil] at hlast), hlast]

/-- **A document that is read whole has the header that was read of it**, and a body behind it. -/
theorem split_of_readFrontmatter {bounds : SkillBounds}
    {manifest header : List UInt8} {text start front body : Text}
    (h : readFrontmatter bounds path manifest = .ok header) (htext : decode? manifest = some text)
    (hstart : decode? header = some start) (hsplit : Frontmatter.split start = .ok (front, body)) :
    ∃ rest, Frontmatter.split text = .ok (front, body ++ rest) := by
  obtain ⟨rest, rfl, hend⟩ := readFrontmatter_ok h
  rw [decode?_eq_some] at htext hstart
  subst hstart
  obtain ⟨behind, rfl, rfl⟩ := exists_append_of_encode htext.symm
  refine ⟨behind, ?_⟩
  rcases eq_or_ne behind [] with rfl | hne
  · rwa [append_nil, append_nil]
  · refine Frontmatter.split_append hsplit (getLast?_of_encode (hend fun hnil => hne ?_)) behind
    exact encode_injective hnil

end Header

/-! ## Discovery -/

section Discovery

variable {yaml : Yaml.Codec} {sha256 : List UInt8 → List UInt8} {members : Yaml.Members}
  {key : String}

/-- Whether a text is as it is once it is stripped. -/
def isUnpadded : Yaml → Bool
  | .str text => strip text.toList = text.toList
  | _ => true

/-- Nothing of the document is padded where discovery strips. -/
def IsPlain (document declared : Yaml.Members) : Prop :=
  (∀ key ∈ ["description", "license", "compatibility", "allowed-tools"],
    isUnpadded (get document key) = true) ∧ isUnpadded (get declared "author") = true

/-- No list of the document is null. -/
def HasNoNull (mishkan : Yaml.Members) : Prop :=
  ∀ key ∈ ["platforms", "required_tools", "organization_versions", "task_classes"],
    ∀ value ∈ member? mishkan key, value.isNull = false

/-- The document is read to its end, has a body, and is neither padded where discovery strips nor
null where it takes a default. -/
def Registrable (yaml : Yaml.Codec) (manifest : List UInt8) : Prop :=
  ∃ text header body document declared mishkan, decode? manifest = some text ∧
    Frontmatter.split text = .ok (header, body) ∧ strip body ≠ [] ∧
    yaml.load header = some (.map document) ∧
    mappingOrNull document "metadata" = some declared ∧
    mappingOrNull declared "mishkan" = some mishkan ∧
    IsPlain document declared ∧ HasNoNull mishkan

theorem orEmpty_of_mappingOrNull {found : Yaml.Members}
    (h : mappingOrNull members key = some found) :
    (Yaml.get members key).orEmpty.asMap? = some found := by
  rw [mappingOrNull, Yaml.get] at h
  rw [Yaml.get]
  cases hvalue : Yaml.member? members key with
  | none => simpa [hvalue, Yaml.orEmpty, Yaml.truthy, Yaml.asMap?] using h
  | some value =>
    rw [hvalue, Option.getD_some] at h
    cases value with
    | null => simpa [Yaml.orEmpty, Yaml.truthy, Yaml.asMap?] using h
    | map found' =>
      obtain rfl : found' = found := by simpa [Yaml.asMap?] using h
      cases found' <;> simp [Yaml.orEmpty, Yaml.truthy, Yaml.asMap?]
    | _ => simp [Yaml.asMap?] at h

variable {value : Yaml}

/-- **A text that discovery strips is declared as discovered when it has no padding.** -/
theorem equals_iff_unpadded {text : String} (h : value = .str text) :
    value.equals (some (String.ofList (strip text.toList))) = true ↔ isUnpadded value = true := by
  subst h
  rw [equals_some, str.injEq, isUnpadded, decide_eq_true_eq, ← String.toList_inj,
    String.toList_ofList, eq_comm]

theorem optionalString_iff {found : Option String}
    (h : optionalString members key = .ok found) :
    (get members key).equals found = true ↔ isUnpadded (get members key) = true := by
  rw [optionalString] at h
  split at h
  · rename_i hvalue
    obtain rfl := Except.ok.inj h
    simp [hvalue, equals, isUnpadded]
  · simp only [bind_eq_ok, require_eq_ok, Option.filter_eq_some_iff, pure_eq_ok] at h
    obtain ⟨text, ⟨hvalue, -⟩, rfl⟩ := h
    refine equals_iff_unpadded ?_
    revert hvalue
    cases get members key <;> simp [asStr?]

/-- **A list that discovery reads is declared as discovered when it is not null.** -/
theorem stringTuple_iff {default found : List String}
    (h : stringTuple members key default = .ok found) :
    declaredStrings members key default = .ok found ↔
      ∀ value ∈ Yaml.member? members key, value.isNull = false := by
  rw [stringTuple, Yaml.get] at h
  rw [declaredStrings, require_eq_ok, Yaml.get]
  cases hvalue : Yaml.member? members key with
  | none =>
    rw [hvalue] at h
    obtain rfl := Except.ok.inj h
    simp
  | some value =>
    rw [hvalue, Option.getD_some] at h
    rw [Option.getD_some]
    cases value with
    | null => simp [Yaml.strings?, Yaml.isNull]
    | _ =>
      simp only [require_eq_ok, Option.filter_eq_some_iff] at h
      simp [h.1, Yaml.isNull]

theorem declaredStrings_of_stringTuple {default found declared : List String}
    (h : stringTuple members key default = .ok found)
    (hdeclared : declaredStrings members key default = .ok declared) : declared = found := by
  by_cases hnull : ∀ value ∈ Yaml.member? members key, value.isNull = false
  · exact Except.ok.inj (hdeclared.symm.trans ((stringTuple_iff h).mpr hnull))
  · push Not at hnull
    obtain ⟨value, hvalue, hnull⟩ := hnull
    rw [declaredStrings, require_eq_ok, Yaml.get, hvalue, Option.getD_some] at hdeclared
    cases value <;> simp_all [Yaml.isNull, Yaml.strings?]

/-- Alternatives that pass some test pass the one all texts pass. -/
theorem alternatives?_of {permitted : String → Bool} {fallbacks : Alternatives}
    (h : alternatives? permitted members = some fallbacks) :
    alternatives? (fun _ => true) members = some fallbacks := by
  induction members generalizing fallbacks with
  | nil => exact h
  | cons m members ih =>
    simp only [alternatives?, mapM_cons, Option.bind_eq_bind, Option.bind_eq_some_iff,
      Option.ite_none_right_eq_some] at h ih ⊢
    obtain ⟨_, ⟨key, hkey, values, hvalues, -, hpair⟩, rest, hrest, hall⟩ := h
    exact ⟨_, ⟨key, hkey, values, hvalues, by simp, hpair⟩, rest, ih hrest, hall⟩

/-- What a document says of the metadata discovery makes out of it. -/
structure Discovered (document declared mishkan : Yaml.Members) (metadata : SkillMetadata) :
    Prop where
  name : get document "name" = .str metadata.name
  description : ∃ text, get document "description" = .str text ∧
    metadata.description = String.ofList (strip text.toList)
  version : get declared "version" = .str metadata.version
  license : optionalString document "license" = .ok metadata.license
  compatibility : optionalString document "compatibility" = .ok metadata.compatibilitySummary
  allowedTools : optionalString document "allowed-tools" = .ok metadata.allowedToolsHint
  author : optionalString declared "author" = .ok metadata.authorClaim
  platforms : stringTuple mishkan "platforms" ["*"] = .ok metadata.platforms
  requiredTools : stringTuple mishkan "required_tools" [] = .ok metadata.requiredTools
  fallbackTools : fallbackMapping mishkan = .ok metadata.fallbackTools
  organizationVersions :
    stringTuple mishkan "organization_versions" ["*"] = .ok metadata.organizationVersions
  taskClasses : stringTuple mishkan "task_classes" [] = .ok metadata.taskClasses

theorem eq_str_of_asStr? {text : String} (h : value.asStr? = some text) :
    value = .str text := by
  cases value <;> simp_all [asStr?]

theorem eq_map_of_asMap? (h : value.asMap? = some members) :
    value = .map members := by
  cases value <;> simp_all [asMap?]

/-- **What discovery read when it succeeds.** -/
theorem metadataFromManifest_ok {bounds : SkillBounds} {source : SkillSourceDefinition}
    {package : SkillPackage} {manifest : List UInt8} {metadata : SkillMetadata}
    (h : metadataFromManifest yaml sha256 bounds source package manifest = .ok metadata) :
    ∃ bytes start header body document declared mishkan,
      readFrontmatter bounds package.manifest manifest = .ok bytes ∧ decode? bytes = some start ∧
      Frontmatter.split start = .ok (header, body) ∧ yaml.load header = some (.map document) ∧
      mappingOrNull document "metadata" = some declared ∧
      mappingOrNull declared "mishkan" = some mishkan ∧
      Discovered document declared mishkan metadata := by
  simp only [metadataFromManifest, parseFrontmatter, parseDocument, SkillMetadata.validate,
    bind_eq_ok, require_eq_ok, mapError_eq_ok, refuseIf_eq_ok, pure_eq_ok,
    Option.filter_eq_some_iff, Prod.exists, Prod.mk.injEq] at h
  obtain ⟨bytes, hbytes, _, ⟨start, hstart, _, _, ⟨header, body, hsplit, raw, hload, document,
    ⟨hraw, -⟩, rfl, rfl⟩, rfl⟩, name, ⟨hname, -⟩, -, -, description, ⟨hdescription, -⟩, -, -,
    declared, hdeclared, version, hversion, mishkan, hmishkan, -, -, -, license, hlicense,
    compatibility, hcompatibility, allowedTools, hallowedTools, author, hauthor, platforms,
    hplatforms, requiredTools, hrequiredTools, fallbackTools, hfallbackTools, organizationVersions,
    horganizationVersions, taskClasses, htaskClasses, -, -, rfl⟩ := h
  rw [eq_map_of_asMap? hraw] at hload
  exact ⟨bytes, start, header, body, document, declared, mishkan, hbytes, hstart, hsplit, hload,
    hdeclared, hmishkan, eq_str_of_asStr? hname, ⟨description, eq_str_of_asStr? hdescription, rfl⟩,
    eq_str_of_asStr? hversion, hlicense, hcompatibility, hallowedTools, hauthor, hplatforms,
    hrequiredTools, hfallbackTools, horganizationVersions, htaskClasses⟩

/-- **When a document declares what discovery made out of it.** -/
theorem Discovered.declares_iff {document declared mishkan : Yaml.Members}
    {metadata : SkillMetadata} (h : Discovered document declared mishkan metadata)
    (hdeclared : mappingOrNull document "metadata" = some declared)
    (hmishkan : mappingOrNull declared "mishkan" = some mishkan) :
    (∃ declaration, declarationOf (.map document) = .ok declaration ∧
      declaration.matches metadata = true) ↔ IsPlain document declared ∧ HasNoNull mishkan := by
  obtain ⟨fallbacks, hfallbacks, hpermitted⟩ :
      ∃ fallbacks, (get mishkan "fallback_tools" (.map [])).asMap? = some fallbacks ∧
        alternatives? (· ≠ "") fallbacks = some metadata.fallbackTools := by
    simpa only [fallbackMapping, bind_eq_ok, require_eq_ok] using h.fallbackTools
  have hall := alternatives?_of hpermitted
  obtain ⟨description, hdescription, hstripped⟩ := h.description
  have hlists : HasNoNull mishkan ↔
      declaredStrings mishkan "platforms" ["*"] = .ok metadata.platforms ∧
      declaredStrings mishkan "required_tools" [] = .ok metadata.requiredTools ∧
      declaredStrings mishkan "organization_versions" ["*"] = .ok metadata.organizationVersions ∧
      declaredStrings mishkan "task_classes" [] = .ok metadata.taskClasses := by
    rw [stringTuple_iff h.platforms, stringTuple_iff h.requiredTools,
      stringTuple_iff h.organizationVersions, stringTuple_iff h.taskClasses]
    simp [HasNoNull]
  have hplain : IsPlain document declared ↔
      ((get document "description").equals metadata.description = true ∧
      (get document "license").equals metadata.license = true ∧
      (get document "compatibility").equals metadata.compatibilitySummary = true ∧
      (get document "allowed-tools").equals metadata.allowedToolsHint = true) ∧
      (get declared "author").equals metadata.authorClaim = true := by
    rw [hstripped, equals_iff_unpadded hdescription, optionalString_iff h.license,
      optionalString_iff h.compatibility, optionalString_iff h.allowedTools,
      optionalString_iff h.author]
    simp [IsPlain]
  rw [hlists, hplain]
  simp only [declarationOf, bind_eq_ok, require_eq_ok, pure_eq_ok, asMap?_map,
    Option.some.injEq, exists_eq_left', orEmpty_of_mappingOrNull hdeclared,
    orEmpty_of_mappingOrNull hmishkan, hfallbacks, hall]
  constructor
  · rintro ⟨_, ⟨platforms, hplatforms, requiredTools, hrequiredTools, organizationVersions,
      horganizationVersions, taskClasses, htaskClasses, rfl⟩, hmatches⟩
    obtain rfl := declaredStrings_of_stringTuple h.platforms hplatforms
    obtain rfl := declaredStrings_of_stringTuple h.requiredTools hrequiredTools
    obtain rfl := declaredStrings_of_stringTuple h.organizationVersions horganizationVersions
    obtain rfl := declaredStrings_of_stringTuple h.taskClasses htaskClasses
    simp only [SkillDeclaration.matches, Bool.and_eq_true] at hmatches
    tauto
  · rintro ⟨⟨⟨hdescription, hlicense, hcompatibility, hallowed⟩, hauthor⟩, hplatforms,
      hrequiredTools, horganizationVersions, htaskClasses⟩
    refine ⟨_, ⟨_, hplatforms, _, hrequiredTools, _, horganizationVersions, _, htaskClasses, rfl⟩,
      ?_⟩
    have hname := equals_some.mpr h.name
    have hversion := equals_some.mpr h.version
    simp [SkillDeclaration.matches, hname, hversion, hdescription, hlicense, hcompatibility,
      hallowed, hauthor, Alternatives.same_self]

end Discovery

/-- **When what discovery read is accepted for the metadata it made.** -/
theorem validate_iff_registrable {yaml : Yaml.Codec} {sha256 : List UInt8 → List UInt8}
    {bounds : SkillBounds} {source : SkillSourceDefinition} {package : SkillPackage}
    {manifest : List UInt8} {metadata : SkillMetadata}
    (h : metadataFromManifest yaml sha256 bounds source package manifest = .ok metadata) :
    (∃ fingerprint, validateSkillMetadataDocument yaml sha256 metadata manifest =
      .ok fingerprint) ↔ Registrable yaml manifest := by
  obtain ⟨bytes, start, header, body, document, declared, mishkan, hbytes, hstart, hsplit, hload,
    hdeclared, hmishkan, hdiscovered⟩ := metadataFromManifest_ok h
  have hagree := hdiscovered.declares_iff hdeclared hmishkan
  rw [validate_iff]
  constructor
  · rintro ⟨text, header', body', htext, hsplit', ⟨document', hload', hdeclares⟩, hbody⟩
    obtain ⟨rest, hwhole⟩ := split_of_readFrontmatter hbytes htext hstart hsplit
    obtain ⟨rfl, rfl⟩ := Prod.mk.inj (Except.ok.inj (hwhole.symm.trans hsplit'))
    obtain rfl := Option.some.inj (hload.symm.trans hload')
    obtain ⟨hplain, hnull⟩ := hagree.mp hdeclares
    exact ⟨text, _, _, document, declared, mishkan, htext, hsplit', hbody, hload, hdeclared,
      hmishkan, hplain, hnull⟩
  · rintro ⟨text, header', body', document', declared', mishkan', htext, hsplit', hbody, hload',
      hdeclared', hmishkan', hplain, hnull⟩
    obtain ⟨rest, hwhole⟩ := split_of_readFrontmatter hbytes htext hstart hsplit
    obtain ⟨rfl, rfl⟩ := Prod.mk.inj (Except.ok.inj (hwhole.symm.trans hsplit'))
    obtain rfl := map.inj (Option.some.inj (hload.symm.trans hload'))
    obtain rfl := Option.some.inj (hdeclared.symm.trans hdeclared')
    obtain rfl := Option.some.inj (hmishkan.symm.trans hmishkan')
    exact ⟨text, _, _, htext, hwhole, ⟨_, hload, hagree.mpr ⟨hplain, hnull⟩⟩, hbody⟩

/-! ## Agreement -/

/-- **When the writer of skill documents and their readers agree.** -/
theorem skill_documents_agree_iff (yaml : Yaml.Codec) (sha256 : List UInt8 → List UInt8) :
    (∀ metadata draft,
      (WriterAgrees yaml sha256 metadata draft ↔ Writable yaml metadata draft) ∧
      (yaml.Inverts metadata.header → yaml.Trims metadata.header →
        (Rereads yaml metadata (metadata.frontmatter yaml) ↔ metadata.Unhinted))) ∧
    ∀ bounds source package manifest metadata,
      metadataFromManifest yaml sha256 bounds source package manifest = .ok metadata →
      ((∃ fingerprint, validateSkillMetadataDocument yaml sha256 metadata manifest =
        .ok fingerprint) ↔ Registrable yaml manifest) :=
  ⟨fun _ _ => ⟨writerAgrees_iff, declares_header⟩, fun _ _ _ _ _ => validate_iff_registrable⟩

/-! ## A description with a line of hyphens, and one with a space behind it -/

namespace Sample

/-- The metadata of a learned skill. -/
def metadata : SkillMetadata where
  name := "deploy"
  description := "Ship\n---\nit"
  version := "0.1.0"
  sourceId := "research-learning"
  sourceKind := .project
  sourceRevision := "learning:1"
  packageUri := "research-learning:deploy@1"
  packageFingerprint := "sha256:" ++ String.ofList (List.replicate 64 '0')
  trust := .untrusted
  activation := .candidate
  authorClaim := some "Research_Synthesizer"
  platforms := ["linux"]
  taskClasses := ["deploy"]

def draft : SkillPackageDraft where
  skillName := "deploy"
  description := "Ship\n---\nit"
  instructionsMarkdown := "Run it."
  requiredTools := []
  taskClasses := ["deploy"]
  retrievalReferences := []
  sourceFingerprints := ["sha256:1"]
  rationale := "It was asked for."

/-- A text of some lines, the last one open. -/
def lines (texts : List String) : Text := List.intercalate ['\n'] (texts.map String.toList)

/-- The header as it is written, less its last line feed: the line of hyphens of the description is
indented. -/
def written : Text := lines
  ["name: deploy", "description: 'Ship", "", "  ---", "", "  it'", "metadata:",
    "  version: 0.1.0", "  author: Research_Synthesizer", "  mishkan:", "    platforms:",
    "    - linux", "    required_tools: []", "    fallback_tools: \x7b\x7d",
    "    organization_versions:", "    - '*'", "    task_classes:", "    - deploy"]

/-- The header of a local package: the description ends in a space. -/
def localHeader : Text :=
  lines ["name: ship", "description: 'Ship it '", "metadata:", "  version: 1.0.0", ""]

def localDocument : Yaml.Members :=
  [(.str "name", .str "ship"), (.str "description", .str "Ship it "),
    (.str "metadata", .map [(.str "version", .str "1.0.0")])]

/-- Writes and reads the two headers. -/
def yaml : Yaml.Codec where
  dump _ := written ++ ['\n']
  load text := if text = written ++ ['\n'] then some metadata.header
    else if text = localHeader then some (.map localDocument) else none

/-- A digest of 32 bytes. -/
def sha256 (_ : List UInt8) : List UInt8 := List.replicate 32 0

def bounds : SkillBounds := ⟨4096, 65536, 16, 4, false⟩

def source : SkillSourceDefinition :=
  { sourceId := "local", kind := .project, revision := "1", trust := .trusted,
    defaultActivation := .active }

def localText : Text := Frontmatter.fenced localHeader "\nRun it.\n".toList

def package : SkillPackage :=
  ⟨"/skills/ship", "ship", [{ relative := "SKILL.md", content := encode localText }]⟩

/-- What discovery makes out of the local package. -/
def discovered : SkillMetadata where
  name := "ship"
  description := "Ship it"
  version := "1.0.0"
  sourceId := "local"
  sourceKind := .project
  sourceRevision := "1"
  packageUri := "local:ship@1"
  packageFingerprint := filesFingerprint sha256 [("SKILL.md", encode localText)]
  trust := .trusted
  activation := .active

theorem inverts : yaml.Inverts metadata.header := by
  simp [Yaml.Codec.Inverts, yaml]

theorem dumps (value : Yaml) : yaml.dump value = written ++ ['\n'] := by
  simp only [yaml]

theorem trims : yaml.Trims metadata.header :=
  Yaml.Codec.trims_of_line (dumps _) (by decide +kernel) (by decide +kernel)

/-- The line of hyphens reads as a marker. -/
theorem not_writable : ¬ Writable yaml metadata draft := fun h =>
  absurd h.unmarked (by decide +kernel)

theorem loads : yaml.load localHeader = some (.map localDocument) := by
  have hne : localHeader ≠ written ++ ['\n'] := by decide +kernel
  simp [yaml, hne]

theorem splits (body : Text) :
    Frontmatter.split (Frontmatter.fenced localHeader body) = .ok (localHeader, body) :=
  Frontmatter.split_fenced rfl (by decide) body

theorem parses (path : String) : parseFrontmatter yaml
    (encode (Frontmatter.fenced localHeader [])) path = .ok localDocument := by
  simp only [parseFrontmatter, parseDocument, decode?_encode, require, ok_bind, splits,
    Except.mapError, loads]
  rfl

theorem fingerprints : packageFingerprint sha256 bounds package =
    .ok (discovered.packageFingerprint, []) := rfl

theorem reads : readFrontmatter bounds package.manifest (encode localText) =
    .ok (encode (Frontmatter.fenced localHeader [])) := rfl

theorem discovers :
    metadataFromManifest yaml sha256 bounds source package (encode localText) = .ok discovered := by
  have hextra : ¬ ((localDocument.any fun m => m.1.asStr?.any (· ∉ frontmatterKeys)) = true ∧
      ¬ bounds.allowFrontmatterExtensions = true) := by decide
  simp only [metadataFromManifest, SkillMetadata.validate, bind_eq_ok, require_eq_ok,
    refuseIf_eq_ok, pure_eq_ok, Option.filter_eq_some_iff, Prod.exists]
  exact ⟨_, reads, _, parses _, "ship", ⟨rfl, by decide⟩, ⟨⟩, not_not.mpr rfl, "Ship it ",
    ⟨rfl, by decide⟩, ⟨⟩, hextra, _, rfl, _, rfl, _, rfl, _, _, fingerprints, _, rfl, _, rfl, _,
    rfl, _, rfl, _, rfl, _, rfl, _, rfl, _, rfl, _, rfl, ⟨⟩, by decide, by rfl⟩

/-- The space behind the description is not declared as discovered. -/
theorem not_registrable : ¬ Registrable yaml (encode localText) := by
  rintro ⟨text, header, body, document, declared, mishkan, htext, hsplit, -, hload, -, -, hplain, -⟩
  rw [decode?_encode, Option.some.injEq] at htext
  subst htext
  rw [localText, splits] at hsplit
  obtain ⟨rfl, rfl⟩ := Prod.mk.inj (Except.ok.inj hsplit)
  rw [loads] at hload
  obtain rfl := map.inj (Option.some.inj hload)
  have hspace : isUnpadded (get localDocument "description") = false := by decide
  simpa [hspace] using hplain.1 "description" (by simp)

end Sample

/-- A description with a line of hyphens is written into a document that is refused, and a local
package whose description ends in a space is discovered and cannot be registered. -/
theorem skill_documents_disagree :
    ¬ ((∀ yaml sha256 metadata draft, metadata.accepted = true → draft.accepted = true →
      yaml.Inverts metadata.header → WriterAgrees yaml sha256 metadata draft) ∨
    ∀ yaml sha256 bounds source package manifest metadata,
      metadataFromManifest yaml sha256 bounds source package manifest = .ok metadata →
      ∃ fingerprint, validateSkillMetadataDocument yaml sha256 metadata manifest =
        .ok fingerprint) := by
  rintro (h | h)
  · have hagrees := h Sample.yaml Sample.sha256 Sample.metadata Sample.draft (by decide) (by decide)
      Sample.inverts
    exact Sample.not_writable (writerAgrees_iff.mp hagrees)
  · exact Sample.not_registrable
      ((validate_iff_registrable Sample.discovers).mp (h _ _ _ _ _ _ _ Sample.discovers))

theorem skill_documents_agree_sample :
    (Rereads Sample.yaml Sample.metadata (Sample.metadata.frontmatter Sample.yaml) ↔
      Sample.metadata.Unhinted) ∧
    ((∃ fingerprint, validateSkillMetadataDocument Sample.yaml Sample.sha256 Sample.discovered
      (encode Sample.localText) = .ok fingerprint) ↔
      Registrable Sample.yaml (encode Sample.localText)) :=
  have h := skill_documents_agree_iff Sample.yaml Sample.sha256
  ⟨(h.1 Sample.metadata Sample.draft).2 Sample.inverts Sample.trims,
    h.2 _ _ _ _ _ Sample.discovers⟩

end Mishkan
