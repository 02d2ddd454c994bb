import Mishkan.Context.Materializer

/-!
# Context/Fidelity — what is materialized of a pack, and what verification finds

A materialization that does not halt leaves exactly the verified entries and the manifest file
(`materialize_done`); verification finds these files, through links on the way (`verify_iff`).  A
pack is faithful along exactly what `Sound` wants of the file system and of the paths
(`faithful_iff`).
-/

namespace Mishkan.ContextPack

open Refusal Disk List
open Artifacts (Bytes ArtifactManifest)

/-! ## What is projected -/

section Projection

variable (library : ContextLibrary) (artifacts : ContextArtifactReader)
  (manifest : ContextPackManifest)

/-- The entries whose sources are verified, with their contents. -/
def verifiedEntries (entries : List ContextPackEntry) : List (ContextPackEntry × Bytes) :=
  entries.filterMap fun entry =>
    (readVerified artifacts entry).toOption.map fun content => (entry, content)

/-- The paths of the entries whose sources are not. -/
def omittedPaths (entries : List ContextPackEntry) : List String :=
  (entries.filter fun entry => (readVerified artifacts entry).toOption.isNone).map
    (·.logicalPath)

/-- The record of a pack whose sources are as they are. -/
def projection : ContextPackMaterialization :=
  materializationOf manifest
    ((verifiedEntries artifacts manifest.entries).map fun verified =>
      verified.1.materialized verified.2)
    (omittedPaths artifacts manifest.entries)

/-- The files of entries. -/
def entryFiles (entries : List ContextPackEntry) : List (List String × Bytes) :=
  (verifiedEntries artifacts entries).map fun verified => (verified.1.parts, verified.2)

/-- The verified entries, and the manifest file. -/
def packFiles : List (List String × Bytes) :=
  entryFiles artifacts manifest.entries ++
    [(manifestPath, library.metadataBytes manifest (projection artifacts manifest))]

end Projection

/-- The source of an entry, or its file, stops a materialization. -/
def Stuck (artifacts : ContextArtifactReader) (io : Io) (entry : ContextPackEntry) : Prop :=
  match readVerified artifacts entry with
  | .error (.mishkan _) => entry.required = true
  | .error _ => True
  | .ok _ => io (.write entry.logicalPath) = true

section Stage

variable {library : ContextLibrary} {artifacts : ContextArtifactReader} {io : Io}
  {manifest : ContextPackManifest} {destination : Destination} {entry : ContextPackEntry}
  {entries : List ContextPackEntry} {s s' : Staging} {written : List (List String × Bytes)}

theorem verified_of_readVerified {content : Bytes}
    (h : readVerified artifacts entry = .ok content) :
    (⟨content⟩ : Digest Bytes) = entry.digest ∧ content.length = entry.sizeBytes := by
  simp only [readVerified, bind_eq_ok, refuseIf_eq_ok, pure_eq_ok] at h
  obtain ⟨⟨artifact, found⟩, -, _, hmatch, rfl⟩ := h
  simp only [not_or, not_not] at hmatch
  exact ⟨hmatch.2.2.1, hmatch.2.2.2.1⟩

/-- What an entry that does not stop adds to what is staged. -/
structure Stages (artifacts : ContextArtifactReader) (entries : List ContextPackEntry)
    (written : List (List String × Bytes)) (s s' : Staging) : Prop where
  materialized : s'.materialized = s.materialized ++
    (verifiedEntries artifacts entries).map fun verified => verified.1.materialized verified.2
  omitted : s'.omitted = s.omitted ++ omittedPaths artifacts entries
  laid : Laid (written ++ entryFiles artifacts entries) s'.tree

theorem stageEntry_stages (hlaid : Laid written s.tree) (hne : entry.parts ≠ [])
    (hbeside : ∀ f ∈ written, ¬ entry.parts <+: f.1 ∧ ¬ f.1 <+: entry.parts)
    (hgo : ¬ Stuck artifacts io entry) :
    ∃ s', stageEntry artifacts io s entry = .ok s' ∧ Stages artifacts [entry] written s s' := by
  rw [Stuck] at hgo
  rw [stageEntry]
  cases hread : readVerified artifacts entry with
  | error raised =>
    rw [hread] at hgo
    cases raised with
    | mishkan error =>
      have hoptional : entry.required = false := Bool.not_eq_true _ |>.mp hgo
      simp only [hoptional, Bool.false_eq_true, if_false]
      refine ⟨_, rfl, ?_, ?_, ?_⟩
      · simp [verifiedEntries, hread, Except.toOption]
      · simp [omittedPaths, hread, Except.toOption]
      · simpa [entryFiles, verifiedEntries, hread, Except.toOption] using hlaid
    | _ => exact absurd trivial hgo
  | ok content =>
    rw [hread] at hgo
    obtain ⟨tree, htree, hwritten⟩ : ∃ tree, write entry.parts content (some s.tree) = some tree ∧
        Laid (written ++ [(entry.parts, content)]) tree := hlaid.write hne hbeside
    have hwrite : writeNewFile (io (.write entry.logicalPath)) entry.parts content s.tree =
        .ok tree := by
      rw [writeNewFile, refuseIf_of_not hgo, ok_bind, htree]
      rfl
    simp only [hwrite, ok_bind]
    refine ⟨_, rfl, ?_, ?_, ?_⟩
    · simp [verifiedEntries, hread, Except.toOption]
    · simp [omittedPaths, hread, Except.toOption]
    · simpa [entryFiles, verifiedEntries, hread, Except.toOption] using hwritten

theorem not_stuck_of_stageEntry (h : stageEntry artifacts io s entry = .ok s') :
    ¬ Stuck artifacts io entry := by
  rw [stageEntry] at h
  rw [Stuck]
  cases hread : readVerified artifacts entry with
  | error raised =>
    rw [hread] at h
    cases raised with
    | mishkan error =>
      intro hrequired
      simp only [hrequired, if_true] at h
      cases h
    | _ => cases h
  | ok content =>
    rw [hread] at h
    simp only [writeNewFile, bind_eq_ok, refuseIf_eq_ok] at h
    obtain ⟨tree, ⟨_, hwrite, -⟩, -⟩ := h
    exact hwrite

theorem verifiedEntries_cons : verifiedEntries artifacts (entry :: entries) =
    verifiedEntries artifacts [entry] ++ verifiedEntries artifacts entries := by
  rw [verifiedEntries, ← singleton_append, filterMap_append]
  rfl

theorem omittedPaths_cons : omittedPaths artifacts (entry :: entries) =
    omittedPaths artifacts [entry] ++ omittedPaths artifacts entries := by
  rw [omittedPaths, ← singleton_append, filter_append, map_append]
  rfl

theorem mem_verifiedEntries {verified : ContextPackEntry × Bytes} :
    verified ∈ verifiedEntries artifacts entries ↔
      verified.1 ∈ entries ∧ readVerified artifacts verified.1 = .ok verified.2 := by
  obtain ⟨found, content⟩ := verified
  simp only [verifiedEntries, mem_filterMap, Option.map_eq_some_iff, toOption_eq_some,
    Prod.mk.injEq]
  constructor
  · rintro ⟨e, he, c, hc, rfl, rfl⟩
    exact ⟨he, hc⟩
  · rintro ⟨hmem, hread⟩
    exact ⟨found, hmem, content, hread, rfl, rfl⟩

theorem path_of_mem_entryFiles_singleton {f : List String × Bytes}
    (h : f ∈ entryFiles artifacts [entry]) : f.1 = entry.parts := by
  obtain ⟨verified, hverified, rfl⟩ := mem_map.mp h
  rw [mem_singleton.mp (mem_verifiedEntries.mp hverified).1]

/-- **The loop over the entries** writes what is verified. -/
theorem foldlM_stages (hpairs : entries.Pairwise fun a b => ¬ a.parts <+: b.parts ∧
      ¬ b.parts <+: a.parts) (hlaid : Laid written s.tree)
    (hbeside : ∀ entry ∈ entries, entry.parts ≠ [] ∧
      ∀ f ∈ written, ¬ entry.parts <+: f.1 ∧ ¬ f.1 <+: entry.parts)
    (hgo : ∀ entry ∈ entries, ¬ Stuck artifacts io entry) :
    ∃ s', entries.foldlM (stageEntry artifacts io) s = .ok s' ∧
      Stages artifacts entries written s s' := by
  induction entries generalizing s written with
  | nil =>
    refine ⟨s, rfl, ?_, ?_, ?_⟩
    · simp [verifiedEntries]
    · simp [omittedPaths]
    · simpa [entryFiles, verifiedEntries] using hlaid
  | cons entry entries ih =>
    obtain ⟨hentry, hpairs⟩ := pairwise_cons.mp hpairs
    obtain ⟨hne, hapart⟩ := hbeside entry mem_cons_self
    obtain ⟨between, hbetween, hstep⟩ := stageEntry_stages hlaid hne hapart
      (hgo entry mem_cons_self)
    have hrestBeside : ∀ other ∈ entries, other.parts ≠ [] ∧
        ∀ f ∈ written ++ entryFiles artifacts [entry],
          ¬ other.parts <+: f.1 ∧ ¬ f.1 <+: other.parts := by
      intro other hother
      obtain ⟨hne', hapart'⟩ := hbeside other (mem_cons_of_mem _ hother)
      refine ⟨hne', fun f hf => ?_⟩
      rcases mem_append.mp hf with hf | hf
      · exact hapart' f hf
      · rw [path_of_mem_entryFiles_singleton hf]
        exact (hentry other hother).symm
    obtain ⟨s', hs', hrest⟩ := ih hpairs hstep.laid hrestBeside fun other hother =>
      hgo other (mem_cons_of_mem _ hother)
    refine ⟨s', ?_, ?_, ?_, ?_⟩
    · rw [foldlM_cons, hbetween]
      exact hs'
    · rw [hrest.materialized, hstep.materialized, append_assoc, ← map_append,
        ← verifiedEntries_cons]
    · rw [hrest.omitted, hstep.omitted, append_assoc, ← omittedPaths_cons]
    · have hfiles : entryFiles artifacts (entry :: entries) =
          entryFiles artifacts [entry] ++ entryFiles artifacts entries := by
        rw [entryFiles, verifiedEntries_cons, map_append]
        rfl
      rw [hfiles, ← append_assoc]
      exact hrest.laid

theorem not_stuck_of_foldlM (h : entries.foldlM (stageEntry artifacts io) s = .ok s') :
    ∀ entry ∈ entries, ¬ Stuck artifacts io entry := by
  induction entries generalizing s with
  | nil => exact forall_mem_nil _
  | cons entry entries ih =>
    rw [foldlM_cons] at h
    obtain ⟨between, hbetween, hrest⟩ := bind_eq_ok.mp h
    exact forall_mem_cons.mpr ⟨not_stuck_of_stageEntry hbetween, ih hrest⟩

end Stage

/-! ## Materializing -/

/-- A materialization stops before the destination is there. -/
def Halts (artifacts : ContextArtifactReader) (io : Io) (destination : Destination)
    (manifest : ContextPackManifest) : Prop :=
  (∃ raised, destination.newTarget = .error raised) ∨ io .mkdtemp = true ∨
    (∃ entry ∈ manifest.entries, Stuck artifacts io entry) ∨ io .metadata = true ∨
    io .replace = true

section Materialize

variable {library : ContextLibrary} {artifacts : ContextArtifactReader} {io : Io}
  {manifest : ContextPackManifest} {destination : Destination}

/-- **A materialization that does not halt** leaves the verified entries and the manifest file. -/
theorem materialize_done (haccepted : manifest.Accepted library)
    (h : ¬ Halts artifacts io destination manifest) :
    ∃ tree, Laid (packFiles library artifacts manifest) tree ∧
      materialize library artifacts io destination manifest =
        ⟨if io .fsync then .error .osError else .ok (projection artifacts manifest),
          some tree⟩ := by
  simp only [Halts, not_or, not_exists, not_and] at h
  obtain ⟨htarget, hmkdtemp, hentries, hmetadata, hreplace⟩ := h
  have hpaths := pathsAccepted haccepted
  obtain ⟨s, hs, hstages⟩ : ∃ s, manifest.entries.foldlM (stageEntry artifacts io) {} = .ok s ∧
      Stages artifacts manifest.entries [] {} s := foldlM_stages hpaths.beside laid_nil
    (fun entry hentry => ⟨(hpaths.entries entry hentry).1, forall_mem_nil _⟩) hentries
  have hbeside : ∀ f ∈ [] ++ entryFiles artifacts manifest.entries,
      ¬ manifestPath <+: f.1 ∧ ¬ f.1 <+: manifestPath := by
    intro f hf
    obtain ⟨verified, hverified, rfl⟩ := mem_map.mp hf
    obtain ⟨hne, hreserved, -⟩ := hpaths.entries _ (mem_verifiedEntries.mp hverified).1
    obtain ⟨first, rest, hparts⟩ := exists_cons_of_ne_nil hne
    rw [hparts] at hreserved ⊢
    exact ⟨fun hle => hreserved (congrArg some (cons_prefix_cons.mp hle).1.symm),
      fun hle => hreserved (congrArg some (cons_prefix_cons.mp hle).1)⟩
  obtain ⟨tree, htree, hlaid⟩ : ∃ tree, write manifestPath
      (library.metadataBytes manifest (projection artifacts manifest)) (some s.tree) = some tree ∧
        Laid (packFiles library artifacts manifest) tree :=
    hstages.laid.write (cons_ne_nil _ _) hbeside
  refine ⟨tree, hlaid, ?_⟩
  have hresult : materializationOf manifest s.materialized s.omitted =
      projection artifacts manifest := by
    rw [hstages.materialized, hstages.omitted]
    rfl
  have hstage : stage library artifacts io manifest =
      .ok (projection artifacts manifest, tree) := by
    rw [stage, hs, ok_bind]
    dsimp only
    rw [hresult, writeNewFile, refuseIf_of_not hmetadata, ok_bind, htree]
    rfl
  obtain ⟨target, htarget⟩ : ∃ target, destination.newTarget = .ok target := by
    cases hnew : destination.newTarget with
    | error raised => exact absurd hnew (htarget raised)
    | ok target => exact ⟨target, rfl⟩
  rw [materialize, htarget, ok_bind, refuseIf_of_not hmkdtemp, ok_bind, hstage, ok_bind,
    refuseIf_of_not hreplace]
  cases io .fsync <;> rfl

theorem materialize_halts (h : Halts artifacts io destination manifest) :
    ∃ raised, materialize library artifacts io destination manifest = ⟨.error raised, none⟩ := by
  rw [materialize]
  split
  · exact ⟨_, rfl⟩
  · rename_i result tree heq
    simp only [bind_eq_ok, refuseIf_eq_ok, pure_eq_ok, stage, writeNewFile] at heq
    obtain ⟨target, htarget, _, hmkdtemp, staged, ⟨s, hs, written, ⟨_, hmetadata, -⟩, -⟩, _,
      hreplace, -⟩ := heq
    rcases h with ⟨raised, hraised⟩ | h | ⟨entry, hentry, hstuck⟩ | h | h
    · rw [htarget] at hraised
      cases hraised
    · exact absurd h hmkdtemp
    · exact absurd hstuck (not_stuck_of_foldlM hs entry hentry)
    · exact absurd h hmetadata
    · exact absurd h hreplace

end Materialize

/-! ## Verifying -/

section Verify

variable {ο : Type} {library : ContextLibrary} {artifacts : ContextArtifactReader}
  {manifest : ContextPackManifest} {destination : Destination}
  {object : ο → Object String Bytes ο} {root : ο} {path : List String} {content : Bytes}

theorem readFile_eq_some : readFile object root path = some content ↔
    ∃ o, leads object root path = some o ∧ object o = .file (some content) := by
  rw [readFile]
  cases hleads : leads object root path with
  | none => simp
  | some o =>
    rw [Option.map_some]
    cases hobject : object o with
    | file found => simp [hobject]
    | _ => simp [hobject]

/-- **Verification finds the files of a pack**, through links on the way, and nothing else is
asked. -/
theorem verify_iff {target : List String} (htarget : destination.target = .ok target) :
    verify library manifest (projection artifacts manifest) destination object (some root) = true ↔
      Matches object root (packFiles library artifacts manifest) := by
  have hentries : (projection artifacts manifest).entries.all (fun entry =>
      (readFile object root (posixParts entry.logicalPath)).any fun content =>
        (⟨content⟩ : Digest Bytes) = entry.digest && content.length = entry.sizeBytes) = true ↔
      ∀ f ∈ entryFiles artifacts manifest.entries, readFile object root f.1 = some f.2 := by
    rw [projection, materializationOf, all_map, all_eq_true, entryFiles,
      forall_mem_map]
    refine forall₂_congr fun verified hverified => ?_
    obtain ⟨hdigest, -⟩ := verified_of_readVerified (mem_verifiedEntries.mp hverified).2
    rw [Function.comp_apply, Option.any_eq_true]
    constructor
    · rintro ⟨content, hread, hboth⟩
      have hcontent := of_decide_eq_true (Bool.and_eq_true_iff.mp hboth).1
      obtain rfl : content = verified.2 := congrArg Digest.of (hcontent.trans hdigest.symm)
      exact hread
    · intro hread
      exact ⟨verified.2, hread,
        Bool.and_eq_true_iff.mpr ⟨decide_eq_true hdigest, decide_eq_true rfl⟩⟩
  have hmetadata : ((readFile object root manifestPath).any fun content =>
      content = library.metadataBytes manifest (projection artifacts manifest)) = true ↔
      readFile object root manifestPath =
        some (library.metadataBytes manifest (projection artifacts manifest)) := by
    rw [Option.any_eq_true]
    simp only [decide_eq_true_eq]
    exact ⟨fun ⟨content, hread, heq⟩ => heq ▸ hread, fun hread => ⟨_, hread, rfl⟩⟩
  have hmatches : Matches object root (packFiles library artifacts manifest) ↔
      (∀ f ∈ entryFiles artifacts manifest.entries, readFile object root f.1 = some f.2) ∧
        readFile object root manifestPath =
          some (library.metadataBytes manifest (projection artifacts manifest)) := by
    simp only [Matches, packFiles, forall_mem_append, forall_mem_singleton,
      readFile_eq_some]
  simp only [verify, htarget, hmatches, Bool.and_eq_true, hentries, hmetadata]
  constructor
  · rintro ⟨⟨⟨-, hfiles⟩, hmeta⟩, -⟩
    exact ⟨hfiles, hmeta⟩
  · rintro ⟨hfiles, hmeta⟩
    refine ⟨⟨⟨⟨?_, decide_eq_true rfl⟩, hfiles⟩, hmeta⟩, decide_eq_true rfl⟩
    obtain ⟨o, ho, -⟩ := readFile_eq_some.mp hmeta
    obtain ⟨start, entries, hstart, hdirectory⟩ := directory_of_leads ho
    rw [Option.any_eq_true]
    exact ⟨start, hstart, by rw [hdirectory]⟩

end Verify

/-! ## When a pack is faithful -/

section Faithful

variable {ο : Type}

/-- **The specification** of the materialization of a manifest, and of its verification with what
stands at the destination later. -/
structure Faithful (library : ContextLibrary) (artifacts : ContextArtifactReader) (io : Io)
    (destination later : Destination) (manifest : ContextPackManifest)
    (object : ο → Object String Bytes ο) (root : Option ο) : Prop where
  leavesNothing : ∀ raised,
    (materialize library artifacts io destination manifest).result = .error raised →
      (materialize library artifacts io destination manifest).destination = none
  projects : ∀ result,
    (materialize library artifacts io destination manifest).result = .ok result →
      ∃ tree, (materialize library artifacts io destination manifest).destination = some tree ∧
        Exact Tree.object tree (entryFiles artifacts manifest.entries ++
          [(manifestPath, library.metadataBytes manifest result)]) ∧
        ∀ entry ∈ manifest.entries, (∃ content, readVerified artifacts entry = .ok content) ∨
          entry.required = false ∧ entry.logicalPath ∈ result.omittedOptionalPaths
  verifies : ∀ result tree,
    materialize library artifacts io destination manifest = ⟨.ok result, some tree⟩ →
      verify library manifest result destination Tree.object (some tree) = true
  sound : ∀ result,
    (materialize library artifacts io destination manifest).result = .ok result →
      verify library manifest result later object root = true →
        ∃ o, root = some o ∧ Exact object o (entryFiles artifacts manifest.entries ++
          [(manifestPath, library.metadataBytes manifest result)])
  portable : manifest.entries.Pairwise fun a b => ¬ Collides library a b

/-- Without cases, one entry stands on the way to another. -/
def Shadows (library : ContextLibrary) (a b : ContextPackEntry) : Prop :=
  a.parts.map library.casefold <+: b.parts.map library.casefold ∧
    a.parts.map library.casefold ≠ b.parts.map library.casefold

/-- What a pack needs. -/
structure Sound (library : ContextLibrary) (artifacts : ContextArtifactReader) (io : Io)
    (destination later : Destination) (manifest : ContextPackManifest)
    (object : ο → Object String Bytes ο) (root : Option ο) : Prop where
  durable : Halts artifacts io destination manifest ∨ io .fsync = false
  untampered : Halts artifacts io destination manifest ∨
    (∃ raised, later.target = .error raised) ∨ ∀ o, root = some o →
      Matches object o (packFiles library artifacts manifest) →
        Clean object o ((packFiles library artifacts manifest).map Prod.fst)
  portable : manifest.entries.Pairwise fun a b => ¬ Shadows library a b ∧ ¬ Shadows library b a

variable {library : ContextLibrary} {artifacts : ContextArtifactReader} {io : Io}
  {destination later : Destination} {manifest : ContextPackManifest}
  {object : ο → Object String Bytes ο} {root : Option ο}

/-- **Accepted entries collide** where one stands on the way to another without cases. -/
theorem portable_iff (haccepted : manifest.Accepted library) :
    (manifest.entries.Pairwise fun a b => ¬ Collides library a b) ↔
      manifest.entries.Pairwise fun a b => ¬ Shadows library a b ∧ ¬ Shadows library b a := by
  have hfolded := (pathsAccepted haccepted).folded_parts
  constructor
  · refine fun h => h.imp fun {a b} hcollides => ?_
    exact ⟨fun hshadows => hcollides (.inl hshadows.1), fun hshadows => hcollides (.inr hshadows.1)⟩
  · refine fun h => (h.and hfolded).imp fun {a b} hboth hcollides => ?_
    obtain ⟨⟨hab, hba⟩, hne⟩ := hboth
    exact hcollides.elim (fun hle => hab ⟨hle, hne⟩) fun hle => hba ⟨hle, hne.symm⟩

/-- A materialization that halts leaves nothing, and there is nothing to verify. -/
theorem faithful_of_halts (h : Halts artifacts io destination manifest)
    (hportable : manifest.entries.Pairwise fun a b => ¬ Collides library a b) :
    Faithful library artifacts io destination later manifest object root := by
  obtain ⟨raised, hmaterialize⟩ : ∃ raised,
      materialize library artifacts io destination manifest = ⟨.error raised, none⟩ :=
    materialize_halts h
  refine ⟨fun _ _ => by rw [hmaterialize], fun result hresult => ?_, fun result tree hresult => ?_,
    fun result hresult => ?_, hportable⟩
  · rw [hmaterialize] at hresult
    cases hresult
  · rw [hmaterialize] at hresult
    cases hresult
  · rw [hmaterialize] at hresult
    cases hresult

/-- Every entry is verified, or an optional one that is omitted. -/
theorem verified_or_omitted (h : ¬ Halts artifacts io destination manifest) :
    ∀ entry ∈ manifest.entries, (∃ content, readVerified artifacts entry = .ok content) ∨
      entry.required = false ∧
        entry.logicalPath ∈ (projection artifacts manifest).omittedOptionalPaths := by
  intro entry hentry
  have hstuck : ¬ Stuck artifacts io entry := fun hstuck =>
    h (.inr (.inr (.inl ⟨entry, hentry, hstuck⟩)))
  rw [Stuck] at hstuck
  cases hread : readVerified artifacts entry with
  | ok content => exact .inl ⟨content, rfl⟩
  | error raised =>
    rw [hread] at hstuck
    refine .inr ⟨?_, mem_map.mpr ⟨entry, mem_filter.mpr ⟨hentry, ?_⟩, rfl⟩⟩
    · cases raised with
      | mishkan error => exact Bool.not_eq_true _ |>.mp hstuck
      | _ => exact absurd trivial hstuck
    · rw [hread]
      rfl

/-- **A pack is faithful along exactly what it needs** of the file system and of its paths. -/
theorem faithful_iff (haccepted : manifest.Accepted library) :
    Faithful library artifacts io destination later manifest object root ↔
      Sound library artifacts io destination later manifest object root := by
  have hportable := portable_iff haccepted
  by_cases hhalts : Halts artifacts io destination manifest
  · exact ⟨fun h => ⟨.inl hhalts, .inl hhalts, hportable.mp h.portable⟩,
      fun h => faithful_of_halts hhalts (hportable.mpr h.portable)⟩
  obtain ⟨tree, hlaid, hmaterialize⟩ := materialize_done haccepted hhalts
  obtain ⟨target, htarget⟩ : ∃ target, destination.target = .ok target := by
    cases htarget : destination.target with
    | error raised =>
      refine absurd (.inl ⟨raised, ?_⟩) hhalts
      rw [Destination.newTarget, htarget]
      rfl
    | ok target => exact ⟨target, rfl⟩
  constructor
  · intro h
    have hdurable : io .fsync = false := by
      by_contra hfsync
      rw [Bool.not_eq_false] at hfsync
      rw [hfsync] at hmaterialize
      have hnone := h.leavesNothing .osError (by rw [hmaterialize]; rfl)
      rw [hmaterialize] at hnone
      cases hnone
    rw [hdurable] at hmaterialize
    refine ⟨.inr hdurable, .inr ?_, hportable.mp h.portable⟩
    cases hlater : later.target with
    | error raised => exact .inl ⟨raised, rfl⟩
    | ok target' =>
      refine .inr fun o ho hmatches => ?_
      obtain ⟨o', ho', hexact⟩ := h.sound (projection artifacts manifest)
        (by rw [hmaterialize]; rfl) (by rw [ho]; exact (verify_iff hlater).mpr hmatches)
      obtain rfl : o = o' := Option.some.inj (ho.symm.trans ho')
      exact hexact.clean
  · intro h
    have hdurable : io .fsync = false := h.durable.resolve_left hhalts
    rw [hdurable] at hmaterialize
    have hresult : ∀ result,
        (materialize library artifacts io destination manifest).result = .ok result →
          result = projection artifacts manifest := by
      intro result hresult
      rw [hmaterialize] at hresult
      exact (Except.ok.inj hresult).symm
    refine ⟨fun raised hraised => ?_, fun result hok => ?_, fun result found hfound => ?_,
      fun result hok hverify => ?_, hportable.mpr h.portable⟩
    · rw [hmaterialize] at hraised
      cases hraised
    · obtain rfl := hresult result hok
      exact ⟨tree, by rw [hmaterialize], hlaid.exact, verified_or_omitted hhalts⟩
    · rw [hmaterialize] at hfound
      obtain ⟨hok, htree⟩ := Outcome.mk.inj hfound
      obtain rfl : projection artifacts manifest = result := Except.ok.inj hok
      obtain rfl : tree = found := Option.some.inj htree
      exact (verify_iff htarget).mpr hlaid.matches
    · obtain rfl := hresult result hok
      cases hlater : later.target with
      | error raised =>
        simp only [verify, hlater] at hverify
        cases hverify
      | ok target' =>
        cases root with
        | none =>
          simp only [verify, hlater] at hverify
          cases hverify
        | some o =>
          have hmatches := (verify_iff hlater).mp hverify
          have hlaterTarget : ¬ ∃ raised, later.target = .error raised := by
            rintro ⟨raised, hraised⟩
            rw [hlater] at hraised
            cases hraised
          have hclean := (h.untampered.resolve_left hhalts).resolve_left hlaterTarget o rfl hmatches
          exact ⟨o, rfl, hclean.exact hmatches⟩

end Faithful

/-! ## A pack with a brief -/

section Brief

/-- Normalization and case folding of ASCII. -/
def asciiLibrary (digestText : Digest Bytes → String)
    (metadataBytes : ContextPackManifest → ContextPackMaterialization → Bytes) :
    ContextLibrary where
  nfc := id
  fold c := [c.toLower]
  digestText := digestText
  metadataBytes := metadataBytes

def briefReference : String := "artifact:00000000-0000-0000-0000-000000000001"

/-- A brief, which is the contracts as well. -/
def briefManifest : ContextPackManifest where
  contextPackId := 2
  agentIdentity := "architect"
  taskId := "plan"
  outputContractReference := briefReference
  outputContractDigest := ⟨[0x68, 0x69]⟩
  verificationContractReference := briefReference
  verificationContractDigest := ⟨[0x68, 0x69]⟩
  maxEntries := 10
  maxEntryBytes := 1000
  maxTotalBytes := 1000
  entries := [
    { logicalPath := "brief.md"
      layer := "task"
      order := 0
      artifactReference := briefReference
      digest := ⟨[0x68, 0x69]⟩
      sizeBytes := 2
      mediaType := "text/markdown"
      sensitivity := "internal" }]

theorem internal_ne_empty : "internal" ≠ "" := by decide

theorem project_ne_empty : "project" ≠ "" := by decide

theorem markdown_ne_empty : "text/markdown" ≠ "" := by decide

/-- The store that has the brief. -/
def briefArtifacts : ContextArtifactReader where
  readManifest _ := .ok
    { id := 1
      digest := ⟨[0x68, 0x69]⟩
      sizeBytes := 2
      declaredMediaType := "text/markdown"
      provenance := .unknown
      sensitivity := "internal"
      retention := "project"
      validation := .integrityVerified
      lifecycle := .available
      facts := {}
      createdAt := ⟨0, 0⟩
      mediaTypeNonempty := markdown_ne_empty
      sensitivityNonempty := internal_ne_empty
      retentionNonempty := project_ne_empty }
  readBytes _ := .ok [0x68, 0x69]

def briefDestination : Destination where
  absolute := false
  parts := ["first"]
  root := ["srv", "packs"]
  parent := ["srv", "packs"]

/-- The brief and its manifest, with a file that somebody has added. -/
def briefWithNotes (metadata : Bytes) : PackTree :=
  .directory [("brief.md", .file [0x68, 0x69]),
    (".mishkan", .directory [("context-pack.json", .file metadata)]), ("notes.txt", .file [0x21])]

/-- The digest of the brief, and an empty manifest file. -/
def briefLibrary : ContextLibrary :=
  asciiLibrary (fun _ => "sha256:8f434346648f6b96df89dda901c5176b10a6d83961dd3c1ac88b59b2dc327aa4")
    fun _ _ => [0x7b, 0x7d, 0x0a]

theorem briefManifest_accepted : briefManifest.Accepted briefLibrary := by
  rfl

/-- **A file that is added** to a pack is not noticed. -/
theorem added_file_verified :
    let result := projection briefArtifacts briefManifest
    let later := briefWithNotes (briefLibrary.metadataBytes briefManifest result)
    briefManifest.Accepted briefLibrary ∧
      (materialize briefLibrary briefArtifacts (fun _ => false) briefDestination
        briefManifest).result = .ok result ∧
      verify briefLibrary briefManifest result briefDestination Tree.object (some later) = true ∧
      ¬ Faithful briefLibrary briefArtifacts (fun _ => false) briefDestination briefDestination
        briefManifest Tree.object (some later) := by
  have hresult : (materialize briefLibrary briefArtifacts (fun _ => false) briefDestination
      briefManifest).result = .ok (projection briefArtifacts briefManifest) := rfl
  have hverify : verify briefLibrary briefManifest (projection briefArtifacts briefManifest)
      briefDestination Tree.object (some (briefWithNotes (briefLibrary.metadataBytes briefManifest
        (projection briefArtifacts briefManifest)))) = true := by
    refine (verify_iff rfl).mpr ?_
    have hfiles : packFiles briefLibrary briefArtifacts briefManifest =
        [(["brief.md"], [0x68, 0x69]), (manifestPath, briefLibrary.metadataBytes briefManifest
          (projection briefArtifacts briefManifest))] := rfl
    rw [hfiles, Matches, forall_mem_cons, forall_mem_singleton]
    exact ⟨⟨_, rfl, rfl⟩, ⟨_, rfl, rfl⟩⟩
  refine ⟨briefManifest_accepted, hresult, hverify, fun h => ?_⟩
  obtain ⟨o, ho, hexact⟩ := h.sound _ hresult hverify
  obtain rfl := Option.some.inj ho
  rcases hexact.found ["notes.txt"] (.file [0x21]) rfl with ⟨entries, hentries⟩ | ⟨content, -, hmem⟩
  · cases hentries
  · have hpath : ["notes.txt"] ∈ [["brief.md"], manifestPath] :=
      mem_map_of_mem (f := Prod.fst) hmem
    revert hpath
    decide

/-- A pack that is left as it is. -/
theorem brief_faithful_iff :
    let result := projection briefArtifacts briefManifest
    let later : PackTree := .directory [("brief.md", .file [0x68, 0x69]),
      (".mishkan", .directory
        [("context-pack.json", .file (briefLibrary.metadataBytes briefManifest result))])]
    Faithful briefLibrary briefArtifacts (fun _ => false) briefDestination briefDestination
        briefManifest Tree.object (some later) ↔
      Sound briefLibrary briefArtifacts (fun _ => false) briefDestination briefDestination
        briefManifest Tree.object (some later) :=
  faithful_iff briefManifest_accepted

end Brief

end Mishkan.ContextPack
