import Mishkan.Foundations.Overlay

/-!
# Foundations/Disk — directories with links, and the trees that are written into them

What is on a disk is given by one step: `object` says of every place whether a file, a directory, a
link or something else is there.  `stands` goes along a path through directories only, `leads`
follows links on the way.  A tree written file by file has exactly the files that are written
(`laid_write`); on any disk, files that are found along links are exactly what is there when it is
`Clean` (`Clean.exact`).
-/

namespace Disk

open List

/-- What is at a place; a link is given by where following it ends. -/
inductive Object (ν β ο : Type) where
  /-- A file, with what reading it gives. -/
  | file (content : Option β)
  | directory (entries : List (ν × ο))
  | link (target : Option ο)
  | special

variable {ν β ο : Type} [DecidableEq ν]

/-! ## Paths -/

section Paths

variable (object : ο → Object ν β ο)

/-- The entry of a directory. -/
def child (o : ο) (name : ν) : Option ο :=
  match object o with
  | .directory entries => entries.lookup name
  | _ => none

omit [DecidableEq ν] in
/-- Where a link leads; anything else is where it is. -/
def follow (o : ο) : Option ο :=
  match object o with
  | .link target => target
  | _ => some o

/-- What stands at a path, behind directories only. -/
def stands : ο → List ν → Option ο
  | o, [] => some o
  | o, name :: path => (child object o name).bind fun o => stands o path

/-- What a path leads to: links are followed, but for the last one. -/
def leads : ο → List ν → Option ο
  | o, [] => some o
  | o, name :: path =>
    ((follow object o).bind fun o => child object o name).bind fun o => leads o path

/-- The files that stand below a root, and nothing else. -/
structure Exact (root : ο) (files : List (List ν × β)) : Prop where
  found : ∀ path o, stands object root path = some o → (∃ entries, object o = .directory entries) ∨
    ∃ content, object o = .file (some content) ∧ (path, content) ∈ files
  complete : ∀ path content, (path, content) ∈ files →
    ∃ o, stands object root path = some o ∧ object o = .file (some content)

/-- The files are found, through links on the way. -/
def Matches (root : ο) (files : List (List ν × β)) : Prop :=
  ∀ f ∈ files, ∃ o, leads object root f.1 = some o ∧ object o = .file (some f.2)

/-- Nothing but directories stands anywhere else, and no link on the way. -/
structure Clean (root : ο) (paths : List (List ν)) : Prop where
  only : ∀ path o, stands object root path = some o →
    (∃ entries, object o = .directory entries) ∨ path ∈ paths
  unlinked : ∀ path ∈ paths, ∀ start rest, rest ≠ [] → path = start ++ rest →
    ∀ o, stands object root start = some o → ∀ target, object o ≠ .link target

end Paths

section Clean

variable {object : ο → Object ν β ο} {root o : ο} {path : List ν} {files : List (List ν × β)}

omit [DecidableEq ν] in
theorem follow_eq_self (h : ∀ target, object o ≠ .link target) : follow object o = some o := by
  rw [follow]
  split
  · exact absurd ‹_› (h _)
  · rfl

/-- Without links on the way, a path leads to what stands there. -/
theorem leads_eq_stands (h : ∀ start rest, rest ≠ [] → path = start ++ rest →
    ∀ o, stands object root start = some o → ∀ target, object o ≠ .link target) :
    leads object root path = stands object root path := by
  induction path generalizing root with
  | nil => rfl
  | cons name path ih =>
    have hroot : follow object root = some root :=
      follow_eq_self (h [] (name :: path) (cons_ne_nil _ _) rfl root rfl)
    rw [leads, stands, hroot, Option.bind_some]
    cases hchild : child object root name with
    | none => rfl
    | some o =>
      refine ih fun start rest hrest heq o' ho' => ?_
      refine h (name :: start) rest hrest (by rw [heq, cons_append]) o' ?_
      rw [stands, hchild]
      exact ho'

/-- **Files that are found are exactly what is there**, where a root is clean. -/
theorem Clean.exact (h : Clean object root (files.map Prod.fst))
    (hmatches : Matches object root files) : Exact object root files := by
  have hstands : ∀ f ∈ files, ∃ o, stands object root f.1 = some o ∧
      object o = .file (some f.2) := by
    intro f hf
    obtain ⟨o, ho, hfile⟩ := hmatches f hf
    rw [leads_eq_stands (h.unlinked f.1 (mem_map_of_mem hf))] at ho
    exact ⟨o, ho, hfile⟩
  refine ⟨fun path o ho => (h.only path o ho).imp_right fun hpath => ?_,
    fun path content hf => hstands _ hf⟩
  obtain ⟨f, hf, rfl⟩ := mem_map.mp hpath
  obtain ⟨o', ho', hfile⟩ := hstands f hf
  obtain rfl : o' = o := Option.some.inj (ho'.symm.trans ho)
  exact ⟨f.2, hfile, hf⟩

theorem Exact.clean (h : Exact object root files) : Clean object root (files.map Prod.fst) := by
  refine ⟨fun path o ho => (h.found path o ho).imp_right ?_,
    fun path _ start rest _ _ o ho target hlink => ?_⟩
  · rintro ⟨content, -, hf⟩
    exact mem_map_of_mem hf
  · rcases h.found start o ho with ⟨entries, hdirectory⟩ | ⟨content, hfile, -⟩
    · rw [hlink] at hdirectory
      cases hdirectory
    · rw [hlink] at hfile
      cases hfile

/-- A path to a file that is found begins in a directory. -/
theorem directory_of_leads {name : ν} (h : leads object root (name :: path) = some o) :
    ∃ start entries, follow object root = some start ∧ object start = .directory entries := by
  rw [leads] at h
  obtain ⟨below, hbelow, -⟩ := Option.bind_eq_some_iff.mp h
  obtain ⟨start, hstart, hchild⟩ := Option.bind_eq_some_iff.mp hbelow
  refine ⟨start, ?_⟩
  rw [child] at hchild
  split at hchild
  · exact ⟨_, hstart, ‹_›⟩
  · cases hchild

end Clean

/-! ## Trees -/

/-- A tree of directories and files. -/
inductive Tree (ν β : Type) where
  | file (content : β)
  | directory (entries : List (ν × Tree ν β))

/-- A tree is a disk without links. -/
def Tree.object : Tree ν β → Object ν β (Tree ν β)
  | .file content => .file (some content)
  | .directory entries => .directory entries

/-- Make the directories of a path, and a new file at it, in what is there. -/
def write : List ν → β → Option (Tree ν β) → Option (Tree ν β)
  | [], content, none => some (.file content)
  | [], _, some _ => none
  | name :: path, content, none =>
    (write path content none).map fun t => .directory [(name, t)]
  | name :: path, content, some (.directory entries) =>
    (write path content (entries.lookup name)).map fun t =>
      .directory (Overlay.put name t entries)
  | _ :: _, _, some (.file _) => none

/-- What is at a path: nothing, a directory, or a file with its content. -/
def kindAt : Option (Tree ν β) → List ν → Option (Option β)
  | none, _ => none
  | some (.file content), [] => some (some content)
  | some (.file _), _ :: _ => none
  | some (.directory _), [] => some none
  | some (.directory entries), name :: path => kindAt (entries.lookup name) path

/-- A tree that has exactly the files, and no directory but for them. -/
structure Laid (written : List (List ν × β)) (t : Tree ν β) : Prop where
  files : ∀ path content, kindAt (some t) path = some (some content) ↔ (path, content) ∈ written
  directories : ∀ path, kindAt (some t) path = some none →
    path = [] ∨ ∃ f ∈ written, path <+: f.1

section Trees

variable {t : Option (Tree ν β)} {t' : Tree ν β} {path path' : List ν} {content : β}
  {written : List (List ν × β)}

@[simp] theorem kindAt_none : kindAt (none : Option (Tree ν β)) path = none := by
  cases path <;> rfl

theorem kindAt_directory_cons {name : ν} {entries : List (ν × Tree ν β)} :
    kindAt (some (.directory entries)) (name :: path) = kindAt (entries.lookup name) path := rfl

/-- **What a file that is written changes**: what is at its path, and on the way. -/
theorem kindAt_write (h : write path content t = some t') :
    kindAt (some t') path' = if path' = path then some (some content)
      else if path' <+: path then some none else kindAt t path' := by
  induction path generalizing t t' path' with
  | nil =>
    cases t with
    | none =>
      obtain rfl := Option.some.inj h
      cases path' <;> simp [kindAt]
    | some t => cases h
  | cons name path ih =>
    cases t with
    | none =>
      obtain ⟨s, hs, rfl⟩ := Option.map_eq_some_iff.mp h
      cases path' with
      | nil => simp [kindAt]
      | cons name' path' =>
        simp only [kindAt_directory_cons, Overlay.lookup_cons_ite, List.cons.injEq,
          cons_prefix_cons]
        by_cases hname : name' = name
        · simp only [hname, if_true, true_and, ih hs, kindAt_none]
        · simp [hname]
    | some t =>
      cases t with
      | file => cases h
      | directory entries =>
        obtain ⟨s, hs, rfl⟩ := Option.map_eq_some_iff.mp h
        cases path' with
        | nil => simp [kindAt]
        | cons name' path' =>
          simp only [kindAt_directory_cons, Overlay.lookup_put, List.cons.injEq,
            cons_prefix_cons]
          by_cases hname : name' = name
          · simp only [hname, if_true, true_and, ih hs]
          · simp [hname]

/-- **A file can be written** where nothing is, and no file on the way. -/
theorem write_isSome (hfree : kindAt t path = none)
    (hway : ∀ start content, start <+: path → kindAt t start ≠ some (some content)) :
    (write path content t).isSome := by
  induction path generalizing t with
  | nil =>
    cases t with
    | none => rfl
    | some t =>
      cases t with
      | file => cases hfree
      | directory => cases hfree
  | cons name path ih =>
    cases t with
    | none =>
      rw [write, Option.isSome_map]
      exact ih kindAt_none fun start content _ h => by
        rw [kindAt_none] at h
        cases h
    | some t =>
      cases t with
      | file found => exact absurd rfl (hway [] found nil_prefix)
      | directory entries =>
        rw [write, Option.isSome_map]
        refine ih hfree fun start content hstart hfile => ?_
        exact hway (name :: start) content (cons_prefix_cons.mpr ⟨rfl, hstart⟩) hfile

theorem laid_nil : Laid [] (.directory [] : Tree ν β) := by
  refine ⟨fun path content => ?_, fun path h => ?_⟩
  · cases path <;> simp [kindAt]
  · cases path with
    | nil => exact .inl rfl
    | cons =>
      rw [kindAt_directory_cons, lookup_nil, kindAt_none] at h
      cases h

/-- **A file beside the others** can be written, and is one more of them. -/
theorem Laid.write (h : Laid written t') (hne : path ≠ [])
    (hbeside : ∀ f ∈ written, ¬ path <+: f.1 ∧ ¬ f.1 <+: path) :
    ∃ t, Disk.write path content (some t') = some t ∧ Laid (written ++ [(path, content)]) t := by
  have hfree : kindAt (some t') path = none := by
    rcases hkind : kindAt (some t') path with _ | _ | found
    · rfl
    · rcases h.directories path hkind with hnil | ⟨f, hf, hstart⟩
      · exact absurd hnil hne
      · exact absurd hstart (hbeside f hf).1
    · exact absurd (prefix_refl path) (hbeside (path, found) ((h.files path found).mp hkind)).1
  have hway : ∀ start found, start <+: path → kindAt (some t') start ≠ some (some found) :=
    fun start found hstart hkind =>
      (hbeside (start, found) ((h.files start found).mp hkind)).2 hstart
  have hsome : (Disk.write path content (some t')).isSome := write_isSome hfree hway
  obtain ⟨t, ht⟩ := Option.isSome_iff_exists.mp hsome
  refine ⟨t, ht, fun path' content' => ?_, fun path' hkind => ?_⟩
  · rw [kindAt_write ht, mem_append, mem_singleton, Prod.mk.injEq, ← h.files]
    by_cases hpath : path' = path
    · rw [if_pos hpath, hpath, hfree]
      simp [eq_comm]
    · rw [if_neg hpath]
      split_ifs with hstart
      · simp [hpath, hway path' content' hstart]
      · simp [hpath]
  · rw [kindAt_write ht] at hkind
    by_cases hpath : path' = path
    · rw [if_pos hpath] at hkind
      cases hkind
    · rw [if_neg hpath] at hkind
      split_ifs at hkind with hstart
      · exact .inr ⟨_, mem_append_right _ (mem_singleton_self _), hstart⟩
      · rcases h.directories path' hkind with hnil | ⟨f, hf, hstart'⟩
        · exact .inl hnil
        · exact .inr ⟨f, mem_append_left _ hf, hstart'⟩

theorem kindAt_eq (t : Tree ν β) (path : List ν) :
    kindAt (some t) path = (stands Tree.object t path).map fun s => match s with
      | .file content => some content
      | .directory _ => none := by
  induction path generalizing t with
  | nil => cases t <;> rfl
  | cons name path ih =>
    cases t with
    | file => rfl
    | directory entries =>
      have hchild : child Tree.object (.directory entries) name = entries.lookup name := rfl
      rw [kindAt_directory_cons, stands, hchild]
      cases hlookup : entries.lookup name with
      | none => exact kindAt_none
      | some s => exact ih s

/-- **What is laid is exactly there.** -/
theorem Laid.exact (h : Laid written t') : Exact Tree.object t' written := by
  refine ⟨fun path s hs => ?_, fun path content hf => ?_⟩
  · have hkind := kindAt_eq t' path
    rw [hs] at hkind
    cases s with
    | file content => exact .inr ⟨content, rfl, (h.files path content).mp hkind⟩
    | directory entries => exact .inl ⟨entries, rfl⟩
  · have hkind := (h.files path content).mpr hf
    rw [kindAt_eq] at hkind
    obtain ⟨s, hs, hcontent⟩ := Option.map_eq_some_iff.mp hkind
    cases s with
    | file found =>
      obtain rfl := Option.some.inj hcontent
      exact ⟨_, hs, rfl⟩
    | directory => cases hcontent

/-- What is laid is found. -/
theorem Laid.matches (h : Laid written t') : Matches Tree.object t' written := by
  intro f hf
  obtain ⟨s, hs, hfile⟩ := h.exact.complete f.1 f.2 hf
  refine ⟨s, ?_, hfile⟩
  rw [leads_eq_stands]
  · exact hs
  · intro _ _ _ _ s _ target hlink
    cases s <;> cases hlink

end Trees

end Disk
