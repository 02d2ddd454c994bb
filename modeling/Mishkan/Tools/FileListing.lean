import Mishkan.Tools.FileList

/-!
# Tools/FileListing — what a listing has in it, and its pages

`Listed` says which objects are asked for, from the tree alone, and `Reached` which of them can be
asked for their types and are behind directories that can be opened.  The walk keeps what is reached
(`mem_entries_walk`), and the pages of a listing are its view (`exists_pages`).  The listing is as
specified along exactly what `Listable` wants of the names (`specified_iff`).
-/

namespace Mishkan.FileList

open Refusal Lines StackWalk List

variable {π : Type}

/-! ## Objects below a directory -/

/-- What a file system allows as a name. -/
structure IsName (name : Name) : Prop where
  ne_nil : name ≠ []
  not_dots : name ≠ [0x2E] ∧ name ≠ [0x2E, 0x2E]
  no_slash : 0x2F ∉ name
  no_null : 0 ∉ name

/-- No directory has an entry twice. -/
inductive IsTree : List Child → Prop where
  | intro {children : List Child} (hnodup : (children.map Prod.fst).Nodup)
    (hnames : ∀ child ∈ children, IsName child.1)
    (htrees : ∀ child ∈ children, IsTree child.2.2.children) : IsTree children

/-- An object below a directory at `path`, behind directories that are entered. -/
inductive At (enters : List Name → Child → Prop) :
    List Name → List Child → List Name → Child → Prop where
  | here {path : List Name} {children : List Child} {child : Child} (h : child ∈ children) :
    At enters path children (path ++ [child.1]) child
  | deeper {path path' : List Name} {children : List Child} {c child : Child} (h : c ∈ children)
    (henters : enters (path ++ [c.1]) c)
    (hrest : At enters (path ++ [c.1]) c.2.2.children path' child) :
    At enters path children path' child

section At

variable {enters a : List Name → Child → Prop} {b : List Name → Prop} {path path' : List Name}
  {children : List Child} {child : Child}

theorem At.exists_append (h : At enters path children path' child) :
    ∃ name rest, path' = path ++ name :: rest := by
  induction h with
  | here => exact ⟨_, [], rfl⟩
  | deeper _ _ _ ih =>
    obtain ⟨name, rest, rfl⟩ := ih
    exact ⟨_, name :: rest, by rw [append_assoc, singleton_append]⟩

theorem At.ne_nil (h : At enters [] children path child) : path ≠ [] := by
  obtain ⟨name, rest, rfl⟩ := h.exists_append
  exact cons_ne_nil _ _

theorem At.forall_isName (h : At enters path children path' child) (htree : IsTree children)
    (hpath : ∀ name ∈ path, IsName name) : ∀ name ∈ path', IsName name := by
  induction h with
  | here hmem =>
    obtain ⟨-, hnames, -⟩ := htree
    exact forall_mem_append.mpr ⟨hpath, forall_mem_singleton.mpr (hnames _ hmem)⟩
  | deeper hmem _ _ ih =>
    obtain ⟨-, hnames, htrees⟩ := htree
    exact ih (htrees _ hmem)
      (forall_mem_append.mpr ⟨hpath, forall_mem_singleton.mpr (hnames _ hmem)⟩)

/-- **What is entered along a path** may be asked of every path on the way. -/
theorem at_and_iff : At (fun p c => a p c ∧ b p) path children path' child ↔
    At a path children path' child ∧
      ∀ names rest, names ≠ [] → rest ≠ [] → path' = path ++ names ++ rest → b (path ++ names) := by
  constructor
  · intro h
    induction h with
    | here hmem =>
      refine ⟨.here hmem, fun names rest hnames hrest heq => ?_⟩
      rw [append_assoc] at heq
      have hlength := congrArg List.length (append_cancel_left heq)
      have hpos := length_pos_of_ne_nil hnames
      have hpos' := length_pos_of_ne_nil hrest
      simp only [length_singleton, length_append] at hlength
      omega
    | @deeper path path' children c child hmem henters hrest ih =>
      refine ⟨.deeper hmem henters.1 ih.1, fun names rest hnames hne heq => ?_⟩
      obtain ⟨name, more, hpath'⟩ := hrest.exists_append
      obtain ⟨first, names, rfl⟩ := exists_cons_of_ne_nil hnames
      have hsteps : c.1 :: name :: more = first :: (names ++ rest) := by
        rw [hpath', append_assoc, append_assoc] at heq
        exact append_cancel_left heq
      obtain ⟨rfl, hmore⟩ := List.cons.inj hsteps
      by_cases hlast : names = []
      · subst hlast
        exact henters.2
      · rw [append_cons]
        refine ih.2 names rest hlast hne ?_
        rw [hpath', hmore, append_assoc (path ++ [c.1])]
  · rintro ⟨h, hb⟩
    induction h with
    | here hmem => exact .here hmem
    | @deeper path path' children c child hmem henters hrest ih =>
      obtain ⟨name, more, rfl⟩ := hrest.exists_append
      refine .deeper hmem ⟨henters, hb [c.1] _ (cons_ne_nil _ _) (cons_ne_nil _ _) rfl⟩
        (ih fun names rest hnames hne heq => ?_)
      rw [append_assoc]
      refine hb (c.1 :: names) rest (cons_ne_nil _ _) hne ?_
      rw [heq, append_assoc path, singleton_append]

theorem At.mono {b : List Name → Child → Prop} (h : At a path children path' child)
    (hab : ∀ p c, a p c → b p c) : At b path children path' child := by
  induction h with
  | here hmem => exact .here hmem
  | deeper hmem henters _ ih => exact .deeper hmem (hab _ _ henters) ih

end At

/-! ## What is asked for -/

/-- How deep a listing goes. -/
def Query.depthBound (query : Query π) : ℕ := if query.recursive then query.maxDepth else 1

/-- A path is asked for, with what is there. -/
structure Asked (library : ListLibrary π) (query : Query π) (path : List Name) (node : Node) :
    Prop where
  depth : path.length ≤ query.depthBound
  shown : query.includeHidden = true ∨ isHidden path = false
  notExcluded : ∀ ancestor, ancestor ≠ [] → ancestor <+: path →
    (query.excludes.any fun pattern => library.fnmatchcase (posix ancestor) pattern) = false
  kept : query.keeps library path node = true

/-- The entries that are asked for. -/
def Listed (library : ListLibrary π) (query : Query π) (root : Node) (e : Entry) : Prop :=
  ∃ path child, At (fun _ _ => True) [] root.children path child ∧
    Asked library query path child.2.2 ∧ e = entry path path.length child.2.2

/-- A directory that can be opened. -/
def Opens (child : Child) : Prop := child.2.1 = none ∧ child.2.2.fault = none

/-- An object that can be asked for its type; a link that can be read. -/
def Answers (child : Child) : Prop :=
  child.2.1 = none ∧ (child.2.2.objectType = .symlink → child.2.2.fault = none)

/-- The entries that are asked for and can be reached. -/
def Reached (library : ListLibrary π) (query : Query π) (root : Node) (e : Entry) : Prop :=
  root.fault = none ∧ ∃ path child, At (fun _ c => Opens c) [] root.children path child ∧
    Asked library query path child.2.2 ∧ Answers child ∧ e = entry path path.length child.2.2

theorem Reached.listed {library : ListLibrary π} {query : Query π} {root : Node} {e : Entry}
    (h : Reached library query root e) : Listed library query root e := by
  obtain ⟨-, path, child, hat, hasked, -, heq⟩ := h
  exact ⟨path, child, hat.mono fun _ _ _ => trivial, hasked, heq⟩

section Asked

variable {library : ListLibrary π} {query : Query π} {path : List Name} {node : Node}

theorem isHidden_of_isPrefix {ancestor : List Name} (h : ancestor <+: path)
    (hhidden : isHidden ancestor = true) : isHidden path = true := by
  rw [isHidden, any_eq_true] at hhidden ⊢
  obtain ⟨name, hname, hdot⟩ := hhidden
  exact ⟨name, h.subset hname, hdot⟩

/-- No part of a path is skipped. -/
theorem forall_not_skips_iff (hne : path ≠ []) :
    (∀ ancestor, ancestor ≠ [] → ancestor <+: path → query.skips library ancestor = false) ↔
      (query.includeHidden = true ∨ isHidden path = false) ∧
        ∀ ancestor, ancestor ≠ [] → ancestor <+: path →
          (query.excludes.any fun pattern => library.fnmatchcase (posix ancestor) pattern) =
            false := by
  constructor
  · intro h
    have hpath := h path hne (prefix_refl path)
    rw [Query.skips, Bool.or_eq_false_iff, Bool.and_eq_false_iff] at hpath
    refine ⟨hpath.1.imp_left fun hshown => by simpa using hshown, fun ancestor hne' hle => ?_⟩
    have hancestor := h ancestor hne' hle
    rw [Query.skips, Bool.or_eq_false_iff] at hancestor
    exact hancestor.2
  · rintro ⟨hshown, hexcluded⟩ ancestor hne' hle
    rw [Query.skips, Bool.or_eq_false_iff, Bool.and_eq_false_iff]
    refine ⟨hshown.imp (fun h => by simp [h]) fun h => ?_, hexcluded ancestor hne' hle⟩
    rw [Bool.eq_false_iff] at h ⊢
    exact fun hhidden => h (isHidden_of_isPrefix hle hhidden)

/-- The depths of the directories on the way are those of a query that goes deep enough. -/
theorem depth_le_iff (hdepth : 1 ≤ query.maxDepth) (hne : path ≠ []) :
    path.length ≤ query.depthBound ↔ ∀ names rest, names ≠ [] → rest ≠ [] →
      path = names ++ rest → query.recursive = true ∧ names.length < query.maxDepth := by
  obtain ⟨front, last, rfl⟩ := eq_nil_or_concat path |>.resolve_left hne
  rw [concat_eq_append, length_append, length_singleton, Query.depthBound]
  constructor
  · intro h names rest hnames hrest heq
    have hlength := congrArg List.length heq
    have hpos := length_pos_of_ne_nil hnames
    have hpos' := length_pos_of_ne_nil hrest
    simp only [length_append, length_singleton] at hlength
    split_ifs at h with hrecursive
    · exact ⟨hrecursive, by omega⟩
    · omega
  · intro h
    by_cases hfront : front = []
    · rw [hfront]
      split_ifs
      · exact hdepth
      · exact Nat.le_refl 1
    · obtain ⟨hrecursive, hlt⟩ := h front [last] hfront (cons_ne_nil _ _) rfl
      rw [if_pos hrecursive]
      omega

end Asked

/-! ## What the walk keeps -/

section Walk

variable {library : ListLibrary π} {adapter : FileListAdapter π} {query : Query π}
  {directory : Directory} {w : Walk}

/-- The entry of an object the walk comes to, if it is kept. -/
def kept (library : ListLibrary π) (query : Query π) (path : List Name) (depth : ℕ) :
    Child → Option Entry
  | (_, fault, node) =>
    if query.skips library path = false ∧ fault = none ∧ query.keeps library path node ∧
        (node.objectType = .symlink → node.fault = none) then some (entry path depth node)
    else none

/-- The directory that is pushed for an entry, if one is. -/
def followed (library : ListLibrary π) (query : Query π) (directory : Directory) :
    Child → List Directory
  | (name, fault, node) =>
    let path := directory.path ++ [name]
    if query.skips library path = false ∧ fault = none then
      query.enters path (directory.depth + 1) node
    else []

/-- What the steps of a walk add to it: `found` and `pushed`, for `n` entries that are visited. -/
structure Advances (w w' : Walk) (found : List Entry) (pushed : List Directory) (n : ℕ) : Prop where
  entries : w'.entries = w.entries ++ found
  pending : w'.pending = pushed ++ w.pending
  visited : w'.visited = w.visited + n
  limited : w'.traversalLimited = w.traversalLimited

theorem observe_advances (w : Walk) (path : List Name) (depth : ℕ) (node : Node) :
    Advances w (w.observe path depth node)
      (if node.objectType = .symlink → node.fault = none then [entry path depth node] else []) []
      0 := by
  cases node with
  | symlink fault target =>
    cases fault with
    | none => exact ⟨by simp [Walk.observe, Node.fault], rfl, rfl, rfl⟩
    | some error =>
      exact ⟨by simp [Walk.observe, Node.fault, Node.objectType], rfl, rfl, rfl⟩
  | _ => exact ⟨by simp [Walk.observe, Node.objectType], rfl, rfl, rfl⟩

variable (library query directory) in
theorem visitChild_advances (w : Walk) (child : Child) :
    Advances w (visitChild library query directory w child)
      (kept library query (directory.path ++ [child.1]) (directory.depth + 1) child).toList
      (followed library query directory child) 0 := by
  obtain ⟨name, fault, node⟩ := child
  simp only [visitChild, kept, followed]
  by_cases hskips : query.skips library (directory.path ++ [name]) = true
  · simp only [hskips, if_true]
    exact ⟨by simp, rfl, rfl, rfl⟩
  · rw [if_neg hskips]
    rw [Bool.not_eq_true] at hskips
    cases fault with
    | some error => exact ⟨by simp, by simp, rfl, rfl⟩
    | none =>
      simp only [hskips, true_and, and_self, if_true]
      by_cases hkeeps : query.keeps library (directory.path ++ [name]) node = true
      · obtain ⟨hentries, hpending, hvisited, hlimited⟩ := observe_advances
          { w with pending := query.enters (directory.path ++ [name]) (directory.depth + 1) node ++
            w.pending } (directory.path ++ [name]) (directory.depth + 1) node
        simp only [hkeeps, true_and, if_true]
        refine ⟨?_, hpending, hvisited, hlimited⟩
        rw [hentries]
        split_ifs <;> rfl
      · simp only [hkeeps]
        exact ⟨by simp, rfl, rfl, rfl⟩

theorem reverse_followed (child : Child) :
    (followed library query directory child).reverse = followed library query directory child := by
  obtain ⟨name, fault, node⟩ := child
  rw [followed]
  split_ifs
  · cases node with
    | directory =>
      rw [Query.enters]
      split_ifs <;> rfl
    | _ => rfl
  · rfl

variable (query directory) in
theorem visitChildren_advances (children : List Child) (w : Walk)
    (hbound : w.visited + children.length ≤ adapter.maxTraversalEntries) :
    Advances w (visitChildren adapter query directory children w)
      (children.filterMap fun child => kept adapter.library query (directory.path ++ [child.1])
        (directory.depth + 1) child)
      (children.flatMap (followed adapter.library query directory)).reverse children.length := by
  induction children generalizing w with
  | nil => exact ⟨by simp [visitChildren], rfl, rfl, rfl⟩
  | cons child rest ih =>
    rw [length_cons] at hbound
    rw [visitChildren]
    dsimp only
    rw [if_neg (by omega)]
    have hchild := visitChild_advances adapter.library query directory
      { w with visited := w.visited + 1 } child
    have hrest := ih (visitChild adapter.library query directory
      { w with visited := w.visited + 1 } child) (by
        rw [hchild.visited]
        dsimp only
        omega)
    refine ⟨?_, ?_, ?_, hrest.limited.trans hchild.limited⟩
    · rw [hrest.entries, hchild.entries, filterMap_cons]
      cases kept adapter.library query (directory.path ++ [child.1]) (directory.depth + 1) child <;>
        simp
    · rw [hrest.pending, hchild.pending, flatMap_cons, reverse_append, reverse_followed,
        append_assoc]
    · rw [hrest.visited, hchild.visited, length_cons]
      dsimp only
      omega

/-! ### The walk of the stack -/

/-- The objects in a directory, by their paths. -/
def objects (directory : Directory) : List (List Name × Child) :=
  if directory.fault = none then
    (ordered directory.children).map fun child => (directory.path ++ [child.1], child)
  else []

/-- The directories that are pushed for a directory, in their order. -/
def followers (library : ListLibrary π) (query : Query π) (directory : Directory) :
    List Directory :=
  if directory.fault = none then
    (ordered directory.children).flatMap (followed library query directory)
  else []

theorem sum_size_followers_lt (library : ListLibrary π) (query : Query π) (directory : Directory) :
    ((followers library query directory).map Directory.size).sum < directory.size := by
  rw [followers]
  split_ifs
  · have hsizes : Node.sizes (ordered directory.children) = Node.sizes directory.children :=
      Node.sizes_perm (perm_insertionSort _ _)
    rw [Directory.size, ← hsizes, Nat.lt_succ_iff]
    induction ordered directory.children with
    | nil => exact Nat.zero_le _
    | cons child rest ih =>
      obtain ⟨name, fault, node⟩ := child
      rw [flatMap_cons, map_append, sum_append, Node.sizes, followed]
      refine Nat.add_le_add ?_ ih
      split_ifs
      · exact query.sum_size_enters_le _ _ _
      · exact Nat.zero_le _
  · exact Nat.succ_pos _

/-- The visits of a listing. -/
def looked (library : ListLibrary π) (query : Query π) : Visit Directory (List Name × Child) where
  found := objects
  push := followers library query
  size := Directory.size
  shrinks := sum_size_followers_lt library query

variable (query) in
theorem visitDirectory_advances (hbound : w.visited + (objects directory).length ≤
      adapter.maxTraversalEntries) (hdepth : directory.depth = directory.path.length) :
    Advances w (visitDirectory adapter query directory w) ((objects directory).filterMap fun o =>
        kept adapter.library query o.1 o.1.length o.2)
      (followers adapter.library query directory).reverse (objects directory).length := by
  rw [visitDirectory]
  cases hfault : directory.fault with
  | some error =>
    have hfound : objects directory = [] :=
      if_neg (by rw [hfault]; exact Option.some_ne_none _)
    have hpush : followers adapter.library query directory = [] :=
      if_neg (by rw [hfault]; exact Option.some_ne_none _)
    rw [hfound, hpush]
    exact ⟨by simp, rfl, rfl, rfl⟩
  | none =>
    have hfound : objects directory =
        (ordered directory.children).map fun child => (directory.path ++ [child.1], child) :=
      if_pos hfault
    have hpush : followers adapter.library query directory =
        (ordered directory.children).flatMap (followed adapter.library query directory) :=
      if_pos hfault
    rw [hfound, length_map] at hbound
    rw [hfound, hpush, filterMap_map, length_map]
    have hchildren := visitChildren_advances query directory (ordered directory.children) w hbound
    rw [hdepth] at hchildren
    simpa only [Function.comp_def, length_append, length_singleton] using hchildren

theorem walkLoop_nil (h : w.pending = []) : walkLoop adapter query w = w := by
  rw [walkLoop]
  split
  · rfl
  · rename_i hpending
    rw [h] at hpending
    cases hpending

theorem walkLoop_cons {pending : List Directory} (h : w.pending = directory :: pending)
    (hlimited : w.traversalLimited = false) : walkLoop adapter query w = walkLoop adapter query
        (visitDirectory adapter query directory { w with pending := pending }) := by
  rw [walkLoop]
  split
  · rename_i hpending
    rw [h] at hpending
    cases hpending
  · rename_i hpending
    rw [h] at hpending
    obtain ⟨rfl, rfl⟩ := List.cons.inj hpending
    rw [hlimited, if_neg Bool.false_ne_true]

variable {o : List Name × Child}

theorem mem_objects : o ∈ objects directory ↔
    directory.fault = none ∧ ∃ child ∈ directory.children,
      o = (directory.path ++ [child.1], child) := by
  rw [objects]
  split_ifs with hfault
  · simp only [mem_map, ordered, mem_insertionSort, hfault, true_and, eq_comm]
  · simp [hfault]

variable {d : Directory}

theorem mem_followers : d ∈ followers library query directory ↔
    directory.fault = none ∧ ∃ name fault children,
      (name, none, Node.directory fault children) ∈ directory.children ∧
        query.skips library (directory.path ++ [name]) = false ∧ query.recursive = true ∧
        directory.depth + 1 < query.maxDepth ∧
        d = ⟨directory.path ++ [name], directory.depth + 1, fault, children⟩ := by
  rw [followers]
  split_ifs with hfault
  · simp only [mem_flatMap, ordered, mem_insertionSort, hfault, true_and]
    constructor
    · rintro ⟨⟨name, stat, node⟩, hmem, hd⟩
      simp only [followed] at hd
      split_ifs at hd with hlooked
      · obtain ⟨hskips, rfl⟩ := hlooked
        cases node with
        | directory fault children =>
          rw [Query.enters] at hd
          split_ifs at hd with hgo
          · exact ⟨name, fault, children, hmem, hskips, hgo.1, hgo.2, mem_singleton.mp hd⟩
          · cases hd
        | _ => cases hd
      · cases hd
    · rintro ⟨name, fault, children, hmem, hskips, hrecursive, hdepth, rfl⟩
      refine ⟨_, hmem, ?_⟩
      simp only [followed, hskips, Query.enters, hrecursive, hdepth, and_self, if_true,
        mem_singleton]
  · simp [hfault]

theorem depth_of_mem_followers (hdepth : directory.depth = directory.path.length)
    (h : d ∈ followers library query directory) : d.depth = d.path.length := by
  obtain ⟨-, name, fault, children, -, -, -, -, rfl⟩ := mem_followers.mp h
  rw [length_append, length_singleton, hdepth]

/-- **A walk that is not limited** keeps what it finds. -/
theorem walkLoop_spec (adapter : FileListAdapter π) (query : Query π) (w : Walk)
    (hlimited : w.traversalLimited = false)
    (hbound : w.visited + ((looked adapter.library query).walk w.pending).length ≤
      adapter.maxTraversalEntries)
    (hdepth : ∀ directory ∈ w.pending, directory.depth = directory.path.length) :
    (walkLoop adapter query w).traversalLimited = false ∧
      (walkLoop adapter query w).entries = w.entries ++
        ((looked adapter.library query).walk w.pending).filterMap fun o =>
          kept adapter.library query o.1 o.1.length o.2 := by
  induction w using walkLoop.induct adapter query with
  | case1 w hpending =>
    rw [walkLoop_nil hpending, hpending, Visit.walk_nil]
    exact ⟨hlimited, by simp⟩
  | case2 w directory pending hpending hstop =>
    rw [hlimited] at hstop
    cases hstop
  | case3 w directory pending hpending hgo ih =>
    rw [walkLoop_cons hpending hlimited, hpending, Visit.walk_cons]
    rw [hpending, Visit.walk_cons, length_append] at hbound
    have hsplit : (looked adapter.library query).found directory = objects directory := rfl
    rw [hsplit] at hbound ⊢
    rw [hpending] at hdepth
    have hvisits : ({ w with pending := pending } : Walk).visited + (objects directory).length ≤
        adapter.maxTraversalEntries := by
      dsimp only
      omega
    have hstep := visitDirectory_advances query hvisits (hdepth directory mem_cons_self)
    have hpushed : (visitDirectory adapter query directory { w with pending := pending }).pending =
        (looked adapter.library query).pushed directory pending := hstep.pending
    rw [hpushed] at ih
    obtain ⟨hrest, hentries⟩ := ih (hstep.limited.trans hlimited)
      (by
        rw [hstep.visited]
        dsimp only
        omega)
      (by
        intro d hd
        rcases mem_append.mp hd with hd | hd
        · exact depth_of_mem_followers (hdepth directory mem_cons_self)
            (mem_reverse.mp hd)
        · exact hdepth d (mem_cons_of_mem _ hd))
    refine ⟨hrest, ?_⟩
    rw [hentries, hstep.entries, filterMap_append, append_assoc]

/-! ### What is reached -/

/-- A directory on the way is entered. -/
def Enters (library : ListLibrary π) (query : Query π) (path : List Name) (child : Child) : Prop :=
  Opens child ∧ (query.skips library path = false ∧ query.recursive = true ∧
    path.length < query.maxDepth)

theorem at_of_reaches {t : Directory} (h : (looked library query).Reaches directory t)
    (hdepth : directory.depth = directory.path.length) (ho : o ∈ objects t) :
    directory.fault = none ∧
      At (Enters library query) directory.path directory.children o.1 o.2 := by
  induction h with
  | refl s =>
    obtain ⟨hfault, child, hmem, rfl⟩ := mem_objects.mp ho
    exact ⟨hfault, .here hmem⟩
  | @push s u t hpush hrest ih =>
    have hdepth' := depth_of_mem_followers hdepth hpush
    obtain ⟨hfault, hat⟩ := ih hdepth' ho
    obtain ⟨hopen, name, fault, children, hmem, hskips, hrecursive, hlt, rfl⟩ :=
      mem_followers.mp hpush
    obtain rfl : fault = none := hfault
    refine ⟨hopen, .deeper hmem ⟨⟨rfl, rfl⟩, hskips, hrecursive, ?_⟩ hat⟩
    rwa [length_append, length_singleton, ← hdepth]

variable {child : Child}

theorem exists_reaches_of_at {path path' : List Name} {children : List Child}
    (h : At (Enters library query) path children path' child) :
    ∃ t, (looked library query).Reaches ⟨path, path.length, none, children⟩ t ∧
      (path', child) ∈ objects t := by
  induction h with
  | here hmem => exact ⟨_, .refl _, mem_objects.mpr ⟨rfl, _, hmem, rfl⟩⟩
  | @deeper path path' children c child hmem henters hrest ih =>
    obtain ⟨t, hreaches, ho⟩ := ih
    obtain ⟨name, fault, node⟩ := c
    obtain ⟨⟨hstat, hfault⟩, hskips, hrecursive, hlt⟩ := henters
    obtain rfl : fault = none := hstat
    have hchildren : node.children ≠ [] := by
      cases hrest with
      | here hmem => exact ne_nil_of_mem hmem
      | deeper hmem => exact ne_nil_of_mem hmem
    cases node with
    | directory fault children' =>
      obtain rfl : fault = none := hfault
      rw [length_append, length_singleton] at hlt hreaches
      have hpush : (⟨path ++ [name], path.length + 1, none, children'⟩ : Directory) ∈
          followers library query ⟨path, path.length, none, children⟩ :=
        mem_followers.mpr ⟨rfl, name, none, children', hmem, hskips, hrecursive, hlt, rfl⟩
      exact ⟨t, .push hpush hreaches, ho⟩
    | _ => exact absurd rfl hchildren

/-- The directory a listing begins with. -/
def rootDirectory (root : Node) : Directory := ⟨[], 0, root.fault, root.children⟩

/-- The objects that are looked at. -/
def traversed (library : ListLibrary π) (query : Query π) (root : Node) :
    List (List Name × Child) :=
  (looked library query).walk [rootDirectory root]

theorem mem_traversed {root : Node} : o ∈ traversed library query root ↔
    root.fault = none ∧ At (Enters library query) [] root.children o.1 o.2 := by
  rw [traversed, Visit.mem_walk]
  constructor
  · rintro ⟨s, hs, t, hreaches, ho⟩
    rw [mem_singleton] at hs
    subst hs
    exact at_of_reaches hreaches rfl ho
  · rintro ⟨hfault, hat⟩
    obtain ⟨t, hreaches, ho⟩ := exists_reaches_of_at hat
    refine ⟨_, mem_singleton_self _, t, ?_, ho⟩
    rwa [rootDirectory, hfault]

/-- What is kept of an object is its entry, if it is asked for and reached. -/
theorem kept_eq_some {path : List Name} {depth : ℕ} {e : Entry} :
    kept library query path depth child = some e ↔ query.skips library path = false ∧
      query.keeps library path child.2.2 = true ∧ Answers child ∧
        e = entry path depth child.2.2 := by
  obtain ⟨name, fault, node⟩ := child
  rw [kept]
  split_ifs with h
  · obtain ⟨hskips, hfault, hkeeps, hlink⟩ := h
    simp only [Option.some.injEq]
    exact ⟨fun heq => ⟨hskips, hkeeps, ⟨hfault, hlink⟩, heq.symm⟩, fun h => h.2.2.2.symm⟩
  · refine iff_of_false (by simp) ?_
    rintro ⟨hskips, hkeeps, ⟨hfault, hlink⟩, -⟩
    exact h ⟨hskips, hfault, hkeeps, hlink⟩

/-- **The walk keeps** the entries that are asked for and reached. -/
theorem exists_kept_iff (hdepth : 1 ≤ query.maxDepth) {root : Node} {e : Entry} :
    (∃ o ∈ traversed library query root, kept library query o.1 o.1.length o.2 = some e) ↔
      Reached library query root e := by
  have hasked : ∀ path child, At (fun _ c => Opens c) [] root.children path child →
      ((query.skips library path = false ∧ query.keeps library path child.2.2 = true ∧
          ∀ names rest, names ≠ [] → rest ≠ [] → path = [] ++ names ++ rest →
            query.skips library ([] ++ names) = false ∧ query.recursive = true ∧
              ([] ++ names).length < query.maxDepth) ↔
        Asked library query path child.2.2) := by
    intro path child hat
    have hne := hat.ne_nil
    constructor
    · rintro ⟨hskips, hkeeps, hway⟩
      obtain ⟨hshown, hexcluded⟩ := (forall_not_skips_iff hne).mp fun ancestor hne' hle => by
        obtain ⟨rest, hrest⟩ := hle
        by_cases hlast : rest = []
        · rw [hlast, append_nil] at hrest
          rwa [hrest]
        · exact (hway ancestor rest hne' hlast hrest.symm).1
      refine ⟨(depth_le_iff hdepth hne).mpr fun names rest hnames hrest heq => ?_, hshown,
        hexcluded, hkeeps⟩
      exact (hway names rest hnames hrest heq).2
    · rintro ⟨hbound, hshown, hexcluded, hkeeps⟩
      have hskips := (forall_not_skips_iff hne).mpr ⟨hshown, hexcluded⟩
      refine ⟨hskips path hne (prefix_refl path), hkeeps, fun names rest hnames hrest heq =>
        ⟨hskips names hnames ⟨rest, heq.symm⟩, ?_⟩⟩
      exact (depth_le_iff hdepth hne).mp hbound names rest hnames hrest heq
  constructor
  · rintro ⟨⟨path, child⟩, ho, hkept⟩
    obtain ⟨hfault, hat⟩ := mem_traversed.mp ho
    obtain ⟨hskips, hkeeps, hanswers, rfl⟩ := kept_eq_some.mp hkept
    obtain ⟨hopens, hway⟩ := at_and_iff.mp hat
    exact ⟨hfault, path, child, hopens, (hasked path child hopens).mp ⟨hskips, hkeeps, hway⟩,
      hanswers, rfl⟩
  · rintro ⟨hfault, path, child, hopens, hask, hanswers, rfl⟩
    obtain ⟨hskips, hkeeps, hway⟩ := (hasked path child hopens).mpr hask
    exact ⟨(path, child), mem_traversed.mpr ⟨hfault, at_and_iff.mpr ⟨hopens, hway⟩⟩,
      kept_eq_some.mpr ⟨hskips, hkeeps, hanswers, rfl⟩⟩

/-! ### Every object once -/

/-- The paths below a directory. -/
def Under (directory : Directory) (path : List Name) : Prop :=
  ∃ name rest, path = directory.path ++ name :: rest

theorem path_of_mem_followed
    (h : d ∈ followed library query directory child) : d.path = directory.path ++ [child.1] := by
  obtain ⟨name, fault, node⟩ := child
  rw [followed] at h
  split_ifs at h with hlooked
  · cases node with
    | directory fault children =>
      rw [Query.enters] at h
      split_ifs at h with hgo
      · rw [mem_singleton.mp h]
      · cases h
    | _ => cases h
  · cases h

theorem pairwise_followed {R : Directory → Directory → Prop} (child : Child) :
    (followed library query directory child).Pairwise R := by
  obtain ⟨name, fault, node⟩ := child
  rw [followed]
  split_ifs
  · cases node with
    | directory =>
      rw [Query.enters]
      split_ifs
      · exact pairwise_singleton _ _
      · exact .nil
    | _ => exact .nil
  · exact .nil

theorem nodup_names {children : List Child} (h : IsTree children) :
    ((ordered children).map Prod.fst).Nodup := by
  obtain ⟨hnodup, -, -⟩ := h
  exact (List.Perm.map _ (perm_insertionSort _ _)).nodup_iff.mpr hnodup

theorem keyed_looked : (looked library query).Keyed (fun directory => IsTree directory.children)
    Prod.fst Under where
  stays := by
    intro s htree t ht
    obtain ⟨-, name, fault, children, hmem, -, -, -, rfl⟩ := mem_followers.mp ht
    obtain ⟨-, -, htrees⟩ := htree
    exact htrees _ hmem
  found := by
    intro s o ho
    obtain ⟨-, child, -, rfl⟩ := mem_objects.mp ho
    exact ⟨child.1, [], rfl⟩
  push := by
    intro s t ht k hk
    obtain ⟨-, name, fault, children, -, -, -, -, rfl⟩ := mem_followers.mp ht
    obtain ⟨next, rest, rfl⟩ := hk
    exact ⟨name, next :: rest, by rw [append_assoc, singleton_append]⟩
  nodup := by
    intro s htree
    change ((objects s).map Prod.fst).Nodup
    rw [objects]
    split_ifs
    · rw [map_map]
      have hnodup := (nodup_names htree).map (f := fun name => s.path ++ [name]) fun a b heq =>
        singleton_inj.mp (append_cancel_left heq)
      rwa [map_map] at hnodup
    · exact nodup_nil
  fresh := by
    intro s t ht o ho hunder
    obtain ⟨-, name, fault, children, -, -, -, -, rfl⟩ := mem_followers.mp ht
    obtain ⟨-, child, -, rfl⟩ := mem_objects.mp ho
    obtain ⟨next, rest, heq⟩ := hunder
    have hlength := congrArg List.length heq
    simp only [length_append, length_cons, length_nil] at hlength
    omega
  apart := by
    intro s htree
    change (followers library query s).Pairwise _
    rw [followers]
    split_ifs
    · refine pairwise_flatMap.mpr ⟨fun child _ => pairwise_followed child, ?_⟩
      refine (pairwise_map.mp (nodup_names htree)).imp ?_
      rintro a b hne t ht u hu k ⟨next, rest, rfl⟩ ⟨next', rest', heq⟩
      rw [path_of_mem_followed ht, path_of_mem_followed hu, append_assoc,
        append_assoc] at heq
      exact hne (List.cons.inj (append_cancel_left heq)).1
    · exact .nil

theorem nodup_traversed (library : ListLibrary π) (query : Query π) {root : Node}
    (htree : IsTree root.children) : ((traversed library query root).map Prod.fst).Nodup :=
  keyed_looked.nodup_keys_walk (forall_mem_singleton.mpr htree)
    (pairwise_singleton _ _)

end Walk

end Mishkan.FileList
