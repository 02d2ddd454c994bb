import Mathlib.Data.List.Dedup
import Mishkan.Tools.Effects

/-!
# Tools/EffectEvidence — what the comparison of two snapshots shows

A snapshot that is complete has recorded every visible path of its tree, as it is, and nothing else.
Two complete snapshots therefore differ in exactly the visible paths where the trees do.
-/

namespace Mishkan

open FileTree List

/-! ## What is seen of a tree -/

/-- What the record of a path is, if nothing was left out. -/
def recordOf? : Node → Option SnapshotEntry
  | .directory mode _ _ => some (.directory mode)
  | .file mode none content => some (.file mode content.length ⟨content⟩)
  | .symlink mode none target => some (.symlink mode target)
  | _ => none

/-- The kind, the mode and the content or target of what is at a path. -/
inductive PathFact where
  | directory (mode : Nat)
  | file (mode : Nat) (content : List UInt8)
  | symlink (mode : Nat) (target : String)
  | special (mode : Nat)
deriving DecidableEq

/-- What a node is. -/
def factOf? : Node → Option PathFact
  | .directory mode _ _ => some (.directory mode)
  | .file mode _ content => some (.file mode content)
  | .symlink mode _ target => some (.symlink mode target)
  | .special mode => some (.special mode)
  | .unknown _ => none

/-- The record of what is known of a path. -/
def PathFact.entry : PathFact → SnapshotEntry
  | .directory mode => .directory mode
  | .file mode content => .file mode content.length ⟨content⟩
  | .symlink mode target => .symlink mode target
  | .special mode => .special mode

/-- A record tells what is at its path. -/
theorem PathFact.entry_inj {a b : PathFact} (h : a.entry = b.entry) : a = b := by
  cases a <;> cases b <;> simp_all [entry]

/-- What was left out of no record is what its record says. -/
theorem exists_fact {node : Node} {entry : SnapshotEntry}
    (h : recordOf? node = some entry) : ∃ fact, factOf? node = some fact ∧ fact.entry = entry := by
  cases node with
  | directory mode fault children => exact ⟨.directory mode, rfl, Option.some.inj h⟩
  | file mode fault content =>
    cases fault with
    | none => exact ⟨.file mode content, rfl, Option.some.inj h⟩
    | some fault => cases h
  | symlink mode fault target =>
    cases fault with
    | none => exact ⟨.symlink mode target, rfl, Option.some.inj h⟩
    | some fault => cases h
  | special mode => cases h
  | unknown fault => cases h

/-! ## The loop -/

section Loop

variable {configuration : SnapshotConfiguration} {s : Observation} {root node c : Node}
  {path directory : List String}

namespace Observation

/-- The path has the record that its node is to have. -/
def Records (s : Observation) (path : List String) (node : Node) : Prop :=
  ∃ entry, recordOf? node = some entry ∧ (posix path, entry) ∈ s.entries

theorem Records.mono {s' : Observation} (h : s.Records path node) (hle : s.entries ⊆ s'.entries) :
    s'.Records path node := by
  obtain ⟨entry, hentry, hmem⟩ := h
  exact ⟨entry, hentry, hle hmem⟩

/-- What the loop adds to what it has seen: the records of some nodes with their paths, and those
of them that are directories. -/
structure Adds (s s' : Observation) (seen : List String → Node → Prop) : Prop where
  entries_subset : s.entries ⊆ s'.entries
  pending_subset : s.pending ⊆ s'.pending
  entries : ∀ x ∈ s'.entries, x ∈ s.entries ∨
    ∃ path node, seen path node ∧ recordOf? node = some x.2 ∧ posix path = x.1
  pending : ∀ x ∈ s'.pending, x ∈ s.pending ∨ seen x.1 x.2
  records : ∀ path node, seen path node →
    s'.Records path node ∧ (node.isDirectory = true → (path, node) ∈ s'.pending)

theorem Adds.refl (s : Observation) : Adds s s fun _ _ => False :=
  ⟨fun _ => id, fun _ => id, fun _ => .inl, fun _ => .inl, fun _ _ => False.elim⟩

theorem Adds.trans {s' s'' : Observation} {seen seen' : List String → Node → Prop}
    (h : Adds s s' seen) (h' : Adds s' s'' seen') :
    Adds s s'' fun path node => seen path node ∨ seen' path node where
  entries_subset := List.Subset.trans h.entries_subset h'.entries_subset
  pending_subset := List.Subset.trans h.pending_subset h'.pending_subset
  entries x hx := by
    rcases h'.entries x hx with hx | ⟨path, node, hseen, hentry⟩
    · rcases h.entries x hx with hx | ⟨path, node, hseen, hentry⟩
      · exact .inl hx
      · exact .inr ⟨path, node, .inl hseen, hentry⟩
    · exact .inr ⟨path, node, .inr hseen, hentry⟩
  pending x hx := by
    rcases h'.pending x hx with hx | hseen
    · exact (h.pending x hx).imp id .inl
    · exact .inr (.inr hseen)
  records path node hseen := by
    rcases hseen with hseen | hseen
    · obtain ⟨hrecords, hpending⟩ := h.records path node hseen
      exact ⟨hrecords.mono h'.entries_subset, fun hnode => h'.pending_subset (hpending hnode)⟩
    · exact h'.records path node hseen

theorem Adds.congr {s' : Observation} {seen seen' : List String → Node → Prop}
    (h : Adds s s' seen) (hiff : ∀ path node, seen path node ↔ seen' path node) :
    Adds s s' seen' := by
  have heq : seen = seen' := funext₂ fun path node => propext (hiff path node)
  exact heq ▸ h

/-- A record that is added, of what is not a directory. -/
theorem adds_record {entry : SnapshotEntry} {bytes : Nat} (hentry : recordOf? node = some entry)
    (hnode : node.isDirectory = false) :
    Adds s { s.record path entry with totalBytes := bytes } fun p n => p = path ∧ n = node where
  entries_subset := subset_append_left _ _
  pending_subset := List.Subset.refl _
  entries x hx := by
    rcases mem_append.mp hx with hx | hx
    · exact .inl hx
    · obtain rfl := mem_singleton.mp hx
      exact .inr ⟨path, node, ⟨rfl, rfl⟩, hentry, rfl⟩
  pending x hx := .inl hx
  records := by
    rintro _ _ ⟨rfl, rfl⟩
    exact ⟨⟨entry, hentry, mem_append_right _ (mem_singleton_self _)⟩,
      fun h => by simp [hnode] at h⟩

/-- **An entry that is observed and leaves the snapshot complete is recorded.** -/
theorem adds_observe (h : (s.observe configuration path node).complete = true) :
    Adds s (s.observe configuration path node) fun p n => p = path ∧ n = node := by
  cases node with
  | unknown => simp [observe, leaveOut] at h
  | special => simp [observe, leaveOut, record] at h
  | directory mode fault children =>
    refine ⟨subset_append_left _ _, subset_cons_self _ _, fun x hx => ?_, fun x hx => ?_, ?_⟩
    · rcases mem_append.mp hx with hx | hx
      · exact .inl hx
      · obtain rfl := mem_singleton.mp hx
        exact .inr ⟨path, _, ⟨rfl, rfl⟩, rfl, rfl⟩
    · rcases mem_cons.mp hx with rfl | hx
      · exact .inr ⟨rfl, rfl⟩
      · exact .inl hx
    · rintro _ _ ⟨rfl, rfl⟩
      exact ⟨⟨.directory mode, rfl, mem_append_right _ (mem_singleton_self _)⟩,
        fun _ => mem_cons_self⟩
  | symlink mode fault target =>
    cases fault with
    | some fault => simp [observe, leaveOut] at h
    | none => exact adds_record rfl rfl
  | file mode fault content =>
    cases fault with
    | some fault =>
      simp only [observe] at h
      split_ifs at h
      · simp [leaveOut, record] at h
      · simp [leaveOut] at h
    | none =>
      simp only [observe] at h ⊢
      split_ifs at h ⊢ with hlimit
      · simp [leaveOut, record] at h
      · -- The file is within the limit, so one read of limit + 1 bytes has all of it.
        have htake : content.take (configuration.maxFileBytes + 1).toNat = content := by
          rw [not_or, not_lt] at hlimit
          exact take_of_length_le (by omega)
        rw [htake]
        exact adds_record rfl rfl

theorem complete_of_observe (h : (s.observe configuration path node).complete = true) :
    s.complete = true := by
  cases node with
  | unknown => simp [observe, leaveOut] at h
  | special => simp [observe, leaveOut, record] at h
  | directory => exact h
  | symlink mode fault =>
    cases fault with
    | some fault => simp [observe, leaveOut] at h
    | none => exact h
  | file mode fault content =>
    cases fault with
    | some fault =>
      simp only [observe] at h
      split_ifs at h
      · simp [leaveOut, record] at h
      · simp [leaveOut] at h
    | none =>
      simp only [observe] at h
      split_ifs at h
      · simp [leaveOut, record] at h
      · exact h

theorem complete_of_scanChildren {children : List (String × Node)}
    (h : (scanChildren configuration directory s children).complete = true) :
    s.complete = true := by
  induction children generalizing s with
  | nil => exact h
  | cons child children ih =>
    obtain ⟨name, node⟩ := child
    rw [scanChildren] at h
    split_ifs at h
    · exact ih h
    · simp [leaveOut] at h
    · exact complete_of_observe (ih h)

/-- **A directory whose entries leave the snapshot complete has all its visible entries
recorded.** -/
theorem adds_scanChildren {children : List (String × Node)}
    (h : (scanChildren configuration directory s children).complete = true) :
    Adds s (scanChildren configuration directory s children) fun path node =>
      ∃ name, (name, node) ∈ children ∧ path = directory ++ [name] ∧
        configuration.isVisible path = true := by
  induction children generalizing s with
  | nil => exact (Adds.refl s).congr fun path node => by simp
  | cons child children ih =>
    obtain ⟨name, node⟩ := child
    rw [scanChildren] at h ⊢
    split_ifs at h ⊢ with hvisible
    · refine (ih h).congr fun path n => ⟨?_, ?_⟩
      · rintro ⟨x, hx, hpath⟩
        exact ⟨x, mem_cons_of_mem _ hx, hpath⟩
      · rintro ⟨x, hx, rfl, hseen⟩
        rcases mem_cons.mp hx with heq | hx
        · obtain ⟨rfl, rfl⟩ := Prod.mk.inj heq
          simp [hvisible] at hseen
        · exact ⟨x, hx, rfl, hseen⟩
    · simp [leaveOut] at h
    · refine ((adds_observe (complete_of_scanChildren h)).trans (ih h)).congr fun path n =>
        ⟨?_, ?_⟩
      · rintro (⟨rfl, rfl⟩ | ⟨x, hx, hpath⟩)
        · exact ⟨name, mem_cons_self, rfl, by simpa using hvisible⟩
        · exact ⟨x, mem_cons_of_mem _ hx, hpath⟩
      · rintro ⟨x, hx, rfl, hseen⟩
        rcases mem_cons.mp hx with heq | hx
        · obtain ⟨rfl, rfl⟩ := Prod.mk.inj heq
          exact .inl ⟨rfl, rfl⟩
        · exact .inr ⟨x, hx, rfl, hseen⟩

theorem complete_of_scan (h : (s.scan configuration directory node).complete = true) :
    s.complete = true ∧ node.isDirectory = true ∧ node.isListed = true := by
  cases node with
  | directory mode fault children =>
    cases fault with
    | none => exact ⟨complete_of_scanChildren h, rfl, rfl⟩
    | some fault => simp [scan, leaveOut] at h
  | _ => simp [scan, leaveOut] at h

/-- **A directory off the stack has all its visible entries recorded.** -/
theorem adds_scan (h : (s.scan configuration directory node).complete = true) :
    Adds s (s.scan configuration directory node) fun path c =>
      ∃ name, (name, c) ∈ node.children ∧ path = directory ++ [name] ∧
        configuration.isVisible path = true := by
  cases node with
  | directory mode fault children =>
    cases fault with
    | none =>
      refine (adds_scanChildren h).congr fun path c => ?_
      simp only [mem_insertionSort, Node.children]
    | some fault => simp [scan, leaveOut] at h
  | _ => simp [scan, leaveOut] at h

/-! ## The invariant -/

/-- What was seen so far of a tree: every visible path is recorded, with its directory listed or
pending, or lies under a directory that is pending. -/
structure Observes (configuration : SnapshotConfiguration) (root : Node) (s : Observation) :
    Prop where
  entries : ∀ x ∈ s.entries, ∃ path node,
    Below configuration.isVisible [] root path node ∧ recordOf? node = some x.2 ∧ posix path = x.1
  pending : ∀ x ∈ s.pending, x = ([], root) ∨ Below configuration.isVisible [] root x.1 x.2
  top : ([], root) ∈ s.pending ∨ root.isDirectory = true ∧ root.isListed = true
  below : ∀ path node, Below configuration.isVisible [] root path node →
    (s.Records path node ∧ (node.isListed = true ∨ (path, node) ∈ s.pending)) ∨
      ∃ x ∈ s.pending, Below configuration.isVisible x.1 x.2 path node

theorem observes_start (configuration : SnapshotConfiguration) (root : Node) :
    Observes configuration root { pending := [([], root)] } where
  entries _ hx := absurd hx not_mem_nil
  pending _ hx := .inl (mem_singleton.mp hx)
  top := .inl mem_cons_self
  below _ _ hbelow := .inr ⟨_, mem_cons_self, hbelow⟩

/-- **A step of the loop that leaves the snapshot complete keeps the invariant.** -/
theorem Observes.step {rest : List (List String × Node)} (h : Observes configuration root s)
    (hpending : s.pending = (directory, node) :: rest)
    (hcomplete : (({ s with pending := rest } : Observation).scan configuration directory
      node).complete = true) :
    Observes configuration root
      (({ s with pending := rest } : Observation).scan configuration directory node) := by
  obtain ⟨-, hdirectory, hlisted⟩ := complete_of_scan hcomplete
  have hadds := adds_scan hcomplete
  have hmem : (directory, node) ∈ s.pending := hpending ▸ mem_cons_self
  -- An entry of the directory that is taken is an entry of the tree.
  have hchild : ∀ name c, (name, c) ∈ node.children →
      configuration.isVisible (directory ++ [name]) = true →
        Below configuration.isVisible [] root (directory ++ [name]) c :=
          fun name c hc hvisible => by
    rcases h.pending _ hmem with heq | hbelow
    · obtain ⟨rfl, rfl⟩ := Prod.mk.inj heq
      exact .child hc hvisible
    · exact hbelow.snoc hc hvisible
  -- What was pending still is, but for that directory.
  have hkept : ∀ x ∈ s.pending, x = (directory, node) ∨
      x ∈ (({ s with pending := rest } : Observation).scan configuration directory node).pending :=
    fun x hx => by
      rw [hpending] at hx
      exact (mem_cons.mp hx).imp_right fun hx => hadds.pending_subset hx
  refine ⟨fun x hx => ?_, fun x hx => ?_, ?_, fun path c hbelow => ?_⟩
  · rcases hadds.entries x hx with hx | ⟨path, c, ⟨name, hc, rfl, hvisible⟩, hentry⟩
    · exact h.entries x hx
    · exact ⟨_, c, hchild name c hc hvisible, hentry⟩
  · rcases hadds.pending x hx with hx | ⟨name, hc, hpath, hvisible⟩
    · exact h.pending x (hpending ▸ mem_cons_of_mem _ hx)
    · rw [hpath] at hvisible ⊢
      exact .inr (hchild name x.2 hc hvisible)
  · rcases h.top with hroot | hroot
    · rcases hkept _ hroot with heq | hroot
      · obtain ⟨rfl, rfl⟩ := Prod.mk.inj heq
        exact .inr ⟨hdirectory, hlisted⟩
      · exact .inl hroot
    · exact .inr hroot
  · rcases h.below path c hbelow with ⟨hrecords, hdone⟩ | ⟨x, hx, hunder⟩
    · refine .inl ⟨hrecords.mono hadds.entries_subset, ?_⟩
      rcases hdone with hdone | hdone
      · exact .inl hdone
      · rcases hkept _ hdone with heq | hdone
        · obtain ⟨rfl, rfl⟩ := Prod.mk.inj heq
          exact .inl hlisted
        · exact .inr hdone
    · rcases hkept x hx with rfl | hx
      · cases hunder with
        | child hc hvisible =>
          obtain ⟨hrecords, hpushed⟩ := hadds.records _ c ⟨_, hc, rfl, hvisible⟩
          refine .inl ⟨hrecords, ?_⟩
          cases hkind : c.isDirectory with
          | false => exact .inl (Node.isListed_of_not_isDirectory hkind)
          | true => exact .inr (hpushed hkind)
        | deeper hc hvisible hdeeper =>
          obtain ⟨-, hpushed⟩ := hadds.records _ _ ⟨_, hc, rfl, hvisible⟩
          exact .inr ⟨_, hpushed hdeeper.isDirectory, hdeeper⟩
      · exact .inr ⟨x, hx, hunder⟩

theorem drain_of_nil (h : s.pending = []) : drain configuration s = s := by
  rw [drain]
  split
  · rfl
  · rename_i hcons
    simp [h] at hcons

theorem drain_of_cons {rest : List (List String × Node)}
    (h : s.pending = (directory, node) :: rest) : drain configuration s = drain configuration
        (({ s with pending := rest } : Observation).scan configuration directory node) := by
  rw [drain]
  split
  · rename_i hnil
    simp [h] at hnil
  · rename_i hcons
    obtain ⟨hhead, rfl⟩ := List.cons.inj (h.symm.trans hcons)
    obtain ⟨rfl, rfl⟩ := Prod.mk.inj hhead
    rfl

theorem complete_of_drain (h : (drain configuration s).complete = true) : s.complete = true := by
  induction s using drain.induct configuration with
  | case1 s hpending => rwa [drain_of_nil hpending] at h
  | case2 s directory node rest hpending ih =>
    rw [drain_of_cons hpending] at h
    exact (complete_of_scan (ih h)).1

/-- **A run of the loop that leaves the snapshot complete keeps the invariant, up to its end.** -/
theorem Observes.drain (h : Observes configuration root s)
    (hcomplete : (drain configuration s).complete = true) :
    Observes configuration root (drain configuration s) ∧
      (drain configuration s).pending = [] := by
  induction s using drain.induct configuration with
  | case1 s hpending =>
    rw [drain_of_nil hpending]
    exact ⟨h, hpending⟩
  | case2 s directory node rest hpending ih =>
    rw [drain_of_cons hpending] at hcomplete ⊢
    exact ih (h.step hpending (complete_of_drain hcomplete)) hcomplete

end Observation

end Loop

/-! ## Complete snapshots -/

section Snapshot

variable {configuration : SnapshotConfiguration} {tree : Tree} {path : List String} {node : Node}

/-- The path leads to the node, and neither it nor a directory on the way is excluded. -/
def SnapshotConfiguration.Reaches (configuration : SnapshotConfiguration) (tree : Tree)
    (path : List String) (node : Node) : Prop :=
  Below configuration.isVisible [] tree.root path node

/-- All of a tree was looked at: its root is a directory, and what is in it is recorded as it is. -/
structure WorkspaceSnapshot.Covers (configuration : SnapshotConfiguration) (tree : Tree)
    (snapshot : WorkspaceSnapshot) : Prop where
  top : tree.root.isDirectory = true ∧ tree.root.isListed = true
  recorded : ∀ path node, configuration.Reaches tree path node → node.isListed = true ∧
    ∃ entry, recordOf? node = some entry ∧ (posix path, entry) ∈ snapshot.entries

/-- **A complete snapshot covers its tree**, and records nothing else. -/
theorem covers_of_complete (h : (snapshotWorkspace tree configuration).complete = true) :
    (snapshotWorkspace tree configuration).Covers configuration tree ∧
      ∀ x ∈ (snapshotWorkspace tree configuration).entries, ∃ path node,
        configuration.Reaches tree path node ∧ recordOf? node = some x.2 ∧ posix path = x.1 := by
  obtain ⟨hobserves, hpending⟩ :=
    (Observation.observes_start configuration tree.root).drain h
  refine ⟨⟨?_, fun path node hreaches => ?_⟩, hobserves.entries⟩
  · rcases hobserves.top with htop | htop
    · rw [hpending] at htop
      exact absurd htop not_mem_nil
    · exact htop
  · rcases hobserves.below path node hreaches with ⟨hrecords, hlisted⟩ | ⟨x, hx, -⟩
    · rcases hlisted with hlisted | hlisted
      · exact ⟨hlisted, hrecords⟩
      · rw [hpending] at hlisted
        exact absurd hlisted not_mem_nil
    · rw [hpending] at hx
      exact absurd hx not_mem_nil

theorem SnapshotConfiguration.Reaches.path_ne_nil (h : configuration.Reaches tree path node) :
    path ≠ [] := by
  obtain ⟨name, rest, rfl⟩ := Below.exists_append h
  simp

theorem SnapshotConfiguration.Reaches.isName (h : configuration.Reaches tree path node) :
    ∀ name ∈ path, IsName name :=
  Below.forall_isName tree.isTree h (by simp)

/-- What is at a path of a tree. -/
def HasFact (configuration : SnapshotConfiguration) (tree : Tree) (path : List String)
    (fact : PathFact) : Prop :=
  ∃ node, configuration.Reaches tree path node ∧ factOf? node = some fact

theorem mem_of_lookup {entries : SnapshotEntries} {text : String} {entry : SnapshotEntry}
    (h : entries.lookup text = some entry) : (text, entry) ∈ entries := by
  obtain ⟨before, after, rfl, -⟩ := lookup_eq_some_iff.mp h
  exact mem_append_right _ mem_cons_self

/-- **What a complete snapshot has under the text of a path** is the record of what is there. -/
theorem lookup_eq_some_iff (h : (snapshotWorkspace tree configuration).complete = true)
    {text : String} {entry : SnapshotEntry} :
    (snapshotWorkspace tree configuration).entries.lookup text = some entry ↔
      ∃ path fact, posix path = text ∧ HasFact configuration tree path fact ∧
        fact.entry = entry := by
  obtain ⟨hcovers, hsound⟩ := covers_of_complete h
  -- What is recorded under a text is determined by the tree.
  have hunique : ∀ path node, configuration.Reaches tree path node → ∀ entry',
      (posix path, entry') ∈ (snapshotWorkspace tree configuration).entries →
        recordOf? node = some entry' := fun path node hreaches entry' hmem => by
    obtain ⟨path', node', hreaches', hrecord, htext⟩ := hsound _ hmem
    obtain rfl := posix_inj hreaches'.path_ne_nil hreaches.path_ne_nil hreaches'.isName
      hreaches.isName htext
    rwa [Below.unique tree.isTree hreaches hreaches']
  constructor
  · intro hlookup
    obtain ⟨path, node, hreaches, hrecord, htext⟩ := hsound _ (mem_of_lookup hlookup)
    obtain ⟨fact, hfact, hentry⟩ := exists_fact hrecord
    exact ⟨path, fact, htext, ⟨node, hreaches, hfact⟩, by rw [hentry]⟩
  · rintro ⟨path, fact, rfl, ⟨node, hreaches, hfact⟩, rfl⟩
    obtain ⟨-, entry, hrecord, hmem⟩ := hcovers.recorded path node hreaches
    obtain ⟨fact', hfact', hentry⟩ := exists_fact hrecord
    obtain rfl := Option.some.inj (hfact.symm.trans hfact')
    cases hlookup : (snapshotWorkspace tree configuration).entries.lookup (posix path) with
    | none =>
      rw [lookup_eq_none_iff] at hlookup
      exact absurd (hlookup _ hmem) (by simp)
    | some found =>
      have hfound := hunique path node hreaches found (mem_of_lookup hlookup)
      rw [hrecord] at hfound
      rw [hentry]
      exact congrArg some (Option.some.inj hfound).symm

theorem HasFact.path_ne_nil {fact : PathFact} (h : HasFact configuration tree path fact) :
    path ≠ [] := by
  obtain ⟨node, hreaches, -⟩ := h
  exact hreaches.path_ne_nil

theorem HasFact.isName {fact : PathFact} (h : HasFact configuration tree path fact) :
    ∀ name ∈ path, IsName name := by
  obtain ⟨node, hreaches, -⟩ := h
  exact hreaches.isName

/-- A complete snapshot has the record of what is at a path, and no other. -/
theorem lookup_posix_eq_some_iff (h : (snapshotWorkspace tree configuration).complete = true)
    (hne : path ≠ []) (hnames : ∀ name ∈ path, IsName name) {fact : PathFact} :
    (snapshotWorkspace tree configuration).entries.lookup (posix path) = some fact.entry ↔
      HasFact configuration tree path fact := by
  rw [lookup_eq_some_iff h]
  constructor
  · rintro ⟨path', fact', htext, hfact, hentry⟩
    obtain rfl := PathFact.entry_inj hentry
    rwa [posix_inj hfact.path_ne_nil hne hfact.isName hnames htext] at hfact
  · intro hfact
    exact ⟨path, fact, rfl, hfact, rfl⟩

end Snapshot

/-! ## Scopes -/

/-- A path lies under a scope: the scope is a relative path, and the path begins with its steps. -/
def LiesUnder (path : List String) (scope : String) : Prop :=
  pathRoot scope = 0 ∧ pathParts scope <+: path.map String.toList

section Scopes

variable {path : List String} {scope : String}

theorem pathParts_posix (hne : path ≠ []) (hnames : ∀ name ∈ path, IsName name) :
    pathParts (posix path) = path.map String.toList := by
  rw [pathParts, splitOn_posix hne hnames]
  refine filter_eq_self.mpr fun part hpart => ?_
  obtain ⟨name, hname, rfl⟩ := mem_map.mp hpart
  obtain ⟨hempty, hdot, -⟩ := hnames name hname
  refine decide_eq_true ⟨?_, ?_⟩
  · simpa using hempty
  · exact fun h => hdot (String.toList_inj.mp h)

theorem pathRoot_posix (hne : path ≠ []) (hnames : ∀ name ∈ path, IsName name) :
    pathRoot (posix path) = 0 := by
  obtain ⟨c, text, htext, hc⟩ := exists_posix_cons hne hnames
  rw [pathRoot, htext, takeWhile_cons_of_neg (by simpa using hc)]
  rfl

/-- **A scope admits exactly the paths that lie under it.** -/
theorem admits_iff (hne : path ≠ []) (hnames : ∀ name ∈ path, IsName name) :
    admits (posix path) scope = true ↔ LiesUnder path scope := by
  have hrelative : isRelativeTo (posix path) scope = true ↔ LiesUnder path scope := by
    rw [isRelativeTo, pathParts_posix hne hnames, pathRoot_posix hne hnames, Bool.and_eq_true,
      decide_eq_true_eq, isPrefixOf_iff_prefix, eq_comm, LiesUnder]
  have hempty : LiesUnder path "" := ⟨rfl, nil_prefix⟩
  have hdot : LiesUnder path "." := ⟨rfl, nil_prefix⟩
  have hself : LiesUnder path (posix path) :=
    ⟨pathRoot_posix hne hnames, by rw [pathParts_posix hne hnames]⟩
  rw [admits, Bool.or_eq_true, Bool.or_eq_true, Bool.or_eq_true, decide_eq_true_eq,
    decide_eq_true_eq, decide_eq_true_eq, hrelative]
  constructor
  · rintro (((rfl | rfl) | rfl) | h)
    · exact hempty
    · exact hdot
    · exact hself
    · exact h
  · exact .inr

end Scopes

/-! ## Evidence -/

section Evidence

variable (configuration : SnapshotConfiguration) (before after : Tree) (allowedScopes : List String)

/-- What is at a path differs between two trees. -/
def Differs (path : List String) : Prop :=
  ∃ fact, ¬ (HasFact configuration before path fact ↔ HasFact configuration after path fact)

/-- The evidence of the effects between two snapshots. -/
def effectEvidence : Effects.WorkspaceEffectEvidence :=
  compareSnapshots (snapshotWorkspace before configuration) (snapshotWorkspace after configuration)
    allowedScopes

/-- **The evidence is sound**: what it says of two complete snapshots is true of the trees, and it
is complete only if both trees were compared as a whole. -/
structure EffectsSound : Prop where
  changed : (effectEvidence configuration before after allowedScopes).complete = true →
    ∀ text, text ∈ (effectEvidence configuration before after allowedScopes).changedPaths ↔
      ∃ path, posix path = text ∧ Differs configuration before after path
  deviations : (effectEvidence configuration before after allowedScopes).complete = true →
    ∀ text, text ∈ (effectEvidence configuration before after allowedScopes).scopeDeviations ↔
      ∃ path, posix path = text ∧ Differs configuration before after path ∧
        ∀ scope ∈ allowedScopes, ¬ LiesUnder path scope
  incomplete : ¬ ((snapshotWorkspace before configuration).Covers configuration before ∧
      (snapshotWorkspace after configuration).Covers configuration after) →
    (effectEvidence configuration before after allowedScopes).complete = false

variable {configuration before after allowedScopes}

theorem complete_of_effectEvidence
    (h : (effectEvidence configuration before after allowedScopes).complete = true) :
    (snapshotWorkspace before configuration).complete = true ∧
      (snapshotWorkspace after configuration).complete = true :=
  Bool.and_eq_true_iff.mp h

/-- What is listed as changed is what has different records. -/
theorem mem_changedPaths {a b : WorkspaceSnapshot} {text : String} :
    text ∈ (compareSnapshots a b allowedScopes).changedPaths ↔
      a.entries.lookup text ≠ b.entries.lookup text := by
  simp only [compareSnapshots, mem_mergeSort, mem_filter, decide_eq_true_eq,
    mem_dedup, and_iff_right_iff_imp, mem_append]
  intro hne
  cases ha : a.entries.lookup text with
  | some entry => exact .inl (mem_map_of_mem (mem_of_lookup ha))
  | none =>
    cases hb : b.entries.lookup text with
    | some entry => exact .inr (mem_map_of_mem (mem_of_lookup hb))
    | none => exact absurd (ha.trans hb.symm) hne

/-- What one complete snapshot has under a text and another has not is a fact of the one tree
only. -/
theorem exists_fact_of_lookup (hbefore : (snapshotWorkspace before configuration).complete = true)
    (hafter : (snapshotWorkspace after configuration).complete = true) {text : String}
    {entry : SnapshotEntry}
    (h : (snapshotWorkspace before configuration).entries.lookup text = some entry)
    (hne : (snapshotWorkspace after configuration).entries.lookup text ≠ some entry) :
    ∃ path, posix path = text ∧ ∃ fact, HasFact configuration before path fact ∧
      ¬ HasFact configuration after path fact := by
  obtain ⟨path, fact, rfl, hfact, rfl⟩ := (lookup_eq_some_iff hbefore).mp h
  refine ⟨path, rfl, fact, hfact, fun hother => hne ?_⟩
  exact (lookup_posix_eq_some_iff hafter hfact.path_ne_nil hfact.isName).mpr hother

/-- Where two complete snapshots have the same record, what is in the one tree is in the other. -/
theorem HasFact.of_lookup_eq (hbefore : (snapshotWorkspace before configuration).complete = true)
    (hafter : (snapshotWorkspace after configuration).complete = true) {path : List String}
    {fact : PathFact} (h : HasFact configuration before path fact)
    (heq : (snapshotWorkspace before configuration).entries.lookup (posix path) =
      (snapshotWorkspace after configuration).entries.lookup (posix path)) :
    HasFact configuration after path fact := by
  have hlookup := (lookup_posix_eq_some_iff hbefore h.path_ne_nil h.isName).mpr h
  exact (lookup_posix_eq_some_iff hafter h.path_ne_nil h.isName).mp (heq ▸ hlookup)

/-- **Two complete snapshots differ under the texts of the paths where the trees do.** -/
theorem lookup_ne_iff (hbefore : (snapshotWorkspace before configuration).complete = true)
    (hafter : (snapshotWorkspace after configuration).complete = true) {text : String} :
    (snapshotWorkspace before configuration).entries.lookup text ≠
        (snapshotWorkspace after configuration).entries.lookup text ↔
      ∃ path, posix path = text ∧ Differs configuration before after path := by
  constructor
  · intro hne
    cases hb : (snapshotWorkspace before configuration).entries.lookup text with
    | some entry =>
      obtain ⟨path, htext, fact, hfact, hnot⟩ :=
        exists_fact_of_lookup hbefore hafter hb fun ha => hne (hb.trans ha.symm)
      exact ⟨path, htext, fact, fun hiff => hnot (hiff.mp hfact)⟩
    | none =>
      cases ha : (snapshotWorkspace after configuration).entries.lookup text with
      | some entry =>
        obtain ⟨path, htext, fact, hfact, hnot⟩ :=
          exists_fact_of_lookup hafter hbefore ha fun hb' => hne (hb'.trans ha.symm)
        exact ⟨path, htext, fact, fun hiff => hnot (hiff.mpr hfact)⟩
      | none => exact absurd (hb.trans ha.symm) hne
  · rintro ⟨path, rfl, fact, hdiffers⟩ heq
    exact hdiffers ⟨fun hfact => hfact.of_lookup_eq hbefore hafter heq,
      fun hfact => hfact.of_lookup_eq hafter hbefore heq.symm⟩

/-- A path where two trees differ is a path of one of them. -/
theorem Differs.isPath {path : List String} (h : Differs configuration before after path) :
    path ≠ [] ∧ ∀ name ∈ path, IsName name := by
  obtain ⟨fact, hfact⟩ := h
  by_cases hbefore : HasFact configuration before path fact
  · exact ⟨hbefore.path_ne_nil, hbefore.isName⟩
  · have hafter : HasFact configuration after path fact := by
      by_contra hafter
      exact hfact (iff_of_false hbefore hafter)
    exact ⟨hafter.path_ne_nil, hafter.isName⟩

/-- **The evidence of the effects of a command is sound**, for every pair of trees, every
configuration and all scopes. -/
theorem effects_sound (configuration : SnapshotConfiguration) (before after : Tree)
    (allowedScopes : List String) : EffectsSound configuration before after allowedScopes where
  changed h text := by
    obtain ⟨hbefore, hafter⟩ := complete_of_effectEvidence h
    exact mem_changedPaths.trans (lookup_ne_iff hbefore hafter)
  deviations h text := by
    obtain ⟨hbefore, hafter⟩ := complete_of_effectEvidence h
    have hmem : text ∈ (effectEvidence configuration before after allowedScopes).scopeDeviations ↔
        text ∈ (effectEvidence configuration before after allowedScopes).changedPaths ∧
          (!allowedScopes.any (admits text)) = true := mem_filter
    rw [hmem, Bool.not_eq_true', any_eq_false]
    constructor
    · rintro ⟨hchanged, hscopes⟩
      obtain ⟨path, rfl, hdiffers⟩ :=
        (lookup_ne_iff hbefore hafter).mp (mem_changedPaths.mp hchanged)
      obtain ⟨hne, hnames⟩ := hdiffers.isPath
      exact ⟨path, rfl, hdiffers, fun scope hscope hunder =>
        hscopes scope hscope ((admits_iff hne hnames).mpr hunder)⟩
    · rintro ⟨path, rfl, hdiffers, hscopes⟩
      obtain ⟨hne, hnames⟩ := hdiffers.isPath
      refine ⟨mem_changedPaths.mpr ((lookup_ne_iff hbefore hafter).mpr ⟨path, rfl, hdiffers⟩), ?_⟩
      exact fun scope hscope hadmits =>
        hscopes scope hscope ((admits_iff hne hnames).mp hadmits)
  incomplete hcovers := by
    by_contra hcomplete
    rw [Bool.not_eq_false] at hcomplete
    obtain ⟨hbefore, hafter⟩ := complete_of_effectEvidence hcomplete
    exact hcovers ⟨(covers_of_complete hbefore).1, (covers_of_complete hafter).1⟩

end Evidence

end Mishkan
