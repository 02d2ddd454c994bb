import Mathlib.Data.List.Perm.Basic
import Mishkan.Domain.Errors
import Mishkan.Foundations.FileTree
import Mishkan.Foundations.Glob
import Mishkan.Foundations.Precedence

/-!
# Tools/Effects — bounded snapshots of a workspace, and their comparison

`snapshot` takes directories off a stack and records what is in them, without following links; what
a limit or an error keeps it from reading is noted, and the snapshot is then not complete. `compare`
lists the paths whose records differ, and those of them that lie in no allowed scope. -/

namespace Mishkan

open FileTree Glob

/-! ## Records -/

/-- What a snapshot records of a path. -/
inductive SnapshotEntry where
  | directory (mode : Nat)
  | symlink (mode : Nat) (target : String)
  | special (mode : Nat)
  | fileUnexamined (mode size : Nat)
  | file (mode size : Nat) (digest : Digest (List UInt8))
deriving DecidableEq

/-- The records under the texts of their paths. -/
abbrev SnapshotEntries := List (String × SnapshotEntry)

structure WorkspaceSnapshot where
  fingerprint : Digest SnapshotEntries
  entries : SnapshotEntries
  complete : Bool
  omissions : List String

/-- What changed, with the records of both sides. -/
structure Effects.WorkspaceEffectEvidence where
  baseFingerprint : Digest SnapshotEntries
  afterFingerprint : Digest SnapshotEntries
  changedPaths : List String
  scopeDeviations : List String
  complete : Bool
  omissions : List String
  diff : List (String × Option SnapshotEntry × Option SnapshotEntry)

structure SnapshotConfiguration where
  maxEntries : Int
  maxFileBytes : Int
  maxTotalBytes : Int
  exclude : List String := []

/-- No pattern excludes the path. -/
def SnapshotConfiguration.isVisible (configuration : SnapshotConfiguration) (path : List String) :
    Bool :=
  !configuration.exclude.any fun pattern => fnmatchcase (posix path) pattern

/-! ## Taking a snapshot -/

/-- The variables of the loop.  The directories that are pending come last in, first out. -/
structure Observation where
  entries : SnapshotEntries := []
  omissions : List String := []
  totalBytes : Nat := 0
  complete : Bool := true
  pending : List (List String × Node) := []

namespace Observation

/-- Note that something was left out. -/
def leaveOut (s : Observation) (omission : String) : Observation :=
  { s with omissions := s.omissions ++ [omission], complete := false }

/-- `entries[relative] = ...`; no path comes twice. -/
def record (s : Observation) (path : List String) (entry : SnapshotEntry) : Observation :=
  { s with entries := s.entries ++ [(posix path, entry)] }

/-- What is recorded of a visible entry of a directory. -/
def observe (configuration : SnapshotConfiguration) (s : Observation) (path : List String) :
    Node → Observation
  | .unknown fault => s.leaveOut ("stat:" ++ posix path ++ ":" ++ fault)
  | .directory mode fault children =>
    { s.record path (.directory mode) with
      pending := (path, .directory mode fault children) :: s.pending }
  | .symlink _ (some fault) _ => s.leaveOut ("link:" ++ posix path ++ ":" ++ fault)
  | .symlink mode none target => s.record path (.symlink mode target)
  | .special mode => (s.record path (.special mode)).leaveOut ("special:" ++ posix path)
  | .file mode fault content =>
    if content.length > configuration.maxFileBytes ∨
        (s.totalBytes + content.length : Int) > configuration.maxTotalBytes then
      (s.leaveOut ("content_limit:" ++ posix path)).record path
        (.fileUnexamined mode content.length)
    else
      match fault with
      | some fault => s.leaveOut ("read:" ++ posix path ++ ":" ++ fault)
      | none =>
        let content := content.take (configuration.maxFileBytes + 1).toNat
        { s.record path (.file mode content.length ⟨content⟩) with
          totalBytes := s.totalBytes + content.length }

/-- The loop over the entries of a directory. -/
def scanChildren (configuration : SnapshotConfiguration) (directory : List String) :
    Observation → List (String × Node) → Observation
  | s, [] => s
  | s, (name, node) :: rest =>
    if configuration.isVisible (directory ++ [name]) = false then
      scanChildren configuration directory s rest
    else if (s.entries.length : Int) ≥ configuration.maxEntries then
      { s.leaveOut "entry_limit_reached" with pending := [] }
    else
      scanChildren configuration directory (s.observe configuration (directory ++ [name]) node) rest

/-- `directory.relative_to(root).as_posix()`. -/
def scanned (directory : List String) : String :=
  if directory = [] then "." else posix directory

/-- One directory off the stack. -/
def scan (configuration : SnapshotConfiguration) (s : Observation) (directory : List String) :
    Node → Observation
  | .directory _ none children =>
    scanChildren configuration directory s (children.insertionSort fun a b => a.1 ≤ b.1)
  | .directory _ (some fault) _ => s.leaveOut ("scan:" ++ scanned directory ++ ":" ++ fault)
  | _ => s.leaveOut ("scan:" ++ scanned directory ++ ":NotADirectoryError")

/-! ### The loop ends -/

/-- The number of nodes under the directories that are pending. -/
def pendingSize (s : Observation) : Nat := (s.pending.map fun directory => directory.2.size).sum

theorem pendingSize_observe_le (configuration : SnapshotConfiguration) (s : Observation)
    (path : List String) (node : Node) :
    (s.observe configuration path node).pendingSize ≤ s.pendingSize + node.size := by
  cases node with
  | unknown | special => exact Nat.le_add_right _ _
  | directory =>
    simp only [pendingSize, observe, record, List.map_cons, List.sum_cons]
    omega
  | symlink mode fault =>
    cases fault
    all_goals exact Nat.le_add_right _ _
  | file mode fault content =>
    cases fault
    all_goals
      simp only [observe]
      split_ifs
      all_goals exact Nat.le_add_right _ _

theorem pendingSize_scanChildren_le (configuration : SnapshotConfiguration)
    (directory : List String) (s : Observation) (children : List (String × Node)) :
    (scanChildren configuration directory s children).pendingSize ≤
      s.pendingSize + Node.sizes children := by
  induction children generalizing s with
  | nil => simp [scanChildren, Node.sizes]
  | cons child children ih =>
    obtain ⟨name, node⟩ := child
    rw [scanChildren, Node.sizes]
    split_ifs
    · exact (ih s).trans (by omega)
    · simp [pendingSize]
    · have hobserve := pendingSize_observe_le configuration s (directory ++ [name]) node
      exact (ih _).trans (by omega)

/-- **A directory that is scanned leaves less to scan.** -/
theorem pendingSize_scan_lt (configuration : SnapshotConfiguration) (s : Observation)
    (directory : List String) (node : Node) :
    (s.scan configuration directory node).pendingSize < s.pendingSize + node.size := by
  have hpos := node.size_pos
  fun_cases scan
  · rename_i children
    have hperm : Node.sizes (children.insertionSort fun a b => a.1 ≤ b.1) =
        Node.sizes children := by
      rw [Node.sizes_eq, Node.sizes_eq]
      exact ((List.perm_insertionSort _ children).map _).sum_nat
    have hle := pendingSize_scanChildren_le configuration directory s
      (children.insertionSort fun a b => a.1 ≤ b.1)
    rw [hperm] at hle
    simp only [Node.size]
    omega
  all_goals
    simp only [pendingSize, leaveOut] at hpos ⊢
    omega

/-- `while pending`. -/
def drain (configuration : SnapshotConfiguration) (s : Observation) : Observation :=
  match _h : s.pending with
  | [] => s
  | (directory, node) :: rest =>
    drain configuration (({ s with pending := rest } : Observation).scan configuration directory
      node)
termination_by s.pendingSize
decreasing_by
  have hlt := pendingSize_scan_lt configuration { s with pending := rest } directory node
  have hsize : s.pendingSize =
      ({ s with pending := rest } : Observation).pendingSize + node.size := by
    simp [pendingSize, _h, Nat.add_comm]
  omega

end Observation

/-- `WorkspaceEffectObserver.snapshot`, while nothing is written. -/
def snapshotWorkspace (root : Tree) (configuration : SnapshotConfiguration) : WorkspaceSnapshot :=
  let s := Observation.drain configuration { pending := [([], root.root)] }
  ⟨⟨s.entries⟩, s.entries, s.complete, s.omissions⟩

/-! ## Comparing -/

/-- How many slashes the root of a path has. -/
def pathRoot (text : String) : Nat :=
  let slashes := (text.toList.takeWhile (· = '/')).length
  if slashes = 2 then 2 else min slashes 1

/-- `Path(text).parts`, behind the root. -/
def pathParts (text : String) : List (List Char) :=
  (text.toList.splitOn '/').filter fun part => part ≠ [] ∧ part ≠ ['.']

/-- `Path(path).is_relative_to(Path(scope))`. -/
def isRelativeTo (path scope : String) : Bool :=
  pathRoot path = pathRoot scope && (pathParts scope).isPrefixOf (pathParts path)

/-- Whether a scope admits a path. -/
def admits (path scope : String) : Bool :=
  scope = "" || scope = "." || path = scope || isRelativeTo path scope

/-- `WorkspaceEffectObserver.compare`. -/
def compareSnapshots (before after : WorkspaceSnapshot) (allowedScopes : List String) :
    Effects.WorkspaceEffectEvidence :=
  let paths := (before.entries.map Prod.fst ++ after.entries.map Prod.fst).dedup
  let changed := (paths.filter fun path =>
    before.entries.lookup path ≠ after.entries.lookup path).mergeSort (· ≤ ·)
  { baseFingerprint := before.fingerprint
    afterFingerprint := after.fingerprint
    changedPaths := changed
    scopeDeviations := changed.filter fun path => !allowedScopes.any (admits path)
    complete := before.complete && after.complete
    omissions := Precedence.keepFirst id (before.omissions ++ after.omissions)
    diff := changed.map fun path =>
      (path, before.entries.lookup path, after.entries.lookup path) }

end Mishkan
