import Mathlib.Data.List.Dedup
import Mishkan.Edits.Models
import Mishkan.Foundations.Procedure

/-!
# Edits/Workspace — the files of a workspace and the system calls on them

A path is its list of parts below the workspace; `Files` says what stands at each.  The calls are
those the service makes, each with the failures the files themselves cause.  What the platform
decides (the process umask, the bits a mode keeps, the digest of a content, what Git answers) is a
`System`.
-/

namespace Mishkan.Edits

open Artifacts List

/-- A path below the workspace. -/
abbrev Parts := List String

/-- What stands at a path. -/
inductive Node where
  | file (content : Bytes) (mode : Nat)
  | directory (mode : Nat)
  | symlink
  | special
deriving DecidableEq

/-- The content of a file. -/
def Node.content? : Node → Option Bytes
  | .file content _ => some content
  | _ => none

/-- The classes of operating-system errors. -/
inductive OsError where
  | fileNotFound | fileExists | notADirectory | isADirectory | permission | os
deriving DecidableEq

/-- The name of the class. -/
def OsError.className : OsError → String
  | .fileNotFound => "FileNotFoundError"
  | .fileExists => "FileExistsError"
  | .notADirectory => "NotADirectoryError"
  | .isADirectory => "IsADirectoryError"
  | .permission => "PermissionError"
  | .os => "OSError"

/-- How a function of the service ends that does not return. -/
inductive Failure where
  /-- The expected failure. -/
  | mishkan (error : MishkanError)
  /-- An operating-system error. -/
  | os (error : OsError)
  /-- Any other exception. -/
  | other (name : String)
deriving DecidableEq

/-- A call can fail of itself for want of a right, or of the device. -/
inductive Fault where
  | permission | device
deriving DecidableEq

def Fault.failure : Fault → Failure
  | .permission => .os .permission
  | .device => .os .os

/-- Fail with a typed error. -/
def refusal (code : ErrorCode) (message : String) (details : JsonObject := []) : Failure :=
  .mishkan ⟨code, message, details⟩

/-! ## Files -/

/-- What stands at which path; the workspace itself is always a directory. -/
structure Files where
  entries : List (Parts × Node) := []
deriving DecidableEq

namespace Files

def at? (files : Files) (path : Parts) : Option Node :=
  if path = [] then some (.directory 0o755) else files.entries.lookup path

/-- Nothing is left at a path or below it. -/
def erase (files : Files) (path : Parts) : Files :=
  ⟨files.entries.filter fun entry => ¬ path <+: entry.1⟩

/-- Something new stands at a path, with nothing below it. -/
def put (files : Files) (path : Parts) (node : Node) : Files :=
  ⟨(path, node) :: (files.erase path).entries⟩

/-- What stands at a path is changed. -/
def modify (files : Files) (path : Parts) (f : Node → Node) : Files :=
  ⟨files.entries.map fun entry => (entry.1, if entry.1 = path then f entry.2 else entry.2)⟩

/-- The names in a directory, in order. -/
def names (files : Files) (directory : Parts) : List String :=
  ((files.entries.filterMap fun entry =>
    if entry.1 ≠ [] ∧ entry.1.dropLast = directory then entry.1.getLast? else none).dedup).mergeSort
      (· ≤ ·)

variable {files : Files} {path path' : Parts} {node : Node}

theorem lookup_cons_eq (entry : Parts × Node) (entries : List (Parts × Node)) :
    (entry :: entries).lookup path =
      if path = entry.1 then some entry.2 else entries.lookup path := by
  by_cases h : path = entry.1
  · rw [lookup_cons, if_pos h, beq_iff_eq.2 h]
  · rw [lookup_cons, if_neg h, beq_eq_false_iff_ne.2 h]

theorem lookup_filter (p : Parts → Bool) (entries : List (Parts × Node)) :
    (entries.filter fun entry => p entry.1).lookup path =
      if p path then entries.lookup path else none := by
  induction entries with
  | nil => simp
  | cons entry entries ih =>
    rw [filter_cons, lookup_cons_eq]
    by_cases hpath : path = entry.1
    · subst hpath
      by_cases hp : p entry.1
      · rw [if_pos hp, lookup_cons_eq, if_pos rfl, if_pos hp]
        simp
      · rw [if_neg hp, ih, if_neg hp, if_neg hp]
    · rw [if_neg hpath, ← ih]
      split
      · rw [lookup_cons_eq, if_neg hpath]
      · rfl

theorem lookup_map (f : Parts → Node → Node) (entries : List (Parts × Node)) :
    (entries.map fun entry => (entry.1, f entry.1 entry.2)).lookup path =
      (entries.lookup path).map (f path) := by
  induction entries with
  | nil => rfl
  | cons entry entries ih =>
    rw [map_cons, lookup_cons_eq, lookup_cons_eq, ih]
    split
    · next h => rw [h, Option.map_some]
    · rfl

theorem at?_erase (hne : path ≠ []) :
    (files.erase path).at? path' = if path <+: path' then none else files.at? path' := by
  have hlookup := @lookup_filter path' (fun p => ¬ path <+: p) files.entries
  rw [at?, at?]
  by_cases hnil : path' = []
  · rw [if_pos hnil, if_pos hnil, if_neg]
    rw [hnil, prefix_nil]
    exact hne
  · rw [if_neg hnil, if_neg hnil, erase, hlookup]
    by_cases hbelow : path <+: path'
    · simp [hbelow]
    · simp [hbelow]

theorem at?_put (hne : path ≠ []) : (files.put path node).at? path' =
    if path' = path then some node else if path <+: path' then none else files.at? path' := by
  have herase := @at?_erase files path path' hne
  by_cases hpath : path' = path
  · rw [if_pos hpath, at?, if_neg (hpath ▸ hne), put, lookup_cons_eq, if_pos hpath]
  · rw [if_neg hpath, ← herase, at?, at?, put, lookup_cons_eq, if_neg hpath]

@[simp] theorem at?_put_self (hne : path ≠ []) : (files.put path node).at? path = some node := by
  rw [at?_put hne, if_pos rfl]

theorem at?_modify (hne : path ≠ []) (f : Node → Node) : (files.modify path f).at? path' =
    if path' = path then (files.at? path).map f else files.at? path' := by
  have hlookup := @lookup_map path' (fun p node => if p = path then f node else node) files.entries
  by_cases hpath : path' = path
  · subst hpath
    rw [if_pos rfl, at?, at?, if_neg hne, if_neg hne, modify, hlookup]
    simp
  · rw [if_neg hpath, at?, at?, modify, hlookup]
    simp [hpath]

/-- **A new directory is empty.** -/
theorem names_put : (files.put path node).names path = [] := by
  have hnone : ((files.put path node).entries.filterMap fun entry =>
      if entry.1 ≠ [] ∧ entry.1.dropLast = path then entry.1.getLast? else none) = [] := by
    rw [filterMap_eq_nil_iff]
    rintro ⟨p, n⟩ hmem
    rw [if_neg]
    rintro ⟨hne, hdrop⟩
    rcases mem_cons.1 hmem with heq | hmem
    · rw [Prod.mk.injEq] at heq
      obtain ⟨rfl, -⟩ := heq
      have hlength : p.dropLast.length = p.length := congrArg List.length hdrop
      have hpos : 0 < p.length := length_pos_iff.2 hne
      rw [length_dropLast] at hlength
      omega
    · have hbelow : ¬ path <+: p := by simpa using (mem_filter.1 hmem).2
      exact hbelow (hdrop ▸ dropLast_prefix p)
  rw [names, hnone, dedup_nil, mergeSort_nil]

end Files

/-! ## The platform -/

/-- What the platform decides. -/
structure System where
  /-- The bits a new file does not get. -/
  umask : Nat
  /-- The process belongs to the group its files get. -/
  ofGroup : Bool
  /-- The process may keep the set-id bits of what it writes to. -/
  privileged : Bool
  /-- How much of a text the n-th call writes, if there is as much. -/
  progress : Nat → Nat
  progress_pos : ∀ n, 0 < progress n
  /-- The hexadecimal digest of a content. -/
  sha256 : Bytes → String
  /-- The part of a temporary name drawn before the n-th call. -/
  token : Nat → String
  /-- What Git answers for the revision: the token of a path and the digest of its content. -/
  revision : Except Failure (Parts → String → String)
  /-- What Git answers for the object of a content. -/
  gitObject : Bytes → Except Failure String

namespace System

variable (system : System) (mode : Nat)

def digest (content : Bytes) : String := "sha256:" ++ system.sha256 content

/-- The mode a new file or directory gets. -/
def masked : Nat := mode &&& (0o7777 ^^^ (system.umask &&& 0o7777))

/-- The mode after a change to it: outside its group a process cannot set the group bit. -/
def changed : Nat :=
  if system.ofGroup ∨ system.privileged then mode else mode &&& 0o5777

/-- The mode of a file after a write: a process without the right clears the set-id bits, that of
the group where the group may execute. -/
def written : Nat :=
  if system.privileged then mode
  else if mode &&& 0o010 = 0 then mode &&& 0o3777 else mode &&& 0o1777

/-- The mode a staged file has in the end: it is changed once, then the content is written. -/
def settled (content : Bytes) : Nat :=
  if content = [] then system.changed mode else system.written (system.changed mode)

variable {system mode}

/-- **Later writes leave the mode as the first one did.** -/
theorem written_written : system.written (system.written mode) = system.written mode := by
  unfold written
  split
  · rfl
  · split
    · next h =>
      have hbits : mode &&& 0o3777 &&& 0o010 = 0 := by
        rw [Nat.and_assoc]
        exact h
      rw [if_pos hbits, Nat.and_assoc, Nat.and_self]
    · next h =>
      have hbits : ¬ mode &&& 0o1777 &&& 0o010 = 0 := by
        rw [Nat.and_assoc]
        exact h
      rw [if_neg hbits, Nat.and_assoc, Nat.and_self]

end System

/-! ## System calls -/

/-- A program that works on files. -/
abbrev FileAction := Procedure Files Unit Fault Failure

/-- A call that looks at the files, or changes them. -/
def systemCall {α : Type} (f : Files → Except Failure (α × Files)) : FileAction α :=
  .call Fault.failure fun files _ => do
    let (a, files') ← f files
    .ok (a, files', ())

/-- `os.open` of a directory, without following links. -/
def openDirectory (path : Parts) : FileAction Unit :=
  systemCall fun files =>
    match files.at? path with
    | some (.directory _) => .ok ((), files)
    | some _ => .error (.os .notADirectory)
    | none => .error (.os .fileNotFound)

/-- `os.stat` without following links; `none` when nothing is there. -/
def statAt (path : Parts) : FileAction (Option Node) :=
  systemCall fun files => .ok (files.at? path, files)

/-- `Path.lstat`: the part before has to be a directory. -/
def lstat (path : Parts) : FileAction (Option Node) :=
  systemCall fun files =>
    match files.at? path.dropLast with
    | some (.directory _) => .ok (files.at? path, files)
    | some _ => .error (.os .notADirectory)
    | none => .ok (none, files)

/-- `os.open` for reading, without following links. -/
def openFile (path : Parts) : FileAction Unit :=
  systemCall fun files =>
    match files.at? path with
    | some .symlink => .error (.os .os)
    | some _ => .ok ((), files)
    | none => .error (.os .fileNotFound)

/-- `os.fstat` of an open file. -/
def fstat (path : Parts) : FileAction (Option Node) :=
  systemCall fun files => .ok (files.at? path, files)

/-- Read an open file to its end. -/
def readStream (path : Parts) : FileAction Bytes :=
  systemCall fun files =>
    match files.at? path with
    | some (.file content _) => .ok (content, files)
    | _ => .error (.os .os)

/-- `os.listdir` -/
def listdir (path : Parts) : FileAction (List String) :=
  systemCall fun files => .ok (files.names path, files)

/-- A call that shows in no file: `os.close`, `os.dup`, `os.fsync`. -/
def unseen : FileAction Unit := systemCall fun files => .ok ((), files)

/-- Put something at a path where nothing is, in a directory that is there. -/
def makeAt (path : Parts) (node : Node) : FileAction Unit :=
  systemCall fun files =>
    match files.at? path.dropLast, files.at? path with
    | some (.directory _), none => .ok ((), files.put path node)
    | some (.directory _), some _ => .error (.os .fileExists)
    | _, _ => .error (.os .fileNotFound)

/-- `os.open` with `O_CREAT | O_EXCL`. -/
def createFile (system : System) (path : Parts) (mode : Nat) : FileAction Unit :=
  makeAt path (.file [] (system.masked mode))

/-- `os.mkdir` -/
def mkdir (system : System) (path : Parts) (mode : Nat) : FileAction Unit :=
  makeAt path (.directory (system.masked mode))

/-- `os.fchmod` -/
def fchmod (system : System) (path : Parts) (mode : Nat) : FileAction Unit :=
  systemCall fun files =>
    match files.at? path with
    | some (.file content _) =>
      .ok ((), files.modify path fun _ => .file content (system.changed mode))
    | some (.directory _) =>
      .ok ((), files.modify path fun _ => .directory (system.changed mode))
    | _ => .error (.os .os)

/-- `os.write` of at most so many bytes of a text; how many were written. -/
def writeSome (system : System) (path : Parts) (content : Bytes) (limit : Nat) : FileAction Nat :=
  systemCall fun files =>
    match files.at? path with
    | some (.file before mode) =>
      .ok (min limit content.length,
        files.modify path fun _ => .file (before ++ content.take limit) (system.written mode))
    | _ => .error (.os .os)

/-- `os.replace` -/
def replaceFile (source destination : Parts) : FileAction Unit :=
  systemCall fun files =>
    match files.at? source, files.at? destination with
    | none, _ => .error (.os .fileNotFound)
    | some _, some (.directory _) => .error (.os .isADirectory)
    | some node, _ => .ok ((), (files.erase source).put destination node)

/-- `os.rmdir` -/
def rmdir (path : Parts) : FileAction Unit :=
  systemCall fun files =>
    match files.at? path with
    | some (.directory _) =>
      if files.names path = [] then .ok ((), files.erase path) else .error (.os .os)
    | some _ => .error (.os .notADirectory)
    | none => .error (.os .fileNotFound)

/-- `os.unlink` -/
def unlink (path : Parts) : FileAction Unit :=
  systemCall fun files =>
    match files.at? path with
    | some (.directory _) => .error (.os .isADirectory)
    | some _ => .ok ((), files.erase path)
    | none => .error (.os .fileNotFound)

/-- `os.unlink`, where a missing file is no error. -/
def unlinkIfPresent (path : Parts) : FileAction Unit :=
  systemCall fun files =>
    match files.at? path with
    | some (.directory _) => .error (.os .isADirectory)
    | some _ => .ok ((), files.erase path)
    | none => .ok ((), files)

/-- `os.link` -/
def link (source destination : Parts) : FileAction Unit :=
  systemCall fun files =>
    match files.at? source, files.at? destination.dropLast, files.at? destination with
    | none, _, _ => .error (.os .fileNotFound)
    | some (.directory _), _, _ => .error (.os .permission)
    | some node, some (.directory _), none => .ok ((), files.put destination node)
    | some _, some (.directory _), some _ => .error (.os .fileExists)
    | some _, _, _ => .error (.os .fileNotFound)

end Mishkan.Edits
