import Mishkan.Domain.Errors
import Mishkan.Foundations.Dynamic
import Mishkan.Foundations.Lines
import Mishkan.Foundations.Refusal
import Mishkan.Foundations.StackWalk

/-!
# Tools/FileList — the listing of a directory, page by page

`FileListAdapter` walks a directory with a stack of its own, sorts what it has kept by path, and
returns one page with a cursor for the next.  A name is any sequence of bytes: texts stand for the
ones that are no UTF-8 by surrogate escapes, and only the encoding of such a text fails.
-/

namespace Mishkan

open Refusal Lines

namespace FileList

/-! ## Directories -/

/-- A name of a file, or a path. -/
abbrev Name := List UInt8

/-- What is at a place of a file system, with the errors that opening it ends in; a child has the
error that asking for its type ends in. -/
inductive Node where
  | file (size : ℕ)
  | directory (fault : Option String) (children : List (Name × Option String × Node))
  | symlink (fault : Option String) (target : Name)
  | special

/-- An entry of a directory: its name, the error of `lstat`, and what it is. -/
abbrev Child := Name × Option String × Node

inductive ObjectType where
  | file | directory | symlink | special
deriving DecidableEq

namespace Node

/-- `_object_type` -/
def objectType : Node → ObjectType
  | file _ => .file
  | directory _ _ => .directory
  | symlink _ _ => .symlink
  | special => .special

/-- The entries of a directory. -/
def children : Node → List Child
  | directory _ children => children
  | _ => []

/-- The error that opening a directory, or reading a link, ends in. -/
def fault : Node → Option String
  | directory fault _ => fault
  | symlink fault _ => fault
  | _ => none

mutual

/-- The number of nodes of a tree. -/
def size : Node → ℕ
  | directory _ children => sizes children + 1
  | _ => 1

def sizes : List (Name × Option String × Node) → ℕ
  | [] => 0
  | (_, _, node) :: rest => node.size + sizes rest

end

theorem sizes_eq (children : List Child) :
    sizes children = (children.map fun child => child.2.2.size).sum := by
  induction children with
  | nil => rfl
  | cons child children ih => rw [sizes, ih, List.map_cons, List.sum_cons]

theorem sizes_perm {children children' : List Child} (h : children.Perm children') :
    sizes children = sizes children' := by
  rw [sizes_eq, sizes_eq]
  exact (h.map _).sum_eq

end Node

/-- `path.as_posix()`, of a relative path. -/
def posix (path : List Name) : Name := List.intercalate [0x2F] path

/-- The bytes that are compared. -/
def bytes (name : Name) : List ℕ := name.map UInt8.toNat

/-- `text.encode()`, of the text that stands for a name. -/
def encode? (name : Name) : Option (List ℕ) :=
  if (decode? name).isSome then some (bytes name) else none

/-! ## Queries -/

/-- The arguments of a listing; the schema of the tool wants positive bounds. -/
structure Arguments (π : Type) where
  path : String
  recursive : Option Bool := none
  maxDepth : Option {n : ℕ // 1 ≤ n} := none
  includes : Option (List π) := none
  excludes : Option (List π) := none
  includeHidden : Option Bool := none
  followLinks : Option Bool := none
  objectTypes : Option (List ObjectType) := none
  maxResults : Option ℕ := none
  cursor : Option String := none

structure Entry where
  path : Name
  objectType : ObjectType
  depth : ℕ
  size : Option ℕ
  linkTarget : Option Name
deriving DecidableEq

/-- The first digits of a hash. -/
abbrev Hash16 := {text : String // text.length = 16 ∧ ':' ∉ text.toList}

/-- What is there besides the adapter: patterns, and the hashes of canonical texts. -/
structure ListLibrary (π : Type) where
  fnmatchcase : Name → π → Bool
  /-- The pattern `*`. -/
  every : π
  /-- Of the arguments besides the cursor. -/
  queryHash : Arguments π → Hash16
  viewHash : List Entry → Hash16

structure FileListAdapter (π : Type) where
  library : ListLibrary π
  maxResults : ℕ
  maxTraversalEntries : ℕ

/-- What a listing is asked for. -/
structure Query (π : Type) where
  recursive : Bool
  maxDepth : ℕ
  includes : List π
  excludes : List π
  includeHidden : Bool
  objectTypes : List ObjectType

variable {π : Type}

def Arguments.query (arguments : Arguments π) (library : ListLibrary π) : Query π :=
  let recursive := arguments.recursive.getD false
  { recursive := recursive
    maxDepth := (arguments.maxDepth.map Subtype.val).getD (if recursive then 32 else 1)
    includes := arguments.includes.getD [library.every]
    excludes := arguments.excludes.getD []
    includeHidden := arguments.includeHidden.getD false
    objectTypes := arguments.objectTypes.getD [] }

/-- The arguments with another cursor. -/
def Arguments.withCursor (arguments : Arguments π) (cursor : Option String) : Arguments π :=
  { arguments with cursor := cursor }

/-! ## The walk -/

/-- A part of the path is hidden. -/
def isHidden (path : List Name) : Bool := path.any fun name => name.head? = some 0x2E

/-- Neither the object nor what is below it is looked at. -/
def Query.skips (query : Query π) (library : ListLibrary π) (path : List Name) : Bool :=
  (!query.includeHidden && isHidden path) ||
    query.excludes.any fun pattern => library.fnmatchcase (posix path) pattern

/-- The path and the type are asked for. -/
def Query.keeps (query : Query π) (library : ListLibrary π) (path : List Name) (node : Node) :
    Bool :=
  (query.includes.any fun pattern => library.fnmatchcase (posix path) pattern) &&
    (query.objectTypes.isEmpty || query.objectTypes.contains node.objectType)

/-- The entry of an object. -/
def entry (path : List Name) (depth : ℕ) (node : Node) : Entry :=
  { path := posix path
    objectType := node.objectType
    depth := depth
    size := match node with
      | .file size => some size
      | _ => none
    linkTarget := match node with
      | .symlink _ target => some target
      | _ => none }

/-- A directory that is pending, with what `scandir` says of it. -/
structure Directory where
  path : List Name
  depth : ℕ
  fault : Option String
  children : List Child

def Directory.size (directory : Directory) : ℕ := Node.sizes directory.children + 1

structure Walk where
  entries : List Entry := []
  inaccessible : List (Name × String) := []
  visited : ℕ := 0
  traversalLimited : Bool := false
  /-- The directory that is popped next is in front. -/
  pending : List Directory

/-- The directories below an entry that are pushed. -/
def Query.enters (query : Query π) (path : List Name) (depth : ℕ) (node : Node) : List Directory :=
  match node with
  | .directory fault children =>
    if query.recursive ∧ depth < query.maxDepth then [⟨path, depth, fault, children⟩] else []
  | _ => []

/-- An object that is asked for; a link is read. -/
def Walk.observe (w : Walk) (path : List Name) (depth : ℕ) (node : Node) : Walk :=
  match node with
  | .symlink (some error) _ => { w with inaccessible := w.inaccessible ++ [(posix path, error)] }
  | node => { w with entries := w.entries ++ [entry path depth node] }

@[simp] theorem Walk.pending_observe (w : Walk) (path : List Name) (depth : ℕ) (node : Node) :
    (w.observe path depth node).pending = w.pending := by
  unfold Walk.observe
  split <;> rfl

/-- One entry of a directory, from where it is counted. -/
def visitChild (library : ListLibrary π) (query : Query π) (directory : Directory) (w : Walk) :
    Child → Walk
  | (name, fault, node) =>
    let path := directory.path ++ [name]
    let depth := directory.depth + 1
    if query.skips library path then w
    else
      match fault with
      | some error => { w with inaccessible := w.inaccessible ++ [(posix path, error)] }
      | none =>
        let w := { w with pending := query.enters path depth node ++ w.pending }
        if query.keeps library path node then w.observe path depth node else w

/-- The loop over the entries of a directory. -/
def visitChildren (adapter : FileListAdapter π) (query : Query π) (directory : Directory) :
    List Child → Walk → Walk
  | [], w => w
  | child :: rest, w =>
    let w := { w with visited := w.visited + 1 }
    if adapter.maxTraversalEntries < w.visited then { w with traversalLimited := true }
    else
      visitChildren adapter query directory rest
        (visitChild adapter.library query directory w child)

/-- The entries of a directory in the order they are visited in. -/
def ordered (children : List Child) : List Child :=
  children.insertionSort fun a b => bytes a.1 ≤ bytes b.1

/-- One directory. -/
def visitDirectory (adapter : FileListAdapter π) (query : Query π) (directory : Directory)
    (w : Walk) : Walk :=
  match directory.fault with
  | some error =>
    let relative := if directory.path = [] then [0x2E] else posix directory.path
    { w with inaccessible := w.inaccessible ++ [(relative, error)] }
  | none => visitChildren adapter query directory (ordered directory.children) w

/-- What is pending, in numbers of nodes. -/
def Walk.weight (w : Walk) : ℕ := (w.pending.map Directory.size).sum

theorem Query.sum_size_enters_le (query : Query π) (path : List Name) (depth : ℕ) (node : Node) :
    ((query.enters path depth node).map Directory.size).sum ≤ node.size := by
  cases node with
  | directory fault children =>
    rw [Query.enters]
    split_ifs
    · simp [Directory.size, Node.size]
    · simp
  | _ => simp [Query.enters]

theorem weight_visitChild_le (library : ListLibrary π) (query : Query π) (directory : Directory)
    (w : Walk) (child : Child) :
    (visitChild library query directory w child).weight ≤ w.weight + child.2.2.size := by
  obtain ⟨name, fault, node⟩ := child
  have hpushed : ∀ path depth, (((query.enters path depth node ++ w.pending).map
      Directory.size).sum) ≤ w.weight + node.size := by
    intro path depth
    rw [List.map_append, List.sum_append, Walk.weight, add_comm]
    exact Nat.add_le_add_left (query.sum_size_enters_le path depth node) _
  simp only [visitChild]
  by_cases hskips : query.skips library (directory.path ++ [name])
  · rw [if_pos hskips]
    exact Nat.le_add_right _ _
  · rw [if_neg hskips]
    cases fault with
    | some error => exact Nat.le_add_right _ _
    | none =>
      dsimp only
      split_ifs
      · rw [Walk.weight, Walk.pending_observe]
        exact hpushed _ _
      · exact hpushed _ _

theorem weight_visitChildren_le (adapter : FileListAdapter π) (query : Query π)
    (directory : Directory) (children : List Child) (w : Walk) :
    (visitChildren adapter query directory children w).weight ≤ w.weight + Node.sizes children := by
  induction children generalizing w with
  | nil => exact Nat.le_add_right _ _
  | cons child rest ih =>
    obtain ⟨name, fault, node⟩ := child
    rw [visitChildren, Node.sizes, ← add_assoc]
    dsimp only
    split_ifs
    · exact Nat.le_add_right_of_le (Nat.le_add_right _ _)
    · exact (ih _).trans (Nat.add_le_add_right (weight_visitChild_le _ _ _ _ _) _)

theorem weight_visitDirectory_lt (adapter : FileListAdapter π) (query : Query π)
    (directory : Directory) (pending : List Directory) (w : Walk)
    (h : w.pending = directory :: pending) :
    (visitDirectory adapter query directory { w with pending := pending }).weight < w.weight := by
  have hweight : w.weight = (Node.sizes directory.children + 1) +
      ({ w with pending := pending } : Walk).weight := by
    rw [Walk.weight, h, List.map_cons, List.sum_cons]
    rfl
  rw [visitDirectory]
  split
  · change ({ w with pending := pending } : Walk).weight < _
    omega
  · have hchildren := weight_visitChildren_le adapter query directory (ordered directory.children)
      { w with pending := pending }
    have hsizes : Node.sizes (ordered directory.children) = Node.sizes directory.children :=
      Node.sizes_perm (List.perm_insertionSort _ _)
    omega

/-- The loop over the stack. -/
def walkLoop (adapter : FileListAdapter π) (query : Query π) (w : Walk) : Walk :=
  match _h : w.pending with
  | [] => w
  | directory :: pending =>
    if w.traversalLimited then w
    else
      walkLoop adapter query (visitDirectory adapter query directory { w with pending := pending })
termination_by w.weight
decreasing_by exact weight_visitDirectory_lt adapter query directory pending w _h

/-- `_walk` -/
def walk (adapter : FileListAdapter π) (query : Query π) (root : Node) : Walk :=
  walkLoop adapter query { pending := [⟨[], 0, root.fault, root.children⟩] }

/-! ## Cursors -/

/-- Digits with single underscores between them. -/
def underscored? : Text → Option (List ℕ)
  | [] => none
  | [c] => (Digits.decimal? c).map ([·])
  | c :: '_' :: rest => do return (← Digits.decimal? c) :: (← underscored? rest)
  | c :: rest => do return (← Digits.decimal? c) :: (← underscored? rest)

/-- White space around a number. -/
def isPadding (c : Char) : Bool := isSpace c && !('\x1c' ≤ c && c ≤ '\x1f')

/-- `int(text)`, if the text is a number. -/
def int? (text : Text) : Option ℤ :=
  let number := fun body : Text =>
    (underscored? body).map fun digits => (digits.foldl (fun n d => 10 * n + d) 0 : ℕ)
  match (text.dropWhile isPadding).rdropWhile isPadding with
  | '-' :: body => (number body).map fun n => -(n : ℤ)
  | '+' :: body => (number body).map fun n => (n : ℤ)
  | body => (number body).map fun n => (n : ℤ)

/-- A text up to the first colon, and from there on. -/
def cut? (text : Text) : Option (Text × Text) :=
  match text.dropWhile (· ≠ ':') with
  | [] => none
  | _ :: rest => some (text.takeWhile (· ≠ ':'), rest)

/-- A failure of a listing. -/
def listFault (message category : String) (details : JsonObject := []) : Raised :=
  fault .file message (("category", .str category) :: details)

/-- `_cursor_state` -/
def cursorState (cursor : Option String) (queryDigest : Hash16) :
    Except Raised (ℕ × Option Text) :=
  match cursor with
  | none => .ok (0, none)
  | some cursor => do
    let invalid := listFault "listing cursor is invalid" "invalid_query"
    let (digest, rest) ← require (cut? cursor.toList) invalid
    let (viewDigest, rawOffset) ← require (cut? rest) invalid
    let offset ← require (int? rawOffset) invalid
    refuseIf (digest ≠ queryDigest.1.toList ∨ viewDigest.length ≠ 16 ∨ offset < 0) <|
      listFault "listing cursor does not match the normalized query" "invalid_query"
    return (offset.toNat, some viewDigest)

/-- The cursor of the page that begins at an offset. -/
def continuation (queryDigest viewDigest : Hash16) (offset : ℕ) : String :=
  queryDigest.1 ++ ":" ++ viewDigest.1 ++ ":" ++ String.ofList (Nat.toDigits 10 offset)

/-! ## The listing -/

/-- What `stat` says of a target. -/
inductive Stat where
  | missing
  | denied
  | present (node : Node)

/-- A target that is resolved. -/
structure Target where
  relative : String
  absolute : Stat

structure IgnoreEvidence (π : Type) where
  hidden : Bool
  includes : List π
  excludes : List π

/-- The output of the adapter, less its constants, with the limit it gives as evidence. -/
structure Listing (π : Type) where
  root : String
  entries : List Entry
  queryDigest : Hash16
  viewDigest : Hash16
  ignoreEvidence : IgnoreEvidence π
  inaccessible : List (Name × String)
  truncated : Bool
  continuationCursor : Option String
  changedDuringList : Bool
  traversalEntriesLimit : ℕ

/-- The page at an offset of what is listed; the root has not changed in between. -/
def FileListAdapter.page (adapter : FileListAdapter π) (arguments : Arguments π)
    (relative : String) (limit offset : ℕ) (queryDigest : Hash16) (walk : Walk)
    (entries : List Entry) : Listing π :=
  let query := arguments.query adapter.library
  let viewDigest := adapter.library.viewHash entries
  let page := (entries.drop offset).take limit
  let nextOffset := offset + page.length
  let hasMore := nextOffset < entries.length
  { root := relative
    entries := page
    queryDigest := queryDigest
    viewDigest := viewDigest
    ignoreEvidence := ⟨query.includeHidden, query.includes, query.excludes⟩
    inaccessible := walk.inaccessible
    truncated := hasMore || walk.traversalLimited
    continuationCursor := if hasMore then some (continuation queryDigest viewDigest nextOffset)
      else none
    changedDuringList := false
    traversalEntriesLimit := adapter.maxTraversalEntries }

/-- `entries.sort(key=lambda item: str(item["path"]).encode())` -/
def sortedEntries (entries : List Entry) : Except Raised (List Entry) := do
  let _ ← require (entries.mapM fun e => encode? e.path)
    (.valueError "'utf-8' codec can't encode character: surrogates not allowed")
  return entries.insertionSort fun a b => bytes a.path ≤ bytes b.path

/-- `invoke` -/
def FileListAdapter.invoke (adapter : FileListAdapter π) (arguments : Arguments π)
    (target : Target) : Except Raised (Listing π) := do
  let path := [("path", .str target.relative)]
  refuseIf (target.absolute matches .denied) .osError
  let node ← require (match target.absolute with
      | .present node => some node
      | _ => none) (listFault "listing root was not found" "not_found" path)
  refuseIf (node.objectType ≠ .directory) <|
    listFault "listing requires a directory" "unsupported_type" path
  refuseIf (arguments.followLinks.getD false) <|
    listFault "link-following listing is not available in this adapter" "unsupported_type"
  let limit := arguments.maxResults.getD adapter.maxResults
  refuseIf (limit < 1 ∨ adapter.maxResults < limit) <|
    listFault "requested listing bound exceeds the configured limit" "result_limit"
      [("limit", .int adapter.maxResults)]
  let queryDigest := adapter.library.queryHash (arguments.withCursor none)
  let (offset, expected) ← cursorState arguments.cursor queryDigest
  let walk := walk adapter (arguments.query adapter.library) node
  let entries ← sortedEntries walk.entries
  refuseIf (expected.any (· ≠ (adapter.library.viewHash entries).1.toList)) <|
    listFault "listed view changed since the continuation cursor was issued"
      "changed_during_read"
  refuseIf (entries.length < offset) <|
    listFault "listing cursor is beyond the available result set" "invalid_query"
  return adapter.page arguments target.relative limit offset queryDigest walk entries

end FileList

end Mishkan
