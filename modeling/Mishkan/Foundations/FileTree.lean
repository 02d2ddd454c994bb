import Mathlib.Algebra.GroupWithZero.Nat
import Mathlib.Data.List.Nodup
import Mathlib.Data.String.Basic

/-!
# Foundations/FileTree — trees of files, and the paths in them

A node is a directory, a file, a symbolic link or something else; what cannot be opened keeps the
name of the error.  `Below` relates a node to what is found under it by a path whose every step is
visible; in a tree a path leads to one node only, and its text determines it.
-/

namespace FileTree

open List

/-- What is at a place of a file system, with the error that opening it ends in. -/
inductive Node where
  | directory (mode : Nat) (fault : Option String) (children : List (String × Node))
  | file (mode : Nat) (fault : Option String) (content : List UInt8)
  | symlink (mode : Nat) (fault : Option String) (target : String)
  | special (mode : Nat)
  /-- Nothing is known of it but the error. -/
  | unknown (fault : String)

namespace Node

/-- The entries of a directory. -/
def children : Node → List (String × Node)
  | directory _ _ children => children
  | _ => []

def isDirectory : Node → Bool
  | directory _ _ _ => true
  | _ => false

/-- A directory whose entries can be read, or no directory. -/
def isListed : Node → Bool
  | directory _ fault _ => fault.isNone
  | _ => true

theorem isListed_of_not_isDirectory {node : Node} (h : node.isDirectory = false) :
    node.isListed = true := by
  cases node with
  | directory => cases h
  | _ => rfl

mutual

/-- The number of nodes of a tree. -/
def size : Node → Nat
  | directory _ _ children => sizes children + 1
  | _ => 1

def sizes : List (String × Node) → Nat
  | [] => 0
  | (_, node) :: rest => node.size + sizes rest

end

theorem size_pos (node : Node) : 0 < node.size := by
  cases node <;> simp [size]

theorem sizes_eq (children : List (String × Node)) :
    sizes children = (children.map fun child => child.2.size).sum := by
  induction children with
  | nil => rfl
  | cons child children ih => rw [sizes, ih, map_cons, sum_cons]

end Node

/-- What an entry of a directory may be called. -/
def IsName (name : String) : Prop := name ≠ "" ∧ name ≠ "." ∧ '/' ∉ name.toList

/-- No directory has an entry twice. -/
inductive IsTree : Node → Prop where
  | intro {node : Node} (hnodup : (node.children.map Prod.fst).Nodup)
    (hnames : ∀ child ∈ node.children, IsName child.1)
    (htrees : ∀ child ∈ node.children, IsTree child.2) : IsTree node

/-- A tree of files, by its root. -/
structure Tree where
  root : Node
  isTree : IsTree root

/-! ## Paths -/

/-- One path in a tree, step by step from a node. -/
inductive Below (visible : List String → Bool) :
    List String → Node → List String → Node → Prop where
  | child {path : List String} {node c : Node} {name : String} (h : (name, c) ∈ node.children)
    (hvisible : visible (path ++ [name]) = true) : Below visible path node (path ++ [name]) c
  | deeper {path path' : List String} {node c node' : Node} {name : String}
    (h : (name, c) ∈ node.children) (hvisible : visible (path ++ [name]) = true)
    (hbelow : Below visible (path ++ [name]) c path' node') : Below visible path node path' node'

section Below

variable {visible : List String → Bool} {path path' : List String} {node a b : Node}

/-- A path goes on from where it starts. -/
theorem Below.exists_append (h : Below visible path node path' a) :
    ∃ name rest, path' = path ++ name :: rest := by
  induction h with
  | child => exact ⟨_, [], rfl⟩
  | deeper _ _ _ ih =>
    obtain ⟨name, rest, rfl⟩ := ih
    exact ⟨_, name :: rest, by rw [append_assoc, singleton_append]⟩

theorem eq_of_mem_children (h : IsTree node) {name : String} (ha : (name, a) ∈ node.children)
    (hb : (name, b) ∈ node.children) : a = b := by
  obtain ⟨hnodup, -, -⟩ := h
  exact (Prod.mk.inj (inj_on_of_nodup_map hnodup ha hb rfl)).2

/-- **In a tree a path leads to one node.** -/
theorem Below.unique (htree : IsTree node) (ha : Below visible path node path' a)
    (hb : Below visible path node path' b) : a = b := by
  induction ha with
  | child h _ =>
    generalize heq : _ ++ [_] = q at hb
    cases hb with
    | child h' _ =>
      obtain rfl := singleton_inj.mp (append_cancel_left heq)
      exact eq_of_mem_children htree h h'
    | deeper _ _ hbelow =>
      obtain ⟨name, rest, hrest⟩ := hbelow.exists_append
      rw [hrest, append_assoc] at heq
      simpa using append_cancel_left heq
  | deeper h _ hbelow ih =>
    obtain ⟨name, rest, hrest⟩ := hbelow.exists_append
    cases hb with
    | child =>
      rw [append_assoc] at hrest
      simpa using append_cancel_left hrest
    | deeper h' _ hbelow' =>
      obtain ⟨name', rest', hrest'⟩ := hbelow'.exists_append
      rw [hrest, append_assoc, append_assoc] at hrest'
      obtain rfl := (List.cons.inj (append_cancel_left hrest')).1
      obtain rfl := eq_of_mem_children htree h h'
      obtain ⟨-, -, htrees⟩ := htree
      exact ih (htrees _ h) hbelow'

/-- A path can be made longer by an entry of where it leads. -/
theorem Below.snoc (h : Below visible path node path' a) {name : String}
    (hb : (name, b) ∈ a.children) (hvisible : visible (path' ++ [name]) = true) :
    Below visible path node (path' ++ [name]) b := by
  induction h with
  | child hmem hv => exact .deeper hmem hv (.child hb hvisible)
  | deeper hmem hv _ ih => exact .deeper hmem hv (ih hb hvisible)

/-- Only a directory has something below it. -/
theorem Below.isDirectory (h : Below visible path node path' a) : node.isDirectory = true := by
  have hne : node.children ≠ [] := by
    cases h with
    | child hmem => exact ne_nil_of_mem hmem
    | deeper hmem => exact ne_nil_of_mem hmem
  cases node with
  | directory => rfl
  | _ => exact absurd rfl hne

/-- Every step of a path has a name. -/
theorem Below.forall_isName (htree : IsTree node) (h : Below visible path node path' a)
    (hpath : ∀ name ∈ path, IsName name) : ∀ name ∈ path', IsName name := by
  induction h with
  | child h _ =>
    obtain ⟨-, hnames, -⟩ := htree
    exact forall_mem_append.mpr ⟨hpath, forall_mem_singleton.mpr (hnames _ h)⟩
  | deeper h _ _ ih =>
    obtain ⟨-, hnames, htrees⟩ := htree
    exact ih (htrees _ h)
      (forall_mem_append.mpr ⟨hpath, forall_mem_singleton.mpr (hnames _ h)⟩)

end Below

/-! ## Texts of paths -/

/-- `path.as_posix()`, of a relative path. -/
def posix (path : List String) : String :=
  String.ofList (List.intercalate ['/'] (path.map String.toList))

theorem splitOn_posix {path : List String} (hne : path ≠ []) (hnames : ∀ name ∈ path, IsName name) :
    (posix path).toList.splitOn '/' = path.map String.toList := by
  rw [posix, String.toList_ofList]
  refine splitOn_intercalate _ ?_ (by simpa using hne)
  intro text htext
  obtain ⟨name, hname, rfl⟩ := mem_map.mp htext
  exact (hnames name hname).2.2

/-- The text of a path begins with its first name. -/
theorem exists_posix_cons {path : List String} (hne : path ≠ [])
    (hnames : ∀ name ∈ path, IsName name) :
    ∃ c text, (posix path).toList = c :: text ∧ c ≠ '/' := by
  obtain ⟨name, rest, rfl⟩ := exists_cons_of_ne_nil hne
  obtain ⟨hempty, -, hslash⟩ := hnames name mem_cons_self
  obtain ⟨c, text, htext⟩ : ∃ c text, name.toList = c :: text :=
    exists_cons_of_ne_nil fun hnil => hempty (String.toList_inj.mp hnil)
  have hc : c ≠ '/' := fun heq => hslash (htext ▸ heq ▸ mem_cons_self)
  cases rest with
  | nil => exact ⟨c, text, by simp [posix, htext], hc⟩
  | cons next rest =>
    exact ⟨c, _, by simp [posix, htext, List.intercalate]; rfl, hc⟩

/-- **The text of a path determines it.** -/
theorem posix_inj {path path' : List String} (hne : path ≠ []) (hne' : path' ≠ [])
    (hpath : ∀ name ∈ path, IsName name) (hpath' : ∀ name ∈ path', IsName name)
    (h : posix path = posix path') : path = path' := by
  have hmap := (splitOn_posix hne hpath).symm.trans
    ((congrArg (fun text => text.toList.splitOn '/') h).trans (splitOn_posix hne' hpath'))
  exact map_injective_iff.mpr (fun _ _ => String.toList_inj.mp) hmap

end FileTree
