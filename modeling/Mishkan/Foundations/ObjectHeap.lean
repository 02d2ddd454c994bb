import Mishkan.Foundations.Overlay
import Mishkan.Foundations.Refusal

/-!
# Foundations/ObjectHeap — documents as objects that refer to one another

A heap has an object for a label, and the objects refer to others by their labels.  A document is
held by a heap that has each of its nodes; `unfold` reads a document back, and what is not at one of
its labels does not matter to it (`Holds.frame`).
-/

namespace Overlay

open List Overlay.Tree

variable {κ α ι ε : Type}

/-- What stands in an object: a value, or another object. -/
inductive Cell (α ι : Type) where
  | atom (a : α)
  | ref (i : ι)

inductive Obj (κ α ι : Type) where
  | mapping (entries : List (κ × Cell α ι))
  | sequence (items : List (Cell α ι))

abbrev Heap (κ α ι : Type) := ι → Option (Obj κ α ι)

/-- The object at a label is a mapping. -/
def Heap.isMapping (h : Heap κ α ι) : Cell α ι → Bool
  | .ref i =>
    match h i with
    | some (.mapping _) => true
    | _ => false
  | .atom _ => false

/-- The entries of the mapping at a label. -/
def Heap.entries (h : Heap κ α ι) (i : ι) : List (κ × Cell α ι) :=
  match h i with
  | some (.mapping entries) => entries
  | _ => []

/-- How a document stands in an object. -/
def Tree.cell : Tree κ α ι → Cell α ι
  | leaf a => .atom a
  | sequence i _ => .ref i
  | mapping i _ => .ref i

def cells (es : List (κ × Tree κ α ι)) : List (κ × Cell α ι) := es.map fun e => (e.1, e.2.cell)

mutual

/-- The objects of a document. -/
def Tree.nodes : Tree κ α ι → List (ι × Obj κ α ι)
  | .leaf _ => []
  | .sequence i items => (i, .sequence (items.map cell)) :: nodesItems items
  | .mapping i entries => (i, .mapping (cells entries)) :: nodesEntries entries

def nodesItems : List (Tree κ α ι) → List (ι × Obj κ α ι)
  | [] => []
  | t :: ts => t.nodes ++ nodesItems ts

def nodesEntries : List (κ × Tree κ α ι) → List (ι × Obj κ α ι)
  | [] => []
  | (_, t) :: es => t.nodes ++ nodesEntries es

end

/-- The labels of the objects of a document. -/
def Tree.labels (t : Tree κ α ι) : List ι := t.nodes.map Prod.fst

/-- The heap has every object of the document. -/
def Holds (h : Heap κ α ι) (t : Tree κ α ι) : Prop := ∀ n ∈ t.nodes, h n.1 = some n.2

/-- A document, from its objects; `stuck` when there is none, or they go too deep. -/
def unfold (stuck : ε) (h : Heap κ α ι) : Nat → Cell α ι → Except ε (Tree κ α ι)
  | _, .atom a => .ok (.leaf a)
  | 0, .ref _ => .error stuck
  | fuel + 1, .ref i =>
    match h i with
    | none => .error stuck
    | some (.mapping entries) =>
      (entries.mapM fun e => (unfold stuck h fuel e.2).map (Prod.mk e.1)).map (.mapping i)
    | some (.sequence items) => (items.mapM (unfold stuck h fuel)).map (.sequence i)

section

variable {h h' : Heap κ α ι} {t : Tree κ α ι} {ts : List (Tree κ α ι)}
  {es : List (κ × Tree κ α ι)} {i j : ι}

theorem nodesItems_eq : nodesItems ts = ts.flatMap nodes := by
  induction ts with
  | nil => rfl
  | cons t ts ih => rw [nodesItems, ih, flatMap_cons]

theorem nodesEntries_eq : nodesEntries es = es.flatMap fun e => e.2.nodes := by
  induction es with
  | nil => rfl
  | cons e es ih => rw [nodesEntries, ih, flatMap_cons]

theorem mem_labels_mapping : j ∈ (mapping i es).labels ↔ j = i ∨ ∃ e ∈ es, j ∈ e.2.labels := by
  simp only [labels, nodes, nodesEntries_eq, map_cons, mem_cons, mem_map,
    mem_flatMap]
  constructor
  · rintro (rfl | ⟨n, ⟨e, he, hn⟩, rfl⟩)
    · exact .inl rfl
    · exact .inr ⟨e, he, n, hn, rfl⟩
  · rintro (rfl | ⟨e, he, n, hn, rfl⟩)
    · exact .inl rfl
    · exact .inr ⟨n, ⟨e, he, hn⟩, rfl⟩

theorem holds_mapping :
    Holds h (.mapping i es) ↔ h i = some (.mapping (cells es)) ∧ ∀ e ∈ es, Holds h e.2 := by
  simp only [Holds, nodes, nodesEntries_eq, forall_mem_cons, mem_flatMap]
  exact and_congr_right fun _ => ⟨fun hall e he n hn => hall n ⟨e, he, hn⟩,
    fun hall n ⟨e, he, hn⟩ => hall e he n hn⟩

theorem holds_sequence : Holds h (.sequence i ts) ↔
      h i = some (.sequence (ts.map cell)) ∧ ∀ t ∈ ts, Holds h t := by
  simp only [Holds, nodes, nodesItems_eq, forall_mem_cons, mem_flatMap]
  exact and_congr_right fun _ => ⟨fun hall t ht n hn => hall n ⟨t, ht, hn⟩,
    fun hall n ⟨t, ht, hn⟩ => hall t ht n hn⟩

/-- **What changes elsewhere does not change a document.** -/
theorem Holds.frame (ht : Holds h t) (hsame : ∀ i ∈ t.labels, h' i = h i) : Holds h' t :=
  fun n hn => (hsame n.1 (mem_map_of_mem hn)).trans (ht n hn)

/-- A mapping of the heap is a mapping of the document. -/
theorem Holds.isMapping_cell (ht : Holds h t) : h.isMapping t.cell = t.isMapping := by
  cases t with
  | leaf a => rfl
  | sequence i ts =>
    have hi := (holds_sequence.mp ht).1
    simp only [cell, Heap.isMapping, hi, isMapping]
  | mapping i es =>
    have hi := (holds_mapping.mp ht).1
    simp only [cell, Heap.isMapping, hi, isMapping]

theorem Holds.entries_cells (ht : Holds h (.mapping i es)) : h.entries i = cells es := by
  rw [Heap.entries, (holds_mapping.mp ht).1]

/-- **A document that is held is what is read back.** -/
theorem unfold_of_holds {stuck : ε} {fuel : ℕ} {u : Tree κ α ι} (ht : Holds h t)
    (hu : unfold stuck h fuel t.cell = .ok u) : u = t := by
  induction fuel generalizing t u with
  | zero =>
    cases t with
    | leaf a =>
      rw [cell, unfold] at hu
      exact (Except.ok.inj hu).symm
    | _ => cases hu
  | succ fuel ih =>
    cases t with
    | leaf a =>
      rw [cell, unfold] at hu
      exact (Except.ok.inj hu).symm
    | sequence i ts =>
      obtain ⟨hi, hts⟩ := holds_sequence.mp ht
      simp only [cell, unfold, hi] at hu
      obtain ⟨us, hus, rfl⟩ := Refusal.map_eq_ok.mp hu
      rw [Refusal.mapM_eq_ok, forall₂_map_left_iff] at hus
      have heq : us = ts := by
        clear hu hi ht
        induction hus with
        | nil => rfl
        | cons hread _ ihus =>
          rw [forall_mem_cons] at hts
          rw [ih hts.1 hread, ihus hts.2]
      rw [heq]
    | mapping i es =>
      obtain ⟨hi, hes⟩ := holds_mapping.mp ht
      simp only [cell, unfold, hi] at hu
      obtain ⟨us, hus, rfl⟩ := Refusal.map_eq_ok.mp hu
      rw [Refusal.mapM_eq_ok, cells, forall₂_map_left_iff] at hus
      have heq : us = es := by
        clear hu hi ht
        induction hus with
        | nil => rfl
        | cons hread _ ihus =>
          rw [forall_mem_cons] at hes
          obtain ⟨v, hv, rfl⟩ := Refusal.map_eq_ok.mp hread
          rw [ih hes.1 hv, ihus hes.2]
      rw [heq]

/-- One bound for what holds of every element from some bound on. -/
theorem exists_bound {γ : Type} {l : List γ} {P : γ → ℕ → Prop}
    (hl : ∀ a ∈ l, ∃ n, ∀ m, n ≤ m → P a m) : ∃ n, ∀ a ∈ l, ∀ m, n ≤ m → P a m := by
  induction l with
  | nil => exact ⟨0, forall_mem_nil _⟩
  | cons a l ih =>
    rw [forall_mem_cons] at hl
    obtain ⟨n, hn⟩ := hl.1
    obtain ⟨n', hn'⟩ := ih hl.2
    exact ⟨max n n', forall_mem_cons.mpr ⟨fun m hm => hn m (le_trans (le_max_left _ _) hm),
      fun b hb m hm =>
        hn' b hb m (le_trans (le_max_right _ _) hm)⟩⟩

/-- **A document that is held is read back**, when the fuel is enough. -/
theorem unfold_total (stuck : ε) (t : Tree κ α ι) :
    ∃ n, ∀ fuel, n ≤ fuel → ∀ h : Heap κ α ι, Holds h t → unfold stuck h fuel t.cell = .ok t := by
  induction t using children_induction with
  | leaf a => exact ⟨0, fun fuel _ _ _ => by rw [cell, unfold]⟩
  | sequence i ts ih =>
    obtain ⟨n, hn⟩ := exists_bound ih
    refine ⟨n + 1, fun fuel hfuel h ht => ?_⟩
    obtain ⟨hi, hts⟩ := holds_sequence.mp ht
    obtain ⟨fuel, rfl⟩ := Nat.exists_eq_add_of_le' (Nat.le_of_add_left_le hfuel)
    have hread : (ts.map cell).mapM (unfold stuck h fuel) = .ok ts := by
      rw [Refusal.mapM_eq_ok, forall₂_map_left_iff, forall₂_same]
      exact fun t hmem => hn t hmem fuel (by omega) h (hts t hmem)
    simp only [cell, unfold, hi]
    rw [hread]
    rfl
  | mapping i es ih =>
    obtain ⟨n, hn⟩ := exists_bound ih
    refine ⟨n + 1, fun fuel hfuel h ht => ?_⟩
    obtain ⟨hi, hes⟩ := holds_mapping.mp ht
    obtain ⟨fuel, rfl⟩ := Nat.exists_eq_add_of_le' (Nat.le_of_add_left_le hfuel)
    have hread : (cells es).mapM (fun e => (unfold stuck h fuel e.2).map (Prod.mk e.1)) =
        .ok es := by
      rw [Refusal.mapM_eq_ok, cells, forall₂_map_left_iff, forall₂_same]
      intro e hmem
      rw [hn e hmem fuel (by omega) h (hes e hmem)]
      rfl
    simp only [cell, unfold, hi]
    rw [hread]
    rfl

end

end Overlay
