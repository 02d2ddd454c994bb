import Mathlib.Logic.Relation
import Mishkan.Foundations.Refusal

/-!
# Foundations/DepthFirst — a depth-first search for cycles

`visit` finishes the successors of a node before the node itself and fails on a node that is still
being visited.  `succ` may fail too, on a node that has no successors to give.

The recursion is bounded by fuel.  A call takes one more node of the graph under way, so fuel for
the nodes that are not under way is never used up (`visit_fuel`).  On a graph whose nodes have their
successors among them, the search succeeds exactly when no path leads back to where it started
(`requireAcyclic_eq_ok`).
-/

namespace DepthFirst

open List

universe u

variable {ε : Type} {α : Type} [DecidableEq α] {succ : α → Except ε (List α)} {cycle : ε}
  {nodes visiting : List α} {a : α}

/-- Visit a node: `visiting` is under way, `visited` is finished. -/
def visit (succ : α → Except ε (List α)) (cycle : ε) :
    ℕ → List α → List α → α → Except ε (List α)
  | 0, _, _, _ => .error cycle
  | fuel + 1, visiting, visited, a =>
    if a ∈ visiting then .error cycle
    else if a ∈ visited then .ok visited
    else do
      let next ← succ a
      let visited ← next.foldlM (visit succ cycle fuel (a :: visiting)) visited
      return a :: visited

/-- Search from every node. -/
def requireAcyclic (succ : α → Except ε (List α)) (cycle : ε) (nodes : List α) :
    Except ε Unit := do
  let _ ← nodes.foldlM (visit succ cycle (nodes.length + 1) []) []
  return ()

/-- The nodes that are not under way. -/
def remaining (nodes visiting : List α) : ℕ := (nodes.filter (· ∉ visiting)).length

theorem remaining_cons_lt (hmem : a ∈ nodes) (hnew : a ∉ visiting) :
    remaining nodes (a :: visiting) < remaining nodes visiting := by
  have hsub : (nodes.filter (· ∉ a :: visiting)).Sublist (nodes.filter (· ∉ visiting)) := by
    refine monotone_filter_right _ fun b hb => ?_
    simp only [mem_cons, not_or, decide_eq_true_eq] at hb ⊢
    exact hb.2
  refine Nat.lt_of_le_of_ne hsub.length_le fun heq => ?_
  have ha : a ∈ nodes.filter (· ∉ visiting) := by
    simpa [mem_filter] using ⟨hmem, hnew⟩
  rw [← hsub.eq_of_length heq] at ha
  simp [mem_filter] at ha

/-- **Fuel for the nodes that are not under way is enough**: more of it changes nothing. -/
theorem visit_fuel (hleaf : ∀ a next, a ∉ nodes → succ a = .ok next → next = []) {n m : ℕ}
    (hn : remaining nodes visiting < n) (hm : remaining nodes visiting < m) :
    visit succ cycle n visiting = visit succ cycle m visiting := by
  induction n generalizing m visiting with
  | zero => omega
  | succ n ih =>
    obtain ⟨m, rfl⟩ : ∃ k, m = k + 1 := ⟨m - 1, by omega⟩
    funext visited a
    rw [visit, visit]
    by_cases hvisiting : a ∈ visiting
    · rw [if_pos hvisiting, if_pos hvisiting]
    rw [if_neg hvisiting, if_neg hvisiting]
    by_cases hvisited : a ∈ visited
    · rw [if_pos hvisited, if_pos hvisited]
    rw [if_neg hvisited, if_neg hvisited]
    cases hnext : succ a with
    | error e => rfl
    | ok next =>
      by_cases hmem : a ∈ nodes
      · have hlt := remaining_cons_lt hmem hvisiting
        have hsame : visit succ cycle n (a :: visiting) = visit succ cycle m (a :: visiting) :=
          ih (by omega) (by omega)
        rw [hsame]
      · rw [hleaf a next hmem hnext]
        rfl

/-! ## What the search decides -/

/-- One node is a successor of another. -/
def Edge (succ : α → Except ε (List α)) (a b : α) : Prop := ∃ next, succ a = .ok next ∧ b ∈ next

/-- What a step of the search leaves: nothing finished is forgotten, and from what is finished no
path goes on forever. -/
private def Finishes (succ : α → Except ε (List α)) (visited : List α) (l : List α)
    (visited' : List α) : Prop :=
  (∀ b ∈ visited, b ∈ visited') ∧ (∀ b ∈ l, b ∈ visited') ∧
    ∀ b ∈ visited', Acc (fun c d => Edge succ d c) b

omit [DecidableEq α] in
/-- What each visit finishes, a fold of visits finishes. -/
private theorem foldlM_finishes {step : List α → α → Except ε (List α)}
    (hstep : ∀ visited visited' b, (∀ b ∈ visited, Acc (fun c d => Edge succ d c) b) →
      step visited b = .ok visited' → Finishes succ visited [b] visited')
    {l visited visited' : List α} (hdone : ∀ b ∈ visited, Acc (fun c d => Edge succ d c) b)
    (h : l.foldlM step visited = .ok visited') : Finishes succ visited l visited' := by
  induction l generalizing visited with
  | nil =>
    obtain rfl := Refusal.pure_eq_ok.mp h
    exact ⟨fun _ => id, fun _ hb => absurd hb not_mem_nil, hdone⟩
  | cons b l ih =>
    rw [foldlM_cons] at h
    obtain ⟨between, hb, hrest⟩ := Refusal.bind_eq_ok.mp h
    obtain ⟨hkept, hmem, hdone⟩ := hstep visited between b hdone hb
    obtain ⟨hkept', hall, hdone⟩ := ih hdone hrest
    refine ⟨fun c hc => hkept' c (hkept c hc), fun c hc => ?_, hdone⟩
    rcases mem_cons.mp hc with rfl | hc
    · exact hkept' c (hmem c mem_cons_self)
    · exact hall c hc

private theorem visit_finishes {fuel : ℕ} {visited visited' : List α}
    (hdone : ∀ b ∈ visited, Acc (fun c d => Edge succ d c) b)
    (h : visit succ cycle fuel visiting visited a = .ok visited') :
    Finishes succ visited [a] visited' := by
  induction fuel generalizing visiting visited visited' a with
  | zero => cases h
  | succ fuel ih =>
    rw [visit] at h
    by_cases hvisiting : a ∈ visiting
    · rw [if_pos hvisiting] at h
      cases h
    rw [if_neg hvisiting] at h
    by_cases hvisited : a ∈ visited
    · rw [if_pos hvisited] at h
      obtain rfl := Except.ok.inj h
      exact ⟨fun _ => id, fun b hb => mem_singleton.mp hb ▸ hvisited, hdone⟩
    rw [if_neg hvisited] at h
    obtain ⟨next, hnext, h⟩ := Refusal.bind_eq_ok.mp h
    obtain ⟨between, hbetween, h⟩ := Refusal.bind_eq_ok.mp h
    obtain rfl := Refusal.pure_eq_ok.mp h
    obtain ⟨hkept, hall, hdone⟩ := foldlM_finishes (fun _ _ _ => ih) hdone hbetween
    refine ⟨fun b hb => mem_cons_of_mem a (hkept b hb),
      fun b hb => mem_singleton.mp hb ▸ mem_cons_self, fun b hb => ?_⟩
    rcases mem_cons.mp hb with rfl | hb
    · -- all successors of the node are finished
      refine Acc.intro b fun c ⟨next', hnext', hc⟩ => ?_
      rw [hnext, Except.ok.injEq] at hnext'
      exact hdone c (hall c (hnext' ▸ hc))
    · exact hdone b hb

/-- A visit that meets no node under way again succeeds. -/
private theorem visit_succeeds
    (hsucc : ∀ a ∈ nodes, ∃ next, succ a = .ok next ∧ ∀ b ∈ next, b ∈ nodes)
    (hacyclic : ∀ a, ¬ Relation.TransGen (Edge succ) a a) {fuel : ℕ}
    (hfuel : remaining nodes visiting < fuel) (ha : a ∈ nodes)
    (hpath : ∀ v ∈ visiting, Relation.TransGen (Edge succ) v a) (visited : List α) :
    ∃ visited', visit succ cycle fuel visiting visited a = .ok visited' := by
  induction fuel generalizing visiting a visited with
  | zero => omega
  | succ fuel ih =>
    have hnew : a ∉ visiting := fun hmem => hacyclic a (hpath a hmem)
    rw [visit, if_neg hnew]
    by_cases hvisited : a ∈ visited
    · exact ⟨visited, if_pos hvisited⟩
    rw [if_neg hvisited]
    obtain ⟨next, hnext, hin⟩ := hsucc a ha
    have hlt := remaining_cons_lt ha hnew
    obtain ⟨visited', hvisited'⟩ := Refusal.foldlM_of_forall
      (f := visit succ cycle fuel (a :: visiting)) (l := next) (fun b hb between =>
        ih (by omega) (hin b hb) (fun v hv => by
          have hedge : Edge succ a b := ⟨next, hnext, hb⟩
          rcases mem_cons.mp hv with rfl | hv
          · exact .single hedge
          · exact (hpath v hv).tail hedge) between) visited
    rw [hnext, Refusal.ok_bind, hvisited', Refusal.ok_bind]
    exact ⟨a :: visited', rfl⟩

/-- **The search succeeds exactly when the graph has no cycle.** -/
theorem requireAcyclic_eq_ok
    (hsucc : ∀ a ∈ nodes, ∃ next, succ a = .ok next ∧ ∀ b ∈ next, b ∈ nodes)
    (hnodes : ∀ a b, Edge succ a b → a ∈ nodes) :
    requireAcyclic succ cycle nodes = .ok () ↔ ∀ a, ¬ Relation.TransGen (Edge succ) a a := by
  constructor
  · intro h a hcycle
    obtain ⟨visited, hvisited, -⟩ := Refusal.bind_eq_ok.mp h
    obtain ⟨-, hall, hdone⟩ := foldlM_finishes (fun _ _ _ => visit_finishes)
      (fun _ hb => absurd hb not_mem_nil) hvisited
    obtain ⟨b, hab, -⟩ := Relation.TransGen.head'_iff.mp hcycle
    have hacc := (hdone a (hall a (hnodes a b hab))).transGen
    have hself := Relation.transGen_swap.mpr hcycle
    clear hcycle hab
    induction hacc with
    | intro a _ ih => exact ih a hself hself
  · intro hacyclic
    obtain ⟨visited', hvisited'⟩ := Refusal.foldlM_of_forall
      (f := visit succ cycle (nodes.length + 1) []) (l := nodes) (fun b hb between =>
        visit_succeeds hsucc hacyclic (Nat.lt_succ_of_le (length_filter_le _ _)) hb
          (fun v hv => absurd hv not_mem_nil) between) []
    rw [requireAcyclic, hvisited']
    rfl

end DepthFirst
