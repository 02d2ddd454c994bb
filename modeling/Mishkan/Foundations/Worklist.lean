import Mishkan.Foundations.DepthFirst

/-!
# Foundations/Worklist — everything that is reached from a set of roots

`drain` takes a node off a stack of pending ones, and puts its successors on it that were not seen
before, until nothing is pending.  What it has seen then is what is reached from the roots
(`mem_reached`); every node goes on the stack once, which bounds the fuel.
-/

namespace Worklist

open List

variable {α : Type} [DecidableEq α] {succ : α → List α} {nodes roots : List α} {a b : α}

/-- Note a node that was not seen before. -/
def note (acc : List α × List α) (b : α) : List α × List α :=
  if b ∈ acc.2 then acc else (b :: acc.1, b :: acc.2)

/-- Take nodes off the stack until none is pending. -/
def drain (succ : α → List α) : ℕ → List α → List α → List α
  | 0, _, seen => seen
  | _ + 1, [], seen => seen
  | fuel + 1, a :: pending, seen =>
    let (pending, seen) := (succ a).foldl note (pending, seen)
    drain succ fuel pending seen

/-- What is reached from the roots; `nodes` has every successor. -/
def reached (succ : α → List α) (nodes roots : List α) : List α :=
  drain succ (roots.length + nodes.length + 1) roots roots

/-- One node is a successor of another. -/
def Edge (succ : α → List α) (a b : α) : Prop := b ∈ succ a

/-- The loop has seen what it had, has seen what was noted, and only that; what is new is pending;
and a node that is noted is one less to come. -/
private theorem foldl_note (l : List α) (hl : ∀ b ∈ l, b ∈ nodes) (pending seen : List α) :
    (∀ c, c ∈ (l.foldl note (pending, seen)).2 ↔ c ∈ seen ∨ c ∈ l) ∧
      (∀ c, c ∈ (l.foldl note (pending, seen)).1 ↔ c ∈ pending ∨ (c ∈ l ∧ c ∉ seen)) ∧
      (l.foldl note (pending, seen)).1.length +
          DepthFirst.remaining nodes (l.foldl note (pending, seen)).2 ≤
        pending.length + DepthFirst.remaining nodes seen := by
  induction l generalizing pending seen with
  | nil => simp
  | cons b l ih =>
    have hrest : ∀ c ∈ l, c ∈ nodes := fun c hc => hl c (mem_cons_of_mem _ hc)
    rw [foldl_cons]
    by_cases hb : b ∈ seen
    · rw [note, if_pos hb]
      obtain ⟨hseen, hpending, hle⟩ := ih hrest pending seen
      refine ⟨fun c => ?_, fun c => ?_, hle⟩
      · rw [hseen, mem_cons]
        constructor
        · exact Or.imp_right .inr
        · rintro (hc | rfl | hc)
          · exact .inl hc
          · exact .inl hb
          · exact .inr hc
      · rw [hpending, mem_cons]
        constructor
        · exact Or.imp_right fun h => ⟨.inr h.1, h.2⟩
        · rintro (hc | ⟨rfl | hc, hnew⟩)
          · exact .inl hc
          · exact absurd hb hnew
          · exact .inr ⟨hc, hnew⟩
    · rw [note, if_neg hb]
      obtain ⟨hseen, hpending, hle⟩ := ih hrest (b :: pending) (b :: seen)
      refine ⟨fun c => ?_, fun c => ?_, ?_⟩
      · rw [hseen, mem_cons, mem_cons, or_assoc, or_left_comm]
      · rw [hpending]
        simp only [mem_cons, not_or]
        constructor
        · rintro ((rfl | hc) | ⟨hc, -, hnew⟩)
          · exact .inr ⟨.inl rfl, hb⟩
          · exact .inl hc
          · exact .inr ⟨.inr hc, hnew⟩
        · rintro (hc | ⟨rfl | hc, hnew⟩)
          · exact .inl (.inr hc)
          · exact .inl (.inl rfl)
          · by_cases hcb : c = b
            · exact .inl (.inl hcb)
            · exact .inr ⟨hc, hcb, hnew⟩
      · have hlt := DepthFirst.remaining_cons_lt (hl b mem_cons_self) hb
        rw [length_cons] at hle
        exact Nat.le_trans hle (by omega)

/-- What the loop keeps: the roots are seen, what is seen is reached, and what is seen and not
pending has its successors seen. -/
private theorem drain_spec (roots : List α) (hnodes : ∀ a, ∀ b ∈ succ a, b ∈ nodes) (fuel : ℕ)
    (pending seen : List α) (hfuel : pending.length + DepthFirst.remaining nodes seen < fuel)
    (hroots : ∀ r ∈ roots, r ∈ seen) (hpending : ∀ c ∈ pending, c ∈ seen)
    (hreached : ∀ c ∈ seen, ∃ r ∈ roots, Relation.ReflTransGen (Edge succ) r c)
    (hclosed : ∀ c ∈ seen, c ∈ pending ∨ ∀ b ∈ succ c, b ∈ seen) :
    (∀ r ∈ roots, r ∈ drain succ fuel pending seen) ∧
      (∀ c ∈ drain succ fuel pending seen, ∃ r ∈ roots, Relation.ReflTransGen (Edge succ) r c) ∧
      ∀ c ∈ drain succ fuel pending seen, ∀ b ∈ succ c, b ∈ drain succ fuel pending seen := by
  induction fuel generalizing pending seen with
  | zero => omega
  | succ fuel ih =>
    cases pending with
    | nil =>
      refine ⟨hroots, hreached, fun c hc => ?_⟩
      exact (hclosed c hc).resolve_left not_mem_nil
    | cons a pending =>
      obtain ⟨hseen, hnext, hle⟩ := foldl_note (succ a) (hnodes a) pending seen
      rw [length_cons] at hfuel
      refine ih _ _ (by omega) (fun r hr => (hseen r).mpr (.inl (hroots r hr)))
        (fun c hc => ?_) (fun c hc => ?_) fun c hc => ?_
      · rcases (hnext c).mp hc with hc | ⟨hc, -⟩
        · exact (hseen c).mpr (.inl (hpending c (mem_cons_of_mem _ hc)))
        · exact (hseen c).mpr (.inr hc)
      · rcases (hseen c).mp hc with hc | hc
        · exact hreached c hc
        · obtain ⟨r, hr, hra⟩ := hreached a (hpending a mem_cons_self)
          exact ⟨r, hr, hra.tail hc⟩
      · by_cases hold : c ∈ seen
        · rcases hclosed c hold with hc' | hc'
          · rcases mem_cons.mp hc' with rfl | hc'
            · exact .inr fun b hb => (hseen b).mpr (.inr hb)
            · exact .inl ((hnext c).mpr (.inl hc'))
          · exact .inr fun b hb => (hseen b).mpr (.inl (hc' b hb))
        · exact .inl ((hnext c).mpr (.inr ⟨((hseen c).mp hc).resolve_left hold, hold⟩))

/-- **What is reached is what a path leads to from a root.** -/
theorem mem_reached (hnodes : ∀ a, ∀ b ∈ succ a, b ∈ nodes) : b ∈ reached succ nodes roots ↔
    ∃ r ∈ roots, Relation.ReflTransGen (Edge succ) r b := by
  have hremaining : DepthFirst.remaining nodes roots ≤ nodes.length := length_filter_le _ _
  obtain ⟨hroots, hreached, hclosed⟩ := drain_spec roots hnodes
    (roots.length + nodes.length + 1) roots roots (by omega) (fun _ => id) (fun _ => id)
    (fun r hr => ⟨r, hr, .refl⟩) fun _ => .inl
  refine ⟨hreached b, ?_⟩
  rintro ⟨r, hr, hpath⟩
  induction hpath with
  | refl => exact hroots r hr
  | tail _ hedge ih => exact hclosed _ ih _ hedge

end Worklist
