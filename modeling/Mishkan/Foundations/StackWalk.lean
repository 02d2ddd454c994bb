import Mathlib.Algebra.GroupWithZero.Nat
import Mathlib.Algebra.Order.BigOperators.Group.List
import Mathlib.Data.List.Nodup

/-!
# Foundations/StackWalk — walks with an explicit stack

A `Visit` says what is found at a place and which places, smaller than it, are pushed.  `Visit.walk`
pops one place after another until the stack is empty.  It finds exactly what is found at the places
that are reached from the stack (`mem_walk`), and under one key only once when places that stand
beside one another have no key in common (`nodup_keys_walk`).
-/

namespace StackWalk

open List

/-- How a place is visited; what is pushed is smaller than where it is pushed. -/
structure Visit (σ ο : Type) where
  found : σ → List ο
  push : σ → List σ
  size : σ → ℕ
  shrinks : ∀ s, ((push s).map size).sum < size s

variable {σ ο κ : Type} {v : Visit σ ο}

namespace Visit

/-- The measure of a stack. -/
def weight (v : Visit σ ο) (stack : List σ) : ℕ := (stack.map v.size).sum

/-- The stack after a place is visited. -/
def pushed (v : Visit σ ο) (s : σ) (stack : List σ) : List σ := (v.push s).reverse ++ stack

theorem weight_pushed_lt (v : Visit σ ο) (s : σ) (stack : List σ) :
    v.weight (v.pushed s stack) < v.weight (s :: stack) := by
  have hshrinks := v.shrinks s
  simp only [weight, pushed, map_append, map_reverse, sum_append, sum_reverse,
    map_cons, sum_cons]
  omega

/-- The walk: the last place that is pushed is visited first. -/
def walk (v : Visit σ ο) : List σ → List ο
  | [] => []
  | s :: stack => v.found s ++ walk v (v.pushed s stack)
termination_by stack => v.weight stack
decreasing_by exact v.weight_pushed_lt s stack

/-- The places that are reached from a place. -/
inductive Reaches (v : Visit σ ο) : σ → σ → Prop where
  | refl (s : σ) : Reaches v s s
  | push {s t u : σ} (h : t ∈ v.push s) (hrest : Reaches v t u) : Reaches v s u

@[simp] theorem walk_nil : v.walk [] = [] := by rw [walk]

theorem walk_cons {s : σ} {stack : List σ} :
    v.walk (s :: stack) = v.found s ++ v.walk (v.pushed s stack) := by rw [walk]

/-- **A walk finds** what is found where it comes. -/
theorem mem_walk {stack : List σ} {o : ο} :
    o ∈ v.walk stack ↔ ∃ s ∈ stack, ∃ t, v.Reaches s t ∧ o ∈ v.found t := by
  induction stack using walk.induct v with
  | case1 => simp
  | case2 s stack ih =>
    rw [walk_cons, mem_append, ih]
    constructor
    · rintro (hfound | ⟨t, ht, u, hreaches, hfound⟩)
      · exact ⟨s, mem_cons_self, s, .refl s, hfound⟩
      · rcases mem_append.mp ht with ht | ht
        · exact ⟨s, mem_cons_self, u, .push (mem_reverse.mp ht) hreaches, hfound⟩
        · exact ⟨t, mem_cons_of_mem _ ht, u, hreaches, hfound⟩
    · rintro ⟨t, ht, u, hreaches, hfound⟩
      rcases mem_cons.mp ht with rfl | ht
      · cases hreaches with
        | refl => exact .inl hfound
        | push hpush hrest =>
          exact .inr ⟨_, mem_append_left _ (mem_reverse.mpr hpush), u, hrest, hfound⟩
      · exact .inr ⟨t, mem_append_right _ ht, u, hreaches, hfound⟩

/-- Where every key has its place: `under s` are the keys that are found from `s` on. -/
structure Keyed (v : Visit σ ο) (valid : σ → Prop) (key : ο → κ) (under : σ → κ → Prop) : Prop where
  stays : ∀ s, valid s → ∀ t ∈ v.push s, valid t
  found : ∀ s, ∀ o ∈ v.found s, under s (key o)
  push : ∀ s, ∀ t ∈ v.push s, ∀ k, under t k → under s k
  nodup : ∀ s, valid s → ((v.found s).map key).Nodup
  fresh : ∀ s, ∀ t ∈ v.push s, ∀ o ∈ v.found s, ¬ under t (key o)
  apart : ∀ s, valid s → (v.push s).Pairwise fun t u => ∀ k, under t k → ¬ under u k

section Keyed

variable {valid : σ → Prop} {key : ο → κ} {under : σ → κ → Prop} {stack : List σ}

theorem Keyed.under_of_mem_walk (h : v.Keyed valid key under) {o : ο} (ho : o ∈ v.walk stack) :
    ∃ s ∈ stack, under s (key o) := by
  obtain ⟨s, hs, t, hreaches, hfound⟩ := mem_walk.mp ho
  refine ⟨s, hs, ?_⟩
  clear hs
  induction hreaches with
  | refl => exact h.found _ _ hfound
  | push hpush _ ih => exact h.push _ _ hpush _ (ih hfound)

/-- **A walk finds every key once**, when no two places of its stack have one in common. -/
theorem Keyed.nodup_keys_walk (h : v.Keyed valid key under) (hvalid : ∀ s ∈ stack, valid s)
    (hstack : stack.Pairwise fun s t => ∀ k, under s k → ¬ under t k) :
    ((v.walk stack).map key).Nodup := by
  induction stack using walk.induct v with
  | case1 => simp
  | case2 s stack ih =>
    obtain ⟨hs, hstack⟩ := pairwise_cons.mp hstack
    have hsvalid := hvalid s mem_cons_self
    have hpushed : ∀ t ∈ stack, ∀ u ∈ v.push s, ∀ k, under u k → ¬ under t k :=
      fun t ht u hu k huk => hs t ht k (h.push s u hu k huk)
    rw [walk_cons, map_append, nodup_append]
    refine ⟨h.nodup s hsvalid, ih ?_ ?_, ?_⟩
    · intro t ht
      rcases mem_append.mp ht with ht | ht
      · exact h.stays s hsvalid t (mem_reverse.mp ht)
      · exact hvalid t (mem_cons_of_mem _ ht)
    · refine pairwise_append.mpr ⟨?_, hstack, fun u hu t ht =>
        hpushed t ht u (mem_reverse.mp hu)⟩
      refine pairwise_reverse.mpr ((h.apart s hsvalid).imp ?_)
      exact fun hkeys k ht hu => hkeys k hu ht
    · rintro _ hk _ hk' rfl
      obtain ⟨o, ho, rfl⟩ := mem_map.mp hk
      obtain ⟨o', ho', hkey⟩ := mem_map.mp hk'
      obtain ⟨t, ht, hunder⟩ := h.under_of_mem_walk ho'
      rw [hkey] at hunder
      rcases mem_append.mp ht with ht | ht
      · exact h.fresh s t (mem_reverse.mp ht) o ho hunder
      · exact hs t ht _ (h.found s o ho) hunder

end Keyed

end Visit

end StackWalk
