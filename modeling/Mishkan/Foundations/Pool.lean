import Mathlib.Data.List.Perm.Basic
import Mishkan.Foundations.Transition

/-!
# Foundations/Pool — calls that run side by side over one shared state

A call begins with a step, advances by steps, and ends; between two of its steps others advance.  A
call may be dropped where it stands, all calls may be lost at once with what the shared state has in
memory, and the shared state may be changed from outside (`Pool.step`).  A step is atomic and sees
the other calls, so it can wait for a lock that one of them has.

An `Outline` is a proof of a program by assertions: an invariant of the shared state, what a call
relies on where it stands, and which calls are apart.  Its rule is `Outline.holds_run`.
-/

variable {σ τ β ε γ : Type*}

/-- A shared state, and the calls that run over it. -/
@[ext] structure Pool (σ τ : Type*) where
  shared : σ
  calls : List τ

namespace Pool

/-- How a call begins and advances, what is done from outside, and what a crash leaves. -/
structure Program (σ τ β ε γ : Type*) where
  start : σ → β → Option τ × σ
  advance : List τ → σ → ε → τ → Option τ × σ
  outside : σ → γ → σ
  restart : σ → σ := fun s => s

inductive Operation (β ε γ : Type*) where
  | start (b : β)
  | advance (i : ℕ) (e : ε)
  | drop (i : ℕ)
  | crash
  | outside (c : γ)

/-- The pool after an operation.  A call that ended is gone. -/
def step (program : Program σ τ β ε γ) (p : Pool σ τ) : Operation β ε γ → Pool σ τ
  | .start b =>
    let (call, shared) := program.start p.shared b
    ⟨shared, call.toList ++ p.calls⟩
  | .advance i e =>
    match p.calls[i]? with
    | none => p
    | some call =>
      let (next, shared) := program.advance (p.calls.eraseIdx i) p.shared e call
      ⟨shared, next.toList ++ p.calls.eraseIdx i⟩
  | .drop i => ⟨p.shared, p.calls.eraseIdx i⟩
  | .crash => ⟨program.restart p.shared, []⟩
  | .outside c => ⟨program.outside p.shared c, p.calls⟩

/-! ## Proof outlines -/

variable {program : Program σ τ β ε γ}

/-- What a step from `s` has to leave: the invariant, what the other calls rely on, and what the
call itself then relies on, apart from the others. -/
structure Sound (inv : σ → Prop) (relies : σ → τ → Prop) (apart : τ → τ → Prop) (s s' : σ)
    (next : Option τ) (others : List τ) : Prop where
  invariant : inv s'
  stable : ∀ u ∈ others, relies s u → relies s' u
  established : ∀ t ∈ next, relies s' t
  isApart : ∀ t ∈ next, ∀ u ∈ others, apart t u

/-- A proof of a program by assertions. -/
structure Outline (program : Program σ τ β ε γ) where
  inv : σ → Prop
  relies : σ → τ → Prop
  apart : τ → τ → Prop
  apart_symm : ∀ {t u}, apart t u → apart u t
  start : ∀ s b others, inv s → (∀ u ∈ others, relies s u) →
    Sound inv relies apart s (program.start s b).2 (program.start s b).1 others
  advance : ∀ others s e t, inv s → relies s t → (∀ u ∈ others, relies s u) →
    (∀ u ∈ others, apart t u) →
    Sound inv relies apart s (program.advance others s e t).2 (program.advance others s e t).1
      others
  outside : ∀ s c, inv s → inv (program.outside s c)
  outside_stable : ∀ s c t, relies s t → relies (program.outside s c) t
  restart : ∀ s, inv s → inv (program.restart s) := by exact fun _ h => h

namespace Outline

variable (outline : Outline program)

/-- The assertions hold of a pool. -/
structure Holds (p : Pool σ τ) : Prop where
  invariant : outline.inv p.shared
  relied : ∀ t ∈ p.calls, outline.relies p.shared t
  isApart : p.calls.Pairwise outline.apart

variable {outline} {p : Pool σ τ}

/-- A pool in which nothing runs. -/
theorem holds_idle {s : σ} (h : outline.inv s) : outline.Holds ⟨s, []⟩ :=
  ⟨h, by simp, .nil⟩

/-- What is sound for the others leaves the assertions. -/
theorem Sound.holds {s s' : σ} {next : Option τ} {others : List τ}
    (h : Sound outline.inv outline.relies outline.apart s s' next others)
    (hrelied : ∀ u ∈ others, outline.relies s u) (hapart : others.Pairwise outline.apart) :
    outline.Holds ⟨s', next.toList ++ others⟩ := by
  refine ⟨h.invariant, fun t ht => ?_, ?_⟩
  · rcases List.mem_append.mp ht with ht | ht
    · exact h.established t (Option.mem_toList.mp ht)
    · exact h.stable t ht (hrelied t ht)
  · rw [List.pairwise_append]
    refine ⟨?_, hapart, fun t ht => h.isApart t (Option.mem_toList.mp ht)⟩
    cases next <;> simp

/-- A call is apart from the others. -/
theorem Holds.apart_others (h : outline.Holds p) {i : ℕ} {t : τ} (ht : p.calls[i]? = some t) :
    ∀ u ∈ p.calls.eraseIdx i, outline.apart t u := by
  obtain ⟨hi, rfl⟩ := List.getElem?_eq_some_iff.mp ht
  have hperm := List.getElem_cons_eraseIdx_perm hi
  have hpairwise := hperm.symm.pairwise h.isApart outline.apart_symm
  exact (List.pairwise_cons.mp hpairwise).1

/-- **Every operation leaves the assertions.** -/
theorem Holds.step (h : outline.Holds p) (op : Operation β ε γ) :
    outline.Holds (p.step program op) := by
  have hsub : ∀ i, List.Sublist (p.calls.eraseIdx i) p.calls := List.eraseIdx_sublist _
  cases op with
  | start b => exact Sound.holds (outline.start _ _ _ h.invariant h.relied) h.relied h.isApart
  | advance i e =>
    unfold Pool.step
    cases hcall : p.calls[i]? with
    | none => simpa only [hcall] using h
    | some call =>
      simp only [hcall]
      exact Sound.holds
        (outline.advance _ _ e call h.invariant (h.relied call (List.mem_of_getElem? hcall))
          (fun u hu => h.relied u ((hsub i).subset hu)) (h.apart_others hcall))
        (fun u hu => h.relied u ((hsub i).subset hu)) (h.isApart.sublist (hsub i))
  | drop i =>
    exact ⟨h.invariant, fun t ht => h.relied t ((hsub i).subset ht), h.isApart.sublist (hsub i)⟩
  | crash => exact holds_idle (outline.restart _ h.invariant)
  | outside c =>
    exact ⟨outline.outside _ _ h.invariant,
      fun t ht => outline.outside_stable _ _ t (h.relied t ht), h.isApart⟩

/-- **The assertions hold after every run.** -/
theorem holds_run {s : σ} (h : outline.inv s) (ops : List (Operation β ε γ)) :
    outline.Holds (Transition.run (Pool.step program) ⟨s, []⟩ ops) :=
  Transition.run_induction (fun _ op hp => hp.step op) (holds_idle h) ops

end Outline
end Pool
