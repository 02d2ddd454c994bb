import Mathlib.Logic.Relation
import Mathlib.Data.List.Basic

/-!
# Foundations/Transition — runs of a deterministic system, and what holds along them

A system is a step function `σ → α → σ`; a disabled operation leaves the state where it is.  Three
rules carry every run argument:

* `run_induction` — an invariant of the step is an invariant of the run;
* `Along.of_guarded` — a run all of whose steps meet a guard keeps a guarded invariant, and every
  step of it has whatever the invariant and the guard give at one step;
* `Chain.lift` — an operation that is a chain of micro-steps keeps what each micro-step keeps.
-/

namespace Transition

variable {σ α : Type*}

/-- The state after a list of operations. -/
def run (step : σ → α → σ) (s : σ) (ops : List α) : σ := ops.foldl step s

@[simp] theorem run_nil (step : σ → α → σ) (s : σ) : run step s [] = s := rfl

@[simp] theorem run_cons (step : σ → α → σ) (s : σ) (a : α) (ops : List α) :
    run step s (a :: ops) = run step (step s a) ops := rfl

theorem run_append (step : σ → α → σ) (s : σ) (ops ops' : List α) :
    run step s (ops ++ ops') = run step (run step s ops) ops' := List.foldl_append

variable {step : σ → α → σ} {I : σ → Prop} {s : σ}

/-- **An invariant of the step is an invariant of the run.** -/
theorem run_induction (hstep : ∀ s a, I s → I (step s a)) (hs : I s) (ops : List α) : I
    (run step s ops) := by
  induction ops generalizing s with
  | nil => exact hs
  | cons a ops ih => exact ih (hstep s a hs)

/-- **A reflexive and transitive relation between the two ends of a step**, given an invariant,
relates the two ends of a run. -/
theorem run_rel {step : σ → α → σ} {I : σ → Prop} {R : σ → σ → Prop} (hrefl : ∀ s, R s s)
    (htrans : ∀ {a b c}, R a b → R b c → R a c) (hI : ∀ s a, I s → I (step s a))
    (hstep : ∀ s a, I s → R s (step s a)) {s : σ} (hs : I s) (ops : List α) :
    R s (run step s ops) := by
  induction ops generalizing s with
  | nil => exact hrefl s
  | cons a ops ih => exact htrans (hstep s a hs) (ih (hI s a hs))

/-! ## Properties of the steps of a run -/

/-- `Q` holds at every step of the run of `ops` from `s`, read at the state before the step. -/
def Along (step : σ → α → σ) (Q : σ → α → Prop) : σ → List α → Prop
  | _, [] => True
  | s, a :: ops => Q s a ∧ Along step Q (step s a) ops

theorem Along.append {Q : σ → α → Prop} {ops ops' : List α} :
    Along step Q s (ops ++ ops') ↔ Along step Q s ops ∧ Along step Q (run step s ops) ops' := by
  induction ops generalizing s with
  | nil => simp [Along]
  | cons a ops ih => simp [Along, ih, and_assoc]

variable {ops : List α}

/-- What a property implies at every step holds along the run. -/
theorem Along.imp {P Q : σ → α → Prop} (h : ∀ s a, P s a → Q s a) (hP : Along step P s ops) :
    Along step Q s ops := by
  induction ops generalizing s with
  | nil => trivial
  | cons a ops ih => exact ⟨h s a hP.1, ih hP.2⟩

/-- What every operation of a list has, every step of its run has. -/
theorem Along.of_forall {Q : σ → α → Prop}
    (h : ∀ a ∈ ops, ∀ s, Q s a) (s : σ) : Along step Q s ops := by
  induction ops generalizing s with
  | nil => trivial
  | cons a ops ih =>
    exact ⟨h a List.mem_cons_self s, ih (fun b hb => h b (List.mem_cons_of_mem a hb)) _⟩

theorem Along.and {P Q : σ → α → Prop} (hP : Along step P s ops) (hQ : Along step Q s ops) :
    Along step (fun s a => P s a ∧ Q s a) s ops := by
  induction ops generalizing s with
  | nil => trivial
  | cons a ops ih => exact ⟨⟨hP.1, hQ.1⟩, ih hP.2 hQ.2⟩

/-- **A guarded run keeps a guarded invariant** to its last state. -/
theorem run_of_guarded {G : σ → α → Prop} (hstep : ∀ s a, I s → G s a → I (step s a)) (hs : I s)
    (hg : Along step G s ops) : I (run step s ops) := by
  induction ops generalizing s with
  | nil => exact hs
  | cons a ops ih => exact ih (hstep s a hs hg.1) hg.2

/-- **Every step of a guarded run has what the invariant and the guard give at one step.** -/
theorem Along.of_guarded {G Q : σ → α → Prop}
    (hstep : ∀ s a, I s → G s a → I (step s a)) (hq : ∀ s a, I s → G s a → Q s a) (hs : I s)
    (hg : Along step G s ops) : Along step Q s ops := by
  induction ops generalizing s with
  | nil => trivial
  | cons a ops ih => exact ⟨hq s a hs hg.1, ih (hstep s a hs hg.1) hg.2⟩

/-- **A guarded run relates its two ends** by a reflexive and transitive relation that an invariant
and the guard give at one step. -/
theorem run_rel_of_guarded {G : σ → α → Prop} {R : σ → σ → Prop}
    (hrefl : ∀ s, R s s) (htrans : ∀ {a b c}, R a b → R b c → R a c)
    (hI : ∀ s a, I s → G s a → I (step s a)) (hstep : ∀ s a, I s → G s a → R s (step s a))
    (hs : I s) (hg : Along step G s ops) : R s (run step s ops) := by
  induction ops generalizing s with
  | nil => exact hrefl s
  | cons a ops ih => exact htrans (hstep s a hs hg.1) (ih (hI s a hs hg.1) hg.2)

/-- **Two properties that agree under an invariant** that the second keeps hold along the same runs
of a kind. -/
theorem Along.congr_of_guarded {F P Q : σ → α → Prop}
    (hI : ∀ s a, I s → F s a → Q s a → I (step s a))
    (hiff : ∀ s a, I s → F s a → (P s a ↔ Q s a)) (hs : I s)
    (hF : Along step F s ops) : Along step P s ops ↔ Along step Q s ops := by
  induction ops generalizing s with
  | nil => exact Iff.rfl
  | cons a ops ih =>
    have hhead := hiff s a hs hF.1
    constructor
    · rintro ⟨hP, hrest⟩
      exact ⟨hhead.mp hP, (ih (hI s a hs hF.1 (hhead.mp hP)) hF.2).mp hrest⟩
    · rintro ⟨hQ, hrest⟩
      exact ⟨hhead.mpr hQ, (ih (hI s a hs hF.1 hQ) hF.2).mpr hrest⟩

/-- **Two properties that agree under an invariant** hold along the same runs. -/
theorem Along.congr {P Q : σ → α → Prop}
    (hI : ∀ s a, I s → I (step s a)) (hiff : ∀ s a, I s → (P s a ↔ Q s a)) (hs : I s) :
    Along step P s ops ↔ Along step Q s ops :=
  Along.congr_of_guarded (F := fun _ _ => True) (fun s a h _ _ => hI s a h)
    (fun s a h _ => hiff s a h) hs (Along.of_forall (fun _ _ _ => trivial) s)

instance Along.decidable {step : σ → α → σ} {Q : σ → α → Prop} [∀ s a, Decidable (Q s a)] :
    ∀ (s : σ) (ops : List α), Decidable (Along step Q s ops)
  | _, [] => isTrue trivial
  | s, a :: ops => @instDecidableAnd _ _ _ (Along.decidable (step s a) ops)

/-! ## Operations made of micro-steps -/

/-- A chain of micro-steps. -/
abbrev Chain (micro : σ → σ → Prop) : σ → σ → Prop := Relation.ReflTransGen micro

theorem Chain.lift {micro : σ → σ → Prop}
    (hmicro : ∀ s s', I s → micro s s' → I s') {s s' : σ} (h : Chain micro s s') (hs : I s) :
    I s' := by
  induction h with
  | refl => exact hs
  | tail _ hm ih => exact hmicro _ _ ih hm

/-- A relation kept by every micro-step under an invariant relates the two ends of a chain. -/
theorem Chain.rel {micro : σ → σ → Prop} {R : σ → σ → Prop}
    (hrefl : ∀ s, R s s) (htrans : ∀ {a b c}, R a b → R b c → R a c)
    (hI : ∀ s s', I s → micro s s' → I s') (hR : ∀ s s', I s → micro s s' → R s s')
    {s s' : σ} (h : Chain micro s s') (hs : I s) : R s s' := by
  have key : I s' ∧ R s s' := by
    induction h with
    | refl => exact ⟨hs, hrefl s⟩
    | tail _ hm ih => exact ⟨hI _ _ ih.1 hm, htrans ih.2 (hR _ _ ih.1 hm)⟩
  exact key.2

end Transition
