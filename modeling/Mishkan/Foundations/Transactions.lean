import Mishkan.Foundations.Refusal

/-!
# Foundations/Transactions — a program of several transactions

`Transactions σ ε` is a program that works on a state in transactions: each of them commits or
raises and leaves the state alone, and what was committed before an exception stays.  `rescue` is
`try ... except: ...; raise`.  One inversion lemma for each way of composing them reads a program
that returns as the sequence of what it committed.
-/

universe u v w

/-- A state in, the result and the state that is left out. -/
def Transactions (σ : Type u) (ε : Type v) (α : Type w) := σ → Except ε α × σ

namespace Transactions

variable {σ : Type u} {ε : Type v} {α β : Type w} {s s' : σ} {a : α}

instance : Monad (Transactions σ ε) where
  pure a := fun s => (.ok a, s)
  bind x f := fun s =>
    match x s with
    | (.ok a, s') => f a s'
    | (.error e, s') => (.error e, s')

/-- One transaction. -/
def transact (f : σ → Except ε (α × σ)) : Transactions σ ε α := fun s =>
  match f s with
  | .ok (a, s') => (.ok a, s')
  | .error e => (.error e, s)

/-- A computation outside the state. -/
def check (x : Except ε α) : Transactions σ ε α := fun s => (x, s)

/-- A query of the state. -/
def read (f : σ → Except ε α) : Transactions σ ε α := fun s => (f s, s)

/-- `try: x`, and on an exception the handler before it is raised again. -/
def rescue (x : Transactions σ ε α) (handler : ε → Transactions σ ε PUnit) :
    Transactions σ ε α := fun s =>
  match x s with
  | (.ok a, s') => (.ok a, s')
  | (.error e, s') =>
    match handler e s' with
    | (.ok _, s'') => (.error e, s'')
    | (.error e', s'') => (.error e', s'')

/-! ## What a program that returns has done -/

variable {x : Transactions σ ε α}

@[simp] theorem bind_eq_ok {f : α → Transactions σ ε β} {b : β} :
    (x >>= f) s = (.ok b, s') ↔
      ∃ a between, x s = (.ok a, between) ∧ f a between = (.ok b, s') := by
  change (match x s with
    | (.ok a, between) => f a between
    | (.error e, between) => (.error e, between)) = _ ↔ _
  rcases x s with ⟨_ | a, between⟩ <;> simp

@[simp] theorem transact_eq_ok {f : σ → Except ε (α × σ)} :
    transact f s = (.ok a, s') ↔ f s = .ok (a, s') := by
  rw [transact]
  rcases f s with e | ⟨b, between⟩ <;> simp

@[simp] theorem check_eq_ok {x : Except ε α} : check x s = (.ok a, s') ↔ x = .ok a ∧ s = s' := by
  simp [check]

/-- **A program that returns is not rescued.** -/
@[simp] theorem rescue_eq_ok {handler : ε → Transactions σ ε PUnit} :
    rescue x handler s = (.ok a, s') ↔ x s = (.ok a, s') := by
  rw [rescue]
  rcases x s with ⟨e | b, between⟩
  · rcases hhandled : handler e between with ⟨_ | _, _⟩ <;> simp [hhandled]
  · simp

/-- A sequence goes on where its first half returned. -/
theorem bind_of_ok {f : α → Transactions σ ε β} (h : x s = (.ok a, s')) :
    (x >>= f) s = f a s' := by
  change (match x s with
    | (.ok a, between) => f a between
    | (.error e, between) => (.error e, between)) = _
  rw [h]

theorem check_of_ok {x : Except ε α} (h : x = .ok a) (s : σ) : check x s = (.ok a, s) := by
  rw [check, h]

theorem read_of_ok {f : σ → Except ε α} (h : f s = .ok a) : read f s = (.ok a, s) := by
  rw [read, h]

/-! ## What every program keeps -/

section Keeps

variable {I : σ → Prop}

/-- The program leaves the property standing, whether it returns or raises. -/
def Keeps (I : σ → Prop) (x : Transactions σ ε α) : Prop := ∀ s, I s → I (x s).2

theorem Keeps.pure (a : α) : Keeps I (Pure.pure a : Transactions σ ε α) := fun _ h => h

theorem Keeps.check (x : Except ε α) : Keeps I (check x : Transactions σ ε α) := fun _ h => h

theorem Keeps.read (f : σ → Except ε α) : Keeps I (read f) := fun _ h => h

theorem Keeps.transact {f : σ → Except ε (α × σ)}
    (h : ∀ s a s', I s → f s = .ok (a, s') → I s') : Keeps I (transact f) := fun s hs => by
  rw [Transactions.transact]
  cases hf : f s with
  | error e => exact hs
  | ok p => exact h s p.1 p.2 hs hf

theorem Keeps.bind {x : Transactions σ ε α} {f : α → Transactions σ ε β} (hx : Keeps I x)
    (hf : ∀ a, Keeps I (f a)) : Keeps I (x >>= f) := fun s hs => by
  have hbetween := hx s hs
  change I (match x s with
    | (.ok a, between) => f a between
    | (.error e, between) => (.error e, between)).2
  revert hbetween
  rcases x s with ⟨e | a, between⟩
  · exact id
  · exact hf a between

/-- Behind a computation outside the state, for what it computes. -/
theorem Keeps.check_bind {x : Except ε α} {f : α → Transactions σ ε β}
    (hf : ∀ a, x = .ok a → Keeps I (f a)) : Keeps I (Transactions.check x >>= f) := fun s hs => by
  change I (match (x, s) with
    | (.ok a, between) => f a between
    | (.error e, between) => (.error e, between)).2
  cases x with
  | error e => exact hs
  | ok a => exact hf a rfl s hs

theorem Keeps.rescue {x : Transactions σ ε α} {handler : ε → Transactions σ ε PUnit}
    (hx : Keeps I x) (hhandler : ∀ e, Keeps I (handler e)) : Keeps I (rescue x handler) :=
  fun s hs => by
    have hbetween := hx s hs
    rw [Transactions.rescue]
    revert hbetween
    rcases x s with ⟨e | a, between⟩
    · intro hbetween
      have hlast := hhandler e between hbetween
      revert hlast
      rcases hhandled : handler e between with ⟨_ | _, _⟩ <;> simp [hhandled]
    · exact id

end Keeps

end Transactions
