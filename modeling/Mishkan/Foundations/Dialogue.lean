import Mathlib.Tactic.Common

/-!
# Foundations/Dialogue — programs that ask, and whoever answers

A `Dialogue` is the tree of a program whose every effect is a question: at a node it asks one and
goes on with the answer.  A run gives it all the answers of one host (`run`); several dialogues can
be led side by side, one question at a time.

A `Monitor` follows a dialogue question by question in a state of its own.  `Obeys` says that every
question is allowed where it is asked and that the ending is as promised, whatever the admitted
answers are.  Its rules follow the program: `Obeys.bind`, `Obeys.handle`, `Obeys.finally_`.  A part
of the program that a monitor is not interested in (`Asks`) is passed in one step (`Asks.obeys`).
-/

/-- A program that asks questions `q : κ`, is answered in `ρ q`, and returns or raises. -/
inductive Dialogue (κ : Type) (ρ : κ → Type) (ε α : Type) : Type where
  | ended (result : Except ε α)
  | ask (q : κ) (next : ρ q → Dialogue κ ρ ε α)

namespace Dialogue

variable {κ : Type} {ρ : κ → Type} {ε ε' α β γ : Type}

def raise (e : ε) : Dialogue κ ρ ε α := .ended (.error e)

/-- One program after another. -/
def andThen (f : α → Dialogue κ ρ ε β) : Dialogue κ ρ ε α → Dialogue κ ρ ε β
  | .ended (.ok a) => f a
  | .ended (.error e) => .ended (.error e)
  | .ask q next => .ask q fun answer => (next answer).andThen f

instance : Monad (Dialogue κ ρ ε) where
  pure a := .ended (.ok a)
  bind x f := x.andThen f

/-- `if` without `else`. -/
def onlyIf (p : Prop) [Decidable p] (x : Dialogue κ ρ ε Unit) : Dialogue κ ρ ε Unit :=
  if p then x else pure ()

/-- `try … except`: what an error is answered with. -/
def handle (handler : ε → Dialogue κ ρ ε' α) : Dialogue κ ρ ε α → Dialogue κ ρ ε' α
  | .ended (.ok a) => .ended (.ok a)
  | .ended (.error e) => handler e
  | .ask q next => .ask q fun answer => (next answer).handle handler

/-- `try … finally`: what is done in any case. -/
def finally_ (x : Dialogue κ ρ ε α) (last : Dialogue κ ρ ε Unit) : Dialogue κ ρ ε α :=
  match x with
  | .ended result => last.andThen fun _ => .ended result
  | .ask q next => .ask q fun answer => (next answer).finally_ last

/-- Run the program with the answers of a host: how it ends, and what was asked and answered. -/
def run (host : ∀ q, ρ q) : Dialogue κ ρ ε α → Except ε α × List (Sigma ρ)
  | .ended result => (result, [])
  | .ask q next =>
    let (result, log) := (next (host q)).run host
    (result, ⟨q, host q⟩ :: log)

/-- A log has the answers of its host. -/
theorem reply_of_run {host : ∀ q, ρ q} {x : Dialogue κ ρ ε α} {entry : Sigma ρ}
    (h : entry ∈ (x.run host).2) : entry.2 = host entry.1 := by
  induction x with
  | ended => cases h
  | ask q next ih =>
    rcases List.mem_cons.mp h with rfl | h
    · rfl
    · exact ih _ h

/-- **A host that answers what is asked in the same way** makes no difference. -/
theorem run_congr {host host' : ∀ q, ρ q} {x : Dialogue κ ρ ε α}
    (h : ∀ entry ∈ (x.run host).2, host' entry.1 = host entry.1) : x.run host' = x.run host := by
  induction x with
  | ended => rfl
  | ask q next ih =>
    have hq : host' q = host q := h ⟨q, host q⟩ List.mem_cons_self
    rw [run, run, hq, ih _ fun entry hentry => h entry (List.mem_cons_of_mem _ hentry)]

/-! ## Monitors -/

/-- What follows a dialogue: the questions it allows, the answers it admits, and where they lead. -/
structure Monitor (κ : Type) (ρ : κ → Type) (γ : Type) where
  allows : γ → κ → Prop
  admits : γ → (q : κ) → ρ q → Prop := fun _ _ _ => True
  next : γ → (q : κ) → ρ q → γ

/-- Followed from `g`, the program asks only what is allowed and ends as promised. -/
def Obeys (m : Monitor κ ρ γ) : γ → Dialogue κ ρ ε α → (Except ε α → γ → Prop) → Prop
  | g, .ended result, Q => Q result g
  | g, .ask q next, Q =>
    m.allows g q ∧ ∀ answer, m.admits g q answer → Obeys m (m.next g q answer) (next answer) Q

namespace Obeys

variable {m : Monitor κ ρ γ} {g : γ} {x : Dialogue κ ρ ε α} {f : α → Dialogue κ ρ ε β}
  {Q Q' : Except ε α → γ → Prop}

theorem mono (h : Obeys m g x Q) (himp : ∀ r g', Q r g' → Q' r g') : Obeys m g x Q' := by
  induction x generalizing g with
  | ended result => exact himp result g h
  | ask q next ih => exact ⟨h.1, fun answer ha => ih answer (h.2 answer ha)⟩

/-- **A sequence**: the second half starts where the first one returned. -/
theorem bind {Q : Except ε β → γ → Prop} (h : Obeys m g x fun r g' => match r with
    | .ok a => Obeys m g' (f a) Q
    | .error e => Q (.error e) g') : Obeys m g (x >>= f) Q := by
  change Obeys m g (x.andThen f) Q
  induction x generalizing g with
  | ended result => cases result <;> exact h
  | ask q next ih => exact ⟨h.1, fun answer ha => ih answer (h.2 answer ha)⟩

/-- **A step that may be left out.** -/
theorem onlyIf {p : Prop} [Decidable p] {x : Dialogue κ ρ ε Unit}
    {Q : Except ε Unit → γ → Prop} (h : p → Obeys m g x Q) (hnot : ¬ p → Q (.ok ()) g) :
    Obeys m g (x.onlyIf p) Q := by
  unfold Dialogue.onlyIf
  split
  · exact h ‹p›
  · exact hnot ‹¬ p›

theorem handle {handler : ε → Dialogue κ ρ ε' α} {Q : Except ε' α → γ → Prop}
    (h : Obeys m g x fun r g' => match r with
      | .ok a => Q (.ok a) g'
      | .error e => Obeys m g' (handler e) Q) : Obeys m g (x.handle handler) Q := by
  induction x generalizing g with
  | ended result => cases result <;> exact h
  | ask q next ih => exact ⟨h.1, fun answer ha => ih answer (h.2 answer ha)⟩

/-- **What is done in any case** is done where the program returned and where it raised. -/
theorem finally_ {last : Dialogue κ ρ ε Unit} (h : Obeys m g x fun r g' =>
    Obeys m g' last fun r' g'' => match r' with
      | .ok () => Q r g''
      | .error e => Q (.error e) g'') : Obeys m g (x.finally_ last) Q := by
  induction x generalizing g with
  | ended result =>
    refine bind (mono h fun r' g'' h' => ?_)
    cases r' <;> exact h'
  | ask q next ih => exact ⟨h.1, fun answer ha => ih answer (h.2 answer ha)⟩

end Obeys

/-- Where an entry of a log leads. -/
def Monitor.follow (m : Monitor κ ρ γ) (g : γ) (entry : Sigma ρ) : γ := m.next g entry.1 entry.2

/-- **What a monitored program does in a run**: it ends as promised where its log leads, and each of
its questions is allowed where the log before it leads. -/
theorem Obeys.run {m : Monitor κ ρ γ} {g : γ} {x : Dialogue κ ρ ε α} {Q : Except ε α → γ → Prop}
    (h : Obeys m g x Q) {host : ∀ q, ρ q} (hhost : ∀ g q, m.admits g q (host q)) :
    Q (x.run host).1 ((x.run host).2.foldl m.follow g) ∧
      ∀ before entry after, (x.run host).2 = before ++ entry :: after →
        m.allows (before.foldl m.follow g) entry.1 := by
  induction x generalizing g with
  | ended result => exact ⟨h, by simp [Dialogue.run]⟩
  | ask q next ih =>
    obtain ⟨hQ, hallows⟩ := ih (host q) (h.2 (host q) (hhost g q))
    refine ⟨hQ, fun before entry after hlog => ?_⟩
    rcases List.cons_eq_append_iff.mp hlog with ⟨rfl, hentry⟩ | ⟨rest, rfl, hrest⟩
    · obtain ⟨rfl, -⟩ := List.cons.inj hentry
      exact h.1
    · exact hallows rest entry after hrest

/-! ## Questions of a kind -/

/-- Every question of the program is of the kind. -/
def Asks (P : κ → Prop) : Dialogue κ ρ ε α → Prop
  | .ended _ => True
  | .ask q next => P q ∧ ∀ answer, (next answer).Asks P

namespace Asks

variable {P : κ → Prop} {x : Dialogue κ ρ ε α} {f : α → Dialogue κ ρ ε β}

theorem bind (h : x.Asks P) (hf : ∀ a, (f a).Asks P) : (x >>= f).Asks P := by
  change (x.andThen f).Asks P
  induction x with
  | ended result =>
    rcases result with e | a
    · trivial
    · exact hf a
  | ask q next ih => exact ⟨h.1, fun answer => ih answer (h.2 answer)⟩

theorem onlyIf {p : Prop} [Decidable p] {x : Dialogue κ ρ ε Unit} (h : x.Asks P) :
    (x.onlyIf p).Asks P := by
  unfold Dialogue.onlyIf
  split
  · exact h
  · trivial

/-- A step for every element of a list. -/
theorem forM {σ : Type} {l : List σ} {f : σ → Dialogue κ ρ ε PUnit} (h : ∀ a ∈ l, (f a).Asks P) :
    (l.forM f).Asks P := by
  induction l with
  | nil => trivial
  | cons a l ih =>
    change (f a >>= fun _ => l.forM f).Asks P
    exact .bind (h a List.mem_cons_self) fun _ => ih fun b hb => h b (List.mem_cons_of_mem a hb)

/-- **A monitor that a kind of question leaves where it is** is left there by a program of them. -/
theorem obeys {m : Monitor κ ρ γ} {g : γ} {Q : Except ε α → γ → Prop} (h : x.Asks P)
    (hallows : ∀ q, P q → m.allows g q) (hnext : ∀ q answer, P q → m.next g q answer = g)
    (hQ : ∀ r, Q r g) : Obeys m g x Q := by
  induction x with
  | ended result => exact hQ result
  | ask q next ih =>
    refine ⟨hallows q h.1, fun answer _ => ?_⟩
    rw [hnext q answer h.1]
    exact ih answer (h.2 answer)

end Asks
end Dialogue
