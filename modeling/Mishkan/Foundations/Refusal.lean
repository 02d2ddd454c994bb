import Mathlib.Data.List.Forall2

/-!
# Foundations/Refusal — fallible steps and the guards they are made of

A fallible step is an `Except ε`; its guards are `refuseIf` (stop with an error when a condition
holds) and `require` (open an option or stop).  Each has one inversion lemma, and `bind_eq_ok`
peels a `do` block guard by guard, so a successful run is read off as the conjunction of its guards.
-/

namespace Refusal

open List

universe u v

variable {ε : Type v} {α β : Type u}

/-- Stop with `e` when `p` holds. -/
def refuseIf (p : Prop) [Decidable p] (e : ε) : Except ε Unit :=
  if p then .error e else .ok ()

/-- Open an option, or stop with `e`. -/
def require (o : Option α) (e : ε) : Except ε α :=
  match o with
  | some a => .ok a
  | none => .error e

@[simp] theorem refuseIf_eq_ok {p : Prop} [Decidable p] {e : ε} {u : Unit} :
    refuseIf p e = .ok u ↔ ¬ p := by
  by_cases h : p <;> simp [refuseIf, h]

@[simp] theorem require_eq_ok {o : Option α} {e : ε} {a : α} :
    require o e = .ok a ↔ o = some a := by
  cases o <;> simp [require]

variable {f : α → Except ε β} {x : Except ε α}

/-- **A sequence succeeds exactly when both of its halves do.** -/
@[simp] theorem bind_eq_ok {b : β} :
    (x >>= f) = .ok b ↔ ∃ a, x = .ok a ∧ f a = .ok b := by
  cases x <;> simp [bind, Except.bind]

/-- What follows a check succeeds. -/
theorem of_bind {y : Except ε β} {b : β} (h : (x >>= fun _ => y) = .ok b) :
    y = .ok b := (bind_eq_ok.mp h).choose_spec.2

@[simp] theorem ok_bind (a : α) (f : α → Except ε β) : (Except.ok a >>= f) = f a := rfl

@[simp] theorem pure_eq_ok {a b : α} : (pure a : Except ε α) = .ok b ↔ a = b := by
  simp [pure, Except.pure]

/-- A transaction returns an answer and the state it leaves. -/
theorem return_eq_ok {σ : Type u} {a b : α} {s s' : σ} :
    (pure (a, s) : Except ε (α × σ)) = .ok (b, s') ↔ a = b ∧ s = s' := by
  rw [pure_eq_ok, Prod.mk.injEq]

@[simp] theorem mapError_eq_ok {ε' : Type*} {f : ε → ε'} {a : α} :
    x.mapError f = .ok a ↔ x = .ok a := by
  cases x <;> simp [Except.mapError]

@[simp] theorem map_eq_ok {f : α → β} {b : β} :
    x.map f = .ok b ↔ ∃ a, x = .ok a ∧ f a = b := by
  cases x <;> simp [Except.map]

@[simp] theorem toOption_eq_some {a : α} : x.toOption = some a ↔ x = .ok a := by
  cases x <;> simp [Except.toOption]

variable {l : List α}

/-- **A loop succeeds exactly when its body does on every element.** -/
theorem mapM_eq_ok {l' : List β} :
    l.mapM f = .ok l' ↔ List.Forall₂ (fun a b => f a = .ok b) l l' := by
  induction l generalizing l' with
  | nil => rw [mapM_nil, pure_eq_ok, forall₂_nil_left_iff, eq_comm]
  | cons a l ih =>
    simp only [mapM_cons, bind_eq_ok, pure_eq_ok, ih, forall₂_cons_left_iff]
    constructor
    · rintro ⟨b, hb, bs, hbs, rfl⟩
      exact ⟨b, bs, hb, hbs, rfl⟩
    · rintro ⟨b, bs, hb, hbs, rfl⟩
      exact ⟨b, hb, bs, hbs, rfl⟩

/-- A loop yields only results with a property exactly when its body does on every element. -/
theorem exists_mapM_iff {P : β → Prop} :
    (∃ l', l.mapM f = .ok l' ∧ ∀ b ∈ l', P b) ↔ ∀ a ∈ l, ∃ b, f a = .ok b ∧ P b := by
  simp only [mapM_eq_ok]
  induction l with
  | nil => simp
  | cons a l ih =>
    rw [forall_mem_cons, ← ih]
    constructor
    · rintro ⟨_, hall, hP⟩
      obtain ⟨b, l', hb, hl', rfl⟩ := forall₂_cons_left_iff.mp hall
      rw [forall_mem_cons] at hP
      exact ⟨⟨b, hb, hP.1⟩, l', hl', hP.2⟩
    · rintro ⟨⟨b, hb, hPb⟩, l', hl', hP⟩
      exact ⟨b :: l', .cons hb hl', forall_mem_cons.mpr ⟨hPb, hP⟩⟩

/-- Every result of a loop is the result of its body on some element. -/
theorem mem_of_mapM {l' : List β} (h : l.mapM f = .ok l')
    {b : β} (hb : b ∈ l') : ∃ a ∈ l, f a = .ok b := by
  rw [mapM_eq_ok] at h
  induction h with
  | nil => cases hb
  | cons hab _ ih =>
    rcases mem_cons.mp hb with rfl | hb
    · exact ⟨_, mem_cons_self, hab⟩
    · obtain ⟨a, ha, hab⟩ := ih hb
      exact ⟨a, mem_cons_of_mem _ ha, hab⟩

/-- The body of a loop has a result on every element, and the loop has it. -/
theorem mapM_of_mem {l' : List β} (h : l.mapM f = .ok l')
    {a : α} (ha : a ∈ l) : ∃ b ∈ l', f a = .ok b := by
  obtain ⟨b, hb, hmem⟩ := exists_mapM_iff.mp ⟨l', h, fun _ => id⟩ a ha
  exact ⟨b, hmem, hb⟩

theorem mapM_of_forall {g : α → β}
    (h : ∀ a ∈ l, f a = .ok (g a)) : l.mapM f = .ok (l.map g) := by
  rw [mapM_eq_ok, forall₂_map_right_iff, forall₂_same]
  exact h

/-- A fold succeeds when its step does on every element. -/
theorem foldlM_of_forall {f : β → α → Except ε β}
    (h : ∀ a ∈ l, ∀ b, ∃ b', f b a = .ok b') (b : β) : ∃ b', l.foldlM f b = .ok b' := by
  induction l generalizing b with
  | nil => exact ⟨b, rfl⟩
  | cons a l ih =>
    obtain ⟨between, hbetween⟩ := h a mem_cons_self b
    rw [foldlM_cons, hbetween, ok_bind]
    exact ih (fun c hc => h c (mem_cons_of_mem a hc)) between

/-- A fold whose step appends one element to a list it keeps has appended one for each element. -/
theorem foldlM_collects {γ : Type*} {f : β → α → Except ε β} (collected : β → List γ) (g : α → γ)
    (hf : ∀ b a b', f b a = .ok b' → collected b' = collected b ++ [g a]) {b b' : β}
    (h : l.foldlM f b = .ok b') : collected b' = collected b ++ l.map g := by
  induction l generalizing b with
  | nil =>
    cases h
    rw [map_nil, append_nil]
  | cons a l ih =>
    obtain ⟨between, hbetween, h⟩ := bind_eq_ok.mp h
    rw [ih h, hf b a between hbetween, append_assoc, map_cons, singleton_append]

/-- A loop for its checks succeeds exactly when its body does on every element. -/
theorem forM_eq_ok {f : α → Except ε PUnit} :
    l.forM f = .ok ⟨⟩ ↔ ∀ a ∈ l, f a = .ok ⟨⟩ := by
  induction l with
  | nil => simp [pure, Except.pure]
  | cons a l ih =>
    change (f a >>= fun _ => l.forM f) = _ ↔ _
    rw [bind_eq_ok, forall_mem_cons, ← ih]
    constructor
    · rintro ⟨_, ha, hl⟩
      exact ⟨ha, hl⟩
    · rintro ⟨ha, hl⟩
      exact ⟨⟨⟩, ha, hl⟩

theorem refuseIf_of_not {p : Prop} [Decidable p] {e : ε} (h : ¬ p) :
    refuseIf p e = .ok () := refuseIf_eq_ok.mpr h

theorem refuseIf_of {p : Prop} [Decidable p] {e : ε} (h : p) : refuseIf p e = .error e :=
  if_pos h

section Keep

variable {α : Type}

/-- The elements of a list that a fallible test holds of. -/
def keepIf (p : α → Except ε Bool) : List α → Except ε (List α)
  | [] => .ok []
  | a :: l => do
    let holds ← p a
    let kept ← keepIf p l
    return if holds then a :: kept else kept

/-- **A fallible test has a result on every element when it keeps a list**, and keeps what it holds
of. -/
theorem keepIf_eq_ok {p : α → Except ε Bool} {l l' : List α} : keepIf p l = .ok l' ↔
      (∀ a ∈ l, ∃ holds, p a = .ok holds) ∧ l' = l.filter fun a => match p a with
          | .ok holds => holds
          | .error _ => false := by
  induction l generalizing l' with
  | nil => simp [keepIf, eq_comm]
  | cons a l ih =>
    simp only [keepIf, bind_eq_ok, pure_eq_ok, ih, forall_mem_cons, filter_cons]
    constructor
    · rintro ⟨holds, ha, kept, ⟨hl, rfl⟩, rfl⟩
      rw [ha]
      exact ⟨⟨⟨holds, rfl⟩, hl⟩, rfl⟩
    · rintro ⟨⟨⟨holds, ha⟩, hl⟩, rfl⟩
      rw [ha]
      exact ⟨holds, rfl, _, ⟨hl, rfl⟩, rfl⟩

theorem keepIf_of_forall {p : α → Except ε Bool} {q : α → Bool} {l : List α}
    (h : ∀ a ∈ l, p a = .ok (q a)) : keepIf p l = .ok (l.filter q) := by
  refine keepIf_eq_ok.mpr ⟨fun a ha => ⟨q a, h a ha⟩, filter_congr fun a ha => ?_⟩
  rw [h a ha]

end Keep

/-- The state a transaction leaves: its own on success, the old one when it is rolled back. -/
def commit {σ : Type u} (s : σ) (x : Except ε (α × σ)) : σ :=
  match x with
  | .ok (_, s') => s'
  | .error _ => s

@[simp] theorem commit_ok {σ : Type u} (s s' : σ) (a : α) :
    commit s (.ok (a, s') : Except ε (α × σ)) = s' := rfl

@[simp] theorem commit_error {σ : Type u} (s : σ) (e : ε) :
    commit s (.error e : Except ε (α × σ)) = s := rfl

/-- **A transaction either rolls back or commits**, so a reflexive relation between the two ends
has only its successful runs to check. -/
theorem commit_cases {σ : Type u} {s : σ} {x : Except ε (α × σ)} {R : σ → σ → Prop}
    (hrefl : R s s) (hok : ∀ a s', x = .ok (a, s') → R s s') : R s (commit s x) := by
  cases x with
  | error e => exact hrefl
  | ok p => exact hok p.1 p.2 rfl

/-! ## What a step raises

`Raises P x` says that `P` holds of every error `x` stops with. -/

section Raises

variable {P : ε → Prop}

/-- Every error the step stops with has `P`. -/
def Raises (P : ε → Prop) (x : Except ε α) : Prop := ∀ e, x = .error e → P e

theorem Raises.ok (a : α) : Raises P (.ok a : Except ε α) := fun _ h => nomatch h

theorem Raises.error {e : ε} (h : P e) : Raises P (.error e : Except ε α) := fun _ he => by
  rwa [← Except.error.inj he]

theorem Raises.refuseIf {p : Prop} [Decidable p] {e : ε} (h : P e) : Raises P (refuseIf p e) := by
  unfold Refusal.refuseIf
  split
  · exact .error h
  · exact .ok ()

theorem Raises.require {o : Option α} {e : ε} (h : P e) : Raises P (require o e) := by
  cases o with
  | none => exact .error h
  | some a => exact .ok a

theorem Raises.bind {x : Except ε α} {f : α → Except ε β} (hx : Raises P x)
    (hf : ∀ a, x = .ok a → Raises P (f a)) : Raises P (x >>= f) := by
  cases x with
  | error e => exact .error (hx e rfl)
  | ok a => exact hf a rfl

theorem Raises.mapM {f : α → Except ε β} {l : List α} (h : ∀ a, Raises P (f a)) :
    Raises P (l.mapM f) := by
  induction l with
  | nil => exact .ok []
  | cons a l ih =>
    rw [mapM_cons]
    exact .bind (h a) fun _ _ => .bind ih fun _ _ => .ok _

theorem Raises.foldlM {f : β → α → Except ε β} {l : List α} (h : ∀ b a, Raises P (f b a)) (b : β) :
    Raises P (l.foldlM f b) := by
  induction l generalizing b with
  | nil => exact .ok b
  | cons a l ih =>
    rw [foldlM_cons]
    exact .bind (h b a) fun _ _ => ih _

end Raises

/-! ## What a transaction leaves

`Leaves P x` says that `P` holds of every state `x` commits.  Its rules follow the `do` block: past
a guard, into the branches, to the state that is returned. -/

section Leaves

variable {σ : Type u} {P Q : σ → Prop} {s : σ}

/-- Every state the transaction commits has `P`. -/
def Leaves (P : σ → Prop) (x : Except ε (α × σ)) : Prop := ∀ a s, x = .ok (a, s) → P s

theorem Leaves.done {a : α} (h : P s) : Leaves P (pure (a, s) : Except ε (α × σ)) := by
  intro a' s' h'
  obtain ⟨rfl, rfl⟩ := Prod.mk.inj (pure_eq_ok.mp h')
  exact h

/-- Past a step, with what its success says. -/
theorem Leaves.after {x : Except ε β} {f : β → Except ε (α × σ)}
    (h : ∀ b, x = .ok b → Leaves P (f b)) : Leaves P (x >>= f) := by
  intro a s' h'
  obtain ⟨b, hb, hf⟩ := bind_eq_ok.mp h'
  exact h b hb a s' hf

/-- Past a step that does not matter. -/
theorem Leaves.skip {x : Except ε β} {f : β → Except ε (α × σ)} (h : ∀ b, Leaves P (f b)) :
    Leaves P (x >>= f) := .after fun b _ => h b

theorem Leaves.branch {p : Prop} [Decidable p] {x y : Except ε (α × σ)}
    (hx : p → Leaves P x) (hy : ¬ p → Leaves P y) : Leaves P (if p then x else y) := by
  split
  · exact hx ‹p›
  · exact hy ‹¬ p›

theorem Leaves.imp {x : Except ε (α × σ)} (hx : Leaves P x) (h : ∀ s, P s → Q s) : Leaves Q x :=
  fun a s' hs' => h s' (hx a s' hs')

/-- **A state that is committed or kept** has what both have. -/
theorem Leaves.commit {x : Except ε (α × σ)} (h : Leaves P x) (hs : P s) : P (commit s x) := by
  cases x with
  | error e => exact hs
  | ok p => exact h p.1 p.2 rfl

end Leaves

end Refusal
