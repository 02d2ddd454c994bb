import Mathlib.Data.List.Basic

/-!
# Foundations/Replace — replacing a pattern in a text

`replace` scans a text from the left and puts a new text for every occurrence of the pattern it
meets; an occurrence that overlaps one that was replaced is not met.  The elements of the text are
compared by what `value` reads of them, so a text may carry more than is compared.

A proof about `replace` follows the scan (`scan_induction`): the text is at its end, at an
occurrence, or at an element where no occurrence starts.
-/

namespace Replace

open List

variable {α β γ : Type} [DecidableEq γ] {value : α → γ} {pattern : List γ} {new : List α}

/-- Scan a text; `skip` more elements belong to an occurrence that was replaced. -/
def replaceFrom (value : α → γ) (pattern : List γ) (new : List α) : ℕ → List α → List α
  | _, [] => []
  | skip + 1, _ :: l => replaceFrom value pattern new skip l
  | 0, a :: l =>
    if pattern <+: (a :: l).map value then
      new ++ replaceFrom value pattern new (pattern.length - 1) l
    else a :: replaceFrom value pattern new 0 l

/-- Replace every occurrence of the pattern. -/
def replace (value : α → γ) (pattern : List γ) (new : List α) (l : List α) : List α :=
  replaceFrom value pattern new 0 l

theorem replaceFrom_eq_replace_drop (n : ℕ) (l : List α) :
    replaceFrom value pattern new n l = replace value pattern new (l.drop n) := by
  induction l generalizing n with
  | nil => cases n <;> rfl
  | cons a l ih =>
    cases n with
    | zero => rfl
    | succ n => exact ih n

@[simp] theorem replace_nil : replace value pattern new [] = [] := rfl

omit [DecidableEq γ] in
theorem occurs_at {a : α} {x : List α} (hx : (a :: x).map value = pattern) (y : List α) :
    pattern.length - 1 = x.length ∧ pattern <+: (a :: (x ++ y)).map value := by
  subst hx
  simp

/-- At an occurrence. -/
theorem replace_hit (hp : pattern ≠ []) {x : List α} (hx : x.map value = pattern) (y : List α) :
    replace value pattern new (x ++ y) = new ++ replace value pattern new y := by
  cases x with
  | nil => exact absurd hx.symm hp
  | cons a x =>
    obtain ⟨hlen, hpre⟩ := occurs_at hx y
    rw [replace, cons_append, replaceFrom, if_pos hpre, replaceFrom_eq_replace_drop, hlen,
      drop_left]

/-- Where no occurrence starts. -/
theorem replace_miss {a : α} {l : List α} (h : ¬ pattern <+: (a :: l).map value) :
    replace value pattern new (a :: l) = a :: replace value pattern new l := by
  rw [replace, replaceFrom, if_neg h]
  rfl

/-- **Induction along the scan.** -/
theorem scan_induction (value : α → γ) {P : List α → Prop} (hp : pattern ≠ []) (nil : P [])
    (hit : ∀ x y, x.map value = pattern → P y → P (x ++ y))
    (miss : ∀ a l, ¬ pattern <+: (a :: l).map value → P l → P (a :: l)) (l : List α) : P l := by
  induction hn : l.length using Nat.strongRecOn generalizing l with
  | _ n ih =>
    cases l with
    | nil => exact nil
    | cons a l =>
      by_cases hpre : pattern <+: (a :: l).map value
      · obtain ⟨rest, hrest⟩ := hpre
        obtain ⟨x, y, hxy, hx, hy⟩ := map_eq_append_iff.mp hrest.symm
        have hpos : 0 < x.length := by
          rw [← length_map value, hx]
          exact length_pos_iff.mpr hp
        rw [hxy] at hn ⊢
        refine hit x y hx (ih y.length ?_ y rfl)
        rw [length_append] at hn
        omega
      · exact miss a l hpre (ih l.length (by simp [← hn]) l rfl)

/-- What is read of the elements is replaced alike. -/
theorem map_replace (hp : pattern ≠ []) (read : β → γ) (erase : α → β)
    (hread : ∀ a, read (erase a) = value a) (l : List α) : (replace value pattern new l).map erase =
      replace read pattern (new.map erase) (l.map erase) := by
  have hmap : ∀ l : List α, (l.map erase).map read = l.map value := fun l => by
    rw [map_map]
    exact map_congr_left fun a _ => hread a
  induction l using scan_induction value hp with
  | nil => rfl
  | hit x y hx ih =>
    rw [replace_hit hp hx, map_append, map_append, ih, replace_hit hp ((hmap x).trans hx)]
  | miss a l h ih =>
    rw [replace_miss h, map_cons, map_cons, ih, replace_miss]
    rw [← map_cons, hmap]
    exact h

/-! ## What is left of the text

`Own` tells the elements of the text from those of the new one: a piece of the result that has only
elements of the text is a piece of the text, and no occurrence. -/

section Own

variable {Own : α → Prop} {m l : List α}

/-- A piece without elements of the new text lies beside it. -/
private theorem infix_of_infix_append (hnew : ∀ a ∈ new, ¬ Own a) (hm : ∀ a ∈ m, Own a)
    (h : m <:+: new ++ l) : m <:+: l := by
  induction new with
  | nil => exact h
  | cons b new ih =>
    have hb : ¬ Own b := hnew b mem_cons_self
    rw [cons_append, infix_cons_iff] at h
    rcases h with h | h
    · rcases prefix_cons_iff.mp h with rfl | ⟨t, rfl, -⟩
      · exact nil_infix
      · exact absurd (hm b mem_cons_self) hb
    · exact ih (fun a ha => hnew a (mem_cons_of_mem b ha)) h

private theorem eq_nil_of_prefix_append (hne : new ≠ []) (hnew : ∀ a ∈ new, ¬ Own a)
    (hm : ∀ a ∈ m, Own a) (h : m <+: new ++ l) : m = [] := by
  cases new with
  | nil => exact absurd rfl hne
  | cons b new =>
    rcases prefix_cons_iff.mp h with rfl | ⟨t, rfl, -⟩
    · rfl
    · exact absurd (hm b mem_cons_self) (hnew b mem_cons_self)

/-- A beginning of the result. -/
theorem prefix_of_prefix_replace (hp : pattern ≠ []) (hne : new ≠ [])
    (hnew : ∀ a ∈ new, ¬ Own a) (hm : ∀ a ∈ m, Own a)
    (h : m <+: replace value pattern new l) : m <+: l := by
  induction l using scan_induction value hp generalizing m with
  | nil => exact h
  | hit x y hx ih =>
    rw [replace_hit hp hx] at h
    rw [eq_nil_of_prefix_append hne hnew hm h]
    exact nil_prefix
  | miss a l hmiss ih =>
    rw [replace_miss hmiss] at h
    rcases prefix_cons_iff.mp h with rfl | ⟨t, rfl, ht⟩
    · exact nil_prefix
    · exact cons_prefix_cons.mpr ⟨rfl, ih (fun b hb => hm b (mem_cons_of_mem a hb)) ht⟩

/-- **A piece of the result is a piece of the text**, and not the pattern. -/
theorem infix_of_infix_replace (hp : pattern ≠ []) (hne : new ≠ [])
    (hnew : ∀ a ∈ new, ¬ Own a) (hm : ∀ a ∈ m, Own a)
    (h : m <:+: replace value pattern new l) : m <:+: l ∧ m.map value ≠ pattern := by
  induction l using scan_induction value hp generalizing m with
  | nil =>
    obtain rfl := infix_nil.mp h
    exact ⟨infix_rfl, fun h => hp h.symm⟩
  | hit x y hx ih =>
    rw [replace_hit hp hx] at h
    obtain ⟨hy, hpattern⟩ := ih hm (infix_of_infix_append hnew hm h)
    exact ⟨hy.trans (suffix_append x y).isInfix, hpattern⟩
  | miss a l hmiss ih =>
    rw [replace_miss hmiss, infix_cons_iff] at h
    rcases h with h | h
    · rw [← replace_miss hmiss] at h
      have hpre := prefix_of_prefix_replace hp hne hnew hm h
      exact ⟨hpre.isInfix, fun hpattern => hmiss (hpattern ▸ hpre.map value)⟩
    · obtain ⟨hl, hpattern⟩ := ih hm h
      exact ⟨hl.trans (suffix_cons a l).isInfix, hpattern⟩

/-- A result that has only elements of the text is the text. -/
theorem replace_eq_self (hp : pattern ≠ []) (hne : new ≠ []) (hnew : ∀ a ∈ new, ¬ Own a)
    (hall : ∀ a ∈ replace value pattern new l, Own a) : replace value pattern new l = l := by
  induction l using scan_induction value hp with
  | nil => rfl
  | hit x y hx ih =>
    rw [replace_hit hp hx] at hall
    obtain ⟨a, ha⟩ := exists_mem_of_ne_nil new hne
    exact absurd (hall a (mem_append_left _ ha)) (hnew a ha)
  | miss a l hmiss ih =>
    rw [replace_miss hmiss] at hall ⊢
    rw [ih fun b hb => hall b (mem_cons_of_mem a hb)]

end Own

/-! ## Texts in two parts -/

/-- No occurrence the scan of a text meets reaches from it into what follows. -/
def clearFrom (value : α → γ) (pattern : List γ) (next : List α) : ℕ → List α → Bool
  | _, [] => true
  | skip + 1, _ :: l => clearFrom value pattern next skip l
  | 0, a :: l =>
    if pattern <+: (a :: l).map value then clearFrom value pattern next (pattern.length - 1) l
    else ¬ pattern <+: (a :: l ++ next).map value ∧ clearFrom value pattern next 0 l

def clear (value : α → γ) (pattern : List γ) (next l : List α) : Bool :=
  clearFrom value pattern next 0 l

section Clear

variable {next : List α}

theorem clearFrom_eq_clear_drop (n : ℕ) (l : List α) :
    clearFrom value pattern next n l = clear value pattern next (l.drop n) := by
  induction l generalizing n with
  | nil => cases n <;> rfl
  | cons a l ih =>
    cases n with
    | zero => rfl
    | succ n => exact ih n

@[simp] theorem clear_nil : clear value pattern next [] = true := rfl

theorem clear_hit (hp : pattern ≠ []) {x : List α} (hx : x.map value = pattern) (y : List α) :
    clear value pattern next (x ++ y) = clear value pattern next y := by
  cases x with
  | nil => exact absurd hx.symm hp
  | cons a x =>
    obtain ⟨hlen, hpre⟩ := occurs_at hx y
    rw [clear, cons_append, clearFrom, if_pos hpre, clearFrom_eq_clear_drop, hlen,
      drop_left]

theorem clear_miss {a : α} {l : List α} (h : ¬ pattern <+: (a :: l).map value) :
    clear value pattern next (a :: l) = true ↔
      ¬ pattern <+: (a :: l ++ next).map value ∧ clear value pattern next l = true := by
  rw [clear, clearFrom, if_neg h, decide_eq_true_eq]
  rfl

/-- **Where no occurrence reaches from one part into the other, each is replaced alone.** -/
theorem replace_append (hp : pattern ≠ []) {l : List α} (h : clear value pattern next l = true) :
    replace value pattern new (l ++ next) =
      replace value pattern new l ++ replace value pattern new next := by
  induction l using scan_induction value hp with
  | nil => rfl
  | hit x y hx ih =>
    rw [clear_hit hp hx] at h
    rw [append_assoc, replace_hit hp hx, replace_hit hp hx, ih h, append_assoc]
  | miss a l hmiss ih =>
    obtain ⟨hacross, hrest⟩ := (clear_miss hmiss).mp h
    have hmiss' : ¬ pattern <+: (a :: (l ++ next)).map value := hacross
    rw [cons_append, replace_miss hmiss', replace_miss hmiss, ih hrest, cons_append]

end Clear

end Replace
