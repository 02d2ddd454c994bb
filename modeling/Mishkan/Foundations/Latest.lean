import Mathlib.Data.List.Induction
import Mathlib.Data.List.Nodup

/-!
# Foundations/Latest — the newest record of each key

`latest key rev l` is the dictionary a loop over `l` builds when it keeps, for every key, the record
with the highest revision.  Its entries are exactly the newest records (`mem_latest_iff`), one for
every key that occurs (`exists_mem_latest`, `nodup_keys`).

A query with a limit sees a prefix, in which a newest record it contains is newest as well
(`isLatest_take`).
-/

namespace Latest

open List

variable {α κ : Type*} [DecidableEq κ] {key : α → κ} {rev : α → ℕ} {l : List α} {a b : α} {k : κ}

/-- Replace the entry of a key by a newer record, or open one. -/
def record (key : α → κ) (rev : α → ℕ) (acc : List α) (a : α) : List α :=
  if acc.all (fun b => key b ≠ key a) then acc ++ [a]
  else acc.map fun b => if key b = key a ∧ rev b < rev a then a else b

/-- The newest record of every key, in the order the keys are first seen. -/
def latest (key : α → κ) (rev : α → ℕ) (l : List α) : List α := l.foldl (record key rev) []

@[simp] theorem latest_nil : latest key rev [] = [] := rfl

theorem latest_append_singleton :
    latest key rev (l ++ [a]) = record key rev (latest key rev l) a := foldl_append

/-- The keys of a dictionary after a record. -/
theorem map_key_record {acc : List α} : (record key rev acc a).map key =
    if acc.all (fun b => key b ≠ key a) then acc.map key ++ [key a] else acc.map key := by
  unfold record
  split
  · simp
  · rw [map_map]
    refine map_congr_left fun b _ => ?_
    simp only [Function.comp_apply]
    split
    · rename_i h
      exact h.1.symm
    · rfl

/-- **Every key has at most one entry.** -/
theorem nodup_keys : ((latest key rev l).map key).Nodup := by
  induction l using List.reverseRecOn with
  | nil => simp
  | append_singleton l a ih =>
    rw [latest_append_singleton, map_key_record]
    split
    · rename_i hall
      rw [nodup_append]
      refine ⟨ih, nodup_singleton _, fun x hx y hy hxy => ?_⟩
      obtain ⟨b, hb, rfl⟩ := mem_map.mp hx
      rw [mem_singleton] at hy
      exact absurd (hxy.trans hy) (by simpa using all_eq_true.mp hall b hb)
    · exact ih

/-- `a` is the newest record of its key. -/
def IsLatest (key : α → κ) (rev : α → ℕ) (l : List α) (a : α) : Prop :=
  a ∈ l ∧ ∀ b ∈ l, key b = key a → rev b ≤ rev a

instance [DecidableEq α] : Decidable (IsLatest key rev l a) := inferInstanceAs (Decidable (_ ∧ _))

omit [DecidableEq κ] in
theorem isLatest_take {n : ℕ} (h : IsLatest key rev l a) (hmem : a ∈ l.take n) :
    IsLatest key rev (l.take n) a := ⟨hmem, fun b hb => h.2 b (mem_of_mem_take hb)⟩

/-- What the loop has after a prefix: the entries are newest, and no key is missing. -/
private theorem latest_spec : (∀ a ∈ latest key rev l, IsLatest key rev l a) ∧
    ∀ b ∈ l, ∃ a ∈ latest key rev l, key a = key b := by
  induction l using List.reverseRecOn with
  | nil => simp
  | append_singleton l a ih =>
    obtain ⟨hlatest, hexists⟩ := ih
    rw [latest_append_singleton]
    unfold record
    split
    · -- the key is new
      rename_i hall
      have hnew : ∀ b ∈ l, key b ≠ key a := by
        intro b hb hkey
        obtain ⟨c, hc, hcb⟩ := hexists b hb
        simpa [hcb.trans hkey] using all_eq_true.mp hall c hc
      constructor
      · intro c hc
        rcases mem_append.mp hc with hc | hc
        · obtain ⟨hmem, hmax⟩ := hlatest c hc
          refine ⟨mem_append_left _ hmem, fun b hb hkey => ?_⟩
          rcases mem_append.mp hb with hb | hb
          · exact hmax b hb hkey
          · rw [mem_singleton.mp hb] at hkey
            exact absurd hkey.symm (hnew c hmem)
        · rw [mem_singleton.mp hc]
          refine ⟨mem_append_right _ (mem_singleton_self a), fun b hb hkey => ?_⟩
          rcases mem_append.mp hb with hb | hb
          · exact absurd hkey (hnew b hb)
          · exact (mem_singleton.mp hb) ▸ Nat.le_refl _
      · intro b hb
        rcases mem_append.mp hb with hb | hb
        · obtain ⟨c, hc, hcb⟩ := hexists b hb
          exact ⟨c, mem_append_left _ hc, hcb⟩
        · exact ⟨a, mem_append_right _ (mem_singleton_self a),
            by rw [mem_singleton.mp hb]⟩
    · -- the key has an entry, which stays unless it is older
      rename_i hsome
      constructor
      · intro c hc
        obtain ⟨d, hd, rfl⟩ := mem_map.mp hc
        obtain ⟨hmem, hmax⟩ := hlatest d hd
        split
        · rename_i h
          refine ⟨mem_append_right _ (mem_singleton_self a), fun b hb hkey => ?_⟩
          rcases mem_append.mp hb with hb | hb
          · exact Nat.le_trans (hmax b hb (hkey.trans h.1.symm)) (Nat.le_of_lt h.2)
          · exact (mem_singleton.mp hb) ▸ Nat.le_refl _
        · rename_i h
          refine ⟨mem_append_left _ hmem, fun b hb hkey => ?_⟩
          rcases mem_append.mp hb with hb | hb
          · exact hmax b hb hkey
          · rw [mem_singleton.mp hb] at hkey ⊢
            exact Nat.not_lt.mp fun hlt => h ⟨hkey.symm, hlt⟩
      · intro b hb
        have hkeys : ∃ c ∈ latest key rev l, key c = key b := by
          rcases mem_append.mp hb with hb | hb
          · exact hexists b hb
          · rw [mem_singleton.mp hb]
            simpa using hsome
        obtain ⟨c, hc, hcb⟩ := hkeys
        refine ⟨_, mem_map_of_mem hc, ?_⟩
        split
        · rename_i h
          exact h.1.symm.trans hcb
        · exact hcb

theorem isLatest_of_mem (h : a ∈ latest key rev l) : IsLatest key rev l a := latest_spec.1 a h

theorem mem_of_mem_latest (h : a ∈ latest key rev l) : a ∈ l := (isLatest_of_mem h).1

theorem exists_mem_latest (h : b ∈ l) : ∃ a ∈ latest key rev l, key a = key b := latest_spec.2 b h

/-- Two entries of one key are one entry. -/
theorem eq_of_key (ha : a ∈ latest key rev l) (hb : b ∈ latest key rev l) (h : key a = key b) :
    a = b := inj_on_of_nodup_map nodup_keys ha hb h

/-- **The entries are exactly the newest records**, where no two records share key and revision. -/
theorem mem_latest_iff (hinj : ∀ a ∈ l, ∀ b ∈ l, key a = key b → rev a = rev b → a = b) :
    a ∈ latest key rev l ↔ IsLatest key rev l a := by
  refine ⟨isLatest_of_mem, fun h => ?_⟩
  obtain ⟨c, hc, hkey⟩ : ∃ c ∈ latest key rev l, key c = key a := exists_mem_latest h.1
  have hmax := isLatest_of_mem hc
  rw [hinj a h.1 c hmax.1 hkey.symm (Nat.le_antisymm (hmax.2 a h.1 hkey.symm) (h.2 c hmax.1 hkey))]
  exact hc

/-- A list without repeated keys is its own dictionary. -/
theorem latest_of_nodup (h : (l.map key).Nodup) : latest key rev l = l := by
  induction l using List.reverseRecOn with
  | nil => rfl
  | append_singleton l a ih =>
    rw [map_append, nodup_append] at h
    obtain ⟨hl, -, hnew⟩ := h
    rw [latest_append_singleton, ih hl, record, if_pos]
    simp only [all_eq_true, decide_eq_true_eq]
    exact fun b hb => hnew _ (mem_map_of_mem hb) _ (by simp)

theorem latest_latest : latest key rev (latest key rev l) = latest key rev l :=
  latest_of_nodup nodup_keys

/-- The entry of a key. -/
def get? (key : α → κ) (rev : α → ℕ) (l : List α) (k : κ) : Option α :=
  (latest key rev l).find? (key · = k)

theorem get?_eq_some : get? key rev l k = some a ↔ a ∈ latest key rev l ∧ key a = k := by
  constructor
  · intro h
    exact ⟨mem_of_find?_eq_some h, by simpa using List.find?_some h⟩
  · rintro ⟨ha, rfl⟩
    cases hf : get? key rev l (key a) with
    | none => simpa using List.find?_eq_none.mp hf a ha
    | some b =>
      have hb : key b = key a := by simpa using List.find?_some hf
      rw [eq_of_key (mem_of_find?_eq_some hf) ha hb]

@[simp] theorem get?_eq_none : get? key rev l k = none ↔ ∀ a ∈ l, key a ≠ k := by
  rw [get?, List.find?_eq_none]
  constructor
  · intro h a ha hk
    obtain ⟨c, hc, hca⟩ : ∃ c ∈ latest key rev l, key c = key a := exists_mem_latest ha
    simpa [hca.trans hk] using h c hc
  · intro h a ha
    simpa using h a (mem_of_mem_latest ha)

/-- The last element of a sorted list is the one no other exceeds. -/
theorem getLast?_of_sorted (hsorted : l.Pairwise fun a b => rev a ≤ rev b) (ha : a ∈ l)
    (hmax : ∀ b ∈ l, rev b ≤ rev a) (hinj : ∀ b ∈ l, rev b = rev a → b = a) :
    l.getLast? = some a := by
  obtain ⟨init, c, rfl⟩ := eq_nil_or_concat' l |>.resolve_left (ne_nil_of_mem ha)
  have hac : rev a ≤ rev c := by
    rcases mem_append.mp ha with ha | ha
    · exact (pairwise_append.mp hsorted).2.2 a ha c (mem_singleton_self c)
    · exact (mem_singleton.mp ha) ▸ Nat.le_refl _
  have hc : c ∈ init ++ [c] := mem_append_right _ (mem_singleton_self c)
  rw [List.getLast?_concat, hinj c hc (Nat.le_antisymm (hmax c hc) hac)]

end Latest
