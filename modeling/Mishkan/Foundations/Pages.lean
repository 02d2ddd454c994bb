import Mathlib.Data.List.Infix

/-!
# Foundations/Pages — a list written to bytes, cut into pages

Every item of a list is written as some bytes.  A page takes as many items as fit into the room it
has (`pagesFrom`), and the bytes that fit into the room are those of the page and the beginning of
the item behind it (`exists_cut`).
-/

namespace Pages

open List

variable {α : Type} (write : α → List UInt8) (limit : ℕ)

/-- Put an item in front of the first page. -/
def onto (a : α) : List (List α) → List (List α)
  | [] => [[a]]
  | page :: pages => (a :: page) :: pages

/-- The pages of a list, of which the first has less room than the others. -/
def pagesFrom (room : ℕ) : List α → List (List α)
  | [] => [[]]
  | a :: rest =>
    if (write a).length ≤ room then onto a (pagesFrom (room - (write a).length) rest)
    else [] :: onto a (pagesFrom (limit - (write a).length) rest)

variable {write limit} {room : ℕ} {l : List α}

theorem flatten_onto (a : α) (pages : List (List α)) :
    (onto a pages).flatten = a :: pages.flatten := by
  cases pages <;> rfl

/-- Nothing is lost between pages. -/
theorem flatten_pagesFrom : (pagesFrom write limit room l).flatten = l := by
  induction l generalizing room with
  | nil => rfl
  | cons a rest ih =>
    rw [pagesFrom]
    split_ifs
    · rw [flatten_onto, ih]
    · rw [flatten_cons, nil_append, flatten_onto, ih]

/-- Only how many bytes an item takes matters. -/
theorem pagesFrom_congr {write' : α → List UInt8} (h : ∀ a, (write a).length = (write' a).length) :
    pagesFrom write limit room l = pagesFrom write' limit room l := by
  induction l generalizing room with
  | nil => rfl
  | cons a rest ih => rw [pagesFrom, pagesFrom, h, ih, ih]

/-- What fits into the room of the first page, and where the second begins. -/
structure IsCut (write : α → List UInt8) (limit room : ℕ) (l page rest : List α)
    (part : List UInt8) : Prop where
  eq : l = page ++ rest
  pages : pagesFrom write limit room l = page :: (if rest.isEmpty then [] else
    pagesFrom write limit limit rest)
  bytes : (l.flatMap write).take room = page.flatMap write ++ part
  whole : rest = [] → part = []
  cut : ∀ a tail, rest = a :: tail → part <+: write a ∧ part ≠ write a

/-- **The bytes that fit are those of the first page and a part of the item behind it.** -/
theorem exists_cut (h : ∀ a ∈ l, (write a).length ≤ limit) :
    ∃ page rest part, IsCut write limit room l page rest part := by
  induction l generalizing room with
  | nil =>
    exact ⟨[], [], [], rfl, rfl, take_nil, fun _ => rfl, fun _ _ h => by cases h⟩
  | cons a l ih =>
    have ha := h a mem_cons_self
    have ih := fun room => @ih room fun b hb => h b (mem_cons_of_mem _ hb)
    by_cases hroom : (write a).length ≤ room
    · obtain ⟨page, rest, part, hcut⟩ := ih (room - (write a).length)
      refine ⟨a :: page, rest, part, by rw [hcut.eq, cons_append], ?_, ?_, hcut.whole,
        hcut.cut⟩
      · rw [pagesFrom, if_pos hroom, hcut.pages, onto]
      · rw [flatMap_cons, take_append, take_of_length_le hroom, hcut.bytes,
          flatMap_cons, append_assoc]
    · obtain ⟨page, rest, part, hcut⟩ := ih (limit - (write a).length)
      refine ⟨[], a :: l, (write a).take room, rfl, ?_, ?_, ?_, ?_⟩
      · rw [pagesFrom, if_neg hroom, isEmpty_cons, if_neg (by decide), pagesFrom, if_pos ha]
      · rw [flatMap_cons, take_append_of_le_length (by omega)]
        rfl
      · exact fun h => absurd h (cons_ne_nil _ _)
      · intro b tail heq
        obtain ⟨rfl, rfl⟩ := List.cons.inj heq
        refine ⟨List.take_prefix _ _, fun heq => ?_⟩
        have hlength := congrArg List.length heq
        rw [length_take] at hlength
        omega

/-- Nothing is left when everything fits. -/
theorem IsCut.rest_eq_nil {page rest : List α} {part : List UInt8}
    (h : IsCut write limit room l page rest part) (hroom : (l.flatMap write).length ≤ room) :
    rest = [] := by
  cases hrest : rest with
  | nil => rfl
  | cons a tail =>
    obtain ⟨hleads, hproper⟩ := h.cut a tail hrest
    have hbytes := h.bytes
    rw [take_of_length_le hroom, h.eq, hrest, flatMap_append, flatMap_cons] at hbytes
    have hpart := append_cancel_left hbytes
    have hlength := congrArg List.length hpart
    rw [length_append] at hlength
    exact absurd (hleads.eq_of_length_le (by omega)) hproper

/-- A page has an item when the first fits into its room. -/
theorem IsCut.page_ne_nil {page rest : List α} {part : List UInt8}
    (h : IsCut write limit room l page rest part) (hl : l ≠ [])
    (hroom : ∀ a ∈ l.head?, (write a).length ≤ room) : page ≠ [] := by
  rintro rfl
  cases l with
  | nil => exact hl rfl
  | cons a l =>
    have hfits := hroom a rfl
    have hpages := h.pages
    rw [pagesFrom, if_pos hfits] at hpages
    cases hrest : pagesFrom write limit (room - (write a).length) l with
    | nil =>
      rw [hrest, onto] at hpages
      cases hpages
    | cons =>
      rw [hrest, onto] at hpages
      cases hpages

end Pages
