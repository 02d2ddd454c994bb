import Mishkan.Edits.Patch
import Mishkan.Foundations.Difflib

/-!
# Edits/Reading — hunks read back as they were written

A header line gives its four numbers back (`header?_headerLine`), a marked line its mark and text
(`marked?_markedLine`), and written hunks are read back as they are exactly when each counts its own
lines (`readBody_render`).
-/

namespace Mishkan.Edits

open Lines UnifiedDiff Difflib Refusal List Option
open Digits (decimal? decimal?_of_isDigit)

variable {rest : List Text} {t : Text} {n : Nat} {c : Char}

/-! ## Numbers -/

/-- **A number that is written is read back**, when no digit follows. -/
theorem number?_toDigits (hrest : ∀ c ∈ t.head?, decimal? c = none) :
    number? (Nat.toDigits 10 n ++ t) = some (n, t) := by
  have hdigits : ∀ c ∈ Nat.toDigits 10 n, decimal? c = some (c.toNat - 48) := fun c hc =>
    decimal?_of_isDigit (Nat.isDigit_of_mem_toDigits (by decide) (by decide) hc)
  have htake : (Nat.toDigits 10 n ++ t).takeWhile (fun c => (decimal? c).isSome) =
      Nat.toDigits 10 n := by
    rw [takeWhile_append_of_pos fun c hc => by rw [hdigits c hc]; rfl]
    cases t with
    | nil => simp
    | cons c t =>
      have hc := hrest c (by simp)
      simp [hc]
  have hvalue : ∀ (l : Text) (init : Nat), (∀ c ∈ l, decimal? c = some (c.toNat - 48)) →
      l.foldl (fun n c => n * 10 + (decimal? c).getD 0) init = Nat.ofDigitChars 10 l init := by
    intro l
    induction l with
    | nil => exact fun init _ => by simp
    | cons c l ih =>
      intro init hl
      obtain ⟨hc, hl⟩ := forall_mem_cons.mp hl
      rw [foldl_cons, ih _ hl, Nat.ofDigitChars_cons, hc, getD_some, Nat.mul_comm]
      rfl
  simp only [number?, htake, if_neg Nat.toDigits_ne_nil, hvalue _ 0 hdigits,
    Nat.ofDigitChars_ten_toDigits, drop_left]

theorem decimal?_space : decimal? ' ' = none := by decide

theorem decimal?_comma : decimal? ',' = none := by decide

/-- A range is read back as its start and its count. -/
theorem range_read (start count : Nat) (hrest : t.head? = some ' ') :
    ∃ read, number? (formatRange start count ++ t) = some (start, read) ∧
      ∃ count', count? read = some (count', t) ∧ count'.getD 1 = count := by
  obtain ⟨t, rfl⟩ := List.head?_eq_some_iff.mp hrest
  rw [formatRange]
  split_ifs with hone
  · refine ⟨' ' :: t, number?_toDigits ?_, none, rfl, hone.symm⟩
    exact fun c hc => Option.some.inj hc ▸ decimal?_space
  · refine ⟨',' :: (Nat.toDigits 10 count ++ ' ' :: t), ?_, some count, ?_, rfl⟩
    · rw [append_assoc, cons_append]
      exact number?_toDigits fun c hc => Option.some.inj hc ▸ decimal?_comma
    · have hspace : ∀ c ∈ (' ' :: t).head?, decimal? c = none := fun c hc =>
        Option.some.inj hc ▸ decimal?_space
      rw [count?, number?_toDigits hspace]
      rfl

@[simp] theorem after?_append (fixed t : Text) : after? fixed (fixed ++ t) = some t := by
  rw [after?, if_pos (prefix_append _ _), drop_left]

/-! ## Header lines -/

theorem stripEnd_headerLine (h : Hunk Text) :
    stripEnd h.headerLine = ['@', '@', ' ', '-'] ++ (formatRange h.oldStart h.oldCount ++
      ([' ', '+'] ++ (formatRange h.newStart h.newCount ++ [' ', '@', '@']))) := by
  have hline : h.headerLine = (['@', '@', ' ', '-'] ++ (formatRange h.oldStart h.oldCount ++
      ([' ', '+'] ++ (formatRange h.newStart h.newCount ++ [' ', '@']))) ++ ['@']) ++ ['\n'] := by
    simp [Hunk.headerLine]
  rw [hline, stripEnd_append_lineFeed, stripEnd, rdropWhile_concat_neg _ _ _ (by decide)]
  simp

/-- **A header line gives its numbers back.** -/
theorem header?_headerLine (h : Hunk Text) :
    header? h.headerLine = some ⟨h.oldStart, h.oldCount, h.newStart, h.newCount⟩ := by
  obtain ⟨read, hread, count, hcount, hold⟩ := range_read (t := [' ', '+'] ++
    (formatRange h.newStart h.newCount ++ [' ', '@', '@'])) h.oldStart h.oldCount rfl
  obtain ⟨read', hread', count', hcount', hnew⟩ := range_read (t := [' ', '@', '@'])
    h.newStart h.newCount rfl
  have hlast : after? [' ', '@', '@'] [' ', '@', '@'] = some [] := by decide
  rw [header?, stripEnd_headerLine, after?_append]
  simp only [bind_eq_bind, bind_some, hread, hcount, after?_append, hread', hcount',
    hlast, if_pos, true_or, hold, hnew]

theorem prefix_headerLine (h : Hunk Text) : "@@ ".toList <+: h.headerLine :=
  prefix_of_header? (header?_headerLine h)

theorem not_isBreak_of_isDigit (h : c.isDigit) : isBreak c = false := by
  have hrange : 48 ≤ c.toNat ∧ c.toNat ≤ 57 := by
    simpa [Char.isDigit, UInt32.le_iff_toNat_le] using h
  have hno : ∀ b ∈ boundaries, c ≠ b := by
    intro b hb
    rintro rfl
    simp only [boundaries, mem_cons, not_mem_nil, or_false] at hb
    rcases hb with rfl | rfl | rfl | rfl | rfl | rfl | rfl | rfl | rfl | rfl <;>
      simp only [Char.reduceToNat] at hrange <;> omega
  exact decide_eq_false fun hmem => hno c hmem rfl

theorem plain_formatRange (start count : Nat) : Plain (formatRange start count) := by
  have hdigits : ∀ n, Plain (Nat.toDigits 10 n) := fun n c hc =>
    not_isBreak_of_isDigit (Nat.isDigit_of_mem_toDigits (by decide) (by decide) hc)
  rw [formatRange]
  split_ifs
  · exact hdigits start
  · exact plain_append.mpr ⟨hdigits start, plain_cons.mpr ⟨by decide, hdigits count⟩⟩

theorem terminated_headerLine (h : Hunk Text) : Terminated h.headerLine := by
  have hend : Terminated [' ', '@', '@', '\n'] :=
    ⟨[' ', '@', '@'], ['\n'], by decide, by decide, .inr ⟨'\n', rfl, by decide⟩⟩
  have hopen : Plain ['@', '@', ' ', '-'] := by decide
  have hplus : Plain [' ', '+'] := by decide
  rw [Hunk.headerLine]
  refine hend.prepend (plain_append.mpr ⟨plain_append.mpr
    ⟨plain_append.mpr ⟨hopen, plain_formatRange _ _⟩, hplus⟩, plain_formatRange _ _⟩)

/-! ## Marked lines -/

/-- **A marked line gives its mark and text back.** -/
theorem marked?_markedLine (l : Mark × Text) : marked? (markedLine l) = some l := by
  obtain ⟨mark, value⟩ := l
  cases mark <;> rfl

theorem not_prefix_markedLine (l : Mark × Text) : ¬ "@@ ".toList <+: markedLine l := by
  obtain ⟨mark, value⟩ := l
  rintro ⟨t, ht⟩
  have hhead := congrArg List.head? ht
  cases mark <;> exact absurd hhead (by simp [markedLine, Mark.char])

theorem stripEnd_markedLine_ne (l : Mark × Text) : stripEnd (markedLine l) ≠ noNewline := by
  obtain ⟨mark, value⟩ := l
  have hchar : mark.char ≠ '\r' ∧ mark.char ≠ '\n' := by cases mark <;> decide
  have hslash : mark.char ≠ '\\' := by cases mark <;> decide
  have hfirst : noNewline.head? = some '\\' := by decide
  rw [markedLine, stripEnd_cons hchar]
  intro h
  rw [← h] at hfirst
  exact hslash (Option.some.inj hfirst)

theorem stripEnd_headerLine_ne (h : Hunk Text) : stripEnd h.headerLine ≠ noNewline := by
  rw [stripEnd_headerLine]
  intro heq
  have hhead := congrArg List.head? heq
  exact absurd hhead (by
    rw [List.head?_append_of_ne_nil _ (by decide)]
    decide)

/-- A line that takes no end off the line before it. -/
def Unmarking (lines : List Text) : Prop := ∀ line ∈ lines.head?, stripEnd line ≠ noNewline

theorem readLine_markedLine (l : Mark × Text) (hrest : Unmarking rest) :
    readLine (markedLine l) rest = some (l, rest) := by
  rw [readLine, marked?_markedLine, map_some]
  cases rest with
  | nil => rfl
  | cons next rest =>
    have hnext := hrest next (by simp)
    simp [hnext]

/-- **Marked lines are read back, in front of whatever follows.** -/
theorem readBody_markedLines (lines : List (Mark × Text)) (hrest : Unmarking rest) :
    readBody (lines.map markedLine ++ rest) =
      (readBody rest).map fun behind => (lines ++ behind.1, behind.2) := by
  induction lines with
  | nil => simp
  | cons l lines ih =>
    have hunmarking : Unmarking (lines.map markedLine ++ rest) := by
      cases lines with
      | nil => exact hrest
      | cons l' lines =>
        intro line hline
        obtain rfl := Option.some.inj hline
        exact stripEnd_markedLine_ne l'
    rw [map_cons, cons_append, readBody_line (not_prefix_markedLine l),
      readLine_markedLine l hunmarking, Option.bind_some, ih, Option.map_map]
    rfl

/-- **Written hunks are read back exactly when each counts its own lines.** -/
theorem readBody_render (hunks : List (Hunk Text)) : readBody (hunks.flatMap Hunk.render) =
      if ∀ h ∈ hunks, h.Consistent then some ([], hunks) else none := by
  induction hunks with
  | nil => rfl
  | cons h hunks ih =>
    have hunmarking : Unmarking (hunks.flatMap Hunk.render) := by
      cases hunks with
      | nil => exact fun line hline => by simp at hline
      | cons h' hunks =>
        intro line hline
        obtain rfl := Option.some.inj hline
        exact stripEnd_headerLine_ne h'
    rw [flatMap_cons, Hunk.render, cons_append, readBody_header (prefix_headerLine h),
      header?_headerLine, bind_some, readBody_markedLines _ hunmarking, ih]
    by_cases hall : ∀ h ∈ hunks, h.Consistent
    · rw [if_pos hall, map_some, bind_some, append_nil]
      by_cases hcount : h.Consistent
      · rw [if_pos hcount, if_pos (forall_mem_cons.mpr ⟨hcount, hall⟩)]
      · rw [if_neg hcount, if_neg fun h => hcount (forall_mem_cons.mp h).1]
    · rw [if_neg hall, if_neg fun h => hall (forall_mem_cons.mp h).2]
      rfl

/-! ## Written hunks as lines -/

theorem head?_markedLine (l : Mark × Text) : (markedLine l).head? ≠ some '\n' := by
  have hfeed : l.1.char ≠ '\n' := by cases l.1 <;> decide
  exact fun h => hfeed (Option.some.inj h)

theorem head?_headerLine (h : Hunk Text) : h.headerLine.head? ≠ some '\n' := fun h =>
  absurd (Option.some.inj h) (by decide)

theorem isBreak_markChar (mark : Mark) : isBreak mark.char = false := by cases mark <;> decide

/-- None of these lines opens with a line feed. -/
def Opening (lines : List Text) : Prop := ∀ line ∈ lines.head?, line.head? ≠ some '\n'

theorem opening_markedLines {lines : List (Mark × Text)} (hrest : Opening rest) :
    Opening (lines.map markedLine ++ rest) := by
  cases lines with
  | nil => exact hrest
  | cons l lines => exact fun line hline => Option.some.inj hline ▸ head?_markedLine l

theorem opening_render (hunks : List (Hunk Text)) : Opening (hunks.flatMap Hunk.render) := by
  cases hunks with
  | nil => exact fun line hline => by simp at hline
  | cons h hunks => exact fun line hline => Option.some.inj hline ▸ head?_headerLine h

theorem lined_markedLines {lines : List (Mark × Text)} (hlines : Ended lines)
    (hopen : Opening rest) (hrest : Lined rest) : Lined (lines.map markedLine ++ rest) := by
  induction lines with
  | nil => exact hrest
  | cons l lines ih =>
    obtain ⟨hl, hlines⟩ := forall_mem_cons.mp hlines
    exact lined_cons (hl.cons (isBreak_markChar _)) (opening_markedLines hopen) (ih hlines)

/-- **Written hunks are lines** when the lines they show are, and only the last of them is open. -/
theorem lined_render {hunks : List (Hunk Text)} (hne : ∀ h ∈ hunks, h.lines ≠ [])
    (hended : Ended (hunks.flatMap Hunk.lines).dropLast)
    (hlast : ∀ l ∈ (hunks.flatMap Hunk.lines).getLast?, Terminated l.2 ∨ Plain l.2) :
    Lined (hunks.flatMap Hunk.render) := by
  induction hunks with
  | nil => trivial
  | cons h hunks ih =>
    obtain ⟨hh, hne⟩ := forall_mem_cons.mp hne
    rw [flatMap_cons] at hended hlast ⊢
    rw [Hunk.render, cons_append]
    cases hunks with
    | nil =>
      rw [flatMap_nil, append_nil] at hended hlast
      obtain ⟨init, last, hlines⟩ := (eq_nil_or_concat h.lines).resolve_left hh
      rw [concat_eq_append] at hlines
      rw [hlines, dropLast_concat] at hended
      rw [hlines, List.getLast?_concat] at hlast
      rw [flatMap_nil, append_nil, hlines, map_append]
      have hopen : Opening ([last].map markedLine) := fun line hline =>
        Option.some.inj hline ▸ head?_markedLine last
      refine lined_cons (terminated_headerLine h) (opening_markedLines hopen)
        (lined_markedLines hended hopen ?_)
      exact (hlast last rfl).imp (·.cons (isBreak_markChar _)) (.cons (isBreak_markChar _))
    | cons h' hunks =>
      have hne' : (h' :: hunks).flatMap Hunk.lines ≠ [] := by
        rw [flatMap_cons]
        exact fun hnil => hne h' (by simp) (append_eq_nil_iff.mp hnil).1
      rw [dropLast_append_of_ne_nil hne'] at hended
      rw [List.getLast?_append_of_ne_nil _ hne'] at hlast
      obtain ⟨hlines, hended⟩ := ended_append.mp hended
      have hopen := opening_render (h' :: hunks)
      exact lined_cons (terminated_headerLine h) (opening_markedLines hopen)
        (lined_markedLines hlines hopen (ih hne hended hlast))

end Mishkan.Edits
