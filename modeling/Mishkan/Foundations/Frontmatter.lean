import Mishkan.Foundations.Lines

/-!
# Foundations/Frontmatter — a text with a header between two marker lines

A document opens with a marker line, and its header goes on to the next line that reads as one.  A
line reads as a marker when it is three hyphens between whitespace, so a header that was written
between two markers is read back exactly when none of its own lines reads as one
(`split_fenced_iff`).
-/

namespace Frontmatter

open Lines List

/-- The characters of a marker line. -/
def marker : Text := ['-', '-', '-']

/-- Whether a line reads as a marker. -/
def isMarker (line : Text) : Bool := strip line = marker

/-- Why a text has no header. -/
inductive Fault where
  | start | incomplete
deriving DecidableEq

/-- The header of a text, and what follows its second marker. -/
def split (text : Text) : Except Fault (Text × Text) :=
  match splitLines text with
  | [] => .error .start
  | first :: lines =>
    if isMarker first then
      match lines.dropWhile fun line => !isMarker line with
      | [] => .error .incomplete
      | _ :: rest => .ok ((lines.takeWhile fun line => !isMarker line).flatten, rest.flatten)
    else .error .start

variable {text header body : Text}

/-- What a text that has a header consists of. -/
theorem split_eq_ok : split text = .ok (header, body) ↔ ∃ first lines second rest,
    splitLines text = first :: (lines ++ second :: rest) ∧ isMarker first = true ∧
      (∀ line ∈ lines, isMarker line = false) ∧ isMarker second = true ∧
      header = lines.flatten ∧ body = rest.flatten := by
  constructor
  · intro h
    rw [split] at h
    split at h
    · cases h
    · rename_i first lines htext
      split_ifs at h with hfirst
      split at h
      · cases h
      · rename_i second rest hrest
        obtain ⟨rfl, rfl⟩ := Prod.mk.inj (Except.ok.inj h)
        refine ⟨first, lines.takeWhile fun line => !isMarker line, second, rest, ?_, hfirst, ?_, ?_,
          rfl, rfl⟩
        · rw [htext, ← hrest, takeWhile_append_dropWhile]
        · intro line hline
          simpa using mem_takeWhile_imp hline
        · have hhead := List.head?_dropWhile_not (fun line => !isMarker line) lines
          rw [hrest] at hhead
          simpa using hhead
  · rintro ⟨first, lines, second, rest, htext, hfirst, hlines, hsecond, rfl, rfl⟩
    have hplain : ∀ line ∈ lines, (!isMarker line) = true := by simpa using hlines
    rw [split, htext]
    simp only [hfirst, if_true]
    rw [dropWhile_append_of_pos hplain, takeWhile_append_of_pos hplain,
      dropWhile_cons_of_neg (by simp [hsecond]),
      takeWhile_cons_of_neg (by simp [hsecond]), append_nil]

/-- **A header is found whatever is written behind it**, when the text ends in a line feed. -/
theorem split_append (h : split text = .ok (header, body)) (hend : text.getLast? = some '\n')
    (rest : Text) : split (text ++ rest) = .ok (header, body ++ rest) := by
  obtain ⟨first, lines, second, behind, htext, hfirst, hlines, hsecond, rfl, rfl⟩ :=
    split_eq_ok.mp h
  refine split_eq_ok.mpr ⟨first, lines, second, behind ++ splitLines rest, ?_, hfirst, hlines,
    hsecond, rfl, ?_⟩
  · rw [splitLines_append_of_lineFeed hend, htext]
    simp
  · rw [flatten_append, flatten_splitLines]

/-! ## Writing a header -/

/-- A marker line. -/
def markerLine : Text := marker ++ ['\n']

/-- A header written between two markers. -/
def fenced (header body : Text) : Text := markerLine ++ (header ++ (markerLine ++ body))

theorem isMarker_markerLine : isMarker markerLine = true := by decide

theorem splitLines_markerLine (rest : Text) :
    splitLines (markerLine ++ rest) = markerLine :: splitLines rest :=
  splitLines_append ⟨marker, ['\n'], rfl, by decide, .inr ⟨'\n', rfl, isBreak_lineFeed⟩⟩
    (by simp [markerLine])

theorem splitLines_fenced (h : header.getLast? = some '\n') (body : Text) :
    splitLines (fenced header body) =
      markerLine :: (splitLines header ++ markerLine :: splitLines body) := by
  rw [fenced, splitLines_markerLine, splitLines_append_of_lineFeed h, splitLines_markerLine]

/-- A header of which no line reads as a marker is read back. -/
theorem split_fenced (h : header.getLast? = some '\n')
    (hlines : ∀ line ∈ splitLines header, isMarker line = false) (body : Text) :
    split (fenced header body) = .ok (header, body) :=
  split_eq_ok.mpr ⟨_, _, _, _, splitLines_fenced h body, isMarker_markerLine, hlines,
    isMarker_markerLine, (flatten_splitLines header).symm, (flatten_splitLines body).symm⟩

/-- **What is written behind a header is read back exactly when no line of the header reads as a
marker.** -/
theorem split_fenced_iff (h : header.getLast? = some '\n') (body : Text) :
    (∃ header', split (fenced header body) = .ok (header', body)) ↔
      ∀ line ∈ splitLines header, isMarker line = false := by
  refine ⟨?_, fun hlines => ⟨header, split_fenced h hlines body⟩⟩
  rintro ⟨header', hsplit⟩
  obtain ⟨first, lines, second, rest, htext, -, hlines, -, -, rfl⟩ := split_eq_ok.mp hsplit
  have hlined : Lined (lines ++ second :: rest) := (htext ▸ lined_splitLines _).tail
  have hrest : splitLines rest.flatten = rest := splitLines_flatten hlined.of_append_right.tail
  -- The lines behind the second marker are those of the body, so the ones before it are the header.
  rw [splitLines_fenced h, hrest] at htext
  have hfront : splitLines header ++ [markerLine] = lines ++ [second] := by
    refine @append_cancel_right _ _ rest _ ?_
    simpa using (List.cons.inj htext).2
  rwa [(append_inj' hfront rfl).1]

end Frontmatter
