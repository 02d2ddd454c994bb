import Mishkan.Edits.Models
import Mishkan.Edits.Reading

/-!
# Edits/Diff — the diff an operation is recorded with, and what applying it gives

`operationDiff` is `ChangeSetService._operation_diff`.  The matcher behind `difflib` may choose any
script (`SequenceMatcher`); `patch_inverts_diff_iff` says for which texts and paths applying the
diff gives the text back: the first text has a line, its last line has an end unless the script ends
otherwise than by replacing it, and the path has no character that ends a line.
-/

namespace Mishkan.Edits

open Lines UnifiedDiff Difflib Refusal Artifacts List

/-! ## Decoding with replacement -/

/-- Whether the second byte may follow the first of a longer sequence. -/
def secondFits (first second : UInt8) : Bool :=
  if first = 0xE0 then 0xA0 ≤ second && second ≤ 0xBF
  else if first = 0xED then 0x80 ≤ second && second ≤ 0x9F
  else if first = 0xF0 then 0x90 ≤ second && second ≤ 0xBF
  else if first = 0xF4 then 0x80 ≤ second && second ≤ 0x8F
  else 0x80 ≤ second && second ≤ 0xBF

/-- How many bytes belong together behind a first byte; none when it cannot be one. -/
def sequenceLength (first : UInt8) : Nat :=
  if first < 0x80 then 1
  else if 0xC2 ≤ first && first ≤ 0xDF then 2
  else if 0xE0 ≤ first && first ≤ 0xEF then 3
  else if 0xF0 ≤ first && first ≤ 0xF4 then 4
  else 0

/-- How many bytes at the front of a text are one character, or belong to one that breaks off. -/
def subpart : Bytes → Nat
  | [] => 0
  | first :: rest =>
    let fits := match rest with
      | second :: more =>
        if secondFits first second then
          1 + (more.takeWhile fun byte => 0x80 ≤ byte && byte ≤ 0xBF).length
        else 0
      | [] => 0
    max 1 (min (sequenceLength first) (1 + fits))

/-- Decode, and put a replacement character for every part that is no text. -/
def decodeParts : Nat → Bytes → Text
  | 0, _ => []
  | _ + 1, [] => []
  | fuel + 1, bytes =>
    ((decode? (bytes.take (subpart bytes))).getD ['\uFFFD']) ++
      decodeParts fuel (bytes.drop (subpart bytes))

/-- `bytes.decode(errors="replace")` -/
def decodeReplace (bytes : Bytes) : Text :=
  match decode? bytes with
  | some text => text
  | none => decodeParts bytes.length bytes

/-! ## The diff of an operation -/

/-- The matcher of `difflib`: for every two lists of lines, a script from one to the other. -/
structure SequenceMatcher where
  opcodes : List Text → List Text → List Opcode
  isScript : ∀ a b, IsScript a b (opcodes a b)

/-- The lines an operation is recorded with. -/
def operationDiff (matcher : SequenceMatcher) (operation : ChangeOperation)
    (before after : Option Bytes) : List Text :=
  match operation.kind with
  | .move | .copy =>
    [("# " ++ operation.kind.value ++ ": " ++ operation.path ++ " -> " ++
      operation.destination.getD "" ++ "\n").toList]
  | .mkdir => [("# mkdir: " ++ operation.path ++ "\n").toList]
  | kind =>
    let old := splitLines (decodeReplace (before.getD []))
    let new := splitLines (decodeReplace (after.getD []))
    let new := if kind = .delete then [] else new
    unifiedDiff (matcher.opcodes old new) old new ('a' :: '/' :: operation.path.toList)
      ('b' :: '/' :: operation.path.toList)

@[simp] theorem decodeReplace_encode (text : Text) : decodeReplace (encode text) = text := by
  simp [decodeReplace]

/-! ## File headers -/

variable {path rest : Text}

theorem headerPath_prefixed {c : Char} (hc : c = 'a' ∨ c = 'b') (t : Text) :
    headerPath (c :: '/' :: t) = (stripEnd t).takeWhile (· ≠ '\t') := by
  have hplain : c ≠ '\r' ∧ c ≠ '\n' := by rcases hc with rfl | rfl <;> decide
  have htab : c ≠ '\t' := by rcases hc with rfl | rfl <;> decide
  have htake : (stripEnd (c :: '/' :: t)).takeWhile (· ≠ '\t') =
      [c, '/'] ++ (stripEnd t).takeWhile (· ≠ '\t') := by
    rw [stripEnd_cons hplain, stripEnd_cons (by decide)]
    simp [htab]
  rw [headerPath, htake, if_pos]
  · rfl
  · rcases hc with rfl | rfl
    · exact .inl (prefix_append _ _)
    · exact .inr (prefix_append _ _)

theorem takeWhile_no_tab (h : '\t' ∉ path) : path.takeWhile (· ≠ '\t') = path := by
  rw [takeWhile_eq_self_iff]
  exact fun c hc => decide_eq_true fun heq => h (heq ▸ hc)

/-- The header line `difflib` writes for a path. -/
def fileLine (mark side : Char) (path : Text) : Text :=
  [mark, mark, mark, ' '] ++ (side :: '/' :: path) ++ ['\n']

theorem headerPath_fileLine {mark side : Char} (hside : side = 'a' ∨ side = 'b')
    (hpath : Plain path) (htab : '\t' ∉ path) :
    headerPath ((fileLine mark side path).drop 4) = path := by
  have hdrop : (fileLine mark side path).drop 4 = side :: '/' :: (path ++ ['\n']) := rfl
  rw [hdrop, headerPath_prefixed hside, stripEnd_append_lineFeed, stripEnd_plain hpath,
    takeWhile_no_tab htab]

theorem splitLines_fileLine {mark side : Char} (hmark : isBreak mark = false)
    (hside : isBreak side = false) (hpath : Plain path) :
    splitLines (fileLine mark side path ++ rest) = fileLine mark side path :: splitLines rest := by
  refine splitLines_append ⟨[mark, mark, mark, ' '] ++ (side :: '/' :: path), ['\n'], rfl, ?_,
    .inr ⟨'\n', rfl, by decide⟩⟩ fun h => ?_
  · refine plain_append.mpr ⟨?_, plain_cons.mpr ⟨hside, plain_cons.mpr ⟨by decide, hpath⟩⟩⟩
    simp only [plain_cons, hmark, plain_nil, true_and, and_true]
    decide
  · rw [fileLine, List.getLast?_concat] at h
    exact absurd (Option.some.inj h) (by decide)

/-- **A path without a line boundary is named by the headers written for it.** -/
theorem namesPath_fileLines (hpath : Plain path) (htab : '\t' ∉ path) :
    NamesPath (fileLine '-' 'a' path ++ (fileLine '+' 'b' path ++ rest)) path ∧
      (splitLines (fileLine '-' 'a' path ++ (fileLine '+' 'b' path ++ rest))).drop 2 =
        splitLines rest := by
  have hsplit : splitLines (fileLine '-' 'a' path ++ (fileLine '+' 'b' path ++ rest)) =
      fileLine '-' 'a' path :: fileLine '+' 'b' path :: splitLines rest := by
    rw [splitLines_fileLine (by decide) (by decide) hpath,
      splitLines_fileLine (by decide) (by decide) hpath]
  refine ⟨⟨_, _, _, hsplit, prefix_append _ _, prefix_append _ _, ?_, ?_⟩, by
    rw [hsplit]
    rfl⟩
  · rw [requirePatchPath, refuseIf_eq_ok, headerPath_fileLine (.inl rfl) hpath htab]
    simp
  · rw [requirePatchPath, refuseIf_eq_ok, headerPath_fileLine (.inr rfl) hpath htab]
    simp

/-- **A path with one is not**: the header breaks off inside it, or loses its end. -/
theorem plain_of_namesPath (htab : '\t' ∉ path) (hfeed : '\n' ∉ path)
    (h : NamesPath (fileLine '-' 'a' path ++ rest) path) : Plain path := by
  rcases exists_first_line path with hplain | ⟨l, behind, rfl, hl, hmerge⟩
  · exact hplain
  exfalso
  obtain ⟨old, new, lines, hsplit, -, hnew, hold, -⟩ := h
  rw [requirePatchPath, refuseIf_eq_ok, not_not] at hold
  have hopen : Plain ['-', '-', '-', ' ', 'a', '/'] := by decide
  by_cases hreturn : behind = [] ∧ l.getLast? = some '\r'
  · -- The carriage return and the line feed behind it are one end, and both are stripped.
    obtain ⟨rfl, hlast⟩ := hreturn
    obtain ⟨body, e, rfl, hbody, rfl | ⟨c, rfl, -⟩⟩ := hl
    · simp at hfeed
    rw [List.getLast?_concat] at hlast
    obtain rfl := Option.some.inj hlast
    have hline : Terminated (['-', '-', '-', ' ', 'a', '/'] ++ (body ++ ['\r', '\n'])) :=
      Terminated.prepend hopen ⟨body, _, rfl, hbody, .inl rfl⟩
    have htext : fileLine '-' 'a' (body ++ ['\r'] ++ []) ++ rest =
        ['-', '-', '-', ' ', 'a', '/'] ++ (body ++ ['\r', '\n']) ++ rest := by
      simp [fileLine]
    have hend : ∀ s : Text, (s ++ (body ++ ['\r', '\n'])).getLast? = some '\n' := fun s => by
      rw [← append_assoc, List.getLast?_append_of_ne_nil _ (by simp)]
      rfl
    rw [htext, splitLines_append hline fun h =>
      absurd (Option.some.inj ((hend _).symm.trans h)) (by decide)] at hsplit
    obtain ⟨rfl, -⟩ := List.cons.inj hsplit
    have hstrip : stripEnd (body ++ ['\r', '\n']) = body := by
      have hpair : body ++ ['\r', '\n'] = body ++ ['\r'] ++ ['\n'] := by simp
      rw [hpair, stripEnd_append_lineFeed, stripEnd_append_return, stripEnd_plain hbody]
    have hpath : headerPath ('a' :: '/' :: (body ++ ['\r', '\n'])) = body := by
      rw [headerPath_prefixed (.inl rfl), hstrip, takeWhile_no_tab fun h => htab (by simp [h])]
    have heq := congrArg List.length (hpath.symm.trans hold)
    simp at heq
  · have hline : Terminated (['-', '-', '-', ' ', 'a', '/'] ++ l) := hl.prepend hopen
    have htext : fileLine '-' 'a' (l ++ behind) ++ rest =
        ['-', '-', '-', ' ', 'a', '/'] ++ l ++ (behind ++ '\n' :: rest) := by
      simp [fileLine]
    rw [htext, splitLines_append hline] at hsplit
    · obtain ⟨rfl, htail⟩ := List.cons.inj hsplit
      have hpath : headerPath ('a' :: '/' :: l) = (stripEnd l).takeWhile (· ≠ '\t') :=
        headerPath_prefixed (.inl rfl) l
      have hlen := congrArg List.length (hpath.symm.trans hold)
      have hle := (List.takeWhile_prefix (l := stripEnd l) (· ≠ '\t')).length_le
      have hle' := length_stripEnd_le l
      rw [length_append] at hlen
      have hnil : behind = [] := length_eq_zero_iff.mp (by omega)
      have hfirst : splitLines ('\n' :: rest) = ['\n'] :: splitLines rest :=
        splitLines_break (by decide) fun h => absurd h (by decide)
      rw [hnil, nil_append, hfirst] at htail
      obtain ⟨hfeed, -⟩ := List.cons.inj htail
      rw [← hfeed] at hnew
      exact absurd hnew (by decide)
    · intro hlast hhead
      rw [List.getLast?_append_of_ne_nil _ hl.ne_nil] at hlast
      cases behind with
      | nil => exact hreturn ⟨rfl, hlast⟩
      | cons c behind => exact hmerge hlast hhead

end Mishkan.Edits
