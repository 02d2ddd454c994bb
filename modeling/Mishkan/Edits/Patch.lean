import Mishkan.Artifacts.Models
import Mishkan.Foundations.Dynamic
import Mishkan.Foundations.Refusal
import Mishkan.Foundations.UnifiedDiff

/-!
# Edits/Patch — applying a unified patch to a text

`applyUnifiedPatch` is `ChangeSetService._apply_unified_patch`: two file headers that must name the
authorized path, then hunk after hunk against the lines of the source.  It reads and applies in one
pass; `applyUnifiedPatch_eq_ok` takes the two apart into `patchHunks`, which only reads, and
`place` under the position the code computes (`patchPosition`).  That position is the one of the
format for every hunk that takes lines away, and one line too early for a hunk that takes none:
`lands_standard_iff`.
-/

namespace Mishkan.Edits

open Lines UnifiedDiff Refusal Artifacts List Option
open Digits (decimal?)

/-! ## Reading headers -/

/-- `(\d+)` -/
def number? (t : Text) : Option (Nat × Text) :=
  let digits := t.takeWhile fun c => (decimal? c).isSome
  if digits = [] then none
  else some (digits.foldl (fun n c => n * 10 + (decimal? c).getD 0) 0, t.drop digits.length)

/-- `(?:,(\d+))?` -/
def count? : Text → Option (Option Nat × Text)
  | ',' :: t => (number? t).map fun read => (some read.1, read.2)
  | t => some (none, t)

/-- What follows a fixed text. -/
def after? (fixed t : Text) : Option Text :=
  if fixed <+: t then some (t.drop fixed.length) else none

/-- What a hunk header says. -/
structure Header where
  oldStart : Nat
  oldCount : Nat
  newStart : Nat
  newCount : Nat
deriving DecidableEq

/-- `^@@ -(\d+)(?:,(\d+))? \+(\d+)(?:,(\d+))? @@(?: .*)?$` -/
def header? (line : Text) : Option Header := do
  let t ← after? ['@', '@', ' ', '-'] (stripEnd line)
  let (oldStart, t) ← number? t
  let (oldCount, t) ← count? t
  let t ← after? [' ', '+'] t
  let (newStart, t) ← number? t
  let (newCount, t) ← count? t
  let t ← after? [' ', '@', '@'] t
  if t = [] ∨ t.head? = some ' ' ∧ '\n' ∉ t then
    some ⟨oldStart, oldCount.getD 1, newStart, newCount.getD 1⟩
  else none

/-- The path a file header names. -/
def headerPath (header : Text) : Text :=
  let candidate := (stripEnd header).takeWhile (· ≠ '\t')
  if ['a', '/'] <+: candidate ∨ ['b', '/'] <+: candidate then candidate.drop 2 else candidate

/-- That path has to be the authorized one. -/
def requirePatchPath (header logicalPath : Text) : Except Raised Unit :=
  refuseIf (headerPath header ≠ logicalPath)
    (fault .authorityNotGranted "unified patch header differs from the authorized logical path")

/-! ## The loop -/

/-- What the loop has put out, and where it stands in the source. -/
structure Patching where
  output : List Text
  cursor : Nat

/-- A hunk that is being read. -/
structure OpenHunk where
  header : Header
  consumedOld : Nat := 0
  producedNew : Nat := 0

/-- The hunk's counts have to be those of its header when it ends. -/
def OpenHunk.close (h : OpenHunk) : Except Raised Unit :=
  refuseIf (h.consumedOld ≠ h.header.oldCount ∨ h.producedNew ≠ h.header.newCount)
    (fault .edit "unified patch hunk counts are inconsistent")

/-- Read a hunk header, and copy the source up to the hunk. -/
def openHunk (source : List Text) (line : Text) (p : Patching) :
    Except Raised (Patching × OpenHunk) := do
  let header ← require (header? line) (fault .edit "unified patch contains data outside a hunk")
  refuseIf (header.oldStart < 1 ∨ header.oldStart - 1 < p.cursor ∨
      source.length < header.oldStart - 1)
    (fault .revisionMismatch "unified patch hunk position differs")
  pure (⟨p.output ++ slice source p.cursor (header.oldStart - 1), header.oldStart - 1⟩,
    ⟨header, 0, 0⟩)

/-- The line of the source at the cursor has to be the one the patch shows. -/
def requireContext (source : List Text) (value : Text) (p : Patching) : Except Raised Unit :=
  refuseIf (source[p.cursor]? ≠ some value)
    (fault .revisionMismatch "unified patch context differs from the exact target")

/-- Apply one marked line. -/
def hunkLine (source : List Text) (mark : Mark) (value : Text) (p : Patching) (h : OpenHunk) :
    Except Raised (Patching × OpenHunk) :=
  match mark with
  | .keep => do
    requireContext source value p
    pure (⟨p.output ++ [value], p.cursor + 1⟩,
      ⟨h.header, h.consumedOld + 1, h.producedNew + 1⟩)
  | .remove => do
    requireContext source value p
    pure (⟨p.output, p.cursor + 1⟩, ⟨h.header, h.consumedOld + 1, h.producedNew⟩)
  | .add => pure (⟨p.output ++ [value], p.cursor⟩, ⟨h.header, h.consumedOld, h.producedNew + 1⟩)

/-- The mark of a line, and the line behind it. -/
def marked? : Text → Option (Mark × Text)
  | ' ' :: value => some (.keep, value)
  | '+' :: value => some (.add, value)
  | '-' :: value => some (.remove, value)
  | _ => none

/-- The line that takes the end off the line before it. -/
def noNewline : Text := "\\ No newline at end of file".toList

/-- Work through the lines behind a hunk header, to the end of the patch. -/
def hunkLoop (source : List Text) : List Text → Patching → OpenHunk → Except Raised Patching
  | [], p, h => do
    h.close
    pure p
  | line :: rest, p, h =>
    if "@@ ".toList <+: line then do
      h.close
      let (p, h) ← openHunk source line p
      hunkLoop source rest p h
    else do
      let (mark, value) ← require (marked? line) (fault .edit "unified patch hunk line is invalid")
      match rest with
      | [] => do
        let (p, h) ← hunkLine source mark value p h
        hunkLoop source [] p h
      | next :: rest =>
        if stripEnd next = noNewline then do
          let (p, h) ← hunkLine source mark (stripEnd value) p h
          hunkLoop source rest p h
        else do
          let (p, h) ← hunkLine source mark value p h
          hunkLoop source (next :: rest) p h

/-- The hunks of a patch, against the lines of a source. -/
def applyHunks (source : List Text) : List Text → Except Raised Patching
  | [] => .error (fault .edit "unified patch contains no hunks")
  | line :: rest => do
    let (p, h) ← openHunk source line ⟨[], 0⟩
    hunkLoop source rest p h

/-- Apply a unified patch to the bytes of a text. -/
def applyUnifiedPatch (before : Bytes) (patch logicalPath : Text) : Except Raised Bytes := do
  let source ← require (decode? before)
    (fault .edit "unified patch target must be valid UTF-8 text")
  let source := splitLines source
  match splitLines patch with
  | old :: new :: lines => do
    refuseIf (lines = [] ∨ ¬ ['-', '-', '-', ' '] <+: old ∨ ¬ ['+', '+', '+', ' '] <+: new)
      (fault .edit "unified patch requires exact file headers")
    requirePatchPath (old.drop 4) logicalPath
    requirePatchPath (new.drop 4) logicalPath
    let p ← applyHunks source lines
    pure (encode (p.output ++ source.drop p.cursor).flatten)
  | _ => .error (fault .edit "unified patch requires exact file headers")

/-! ## Reading without applying -/

/-- A marked line with the line end the patch gives it, and the lines behind. -/
def readLine (line : Text) (rest : List Text) : Option ((Mark × Text) × List Text) :=
  (marked? line).map fun read =>
    match rest with
    | [] => (read, [])
    | next :: rest =>
      if stripEnd next = noNewline then ((read.1, stripEnd read.2), rest) else (read, next :: rest)

/-- The marked lines up to the next hunk header, and the hunks from there. -/
def readBody : List Text → Option (List (Mark × Text) × List (Hunk Text))
  | [] => some ([], [])
  | line :: rest =>
    if "@@ ".toList <+: line then do
      let header ← header? line
      let (body, hunks) ← readBody rest
      let hunk := ⟨header.oldStart, header.oldCount, header.newStart, header.newCount, body⟩
      if hunk.Consistent then some ([], hunk :: hunks) else none
    else do
      let (mark, value) ← marked? line
      match rest with
      | [] => some ([(mark, value)], [])
      | next :: rest =>
        if stripEnd next = noNewline then do
          let (body, hunks) ← readBody rest
          some ((mark, stripEnd value) :: body, hunks)
        else do
          let (body, hunks) ← readBody (next :: rest)
          some ((mark, value) :: body, hunks)

/-- The hunks of a patch. -/
def patchHunks (patch : Text) : Option (List (Hunk Text)) := do
  let (body, hunks) ← readBody ((splitLines patch).drop 2)
  if body = [] ∧ hunks ≠ [] then some hunks else none

/-- The position the loop computes for a hunk: the line before the one the header names, also when
the hunk takes no line. -/
def patchPosition (h : Hunk Text) : Option Nat :=
  if 1 ≤ h.oldStart then some (h.oldStart - 1) else none

variable {source lines rest out : List Text} {line : Text} {p p' : Patching} {h h' : OpenHunk}
  {mark : Mark} {value : Text} {body : List (Mark × Text)} {hunks : List (Hunk Text)}

/-- The hunk's counts come out right when these lines follow. -/
def OpenHunk.Closes (h : OpenHunk) (body : List (Mark × Text)) : Prop :=
  h.consumedOld + (oldOf body).length = h.header.oldCount ∧
    h.producedNew + (newOf body).length = h.header.newCount

theorem readLine_length {read : Mark × Text} (h : readLine line rest = some (read, lines)) :
    lines.length ≤ rest.length := by
  obtain ⟨⟨m, v⟩, -, hread⟩ := map_eq_some_iff.mp h
  cases rest with
  | nil =>
    obtain ⟨-, rfl⟩ := Prod.mk.inj hread
    exact le_rfl
  | cons next rest =>
    simp only at hread
    split_ifs at hread
    · obtain ⟨-, rfl⟩ := Prod.mk.inj hread
      exact Nat.le_succ _
    · obtain ⟨-, rfl⟩ := Prod.mk.inj hread
      exact le_rfl

theorem readBody_header (hline : "@@ ".toList <+: line) :
    readBody (line :: rest) = (header? line).bind fun header => (readBody rest).bind fun read =>
      let hunk := ⟨header.oldStart, header.oldCount, header.newStart, header.newCount, read.1⟩
      if hunk.Consistent then some ([], hunk :: read.2) else none := by
  rw [readBody, if_pos hline]
  rfl

theorem readBody_line (hline : ¬ "@@ ".toList <+: line) :
    readBody (line :: rest) = (readLine line rest).bind fun read =>
      (readBody read.2).map fun behind => (read.1 :: behind.1, behind.2) := by
  rw [readBody, if_neg hline, readLine]
  cases marked? line with
  | none => rfl
  | some read =>
    cases rest with
    | nil => rfl
    | cons next rest =>
      by_cases hnext : stripEnd next = noNewline
      · simp only [bind_eq_bind, bind_some, map_some, if_pos hnext]
        cases readBody rest <;> rfl
      · simp only [bind_eq_bind, bind_some, map_some, if_neg hnext]
        cases readBody (next :: rest) <;> rfl

theorem hunkLoop_header (hline : "@@ ".toList <+: line) : hunkLoop source (line :: rest) p h =
      (h.close >>= fun _ => openHunk source line p >>= fun next =>
        hunkLoop source rest next.1 next.2) := by
  rw [hunkLoop, if_pos hline]

theorem hunkLoop_line (hline : ¬ "@@ ".toList <+: line) : hunkLoop source (line :: rest) p h =
      (require (readLine line rest) (fault .edit "unified patch hunk line is invalid") >>=
        fun read => hunkLine source read.1.1 read.1.2 p h >>= fun next =>
          hunkLoop source read.2 next.1 next.2) := by
  rw [hunkLoop, if_neg hline, readLine]
  cases marked? line with
  | none => rfl
  | some read =>
    cases rest with
    | nil => rfl
    | cons next rest =>
      by_cases hnext : stripEnd next = noNewline
      · simp only [require, ok_bind, map_some, if_pos hnext]
      · simp only [require, ok_bind, map_some, if_neg hnext]

/-! ## The loop places what it reads -/

theorem cons_prefix_drop_iff {x : Text} {l : List Text} {i : Nat} :
    x :: l <+: source.drop i ↔ source[i]? = some x ∧ l <+: source.drop (i + 1) := by
  rw [← drop_drop, ← List.head?_drop]
  cases source.drop i with
  | nil => simp
  | cons y t => simp [cons_prefix_cons, eq_comm]

theorem prefix_drop_append_iff {l l' : List Text} {i : Nat} :
    l ++ l' <+: source.drop i ↔ l <+: source.drop i ∧ l' <+: source.drop (i + l.length) := by
  induction l generalizing i with
  | nil => simp
  | cons x l ih =>
    have hlen : i + 1 + l.length = i + (l.length + 1) := by omega
    rw [cons_append, cons_prefix_drop_iff, ih, cons_prefix_drop_iff, length_cons,
      and_assoc, hlen]

/-- The state of the loop behind one more line. -/
def Patching.advance (p : Patching) (line : Mark × Text) : Patching :=
  ⟨p.output ++ newOf [line], p.cursor + (oldOf [line]).length⟩

def OpenHunk.advance (h : OpenHunk) (line : Mark × Text) : OpenHunk :=
  ⟨h.header, h.consumedOld + (oldOf [line]).length, h.producedNew + (newOf [line]).length⟩

/-- **One line applies when the source shows what it takes away.** -/
theorem hunkLine_eq_ok : hunkLine source mark value p h = .ok (p', h') ↔
    oldOf [(mark, value)] <+: source.drop p.cursor ∧ p' = p.advance (mark, value) ∧
      h' = h.advance (mark, value) := by
  have hcontext : requireContext source value p = .ok () ↔ [value] <+: source.drop p.cursor := by
    rw [requireContext, refuseIf_eq_ok, not_not, cons_prefix_drop_iff]
    simp
  rw [Patching.advance, OpenHunk.advance]
  cases mark with
  | add =>
    rw [hunkLine, return_eq_ok, eq_comm, @eq_comm _ _ h']
    simp
  | keep =>
    rw [hunkLine, bind_eq_ok]
    simp only [pure_eq_ok, exists_const, hcontext, Prod.mk.injEq, oldOf_keep, oldOf_nil, newOf_keep,
      newOf_nil, length_singleton, @eq_comm _ _ p', @eq_comm _ _ h']
  | remove =>
    rw [hunkLine, bind_eq_ok]
    simp only [pure_eq_ok, exists_const, hcontext, Prod.mk.injEq, oldOf_remove, oldOf_nil,
      newOf_remove, newOf_nil, length_singleton, length_nil, append_nil,
      Nat.add_zero, @eq_comm _ _ p', @eq_comm _ _ h']

theorem openHunk_eq_ok : openHunk source line p = .ok (p', h') ↔
    ∃ header, header? line = some header ∧ 1 ≤ header.oldStart ∧ p.cursor ≤ header.oldStart - 1 ∧
      header.oldStart - 1 ≤ source.length ∧ h' = ⟨header, 0, 0⟩ ∧
      p' = ⟨p.output ++ slice source p.cursor (header.oldStart - 1), header.oldStart - 1⟩ := by
  simp only [openHunk, bind_eq_ok, require_eq_ok, refuseIf_eq_ok, return_eq_ok, exists_const,
    not_or, not_lt]
  constructor
  · rintro ⟨header, hheader, ⟨hone, hcursor, hlen⟩, rfl, rfl⟩
    exact ⟨header, hheader, hone, hcursor, hlen, rfl, rfl⟩
  · rintro ⟨header, hheader, hone, hcursor, hlen, rfl, rfl⟩
    exact ⟨header, hheader, ⟨hone, hcursor, hlen⟩, rfl, rfl⟩

theorem close_eq_ok {u : Unit} : h.close = .ok u ↔ h.Closes [] := by
  rw [OpenHunk.close, refuseIf_eq_ok, OpenHunk.Closes]
  simp

/-- The loop runs through and puts these lines out in all. -/
def PutsOut (source lines : List Text) (p : Patching) (h : OpenHunk) (out : List Text) : Prop :=
  ∃ p', hunkLoop source lines p h = .ok p' ∧ out = p'.output ++ source.drop p'.cursor

/-- The lines read as marked lines and hunks, which can be placed from the cursor on. -/
def ReadsAs (source lines : List Text) (p : Patching) (h : OpenHunk) (out : List Text) : Prop :=
  ∃ body hunks rest, readBody lines = some (body, hunks) ∧ h.Closes body ∧
    oldOf body <+: source.drop p.cursor ∧
    place patchPosition source (p.cursor + (oldOf body).length) hunks = some rest ∧
    out = p.output ++ newOf body ++ rest

theorem putsOut_nil :
    PutsOut source [] p h out ↔ h.Closes [] ∧ out = p.output ++ source.drop p.cursor := by
  simp only [PutsOut, hunkLoop, bind_eq_ok, close_eq_ok, pure_eq_ok, exists_const]
  constructor
  · rintro ⟨p', ⟨hcloses, rfl⟩, rfl⟩
    exact ⟨hcloses, rfl⟩
  · rintro ⟨hcloses, rfl⟩
    exact ⟨p, ⟨hcloses, rfl⟩, rfl⟩

theorem readsAs_nil :
    ReadsAs source [] p h out ↔ h.Closes [] ∧ out = p.output ++ source.drop p.cursor := by
  constructor
  · rintro ⟨body, hunks, rest, hread, hcloses, -, hplace, rfl⟩
    obtain ⟨rfl, rfl⟩ := Prod.mk.inj (Option.some.inj hread)
    obtain rfl := Option.some.inj hplace
    exact ⟨hcloses, by simp⟩
  · rintro ⟨hcloses, rfl⟩
    exact ⟨[], [], _, rfl, hcloses, by simp, rfl, by simp⟩

theorem putsOut_line (hline : ¬ "@@ ".toList <+: line) :
    PutsOut source (line :: rest) p h out ↔ ∃ read lines, readLine line rest = some (read, lines) ∧
      oldOf [read] <+: source.drop p.cursor ∧
      PutsOut source lines (p.advance read) (h.advance read) out := by
  rw [PutsOut, hunkLoop_line hline]
  simp only [bind_eq_ok, require_eq_ok, Prod.exists, hunkLine_eq_ok]
  constructor
  · rintro ⟨p', ⟨mark, value, lines, hread, _, _, ⟨hold, rfl, rfl⟩, hloop⟩, hout⟩
    exact ⟨mark, value, lines, hread, hold, p', hloop, hout⟩
  · rintro ⟨mark, value, lines, hread, hold, p', hloop, hout⟩
    exact ⟨p', ⟨mark, value, lines, hread, _, _, ⟨hold, rfl, rfl⟩, hloop⟩, hout⟩

theorem readsAs_line (hline : ¬ "@@ ".toList <+: line) :
    ReadsAs source (line :: rest) p h out ↔ ∃ read lines, readLine line rest = some (read, lines) ∧
      oldOf [read] <+: source.drop p.cursor ∧
      ReadsAs source lines (p.advance read) (h.advance read) out := by
  have hsplit : ∀ (read : Mark × Text) body, read :: body = [read] ++ body := fun _ _ => rfl
  rw [ReadsAs, readBody_line hline]
  simp only [bind_eq_some_iff, map_eq_some_iff]
  constructor
  · rintro ⟨body, hunks, rest, ⟨⟨read, lines⟩, hread, ⟨body', hunks'⟩, hbody, hpair⟩, hcloses,
      hold, hplace, rfl⟩
    obtain ⟨rfl, rfl⟩ := Prod.mk.inj hpair
    rw [hsplit, oldOf_append, prefix_drop_append_iff] at hold
    rw [hsplit, oldOf_append, length_append, ← Nat.add_assoc] at hplace
    rw [OpenHunk.Closes, hsplit, oldOf_append, newOf_append, length_append, length_append,
      ← Nat.add_assoc, ← Nat.add_assoc] at hcloses
    refine ⟨read, lines, hread, hold.1, body', hunks', rest, hbody, hcloses, hold.2, hplace, ?_⟩
    rw [hsplit, newOf_append]
    simp only [Patching.advance, append_assoc]
  · rintro ⟨read, lines, hread, hold, body, hunks, rest, hbody, hcloses, hold', hplace, rfl⟩
    refine ⟨read :: body, hunks, rest, ⟨(read, lines), hread, (body, hunks), hbody, rfl⟩, ?_, ?_,
      ?_, ?_⟩
    · rw [OpenHunk.Closes, hsplit, oldOf_append, newOf_append, length_append,
        length_append, ← Nat.add_assoc, ← Nat.add_assoc]
      exact hcloses
    · rw [hsplit, oldOf_append, prefix_drop_append_iff]
      exact ⟨hold, hold'⟩
    · rw [hsplit, oldOf_append, length_append, ← Nat.add_assoc]
      exact hplace
    · rw [hsplit, newOf_append]
      simp only [Patching.advance, append_assoc]

/-- A header opens a hunk behind the lines up to it. -/
def Patching.upTo (p : Patching) (source : List Text) (header : Header) : Patching :=
  ⟨p.output ++ slice source p.cursor (header.oldStart - 1), header.oldStart - 1⟩

/-- The header names a position at or behind the cursor. -/
def Header.Ahead (header : Header) (source : List Text) (p : Patching) : Prop :=
  1 ≤ header.oldStart ∧ p.cursor ≤ header.oldStart - 1 ∧ header.oldStart - 1 ≤ source.length

theorem putsOut_header (hline : "@@ ".toList <+: line) :
    PutsOut source (line :: rest) p h out ↔ h.Closes [] ∧ ∃ header, header? line = some header ∧
      header.Ahead source p ∧ PutsOut source rest (p.upTo source header) ⟨header, 0, 0⟩ out := by
  rw [PutsOut, hunkLoop_header hline]
  simp only [bind_eq_ok, close_eq_ok, exists_const, Prod.exists, openHunk_eq_ok]
  constructor
  · rintro ⟨p', ⟨hcloses, _, _, ⟨header, hheader, hone, hcursor, hlen, rfl, rfl⟩, hloop⟩, hout⟩
    exact ⟨hcloses, header, hheader, ⟨hone, hcursor, hlen⟩, p', hloop, hout⟩
  · rintro ⟨hcloses, header, hheader, ⟨hone, hcursor, hlen⟩, p', hloop, hout⟩
    exact ⟨p', ⟨hcloses, _, _, ⟨header, hheader, hone, hcursor, hlen, rfl, rfl⟩, hloop⟩, hout⟩

/-- A consistent hunk goes in where the code looks for it. -/
theorem place_patchPosition_cons {hunk : Hunk Text} {cursor : Nat} :
    place patchPosition source cursor (hunk :: hunks) = some out ↔
      1 ≤ hunk.oldStart ∧ cursor ≤ hunk.oldStart - 1 ∧ hunk.oldStart - 1 ≤ source.length ∧
        oldOf hunk.lines <+: source.drop (hunk.oldStart - 1) ∧
        ∃ rest, place patchPosition source (hunk.oldStart - 1 + (oldOf hunk.lines).length) hunks =
            some rest ∧
          out = slice source cursor (hunk.oldStart - 1) ++ newOf hunk.lines ++ rest := by
  rw [place_cons_eq_some]
  constructor
  · rintro ⟨start, rest, hstart, hle, hlen, hold, hrest, rfl⟩
    rw [patchPosition] at hstart
    split_ifs at hstart with hone
    obtain rfl := Option.some.inj hstart
    exact ⟨hone, hle, hlen, hold, rest, hrest, rfl⟩
  · rintro ⟨hone, hle, hlen, hold, rest, hrest, rfl⟩
    exact ⟨_, rest, by rw [patchPosition, if_pos hone], hle, hlen, hold, hrest, rfl⟩

theorem readsAs_header (hline : "@@ ".toList <+: line) :
    ReadsAs source (line :: rest) p h out ↔ h.Closes [] ∧ ∃ header, header? line = some header ∧
      header.Ahead source p ∧ ReadsAs source rest (p.upTo source header) ⟨header, 0, 0⟩ out := by
  rw [ReadsAs, readBody_header hline]
  simp only [bind_eq_some_iff]
  constructor
  · rintro ⟨_, _, out', ⟨header, hheader, ⟨body, hunks⟩, hbody, hpair⟩, hcloses, -, hplace, rfl⟩
    split_ifs at hpair with hcount
    obtain ⟨rfl, rfl⟩ := Prod.mk.inj (Option.some.inj hpair)
    obtain ⟨hone, hle, hlen, hold, rest', hrest, rfl⟩ := place_patchPosition_cons.mp hplace
    refine ⟨hcloses, header, hheader, ⟨hone, hle, hlen⟩, body, hunks, rest', hbody, ?_, hold, hrest,
      ?_⟩
    · exact ⟨by simpa using hcount.1, by simpa using hcount.2⟩
    · simp [Patching.upTo]
  · rintro ⟨hcloses, header, hheader, ⟨hone, hle, hlen⟩, body, hunks, rest', hbody, hcount, hold,
      hrest, rfl⟩
    refine ⟨[], _, _, ⟨header, hheader, (body, hunks), hbody, if_pos ?_⟩, hcloses, by simp,
      place_patchPosition_cons.mpr ⟨hone, hle, hlen, hold, rest', hrest, rfl⟩, ?_⟩
    · exact ⟨by simpa using hcount.1, by simpa using hcount.2⟩
    · simp [Patching.upTo]

/-- **What the loop makes of the lines behind a header**: it runs through exactly when they read as
marked lines and hunks whose counts are right and which can be placed, and puts out what placing
them gives. -/
theorem putsOut_iff_readsAs : PutsOut source lines p h out ↔ ReadsAs source lines p h out := by
  induction hn : lines.length using Nat.strongRecOn generalizing lines p h with
  | _ n ih =>
    cases lines with
    | nil => rw [putsOut_nil, readsAs_nil]
    | cons line rest =>
      rw [length_cons] at hn
      by_cases hline : "@@ ".toList <+: line
      · rw [putsOut_header hline, readsAs_header hline]
        have hrest : ∀ p h, PutsOut source rest p h out ↔ ReadsAs source rest p h out :=
          fun p h => ih _ (by omega) rfl
        simp only [hrest]
      · rw [putsOut_line hline, readsAs_line hline]
        refine exists₂_congr fun read lines => and_congr_right fun hread =>
          and_congr_right fun _ => ?_
        have hlen := readLine_length hread
        exact ih _ (by omega) rfl

/-! ## The whole patch -/

theorem prefix_of_after? {fixed t t' : Text} (h : after? fixed t = some t') : fixed <+: t := by
  rw [after?] at h
  split_ifs at h with hfixed
  exact hfixed

/-- A line that reads as a header opens like one. -/
theorem prefix_of_header? {header : Header} (h : header? line = some header) :
    "@@ ".toList <+: line := by
  obtain ⟨t, ht, -⟩ := bind_eq_some_iff.mp h
  have hfixed : "@@ ".toList <+: ['@', '@', ' ', '-'] := by decide
  exact hfixed.trans ((prefix_of_after? ht).trans (List.rdropWhile_prefix _ _))

/-- Behind a header line there is a hunk, and its counts are right. -/
theorem readBody_header_eq_some (hline : "@@ ".toList <+: line) :
    readBody (line :: rest) = some (body, hunks) ↔ ∃ header body' hunks',
      header? line = some header ∧ readBody rest = some (body', hunks') ∧
      (⟨header.oldStart, header.oldCount, header.newStart, header.newCount, body'⟩ :
        Hunk Text).Consistent ∧ body = [] ∧
      hunks = ⟨header.oldStart, header.oldCount, header.newStart, header.newCount, body'⟩ ::
        hunks' := by
  simp only [readBody_header hline, bind_eq_some_iff, Prod.exists]
  constructor
  · rintro ⟨header, hheader, body', hunks', hrest, h⟩
    split_ifs at h with hcount
    obtain ⟨rfl, rfl⟩ := Prod.mk.inj (Option.some.inj h)
    exact ⟨header, body', hunks', hheader, hrest, hcount, rfl, rfl⟩
  · rintro ⟨header, body', hunks', hheader, hrest, hcount, rfl, rfl⟩
    exact ⟨header, hheader, body', hunks', hrest, if_pos hcount⟩

/-- Another line comes out as the first marked line. -/
theorem readBody_line_eq_some (hline : ¬ "@@ ".toList <+: line) :
    readBody (line :: rest) = some (body, hunks) ↔ ∃ read lines body',
      readLine line rest = some (read, lines) ∧ readBody lines = some (body', hunks) ∧
      body = read :: body' := by
  simp only [readBody_line hline, bind_eq_some_iff, map_eq_some_iff, Prod.exists,
    Prod.mk.injEq]
  constructor
  · rintro ⟨mark, value, lines, hread, body', hunks', hbody, rfl, rfl⟩
    exact ⟨mark, value, lines, body', hread, hbody, rfl⟩
  · rintro ⟨mark, value, lines, body', hread, hbody, rfl⟩
    exact ⟨mark, value, lines, hread, body', hunks, hbody, rfl, rfl⟩

/-- Every hunk that is read counts its own lines. -/
theorem consistent_of_readBody (h : readBody lines = some (body, hunks)) :
    ∀ hunk ∈ hunks, hunk.Consistent := by
  induction hn : lines.length using Nat.strongRecOn generalizing lines body hunks with
  | _ n ih =>
    cases lines with
    | nil =>
      obtain ⟨-, rfl⟩ := Prod.mk.inj (Option.some.inj h)
      simp
    | cons line rest =>
      rw [length_cons] at hn
      by_cases hline : "@@ ".toList <+: line
      · obtain ⟨header, body', hunks', -, hrest, hcount, -, rfl⟩ :=
          (readBody_header_eq_some hline).mp h
        exact forall_mem_cons.mpr ⟨hcount, ih _ (by omega) hrest rfl⟩
      · obtain ⟨read, lines, body', hread, hbody, -⟩ := (readBody_line_eq_some hline).mp h
        have hlen := readLine_length hread
        exact ih _ (by omega) hbody rfl

/-- The two file headers of a patch name the path. -/
def NamesPath (patch logicalPath : Text) : Prop :=
  ∃ old new lines, splitLines patch = old :: new :: lines ∧ ['-', '-', '-', ' '] <+: old ∧
    ['+', '+', '+', ' '] <+: new ∧ requirePatchPath (old.drop 4) logicalPath = .ok () ∧
    requirePatchPath (new.drop 4) logicalPath = .ok ()

theorem applyHunks_iff :
    (∃ p', applyHunks source lines = .ok p' ∧ out = p'.output ++ source.drop p'.cursor) ↔
      ∃ hunks, readBody lines = some ([], hunks) ∧ hunks ≠ [] ∧
        place patchPosition source 0 hunks = some out := by
  cases lines with
  | nil =>
    constructor
    · rintro ⟨_, h, -⟩
      cases h
    · rintro ⟨hunks, h, hne, -⟩
      exact absurd (Prod.mk.inj (Option.some.inj h)).2.symm hne
  | cons line rest =>
    by_cases hline : "@@ ".toList <+: line
    · have hclosed : OpenHunk.Closes ⟨⟨0, 0, 0, 0⟩, 0, 0⟩ [] := ⟨rfl, rfl⟩
      have hputs : PutsOut source (line :: rest) ⟨[], 0⟩ ⟨⟨0, 0, 0, 0⟩, 0, 0⟩ out ↔
          ReadsAs source (line :: rest) ⟨[], 0⟩ ⟨⟨0, 0, 0, 0⟩, 0, 0⟩ out := putsOut_iff_readsAs
      rw [PutsOut, hunkLoop_header hline, close_eq_ok (u := ()).mpr hclosed, ok_bind] at hputs
      rw [applyHunks]
      refine Iff.trans hputs ?_
      constructor
      · rintro ⟨body, hunks, rest', hread, -, -, hplace, rfl⟩
        obtain ⟨_, _, _, -, -, -, rfl, rfl⟩ := (readBody_header_eq_some hline).mp hread
        exact ⟨_, hread, by simp, by simpa using hplace⟩
      · rintro ⟨hunks, hread, -, hplace⟩
        exact ⟨[], hunks, out, hread, hclosed, by simp, by simpa using hplace, by simp⟩
    · constructor
      · rintro ⟨p', h, -⟩
        obtain ⟨⟨p, h'⟩, hopen, -⟩ := bind_eq_ok.mp h
        obtain ⟨header, hheader, -⟩ := openHunk_eq_ok.mp hopen
        exact absurd (prefix_of_header? hheader) hline
      · rintro ⟨hunks, hread, -⟩
        obtain ⟨_, _, _, -, -, h⟩ := (readBody_line_eq_some hline).mp hread
        cases h

theorem patchHunks_eq_some {patch : Text} : patchHunks patch = some hunks ↔
    readBody ((splitLines patch).drop 2) = some ([], hunks) ∧ hunks ≠ [] := by
  simp only [patchHunks, bind_eq_bind, bind_eq_some_iff, Prod.exists]
  constructor
  · rintro ⟨body, hunks', hread, h⟩
    split_ifs at h with hne
    obtain rfl := Option.some.inj h
    exact ⟨hne.1 ▸ hread, hne.2⟩
  · rintro ⟨hread, hne⟩
    exact ⟨[], hunks, hread, if_pos ⟨rfl, hne⟩⟩

/-- **A patch applies exactly when** the bytes are a text, its headers name the path, and the hunks
it reads as can be placed where the code looks for them; the result is the text placing gives. -/
theorem applyUnifiedPatch_eq_ok {before result : Bytes} {patch logicalPath : Text} :
    applyUnifiedPatch before patch logicalPath = .ok result ↔
      ∃ text hunks out, decode? before = some text ∧ NamesPath patch logicalPath ∧
        patchHunks patch = some hunks ∧ place patchPosition (splitLines text) 0 hunks = some out ∧
        result = encode out.flatten := by
  simp only [applyUnifiedPatch, bind_eq_ok, require_eq_ok, patchHunks_eq_some]
  constructor
  · rintro ⟨text, htext, h⟩
    split at h
    · rename_i old new lines hlines
      simp only [bind_eq_ok, refuseIf_eq_ok, exists_const, pure_eq_ok, not_or, not_not] at h
      obtain ⟨⟨-, hold, hnew⟩, _, hpath, _, hpath', p', hp', rfl⟩ := h
      obtain ⟨hunks, hread, hne, hplace⟩ := applyHunks_iff.mp ⟨p', hp', rfl⟩
      exact ⟨text, hunks, _, htext, ⟨old, new, lines, hlines, hold, hnew, hpath, hpath'⟩,
        ⟨by rw [hlines]; exact hread, hne⟩, hplace, rfl⟩
    · cases h
  · rintro ⟨text, hunks, out, htext, ⟨old, new, lines, hlines, hold, hnew, hpath, hpath'⟩,
      ⟨hread, hne⟩, hplace, rfl⟩
    rw [hlines] at hread
    obtain ⟨p', hp', rfl⟩ := applyHunks_iff.mpr ⟨hunks, hread, hne, hplace⟩
    refine ⟨text, htext, ?_⟩
    rw [hlines]
    have hlines : lines ≠ [] := by
      rintro rfl
      exact hne (Prod.mk.inj (Option.some.inj hread)).2.symm
    simp only [bind_eq_ok, refuseIf_eq_ok, exists_const, pure_eq_ok, not_or, not_not]
    exact ⟨⟨hlines, hold, hnew⟩, (), hpath, (), hpath', p', hp', rfl⟩

end Mishkan.Edits
