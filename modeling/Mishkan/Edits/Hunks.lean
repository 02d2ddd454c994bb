import Mishkan.Edits.Patch

/-!
# Edits/Hunks — where an accepted patch puts its hunks

The code reads the position of a hunk as the line before the one its header names.  The format says
so only of a hunk that takes lines away; one that takes none names the line it follows, and the code
puts its lines in front of that line instead.  `lands_standard_iff` says when the text is the one of
the format all the same: wherever lines are inserted, they and the line they should follow read the
same in both orders.
-/

namespace Mishkan.Edits

open Lines UnifiedDiff Artifacts List

/-- What the format makes of a patch: the hunks at the places their headers name, in the lines of
`splitLines`. -/
def standardPatch (before : Bytes) (patch : Text) : Option Bytes := do
  let text ← decode? before
  let hunks ← patchHunks patch
  let out ← place standardPosition (splitLines text) 0 hunks
  some (encode out.flatten)

/-- The text the hunks that name a line put in. -/
def inserted (hunks : List (Hunk Text)) (start : Nat) : Text :=
  ((hunks.filter (·.oldStart = start)).flatMap fun h => newOf h.lines).flatten

/-- Nothing shows where lines are put in at a line: it exists, no other hunk takes it away, and the
text put in reads the same in front of it and behind it. -/
def Unseen (source : List Text) (hunks : List (Hunk Text)) (start : Nat) : Prop :=
  ∃ line, source[start - 1]? = some line ∧
    inserted hunks start ++ line = line ++ inserted hunks start ∧
    ∀ h ∈ hunks, h.oldStart = start → h.oldCount = 0

/-- Nothing shows wherever a hunk takes no line. -/
def ShiftsUnseen (source : List Text) (hunks : List (Hunk Text)) : Prop :=
  ∀ h ∈ hunks, h.oldCount = 0 → Unseen source hunks h.oldStart

variable {source out : List Text} {hunk : Hunk Text} {hunks : List (Hunk Text)} {cursor start : Nat}
  {line pending : Text}

theorem inserted_cons (h : hunk.oldStart = start) :
    inserted (hunk :: hunks) start = (newOf hunk.lines).flatten ++ inserted hunks start := by
  simp [inserted, h]

theorem inserted_cons_of_ne (h : hunk.oldStart ≠ start) :
    inserted (hunk :: hunks) start = inserted hunks start := by
  simp [inserted, h]

theorem inserted_of_forall_ne (h : ∀ hunk ∈ hunks, hunk.oldStart ≠ start) :
    inserted hunks start = [] := by
  have hnil : hunks.filter (·.oldStart = start) = [] := by
    rw [filter_eq_nil_iff]
    exact fun hunk hmem => by simpa using h hunk hmem
  rw [inserted, hnil]
  rfl

theorem unseen_cons_of_ne (h : hunk.oldStart ≠ start) :
    Unseen source (hunk :: hunks) start ↔ Unseen source hunks start := by
  simp only [Unseen, inserted_cons_of_ne h, forall_mem_cons, h, false_implies, true_and]

/-- The hunks the code places from a cursor on all name lines behind it. -/
theorem cursor_lt_oldStart (h : place patchPosition source cursor hunks = some out) :
    ∀ hunk ∈ hunks, cursor < hunk.oldStart := by
  induction hunks generalizing cursor out with
  | nil => simp
  | cons hunk hunks ih =>
    obtain ⟨hone, hle, -, -, rest, hrest, -⟩ := place_patchPosition_cons.mp h
    refine forall_mem_cons.mpr ⟨by omega, fun hunk' hmem => ?_⟩
    have := ih hrest hunk' hmem
    omega

/-- What is put in at a line still has to pass it: with the text that waits, it reads the same on
both sides of the line. -/
structure Waits (source : List Text) (hunks : List (Hunk Text)) (start : Nat)
    (line pending : Text) : Prop where
  swaps : pending ++ inserted hunks start ++ line = line ++ (pending ++ inserted hunks start)
  kept : ∀ h ∈ hunks, h.oldStart = start → h.oldCount = 0
  others : ∀ h ∈ hunks, h.oldCount = 0 → h.oldStart ≠ start → Unseen source hunks h.oldStart

theorem shiftsUnseen_zero (hzero : hunk.oldCount = 0) : ShiftsUnseen source (hunk :: hunks) ↔
    ∃ line, source[hunk.oldStart - 1]? = some line ∧
      Waits source hunks hunk.oldStart line (newOf hunk.lines).flatten := by
  constructor
  · intro h
    obtain ⟨line, hline, hswap, hkept⟩ := h hunk (by simp) hzero
    rw [inserted_cons rfl] at hswap
    refine ⟨line, hline, hswap, fun g hg => hkept g (by simp [hg]), fun g hg hgz hne => ?_⟩
    exact (unseen_cons_of_ne (Ne.symm hne)).mp (h g (by simp [hg]) hgz)
  · rintro ⟨line, hline, hswap, hkept, hothers⟩
    have hhead : Unseen source (hunk :: hunks) hunk.oldStart :=
      ⟨line, hline, by rw [inserted_cons rfl]; exact hswap,
        forall_mem_cons.mpr ⟨fun _ => hzero, hkept⟩⟩
    refine forall_mem_cons.mpr ⟨fun _ => hhead, fun g hg hgz => ?_⟩
    by_cases hne : g.oldStart = hunk.oldStart
    · exact hne ▸ hhead
    · exact (unseen_cons_of_ne (Ne.symm hne)).mpr (hothers g hg hgz hne)

theorem shiftsUnseen_pos (hpos : hunk.oldCount ≠ 0)
    (hahead : ∀ g ∈ hunks, hunk.oldStart ≠ g.oldStart) :
    ShiftsUnseen source (hunk :: hunks) ↔ ShiftsUnseen source hunks := by
  rw [ShiftsUnseen, forall_mem_cons]
  refine Iff.trans (and_iff_right fun h => absurd h hpos) ?_
  exact forall₂_congr fun g hg => imp_congr_right fun _ => unseen_cons_of_ne (hahead g hg)

theorem waits_same (hzero : hunk.oldCount = 0) :
    Waits source (hunk :: hunks) hunk.oldStart line pending ↔
      Waits source hunks hunk.oldStart line (pending ++ (newOf hunk.lines).flatten) := by
  have hins : inserted (hunk :: hunks) hunk.oldStart =
      (newOf hunk.lines).flatten ++ inserted hunks hunk.oldStart := inserted_cons rfl
  constructor
  · rintro ⟨hswap, hkept, hothers⟩
    rw [hins, ← append_assoc pending] at hswap
    refine ⟨hswap, fun g hg => hkept g (by simp [hg]), fun g hg hgz hne => ?_⟩
    exact (unseen_cons_of_ne (Ne.symm hne)).mp (hothers g (by simp [hg]) hgz hne)
  · rintro ⟨hswap, hkept, hothers⟩
    refine ⟨by rw [hins, ← append_assoc pending]; exact hswap,
      forall_mem_cons.mpr ⟨fun _ => hzero, hkept⟩,
      forall_mem_cons.mpr ⟨fun _ hne => absurd rfl hne, fun g hg hgz hne => ?_⟩⟩
    exact (unseen_cons_of_ne (Ne.symm hne)).mpr (hothers g hg hgz hne)

theorem waits_of_forall_ne (hne : ∀ h ∈ hunks, h.oldStart ≠ start) :
    Waits source hunks start line pending ↔
      pending ++ line = line ++ pending ∧ ShiftsUnseen source hunks := by
  have hins := inserted_of_forall_ne hne
  constructor
  · rintro ⟨hswap, -, hothers⟩
    rw [hins, append_nil] at hswap
    exact ⟨hswap, fun h hmem hzero => hothers h hmem hzero (hne h hmem)⟩
  · rintro ⟨hswap, hunseen⟩
    exact ⟨by rwa [hins, append_nil], fun h hmem heq => absurd heq (hne h hmem),
      fun h hmem hzero _ => hunseen h hmem hzero⟩

/-! ## The two placements side by side -/

/-- Two texts that swap can be taken off in either order. -/
theorem append_swap_iff {u v : Text} : pending ++ (line ++ u) = line ++ (pending ++ v) ↔
      pending ++ line = line ++ pending ∧ u = v := by
  rw [← append_assoc, ← append_assoc]
  constructor
  · intro h
    exact append_inj h (by rw [length_append, length_append, Nat.add_comm])
  · rintro ⟨h, rfl⟩
    rw [h]

/-- A hunk that takes no line goes in behind the line it names. -/
theorem exists_place_zero {P : List Text → Prop} (hzero : hunk.oldCount = 0)
    (hcount : hunk.Consistent) (hle : cursor ≤ hunk.oldStart) :
    (∃ out, place standardPosition source cursor (hunk :: hunks) = some out ∧ P out) ↔
      hunk.oldStart ≤ source.length ∧ ∃ rest,
        place standardPosition source hunk.oldStart hunks = some rest ∧
        P (slice source cursor hunk.oldStart ++ newOf hunk.lines ++ rest) := by
  have hpos : standardPosition hunk = some hunk.oldStart := by rw [standardPosition, if_pos hzero]
  have hold : oldOf hunk.lines = [] := length_eq_zero_iff.mp (hcount.1.trans hzero)
  simp only [place_cons_eq_some, hpos, hold, length_nil, Nat.add_zero, Option.some.injEq]
  constructor
  · rintro ⟨_, ⟨_, rest, rfl, -, hlen, -, hrest, rfl⟩, hP⟩
    exact ⟨hlen, rest, hrest, hP⟩
  · rintro ⟨hlen, rest, hrest, hP⟩
    exact ⟨_, ⟨_, rest, rfl, hle, hlen, by simp, hrest, rfl⟩, hP⟩

/-- A hunk that takes lines away goes in where the code looks for it. -/
theorem exists_place_pos {P : List Text → Prop} (hpos : hunk.oldCount ≠ 0)
    (hone : 1 ≤ hunk.oldStart) (hlen : hunk.oldStart - 1 ≤ source.length)
    (hold : oldOf hunk.lines <+: source.drop (hunk.oldStart - 1)) :
    (∃ out, place standardPosition source cursor (hunk :: hunks) = some out ∧ P out) ↔
      cursor ≤ hunk.oldStart - 1 ∧ ∃ rest,
        place standardPosition source (hunk.oldStart - 1 + (oldOf hunk.lines).length) hunks =
          some rest ∧ P (slice source cursor (hunk.oldStart - 1) ++ newOf hunk.lines ++ rest) := by
  have hposition : standardPosition hunk = some (hunk.oldStart - 1) := by
    rw [standardPosition, if_neg hpos, if_pos hone]
  simp only [place_cons_eq_some, hposition, Option.some.injEq]
  constructor
  · rintro ⟨_, ⟨_, rest, rfl, hle, -, -, hrest, rfl⟩, hP⟩
    exact ⟨hle, rest, hrest, hP⟩
  · rintro ⟨hle, rest, hrest, hP⟩
    exact ⟨_, ⟨_, rest, rfl, hle, hlen, hold, hrest, rfl⟩, hP⟩

/-- Placing from the next line on leaves that line out, when no hunk names it. -/
theorem place_succ (hline : source[cursor]? = some line)
    (hne : ∀ h ∈ hunks, h.oldStart ≠ cursor + 1)
    (hcode : place patchPosition source cursor hunks = some out) :
    ∃ rest, place patchPosition source (cursor + 1) hunks = some rest ∧ out = line :: rest := by
  cases hunks with
  | nil =>
    obtain rfl := Option.some.inj hcode
    obtain ⟨hlt, rfl⟩ := List.getElem?_eq_some_iff.mp hline
    exact ⟨_, rfl, drop_eq_getElem_cons hlt⟩
  | cons hunk hunks =>
    obtain ⟨hone, hle, hlen, hold, rest, hrest, rfl⟩ := place_patchPosition_cons.mp hcode
    have := hne hunk (by simp)
    refine ⟨_, place_patchPosition_cons.mpr ⟨hone, by omega, hlen, hold, rest, hrest, rfl⟩, ?_⟩
    rw [slice_cons (by omega) hline]
    rfl

/-- The format's placement agrees with the code's, from a place both stand at. -/
def Agrees (source : List Text) (hunks : List (Hunk Text)) : Prop :=
  ∀ cursor out, place patchPosition source cursor hunks = some out →
    ((∃ out', place standardPosition source cursor hunks = some out' ∧
        out.flatten = out'.flatten) ↔ ShiftsUnseen source hunks)

/-- The format stands one line further, and text the code has put in waits for that line. -/
def AgreesBehind (source : List Text) (hunks : List (Hunk Text)) : Prop :=
  ∀ cursor out line pending, place patchPosition source cursor hunks = some out →
    source[cursor]? = some line →
    ((∃ out', place standardPosition source (cursor + 1) hunks = some out' ∧
        pending ++ out.flatten = line ++ (pending ++ out'.flatten)) ↔
      Waits source hunks (cursor + 1) line pending)

/-- When no hunk names the line, it is passed at once. -/
theorem Agrees.behind (h : Agrees source hunks) (hne : ∀ h ∈ hunks, h.oldStart ≠ cursor + 1)
    (hcode : place patchPosition source cursor hunks = some out)
    (hline : source[cursor]? = some line) :
    (∃ out', place standardPosition source (cursor + 1) hunks = some out' ∧
        pending ++ out.flatten = line ++ (pending ++ out'.flatten)) ↔
      Waits source hunks (cursor + 1) line pending := by
  obtain ⟨rest, hrest, rfl⟩ := place_succ hline hne hcode
  rw [waits_of_forall_ne hne, ← h _ _ hrest, flatten_cons]
  simp only [append_swap_iff]
  constructor
  · rintro ⟨out', hout', hswap, heq⟩
    exact ⟨hswap, out', hout', heq⟩
  · rintro ⟨hswap, out', hout', heq⟩
    exact ⟨out', hout', hswap, heq⟩

/-- One more hunk in front, from a place both stand at. -/
theorem agrees_cons (hcount : hunk.Consistent) (h : Agrees source hunks)
    (hbehind : AgreesBehind source hunks) : Agrees source (hunk :: hunks) := by
  intro cursor out hcode
  obtain ⟨hone, hle, hlen, hold, rest, hrest, rfl⟩ := place_patchPosition_cons.mp hcode
  have hahead := cursor_lt_oldStart hrest
  by_cases hzero : hunk.oldCount = 0
  · have hnil : oldOf hunk.lines = [] := length_eq_zero_iff.mp (hcount.1.trans hzero)
    have hsucc : hunk.oldStart - 1 + 1 = hunk.oldStart := by omega
    rw [hnil, length_nil, Nat.add_zero] at hrest
    rw [exists_place_zero hzero hcount (by omega), shiftsUnseen_zero hzero]
    have hflat : ∀ {line rest'}, source[hunk.oldStart - 1]? = some line →
        ((slice source cursor (hunk.oldStart - 1) ++ newOf hunk.lines ++ rest).flatten =
            (slice source cursor hunk.oldStart ++ newOf hunk.lines ++ rest').flatten ↔
          (newOf hunk.lines).flatten ++ rest.flatten =
            line ++ ((newOf hunk.lines).flatten ++ rest'.flatten)) := by
      intro line rest' hline
      have hslice := slice_succ hle hline
      rw [hsucc] at hslice
      simp [hslice]
    have hwaits := fun line hline =>
      hsucc ▸ hbehind _ rest line (newOf hunk.lines).flatten hrest hline
    constructor
    · rintro ⟨hlast, rest', hrest', heq⟩
      have hline := List.getElem?_eq_getElem (l := source) (i := hunk.oldStart - 1) (by omega)
      exact ⟨_, hline, (hwaits _ hline).mp ⟨rest', hrest', (hflat hline).mp heq⟩⟩
    · rintro ⟨line, hline, hw⟩
      obtain ⟨rest', hrest', heq⟩ := (hwaits _ hline).mpr hw
      obtain ⟨hlt, -⟩ := List.getElem?_eq_some_iff.mp hline
      exact ⟨by omega, rest', hrest', (hflat hline).mpr heq⟩
  · have hpos : 1 ≤ (oldOf hunk.lines).length := by have := hcount.1; omega
    rw [exists_place_pos hzero hone hlen hold,
      shiftsUnseen_pos hzero fun g hg => by have := hahead g hg; omega, ← h _ _ hrest,
      and_iff_right hle]
    simp only [flatten_append, append_cancel_left_eq]

/-- One more hunk in front, while text waits for the line the format has passed. -/
theorem agreesBehind_cons (hcount : hunk.Consistent) (h : Agrees source (hunk :: hunks))
    (hbehind : AgreesBehind source hunks) : AgreesBehind source (hunk :: hunks) := by
  intro cursor out line pending hcode hline
  by_cases hsame : hunk.oldStart = cursor + 1
  · obtain ⟨hone, hle, hlen, hold, rest, hrest, rfl⟩ := place_patchPosition_cons.mp hcode
    have hstart : hunk.oldStart - 1 = cursor := by omega
    rw [hstart] at hlen hold hrest ⊢
    by_cases hzero : hunk.oldCount = 0
    · have hnil : oldOf hunk.lines = [] := length_eq_zero_iff.mp (hcount.1.trans hzero)
      obtain ⟨hlt, -⟩ := List.getElem?_eq_some_iff.mp hline
      rw [hnil, length_nil, Nat.add_zero] at hrest
      rw [exists_place_zero hzero hcount hsame.ge, ← hsame, waits_same hzero, hsame,
        ← hbehind _ _ _ _ hrest hline, and_iff_right (by omega)]
      simp
    · rw [exists_place_pos hzero hone (by omega) (by rwa [hstart])]
      refine iff_of_false (fun h => by omega) fun hw => hzero (hw.kept hunk (by simp) hsame)
  · refine h.behind ?_ hcode hline
    obtain ⟨hone, hle, -, -, rest, hrest, -⟩ := place_patchPosition_cons.mp hcode
    refine forall_mem_cons.mpr ⟨hsame, fun g hg => ?_⟩
    have := cursor_lt_oldStart hrest g hg
    omega

/-- **The two placements, hunk after hunk.** -/
theorem agrees_and_behind (hcounts : ∀ h ∈ hunks, h.Consistent) :
    Agrees source hunks ∧ AgreesBehind source hunks := by
  induction hunks with
  | nil =>
    have hnil : Agrees source [] := by
      intro cursor out hcode
      exact iff_of_true ⟨out, hcode, rfl⟩ (by simp [ShiftsUnseen])
    exact ⟨hnil, fun cursor out line pending hcode hline => hnil.behind (by simp) hcode hline⟩
  | cons hunk hunks ih =>
    obtain ⟨hcount, hcounts⟩ := forall_mem_cons.mp hcounts
    obtain ⟨hagrees, hbehind⟩ := ih hcounts
    have h := agrees_cons hcount hagrees hbehind
    exact ⟨h, agreesBehind_cons hcount h hbehind⟩

/-! ## Accepted patches -/

/-- The lines of the text some bytes are. -/
def sourceLines (before : Bytes) : List Text := ((decode? before).map splitLines).getD []

/-- The hunks a patch reads as. -/
def hunksOf (patch : Text) : List (Hunk Text) := (patchHunks patch).getD []

/-- **An accepted patch gives the text of the format exactly when nothing shows where it puts in
lines without taking any.**  In particular it does when every hunk takes a line away. -/
theorem lands_standard_iff {before result : Bytes} {patch logicalPath : Text}
    (h : applyUnifiedPatch before patch logicalPath = .ok result) :
    standardPatch before patch = some result ↔
      ShiftsUnseen (sourceLines before) (hunksOf patch) := by
  obtain ⟨text, hunks, out, htext, -, hhunks, hplace, rfl⟩ := applyUnifiedPatch_eq_ok.mp h
  have hcounts := consistent_of_readBody (patchHunks_eq_some.mp hhunks).1
  rw [sourceLines, hunksOf, htext, hhunks, Option.map_some, Option.getD_some, Option.getD_some,
    ← (agrees_and_behind hcounts).1 0 out hplace, standardPatch, htext, hhunks]
  simp only [Option.bind_eq_bind, Option.bind_some, Option.bind_eq_some_iff, Option.some.injEq]
  refine exists_congr fun out' => and_congr_right fun _ => ?_
  rw [encode_injective.eq_iff, eq_comm]

/-- Two lines, and a patch that names the first and puts in a third behind it. -/
def twoLines : Bytes := encode "a\nb\n".toList

def insertBehindFirst : Text := "--- a/p\n+++ b/p\n@@ -1,0 +2 @@\n+c\n".toList

/-- A patch that replaces the second of the lines. -/
def replaceSecond : Text := "--- a/p\n+++ b/p\n@@ -2 +2 @@\n-b\n+c\n".toList

theorem lands_standard_replaceSecond :
    applyUnifiedPatch twoLines replaceSecond "p".toList = .ok (encode "a\nc\n".toList) ∧
      (standardPatch twoLines replaceSecond = some (encode "a\nc\n".toList) ↔
        ShiftsUnseen (sourceLines twoLines) (hunksOf replaceSecond)) := by
  have h : applyUnifiedPatch twoLines replaceSecond "p".toList = .ok (encode "a\nc\n".toList) := by
    decide +kernel
  exact ⟨h, lands_standard_iff h⟩

/-- The lines are put in before the first line: the accepted patch gives another text than the
format. -/
theorem insertBehindFirst_misplaced :
    applyUnifiedPatch twoLines insertBehindFirst "p".toList = .ok (encode "c\na\nb\n".toList) ∧
      standardPatch twoLines insertBehindFirst = some (encode "a\nc\nb\n".toList) ∧
      encode "c\na\nb\n".toList ≠ encode "a\nc\nb\n".toList := by
  decide +kernel

end Mishkan.Edits
