import Mishkan.Edits.Diff

/-!
# Edits/Inverse — applying the recorded diff gives the text back

The hunks of a script are written one line behind the other (`lined_hunks`), read back as they are
and placed where the script took them from.  Two things stand in the way.  A hunk of an empty text
starts at line zero, which the code refuses.  And the matcher writes no mark behind a line without
an end: when the script ends by replacing such a line, the line that is put in runs into it
(`merged`), the hunk no longer counts its lines, and the patch is refused.
-/

namespace Mishkan.Edits

open Lines UnifiedDiff Difflib Refusal Artifacts List

/-! ## The hunks of a script -/

/-- The hunks a script is written as. -/
def scriptHunks (codes : List Opcode) (a b : List Text) : List (Hunk Text) :=
  (groupedOpcodes 3 codes).map (groupHunk a b)

variable {a b : List Text} {codes os : List Opcode} {o : Opcode} {l : Mark × Text}

theorem scriptHunks_consistent (h : IsScript a b codes) :
    ∀ hunk ∈ scriptHunks codes a b, hunk.Consistent :=
  forall_mem_map.mpr (h.grouped (by decide)).consistent

theorem scriptHunks_ne_nil (h : IsScript a b codes) (hab : a ≠ b) : scriptHunks codes a b ≠ [] := by
  rw [scriptHunks, Ne, map_eq_nil_iff]
  exact (h.grouped (by decide)).ne_nil hab

theorem Grouped.group_ne_nil {i j : Nat} {groups : List (List Opcode)}
    (h : Grouped a b i j groups) : ∀ group ∈ groups, group ≠ [] ∧ ∀ o ∈ group, o.Fits a b := by
  induction groups generalizing i j with
  | nil => simp
  | cons group groups ih =>
    obtain ⟨_, _, _, _, -, hne, hcovers, hrest⟩ := h
    exact forall_mem_cons.mpr ⟨⟨hne, fun o => hcovers.fits⟩, ih hrest⟩

theorem scriptHunks_lines_ne_nil (h : IsScript a b codes) :
    ∀ hunk ∈ scriptHunks codes a b, hunk.lines ≠ [] := by
  refine forall_mem_map.mpr fun group hgroup hnil => ?_
  obtain ⟨hne, hfits⟩ := Grouped.group_ne_nil (h.grouped (by decide)) group hgroup
  obtain ⟨o, group, rfl⟩ := exists_cons_of_ne_nil hne
  exact opcodeLines_ne_nil (hfits o (by simp)) (append_eq_nil_iff.mp hnil).1

/-- The hunks of a script are found where their groups begin, when the first text has a line. -/
theorem place_scriptHunks (h : IsScript a b codes) (ha : a ≠ []) :
    place patchPosition a 0 (scriptHunks codes a b) = some b := by
  refine (h.grouped (by decide)).place fun group hgroup k l k' l' hne hcovers => ?_
  obtain ⟨o, ho, htakes⟩ := h.takes (n := 3) (by decide) ha group hgroup
  have hlt := hcovers.lt_of_takes ho htakes
  have hcount : k' - k ≠ 0 := by omega
  rw [Grouped.hunk hcovers hne, patchPosition]
  simp [rangeStart, hcount]

/-- A hunk of an empty text is refused. -/
theorem place_scriptHunks_nil (h : IsScript [] b codes) (hb : b ≠ []) :
    place patchPosition [] 0 (scriptHunks codes [] b) = none := by
  have hgrouped := h.grouped (n := 3) (by decide)
  rw [scriptHunks]
  cases hgroups : groupedOpcodes 3 codes with
  | nil =>
    rw [hgroups] at hgrouped
    exact absurd hgrouped.symm hb
  | cons group groups =>
    rw [hgroups] at hgrouped
    obtain ⟨i1, j1, i2, j2, -, hne, hcovers, -⟩ := hgrouped
    have hlen := hcovers.nonempty_le hne
    have hle := hcovers.le
    rw [length_nil] at hlen
    have hstart : (groupHunk [] b group).oldStart = 0 := by
      rw [Grouped.hunk hcovers hne]
      simp only [rangeStart]
      split_ifs <;> omega
    rw [map_cons, place, patchPosition, hstart]
    rfl

/-! ## The hunks as text -/

theorem mem_linesOf (hl : l ∈ linesOf a b os) : l.2 ∈ a ∨ l.2 ∈ b := by
  obtain ⟨o, -, hl⟩ := mem_flatMap.mp hl
  have hmarked : ∀ {mark} {s : List Text}, l ∈ marked mark s → l.2 ∈ s := by
    intro mark s hl
    obtain ⟨x, hx, rfl⟩ := mem_map.mp hl
    exact hx
  have hslice : ∀ {s : List Text} {i j}, l.2 ∈ slice s i j → l.2 ∈ s := fun hx =>
    take_subset _ _ (drop_subset _ _ hx)
  rw [opcodeLines] at hl
  split at hl
  · exact .inl (hslice (hmarked hl))
  · exact (mem_append.mp hl).imp (hslice ∘ hmarked) (hslice ∘ hmarked)
  · exact .inl (hslice (hmarked hl))
  · exact .inr (hslice (hmarked hl))

/-- The lines of the hunks, one behind the other. -/
theorem lines_scriptHunks (codes : List Opcode) (a b : List Text) :
    (scriptHunks codes a b).flatMap Hunk.lines =
      (groupedOpcodes 3 codes).flatMap (linesOf a b) := by
  rw [scriptHunks, flatMap_map]
  rfl

theorem sublist_dropLast {α : Type} {l l' : List α} (h : l.Sublist l') :
    l.dropLast.Sublist l'.dropLast := by
  have htail := h.reverse.tail
  rwa [tail_reverse, tail_reverse, reverse_sublist] at htail

/-- **The hunks of a script are written as lines**, unless its end replaces an open line. -/
theorem lined_hunks (h : IsScript a b codes) (ha : Lined a) (hb : Lined b) (hne : codes ≠ [])
    (hopen : (∀ l ∈ a, Terminated l) ∨ ∀ o ∈ codes.getLast?, o.tag ≠ .replace) :
    Lined ((scriptHunks codes a b).flatMap Hunk.render) := by
  have hsub := linesOf_groupedOpcodes (a := a) (b := b) (n := 3) hne
  have hended := h.ended_dropLast ha hb hopen
  refine lined_render (scriptHunks_lines_ne_nil h) ?_ ?_
  · rw [lines_scriptHunks]
    exact fun l hl => hended l ((sublist_dropLast hsub).subset hl)
  · rw [lines_scriptHunks]
    intro l hl
    rcases mem_linesOf (hsub.subset (mem_of_mem_getLast? hl)) with hmem | hmem
    · exact (ha.of_mem hmem).imp_right And.right
    · exact (hb.of_mem hmem).imp_right And.right

/-! ## An open line in the way -/

/-- The lines of a hunk whose last removed line has run together with the first line put in. -/
def merged (before : List (Mark × Text)) (removed : List Text) (old new : Text)
    (added : List Text) : List (Mark × Text) :=
  before ++ (marked .remove removed ++ (.remove, old ++ '+' :: new) :: marked .add added)

/-- The same lines before they run together. -/
def unmerged (before : List (Mark × Text)) (removed : List Text) (old new : Text)
    (added : List Text) : List (Mark × Text) :=
  before ++ (marked .remove (removed ++ [old]) ++ marked .add (new :: added))

variable {before : List (Mark × Text)} {removed added : List Text} {old new : Text}

/-- As text they are the same. -/
theorem flatten_merged : ((merged before removed old new added).map markedLine).flatten =
    ((unmerged before removed old new added).map markedLine).flatten := by
  simp [merged, unmerged, marked, markedLine, Mark.char]

/-- As lines they show one new line less. -/
theorem length_newOf_merged : (newOf (unmerged before removed old new added)).length =
    (newOf (merged before removed old new added)).length + 1 := by
  simp only [merged, unmerged, newOf_append, newOf_marked, newOf_remove, length_append]
  simp
  omega

theorem ended_merged (hbefore : Ended before) (hremoved : ∀ l ∈ removed, Terminated l)
    (hold : Plain old) (hnew : ∀ l ∈ (new :: added).dropLast, Terminated l)
    (hlast : ∀ l ∈ new :: added, Terminated l ∨ Unended l) :
    Ended (merged before removed old new added).dropLast ∧
      ∀ l ∈ (merged before removed old new added).getLast?, Terminated l.2 ∨ Plain l.2 := by
  have hplus : isBreak '+' = false := by decide
  have htail : ∀ {tail : List (Mark × Text)}, tail ≠ [] →
      (before ++ (marked .remove removed ++ tail)).dropLast =
          before ++ (marked .remove removed ++ tail.dropLast) ∧
        (before ++ (marked .remove removed ++ tail)).getLast? = tail.getLast? := by
    intro tail hne
    have hne' : marked .remove removed ++ tail ≠ [] := by simp [hne]
    rw [dropLast_append_of_ne_nil hne', dropLast_append_of_ne_nil hne,
      List.getLast?_append_of_ne_nil _ hne', List.getLast?_append_of_ne_nil _ hne]
    exact ⟨rfl, rfl⟩
  obtain ⟨hdrop, hget⟩ := htail (cons_ne_nil (Mark.remove, old ++ '+' :: new)
    (marked .add added))
  rw [merged, hdrop, hget]
  cases added with
  | nil =>
    refine ⟨ended_append.mpr ⟨hbefore, ended_append.mpr ⟨ended_marked.mpr hremoved, ?_⟩⟩, ?_⟩
    · exact fun l hl => by simp [marked] at hl
    · intro l hl
      obtain rfl := Option.some.inj hl
      refine (hlast new (by simp)).imp (fun h => ?_) fun h => ?_
      · exact (h.cons hplus).prepend hold
      · exact plain_append.mpr ⟨hold, plain_cons.mpr ⟨hplus, h.2⟩⟩
  | cons second added =>
    rw [dropLast_cons_cons, forall_mem_cons] at hnew
    have hmarked : marked Mark.add (second :: added) ≠ [] := by simp [marked]
    rw [dropLast_cons_of_ne_nil hmarked, List.getLast?_cons_of_ne_nil hmarked]
    refine ⟨ended_append.mpr ⟨hbefore, ended_append.mpr ⟨ended_marked.mpr hremoved, ?_⟩⟩, ?_⟩
    · refine forall_mem_cons.mpr ⟨(hnew.1.cons hplus).prepend hold, ?_⟩
      rw [marked, ← map_dropLast]
      exact ended_marked.mpr hnew.2
    · intro l hl
      obtain ⟨x, hx, rfl⟩ := mem_map.mp (mem_of_mem_getLast? hl)
      exact (hlast x (mem_cons_of_mem _ hx)).imp_right And.right

/-- **When the script ends by replacing an open line, the written hunks read as hunks of which one
does not count its lines.** -/
theorem exists_merged (h : IsScript a b (os ++ [o])) (ha : Lined a) (hb : Lined b)
    (ho : o.tag = .replace) (hopen : ∀ l ∈ a.getLast?, Unended l) : ∃ hunks : List (Hunk Text),
      (hunks.flatMap Hunk.render).flatten =
        ((scriptHunks (os ++ [o]) a b).flatMap Hunk.render).flatten ∧
      Lined (hunks.flatMap Hunk.render) ∧ ∃ hunk ∈ hunks, ¬ hunk.Consistent := by
  have hne : o.tag ≠ .equal := by simp [ho]
  obtain ⟨gs, g, hgroups⟩ := groupedOpcodes_concat (n := 3) hne os
  have hfit := h.covers.fits (o := o) (by simp)
  obtain ⟨k, l, -, -, -, -, hi2, hj2⟩ := covers_append.mp h.covers
  obtain ⟨hi, hj, hblock⟩ := hfit
  simp only [ho] at hblock
  have hold : slice a o.i1 o.i2 ≠ [] := by
    rw [Ne, ← length_eq_zero_iff, length_slice]
    omega
  have hnew : slice b o.j1 o.j2 ≠ [] := by
    rw [Ne, ← length_eq_zero_iff, length_slice]
    omega
  obtain ⟨removed, old, hremoved⟩ := (eq_nil_or_concat _).resolve_left hold
  obtain ⟨new, added, hadded⟩ := exists_cons_of_ne_nil hnew
  rw [concat_eq_append] at hremoved
  have hopcode : opcodeLines a b o =
      marked .remove (removed ++ [old]) ++ marked .add (new :: added) := by
    rw [opcodeLines, ho]
    simp only [hremoved, hadded]
  -- The last hunk, and the hunk it reads as.
  let last := groupHunk a b (g ++ [o])
  have hlines : last.lines = unmerged (linesOf a b g) removed old new added := by
    show linesOf a b (g ++ [o]) = _
    rw [linesOf_concat, hopcode]
    rfl
  let read : Hunk Text := { last with lines := merged (linesOf a b g) removed old new added }
  have hhunks : scriptHunks (os ++ [o]) a b = gs.map (groupHunk a b) ++ [last] := by
    rw [scriptHunks, hgroups, map_append]
    rfl
  have hcounts := scriptHunks_consistent h
  have hne : os ++ [o] ≠ [] := by simp
  have hsub := linesOf_groupedOpcodes (a := a) (b := b) (n := 3) hne
  rw [hgroups, flatMap_append, flatMap_singleton, linesOf_concat, linesOf_concat,
    ← append_assoc, append_sublist_append_right] at hsub
  refine ⟨gs.map (groupHunk a b) ++ [read], ?_, ?_, read, by simp, ?_⟩
  · rw [hhunks, flatMap_append, flatMap_append, flatten_append, flatten_append]
    congr 1
    rw [flatMap_singleton, flatMap_singleton, Hunk.render, Hunk.render, flatten_cons,
      flatten_cons, hlines]
    exact congrArg _ flatten_merged
  · have hold : old ∈ a.getLast? := by
      have hdrop := slice_length a o.i1
      rw [← hi2, hremoved] at hdrop
      have hlast := congrArg List.getLast? hdrop
      rw [List.getLast?_concat, List.getLast?_drop] at hlast
      split_ifs at hlast
      exact hlast.symm
    have hbefore : ∀ l ∈ removed, Terminated l := by
      have hslice : Ended (marked .remove (slice a o.i1 o.i2)).dropLast :=
        ended_dropLast_slice ha hi
      rw [hremoved, marked, map_append, map_singleton, dropLast_concat] at hslice
      exact ended_marked.mp hslice
    have hmem : ∀ l ∈ new :: added, l ∈ b := fun l hl =>
      take_subset _ _ (drop_subset _ _ (hadded ▸ hl))
    have hnewEnded : ∀ l ∈ (new :: added).dropLast, Terminated l := by
      have hslice : Ended (marked .add (slice b o.j1 o.j2)).dropLast := ended_dropLast_slice hb hj
      rw [hadded, marked, ← map_dropLast] at hslice
      exact ended_marked.mp hslice
    have hpre : Ended ((gs.map (groupHunk a b)).flatMap Hunk.lines ++ linesOf a b g) := by
      have hgs : (gs.map (groupHunk a b)).flatMap Hunk.lines = gs.flatMap (linesOf a b) := by
        rw [flatMap_map]
        rfl
      rw [hgs]
      exact fun l hl => h.ended ha hb l (hsub.subset hl)
    have hall := ended_merged hpre hbefore (hopen old hold).2 hnewEnded fun l hl =>
      hb.of_mem (hmem l hl)
    have hread : (gs.map (groupHunk a b) ++ [read]).flatMap Hunk.lines =
        merged ((gs.map (groupHunk a b)).flatMap Hunk.lines ++ linesOf a b g) removed old new
          added := by
      rw [flatMap_append, flatMap_singleton, merged, append_assoc]
      rfl
    rw [← hread] at hall
    refine lined_render ?_ hall.1 hall.2
    have hlinesNe := scriptHunks_lines_ne_nil h
    rw [hhunks, forall_mem_append] at hlinesNe
    exact forall_mem_append.mpr ⟨hlinesNe.1, by simp [read, merged]⟩
  · intro hread
    have hlast := hcounts last (by rw [hhunks]; simp)
    have hcount : (newOf last.lines).length = last.newCount := hlast.2
    have hcount' : (newOf (merged (linesOf a b g) removed old new added)).length = last.newCount :=
      hread.2
    rw [hlines, length_newOf_merged] at hcount
    omega

/-! ## The round trip -/

/-- The last line of a text has no end. -/
def OpenEnd (text : Text) : Prop := ∃ c ∈ text.getLast?, isBreak c = false

/-- The script between two texts ends by replacing lines. -/
def EndsReplacing (matcher : SequenceMatcher) (before after : Text) : Prop :=
  ∃ o ∈ (matcher.opcodes (splitLines before) (splitLines after)).getLast?, o.tag = .replace

/-- The last character of a line says whether it has an end. -/
theorem Terminated.getLast {l : Text} (h : Terminated l) : ∃ c ∈ l.getLast?, isBreak c = true := by
  obtain ⟨body, e, rfl, -, rfl | ⟨c, rfl, hc⟩⟩ := h
  · exact ⟨'\n', by simp, by decide⟩
  · exact ⟨c, by simp, hc⟩

/-- A text ends as its last line does. -/
theorem openEnd_iff {text : Text} : OpenEnd text ↔ ∃ l ∈ (splitLines text).getLast?, Unended l := by
  rcases eq_nil_or_concat (splitLines text) with hnil | ⟨init, last, hlines⟩
  · obtain rfl := splitLines_eq_nil.mp hnil
    simp [OpenEnd]
  rw [concat_eq_append] at hlines
  have hlined := lined_splitLines text
  have htext := flatten_splitLines text
  rw [hlines] at hlined htext
  rw [flatten_append, flatten_singleton] at htext
  have hlast := hlined.of_mem (mem_append_right _ (mem_singleton_self last))
  have hne : last ≠ [] := hlast.elim Terminated.ne_nil And.left
  rw [OpenEnd, ← htext, List.getLast?_append_of_ne_nil _ hne, htext, hlines, List.getLast?_concat]
  constructor
  · rintro ⟨c, hc, hopen⟩
    refine ⟨last, rfl, hlast.resolve_left fun hended => ?_⟩
    obtain ⟨d, hd, hbreak⟩ := Terminated.getLast hended
    obtain rfl := Option.mem_unique hc hd
    simp [hopen] at hbreak
  · rintro ⟨_, hmem, hunended⟩
    obtain rfl := Option.some.inj hmem
    exact ⟨_, List.getLast?_eq_some_getLast hne, hunended.2 _ (getLast_mem hne)⟩

/-- The kinds whose result is a text of their own. -/
def isContent (kind : ChangeOperationKind) : Bool :=
  kind ∈ [.create, .write, .replace, .patch, .rewrite]

theorem operationDiff_content {matcher : SequenceMatcher} {operation : ChangeOperation}
    (hkind : isContent operation.kind = true) {before after : Text} (hne : before ≠ after) :
    (operationDiff matcher operation (some (encode before)) (some (encode after))).flatten =
      fileLine '-' 'a' operation.path.toList ++ (fileLine '+' 'b' operation.path.toList ++
        ((scriptHunks (matcher.opcodes (splitLines before) (splitLines after)) (splitLines before)
          (splitLines after)).flatMap Hunk.render).flatten) := by
  have hgroups := (matcher.isScript (splitLines before) (splitLines after)).grouped (n := 3)
    (by decide) |>.ne_nil (splitLines_injective.ne hne)
  have hdiff : operationDiff matcher operation (some (encode before)) (some (encode after)) =
      unifiedDiff (matcher.opcodes (splitLines before) (splitLines after)) (splitLines before)
        (splitLines after) ('a' :: '/' :: operation.path.toList)
        ('b' :: '/' :: operation.path.toList) := by
    rw [operationDiff]
    cases hk : operation.kind <;> simp [hk, isContent] at hkind ⊢
  obtain ⟨group, groups, hcons⟩ := exists_cons_of_ne_nil hgroups
  rw [hdiff, unifiedDiff, scriptHunks, hcons, flatMap_map]
  simp [fileLine]

/-- **Applying the recorded diff gives the second text back** exactly when the first text has a
line, the path has no character that ends a line, and the script does not end by replacing a line
without an end. -/
theorem patch_inverts_diff_iff (matcher : SequenceMatcher) {operation : ChangeOperation}
    (hkind : isContent operation.kind = true) {before after : Text} (hne : before ≠ after)
    (hpath : '\t' ∉ operation.path.toList ∧ '\n' ∉ operation.path.toList) :
    applyUnifiedPatch (encode before)
        (operationDiff matcher operation (some (encode before)) (some (encode after))).flatten
        operation.path.toList = .ok (encode after) ↔
      before ≠ [] ∧ Plain operation.path.toList ∧
        ¬ (OpenEnd before ∧ EndsReplacing matcher before after) := by
  have hscript := matcher.isScript (splitLines before) (splitLines after)
  have hlined := lined_splitLines before
  have hlined' := lined_splitLines after
  have hlinesNe := splitLines_injective.ne hne
  have hcodes : matcher.opcodes (splitLines before) (splitLines after) ≠ [] := by
    intro hnil
    rw [hnil] at hscript
    obtain ⟨ha, hb⟩ := hscript.covers
    have ha := length_eq_zero_iff.mp ha.symm
    have hb := length_eq_zero_iff.mp hb.symm
    exact hlinesNe (ha.trans hb.symm)
  rw [operationDiff_content hkind hne, applyUnifiedPatch_eq_ok]
  simp only [decode?_encode, Option.some.injEq, patchHunks_eq_some]
  constructor
  · rintro ⟨_, hunks, out, rfl, hnames, ⟨hread, -⟩, hplace, -⟩
    have hplain := plain_of_namesPath hpath.1 hpath.2 hnames
    rw [(namesPath_fileLines hplain hpath.1).2] at hread
    refine ⟨?_, hplain, ?_⟩
    · rintro rfl
      rw [splitLines_flatten (lined_hunks hscript hlined hlined' hcodes (.inl (by simp))),
        readBody_render, if_pos (scriptHunks_consistent hscript)] at hread
      obtain rfl := (Prod.mk.inj (Option.some.inj hread)).2
      have hnone := place_scriptHunks_nil hscript fun h => hlinesNe h.symm
      exact absurd (hplace.symm.trans hnone) (by simp)
    · rintro ⟨hopen, o, ho, htag⟩
      obtain ⟨os, hos⟩ := List.getLast?_eq_some_iff.mp ho
      rw [hos] at hscript hread
      obtain ⟨l, hl, hunended⟩ := openEnd_iff.mp hopen
      obtain ⟨read, hflat, hreadLined, hunk, hmem, hcount⟩ :=
        exists_merged hscript hlined hlined' htag fun l' hl' => Option.mem_unique hl hl' ▸ hunended
      rw [← hflat, splitLines_flatten hreadLined, readBody_render,
        if_neg fun h => hcount (h hunk hmem)] at hread
      cases hread
  · rintro ⟨hbefore, hplain, hreplacing⟩
    obtain ⟨hnames, hlines⟩ := @namesPath_fileLines _ ((scriptHunks
      (matcher.opcodes (splitLines before) (splitLines after)) (splitLines before)
        (splitLines after)).flatMap Hunk.render).flatten hplain hpath.1
    have hended : (∀ l ∈ splitLines before, Terminated l) ∨
        ∀ o ∈ (matcher.opcodes (splitLines before) (splitLines after)).getLast?,
          o.tag ≠ .replace := by
      by_contra hboth
      simp only [not_or, not_forall] at hboth
      obtain ⟨⟨l, hl, hopen⟩, o, ho, htag⟩ := hboth
      refine hreplacing ⟨openEnd_iff.mpr ?_, o, ho, not_not.mp htag⟩
      obtain ⟨init, last, hsplit⟩ := (eq_nil_or_concat _).resolve_left (ne_nil_of_mem hl)
      rw [concat_eq_append] at hsplit
      rw [hsplit] at hl hlined ⊢
      rcases mem_append.mp hl with hl | hl
      · exact absurd (hlined.of_mem_dropLast (by rwa [dropLast_concat])) hopen
      · obtain rfl := mem_singleton.mp hl
        exact ⟨l, by simp, (hlined.of_mem (by simp)).resolve_left hopen⟩
    refine ⟨before, scriptHunks (matcher.opcodes (splitLines before) (splitLines after))
      (splitLines before) (splitLines after), splitLines after, rfl, hnames, ⟨?_, ?_⟩, ?_, ?_⟩
    · rw [hlines, splitLines_flatten (lined_hunks hscript hlined hlined' hcodes hended),
        readBody_render, if_pos (scriptHunks_consistent hscript)]
    · exact scriptHunks_ne_nil hscript hlinesNe
    · exact place_scriptHunks hscript fun h => hbefore (splitLines_eq_nil.mp h)
    · rw [flatten_splitLines]

/-- The script of two texts that share no line. -/
def wholeScript (a b : List Text) : List Opcode :=
  if a = b then
    if a = [] then [] else [⟨.equal, 0, a.length, 0, b.length⟩]
  else if a = [] then [⟨.insert, 0, 0, 0, b.length⟩]
  else if b = [] then [⟨.delete, 0, a.length, 0, 0⟩]
  else [⟨.replace, 0, a.length, 0, b.length⟩]

/-- A matcher that finds no line again, unless the texts are the same. -/
def wholeMatcher : SequenceMatcher where
  opcodes := wholeScript
  isScript := by
    intro a b
    have hpos : ∀ {s : List Text}, s ≠ [] → 0 < s.length := length_pos_iff.mpr
    rw [wholeScript]
    split_ifs with hab ha ha hb
    · subst hab ha
      exact ⟨⟨rfl, rfl⟩, by simp⟩
    · subst hab
      refine ⟨⟨rfl, rfl, ⟨le_rfl, le_rfl, ?_⟩, rfl, rfl⟩, by simp⟩
      exact ⟨hpos ha, hpos ha, rfl⟩
    · subst ha
      exact ⟨⟨rfl, rfl, ⟨le_rfl, le_rfl, rfl, hpos fun h => hab h.symm⟩, rfl, rfl⟩, by simp⟩
    · subst hb
      exact ⟨⟨rfl, rfl, ⟨le_rfl, le_rfl, hpos ha, rfl⟩, rfl, rfl⟩, by simp⟩
    · exact ⟨⟨rfl, rfl, ⟨le_rfl, le_rfl, hpos ha, hpos hb⟩, rfl, rfl⟩, by simp⟩

/-- A write to the path `p`. -/
def writeP : ChangeOperation where
  kind := .write
  path := "p"
  precondition := .digest
  preconditionValue := some "sha256:0"
  inlineContent := some "b\n"

theorem patch_inverts_diff_oneLine :
    applyUnifiedPatch (encode "a\n".toList)
        (operationDiff wholeMatcher writeP (some (encode "a\n".toList))
          (some (encode "b\n".toList))).flatten
        writeP.path.toList = .ok (encode "b\n".toList) ↔
      "a\n".toList ≠ [] ∧ Plain writeP.path.toList ∧
        ¬ (OpenEnd "a\n".toList ∧ EndsReplacing wholeMatcher "a\n".toList "b\n".toList) :=
  patch_inverts_diff_iff wholeMatcher (by decide) (by decide) (by decide)

/-- The diff of an empty text, and of a line without an end, is refused. -/
theorem diff_refused :
    applyUnifiedPatch (encode [])
        (operationDiff wholeMatcher writeP (some (encode [])) (some (encode "b\n".toList))).flatten
        writeP.path.toList ≠ .ok (encode "b\n".toList) ∧
      applyUnifiedPatch (encode "a".toList)
        (operationDiff wholeMatcher writeP (some (encode "a".toList))
          (some (encode "b".toList))).flatten
        writeP.path.toList ≠ .ok (encode "b".toList) := by
  decide +kernel

end Mishkan.Edits
