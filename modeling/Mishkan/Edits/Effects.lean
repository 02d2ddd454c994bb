import Mishkan.Edits.Looks

/-!
# Edits/Effects — what an operation leaves behind, and what was expected of it

With no other writer and no failing call, each effect puts at its path what it is asked for, with
the mode the platform settles on.
-/

namespace Mishkan.Edits

open Procedure Artifacts List Files

variable {files files' : Files} {system : System} {path source destination directory : Parts}
  {name : String} {node : Node} {content : Bytes} {mode : Nat}

/-! ## Paths -/

theorem not_prefix_sibling {a b : String} (hne : a ≠ b) :
    ¬ directory ++ [a] <+: directory ++ [b] := by
  intro h
  have heq := h.eq_of_length (by simp)
  exact hne (by simpa using heq)

theorem temporaryName_ne (calls : Nat) : temporaryName system name calls ≠ name := by
  intro h
  have hlength := congrArg String.length h
  simp only [temporaryName, String.length_append] at hlength
  have hdot : ".".length = 1 := rfl
  omega

/-- Nothing that is not there is above what can be reached. -/
theorem Files.Reaches.not_below (h : files.Reaches path) (hthere : files.at? path ≠ none)
    {above : Parts} (habsent : files.at? above = none) : ¬ above <+: path := by
  intro hfront
  by_cases heq : above = path
  · exact hthere (heq ▸ habsent)
  · obtain ⟨mode, hat⟩ := h above hfront heq
    rw [habsent] at hat
    cases hat

/-- Away from a path, the files are as they were. -/
def Files.Apart (files files' : Files) (path : Parts) : Prop :=
  ∀ other, ¬ path <+: other → files'.at? other = files.at? other

theorem Files.Apart.refl : files.Apart files path := fun _ _ => rfl

theorem Files.Apart.trans {files'' : Files} (h : files.Apart files' path)
    (h' : files'.Apart files'' path) : files.Apart files'' path :=
  fun other hother => (h' other hother).trans (h other hother)

theorem Files.apart_put (hne : path ≠ []) : files.Apart (files.put path node) path := by
  intro other hother
  rw [at?_put hne, if_neg, if_neg hother]
  exact fun h => hother (h ▸ prefix_refl _)

theorem Files.apart_modify (hne : path ≠ []) {f : Node → Node} :
    files.Apart (files.modify path f) path := by
  intro other hother
  rw [at?_modify hne, if_neg]
  exact fun h => hother (h ▸ prefix_refl _)

theorem Files.apart_erase (hne : path ≠ []) : files.Apart (files.erase path) path := by
  intro other hother
  rw [at?_erase hne, if_neg hother]

/-! ## A staged file -/

variable {asked : Nat}

theorem returns_fchmod (hne : path ≠ []) (hat : files.at? path = some (.file content mode)) :
    Returns (fchmod system path asked) files fun _ files' =>
      files'.at? path = some (.file content (system.changed asked)) ∧ files.Apart files' path := by
  refine returns_systemCall fun _ files' h => ?_
  rw [hat] at h
  cases h
  refine ⟨?_, apart_modify hne⟩
  rw [at?_modify hne, if_pos rfl, hat, Option.map_some]

theorem returns_writeSome {before : Bytes} {limit : Nat} (hne : path ≠ [])
    (hat : files.at? path = some (.file before mode)) :
    Returns (writeSome system path content limit) files fun written files' =>
      written = min limit content.length ∧
        files'.at? path = some (.file (before ++ content.take limit) (system.written mode)) ∧
        files.Apart files' path := by
  refine returns_systemCall fun _ files' h => ?_
  rw [hat] at h
  cases h
  refine ⟨rfl, ?_, apart_modify hne⟩
  rw [at?_modify hne, if_pos rfl, hat, Option.map_some]

/-- **However many calls it takes, the whole content is written.** -/
theorem returns_writeAll (hne : path ≠ []) : ∀ (fuel : Nat) (content before : Bytes) (mode : Nat)
    (files : Files), content.length ≤ fuel → files.at? path = some (.file before mode) →
    Returns (writeAll system path fuel content) files fun _ files' =>
      files'.at? path = some (.file (before ++ content)
        (if content = [] then mode else system.written mode)) ∧ files.Apart files' path := by
  intro fuel
  induction fuel with
  | zero =>
    intro content before mode files hfuel hat
    obtain rfl : content = [] := length_eq_zero_iff.1 (Nat.le_zero.1 hfuel)
    refine .pure ⟨?_, .refl⟩
    rw [if_pos rfl, append_nil, hat]
  | succ fuel ih =>
    intro content before mode files hfuel hat
    rw [writeAll]
    by_cases hnil : content = []
    · subst hnil
      rw [if_pos rfl]
      refine .pure ⟨?_, .refl⟩
      rw [if_pos rfl, append_nil, hat]
    · rw [if_neg hnil, if_neg hnil]
      refine .bind (.count fun n => (rfl : files = files)) ?_
      rintro calls _ rfl
      refine .bind (returns_writeSome hne hat) ?_
      rintro written files1 ⟨rfl, hat1, hapart⟩
      have hpos : 0 < content.length := length_pos_iff.2 hnil
      have hprogress := system.progress_pos calls
      have hdrop : content.drop (min (system.progress calls) content.length) =
          content.drop (system.progress calls) := by
        rcases Nat.le_total (system.progress calls) content.length with h | h
        · rw [Nat.min_eq_left h]
        · rw [Nat.min_eq_right h, drop_length, drop_eq_nil_of_le h]
      rw [if_neg (by omega), hdrop]
      have hshort : (content.drop (system.progress calls)).length ≤ fuel := by
        rw [length_drop]
        omega
      refine (ih _ _ _ files1 hshort hat1).mono ?_
      rintro _ files2 ⟨hat2, hapart'⟩
      refine ⟨?_, hapart.trans hapart'⟩
      rw [hat2, append_assoc, take_append_drop, System.written_written, ite_self]

theorem returns_fill (hne : path ≠ []) (hat : files.at? path = some (.file [] mode)) :
    Returns (fill system path (some asked) content) files fun _ files' =>
      files'.at? path = some (.file content (system.settled asked content)) ∧
        files.Apart files' path := by
  refine .bind (returns_fchmod hne hat) ?_
  rintro _ files1 ⟨hat1, hapart⟩
  refine .bind (returns_writeAll hne _ content [] _ files1 le_rfl hat1) ?_
  rintro _ files2 ⟨hat2, hapart'⟩
  refine looks_unseen.mono ?_
  rintro _ _ ⟨-, rfl⟩
  exact ⟨by rw [hat2, nil_append, System.settled], hapart.trans hapart'⟩

theorem returns_unlinkIfPresent (hne : path ≠ []) :
    Returns (unlinkIfPresent path) files fun _ files' => files.Apart files' path := by
  refine returns_systemCall fun _ files' h => ?_
  split at h <;> cases h
  · exact apart_erase hne
  · exact .refl

theorem returns_discard (hne : path ≠ []) :
    Returns (discard path) files fun _ files' => files.Apart files' path :=
  looks_unseen.bind (returns_unlinkIfPresent hne)

theorem returns_replaceFile (hne : destination ≠ []) :
    Returns (replaceFile source destination) files fun _ files' =>
      files'.at? destination = files.at? source := by
  refine returns_systemCall fun _ files' h => ?_
  split at h
  · cases h
  · cases h
  · next hsource _ =>
    cases h
    rw [at?_put_self hne, hsource]

theorem returns_stageOver (hne : source ≠ []) (hne' : destination ≠ [])
    (hat : files.at? source = some (.file [] mode)) :
    Returns (stageOver system source destination content (some asked)) files fun _ files' =>
      files'.at? destination = some (.file content (system.settled asked content)) := by
  refine .bind (returns_fill hne hat) ?_
  rintro _ files1 ⟨hat1, -⟩
  refine .bind (returns_replaceFile hne') ?_
  rintro _ files2 hat2
  refine looks_unseen.mono ?_
  rintro _ _ ⟨-, rfl⟩
  rw [hat2, hat1]

/-- **An atomic write puts the content at its path, with the mode the platform settles on.** -/
theorem returns_atomicWrite (hpath : Proper path) :
    Returns (atomicWrite system path content (some asked) (some (.path (files.token system path))))
      files fun _ files' =>
        files'.at? path = some (.file content (system.settled asked content)) := by
  refine returns_withParent hpath ?_
  rintro directory name rfl -
  refine Looks.bind (a := ()) (looks_stateTokenAt.bind (looks_ensure rfl)) ?_
  refine .bind (.count fun n => (rfl : files = files)) ?_
  rintro calls _ rfl
  have hne : directory ++ [temporaryName system name calls] ≠ [] := by simp
  refine .bind returns_makeAt ?_
  rintro _ _ ⟨-, rfl⟩
  refine (returns_stageOver hne hpath.1 (at?_put_self hne)).finally_ ?_
  rintro _ files2 hat
  refine (returns_discard hne).mono ?_
  rintro _ files3 hapart
  rw [hapart _ (not_prefix_sibling (temporaryName_ne calls)), hat]

/-! ## Moves and copies -/

theorem returns_link (hat : files.at? source = some (.file content mode))
    (hne : destination ≠ []) : Returns (link source destination) files fun _ files' =>
      files.at? destination = none ∧ files'.at? destination = some (.file content mode) ∧
        files.Apart files' destination := by
  refine returns_systemCall fun _ files' h => ?_
  rcases hparent : files.at? destination.dropLast with _ | ⟨_, _⟩ | m | _ | _
  all_goals
    rcases hdestination : files.at? destination with _ | other
    all_goals
      rw [hat, hparent, hdestination] at h
      cases h
  exact ⟨rfl, at?_put_self hne, apart_put hne⟩

theorem returns_unlink (hne : path ≠ []) : Returns (unlink path) files fun _ files' =>
    files'.at? path = none ∧ files.Apart files' path := by
  refine returns_systemCall fun _ files' h => ?_
  split at h
  · cases h
  · cases h
    refine ⟨?_, apart_erase hne⟩
    rw [at?_erase hne, if_pos (prefix_refl _)]
  · cases h

theorem Files.Reaches.above (h : files.Reaches path) {above : Parts} (hfront : above <+: path) :
    files.Reaches above := by
  intro other hother hne
  refine h other (hother.trans hfront) ?_
  rintro rfl
  exact hne (hother.eq_of_length_le hfront.length_le)

/-- A file that is there is not above anything that can be reached. -/
theorem Files.Reaches.not_below_file (h : files.Reaches path) (hne : source ≠ path)
    (hat : files.at? source = some (.file content mode)) : ¬ source <+: path := by
  intro hfront
  obtain ⟨m, hdirectory⟩ := h source hfront hne
  rw [hat] at hdirectory
  cases hdirectory

/-- Everything else that could be reached is as it was. -/
def Files.KeepsReached (files files' : Files) (source : Option Parts) : Prop :=
  ∀ other, files.Reaches other → files.at? other ≠ none → source ≠ some other →
    files'.at? other = files.at? other

/-- **A move takes a file away from one path and puts it at another.** -/
theorem returns_relink (hsource : source ≠ []) (hdestination : destination ≠ [])
    (hat : files.at? source = some (.file content mode)) (hreaches : files.Reaches destination) :
    Returns (relink source destination) files fun _ files' =>
      files'.at? source = none ∧ files'.at? destination = some (.file content mode) ∧
        files.KeepsReached files' (some source) := by
  refine .bind (returns_link hat hdestination) ?_
  rintro _ files1 ⟨habsent, hat1, hapart1⟩
  refine looks_unseen.bind (.bind (returns_unlink hsource) ?_)
  rintro _ files2 ⟨hgone, hapart2⟩
  refine looks_unseen.mono ?_
  rintro _ _ ⟨-, rfl⟩
  refine ⟨hgone, ?_, fun other hother hthere hne => ?_⟩
  · have hne : source ≠ destination := by
      rintro rfl
      rw [hat] at habsent
      cases habsent
    rw [hapart2 _ (hreaches.not_below_file hne hat), hat1]
  · have hne' : source ≠ other := fun h => hne (congrArg some h)
    rw [hapart2 _ (hother.not_below_file hne' hat), hapart1 _ (hother.not_below hthere habsent)]

theorem returns_stageAt (hne : source ≠ []) (hne' : destination ≠ [])
    (hat : files.at? source = some (.file [] mode)) (hsibling : ¬ source <+: destination) :
    Returns (stageAt system source destination content asked) files fun _ files' =>
      files.at? destination = none ∧
        files'.at? destination = some (.file content (system.settled asked content)) ∧
        ∀ other, ¬ source <+: other → ¬ destination <+: other →
          files'.at? other = files.at? other := by
  refine .bind (returns_fill hne hat) ?_
  rintro _ files1 ⟨hat1, hapart⟩
  refine .bind (returns_link hat1 hne') ?_
  rintro _ files2 ⟨habsent, hat2, hapart'⟩
  refine looks_unseen.mono ?_
  rintro _ _ ⟨-, rfl⟩
  refine ⟨?_, hat2, fun other hother hother' => ?_⟩
  · rwa [hapart _ hsibling] at habsent
  · rw [hapart' _ hother', hapart _ hother]

/-- **A copy is made where nothing was, and changes nothing that could be reached before.** -/
theorem returns_createFileAt (habsent : files.at? (directory ++ [name]) = none) :
    Returns (createFileAt system directory name content asked) files fun _ files' =>
      files'.at? (directory ++ [name]) = some (.file content (system.settled asked content)) ∧
        files.KeepsReached files' none := by
  refine .bind (.count fun n => (rfl : files = files)) ?_
  rintro calls _ rfl
  have hne : directory ++ [temporaryName system name calls] ≠ [] := by simp
  have hsibling : ¬ directory ++ [temporaryName system name calls] <+: directory ++ [name] :=
    not_prefix_sibling (temporaryName_ne calls)
  refine .bind returns_makeAt ?_
  rintro _ _ ⟨hfresh, rfl⟩
  refine (returns_stageAt hne (by simp) (at?_put_self hne) hsibling).finally_ ?_
  rintro _ files2 ⟨-, hat, hother⟩
  refine (returns_discard hne).mono ?_
  rintro _ files3 hapart
  refine ⟨by rw [hapart _ hsibling, hat], fun other hreaches hthere _ => ?_⟩
  have hnot := hreaches.not_below hthere hfresh
  rw [hapart _ hnot, hother _ hnot (hreaches.not_below hthere habsent), apart_put hne _ hnot]

section

variable {operation : ChangeOperation} {text : String}

theorem Files.linkFree_of (parts : Parts) : ∀ current, (∀ below, below <+: parts → below ≠ [] →
    files.at? (current ++ below) ≠ some .symlink) → files.linkFree current parts = true := by
  induction parts with
  | nil => exact fun _ _ => rfl
  | cons part parts ih =>
    intro current hplain
    rw [linkFree, Bool.and_eq_true]
    constructor
    · have hne := hplain [part] (cons_prefix_cons.2 ⟨rfl, nil_prefix⟩)
        (cons_ne_nil _ _)
      split
      · next h => exact absurd h hne
      · rfl
    · refine ih _ fun below hbelow hne => ?_
      rw [append_assoc]
      exact hplain (part :: below) (cons_prefix_cons.2 ⟨rfl, hbelow⟩) (cons_ne_nil _ _)

/-- A path stays safe when a file is put there. -/
theorem Files.safe_after (hsafe : files.safe text = true) (hreaches : files.Reaches (partsOf text))
    (hat : files.at? source = some (.file content mode))
    (hkeeps : files.KeepsReached files' (some source)) {content' : Bytes} {mode' : Nat}
    (hat' : files'.at? (partsOf text) = some (.file content' mode')) : files'.safe text = true := by
  rw [safe, Bool.and_eq_true] at hsafe ⊢
  refine ⟨hsafe.1, linkFree_of _ _ fun above habove _ => ?_⟩
  rw [nil_append]
  by_cases heq : above = partsOf text
  · rw [heq, hat']
    exact fun h => by cases h
  · obtain ⟨m, hdirectory⟩ := hreaches above habove heq
    rw [hkeeps above (hreaches.above habove) (by rw [hdirectory]; exact fun h => by cases h),
      hdirectory]
    · exact fun h => by cases h
    · intro h
      rw [Option.some.inj h, hdirectory] at hat
      cases hat

end

/-! ## Directories and deletions -/

theorem Files.names_modify {f : Node → Node} : (files.modify path f).names = files.names := by
  funext other
  rw [names, names, modify, filterMap_map]
  rfl

/-- A path where an empty directory with a mode stands. -/
def Files.EmptyDirectory (files : Files) (path : Parts) (mode : Nat) : Prop :=
  files.at? path = some (.directory mode) ∧ files.names path = []

theorem returns_chmodDirectory (hne : path ≠ []) (hempty : files.EmptyDirectory path mode) :
    Returns (chmodDirectory system path asked) files fun _ files' =>
      files'.EmptyDirectory path (system.changed asked) := by
  have hchmod : Returns (fchmod system path asked) files fun _ files' =>
      files'.EmptyDirectory path (system.changed asked) := by
    refine returns_systemCall fun _ files' h => ?_
    rw [hempty.1] at h
    cases h
    refine ⟨?_, by rw [names_modify, hempty.2]⟩
    rw [at?_modify hne, if_pos rfl, hempty.1, Option.map_some]
  refine .bind returns_openDirectory ?_
  rintro _ _ ⟨rfl, -⟩
  refine returns_closed (hchmod.bind fun _ files' hQ => looks_unseen.mono ?_)
  rintro _ _ ⟨-, rfl⟩
  exact hQ

/-- **A directory is made empty, with the mode the platform settles on.** -/
theorem returns_mkdirAt (hpath : Proper path) :
    Returns (mkdirAt system path (.path (files.token system path)) (some asked)) files
      fun _ files' => files'.EmptyDirectory path (system.settled asked []) := by
  refine returns_withParent hpath ?_
  rintro directory name rfl -
  refine looks_stateTokenAt.bind ((looks_ensure rfl).bind (.bind returns_makeAt ?_))
  rintro _ _ ⟨-, rfl⟩
  refine .bind (returns_chmodDirectory hpath.1 ⟨at?_put_self hpath.1, names_put⟩) ?_
  rintro _ files2 hQ
  refine looks_unseen.mono ?_
  rintro _ _ ⟨-, rfl⟩
  exact hQ

theorem returns_remove (hne : path ≠ []) {isDirectory : Bool} :
    Returns (remove path isDirectory) files fun _ files' => files'.at? path = none := by
  rw [remove]
  split
  · refine returns_systemCall fun _ files' h => ?_
    split at h
    · split at h <;> cases h
      rw [at?_erase hne, if_pos (prefix_refl _)]
    · cases h
    · cases h
  · exact (returns_unlink hne).mono fun _ _ h => h.1

/-- **After a deletion nothing is left.** -/
theorem returns_deleteAt (hpath : Proper path) :
    Returns (deleteAt system path (.path (files.token system path))) files
      fun _ files' => files'.at? path = none := by
  refine returns_withParent hpath ?_
  rintro directory name rfl -
  refine looks_stateTokenAt.bind ((looks_ensure rfl).bind (.bind (returns_remove hpath.1) ?_))
  rintro _ files1 hgone
  refine looks_unseen.mono ?_
  rintro _ _ ⟨-, rfl⟩
  exact hgone

end Mishkan.Edits
