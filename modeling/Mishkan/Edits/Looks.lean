import Mishkan.Edits.Files

/-!
# Edits/Looks — what the service sees of files nobody else touches

With no other writer and no failing call, every look at a path gives `Files.token`, the pure reading
of what stands there, and leaves the files as they are (`Looks`).
-/

namespace Mishkan.Edits

open Procedure Artifacts List Files

variable {α β : Type} {files files' : Files} {system : System} {path directory : Parts}
  {name : String} {node : Node} {a : α}

/-! ## System calls -/

variable {Q : α → Files → Prop}

theorem returns_systemCall {f : Files → Except Failure (α × Files)}
    (h : ∀ a files', f files = .ok (a, files') → Q a files') : Returns (systemCall f) files Q := by
  refine .call fun a files' _ hf => h a files' ?_
  rcases hres : f files with e | ⟨b, files''⟩
  · rw [hres] at hf
    cases hf
  · rw [hres] at hf
    cases hf
    rfl

/-- A program that only looks: what it returns, with the files as they were. -/
def Looks (x : FileAction α) (files : Files) (a : α) : Prop :=
  Returns x files fun r files' => r = a ∧ files' = files

variable {x : FileAction α}

theorem Looks.bind {f : α → FileAction β} {Q : β → Files → Prop}
    (h : Looks x files a) (hf : Returns (f a) files Q) : Returns (x >>= f) files Q := by
  refine Returns.bind h ?_
  rintro _ _ ⟨rfl, rfl⟩
  exact hf

theorem Looks.refuses {f : α → FileAction β} (h : Looks x files a)
    (hf : Refuses (f a) files) : Refuses (x >>= f) files := by
  refine .bind_right h ?_
  rintro _ _ ⟨rfl, rfl⟩
  exact hf

theorem looks_pure : Looks (pure a) files a := .pure ⟨rfl, rfl⟩

theorem looks_unseen : Looks unseen files () := by
  refine returns_systemCall fun _ files' h => ?_
  cases h
  exact ⟨rfl, rfl⟩

/-- Whatever a program does before, closing shows in nothing. -/
theorem returns_closed (h : Returns x files Q) : Returns (x.finally_ unseen) files Q := by
  refine h.finally_ fun a files' hQ => looks_unseen.mono ?_
  rintro _ _ ⟨-, rfl⟩
  exact hQ

theorem refuses_closed (h : Refuses x files) : Refuses (x.finally_ unseen) files :=
  h.finally_ fun _ => looks_unseen.mono fun _ _ _ => trivial

theorem looks_statAt : Looks (statAt path) files (files.at? path) := by
  refine returns_systemCall fun _ files' h => ?_
  cases h
  exact ⟨rfl, rfl⟩

theorem looks_fstat : Looks (fstat path) files (files.at? path) := by
  refine returns_systemCall fun _ files' h => ?_
  cases h
  exact ⟨rfl, rfl⟩

theorem looks_listdir : Looks (listdir path) files (files.names path) := by
  refine returns_systemCall fun _ files' h => ?_
  cases h
  exact ⟨rfl, rfl⟩

theorem returns_openDirectory : Returns (openDirectory path) files fun _ files' =>
    files' = files ∧ ∃ mode, files.at? path = some (.directory mode) := by
  refine returns_systemCall fun _ files' h => ?_
  split at h
  · next mode hat =>
    cases h
    exact ⟨rfl, mode, hat⟩
  · cases h
  · cases h

theorem looks_openFile : Looks (openFile path) files () := by
  refine returns_systemCall fun _ files' h => ?_
  split at h <;> cases h
  exact ⟨rfl, rfl⟩

theorem looks_readStream {content : Bytes} {mode : Nat}
    (hat : files.at? path = some (.file content mode)) : Looks (readStream path) files content := by
  refine returns_systemCall fun _ files' h => ?_
  rw [hat] at h
  cases h
  exact ⟨rfl, rfl⟩

/-- What a path is made at: nothing, and what is made stands there. -/
theorem returns_makeAt : Returns (makeAt path node) files fun _ files' =>
    files.at? path = none ∧ files' = files.put path node := by
  refine returns_systemCall fun _ files' h => ?_
  split at h
  · next hat =>
    cases h
    exact ⟨hat, rfl⟩
  · cases h
  · cases h

/-! ## Conditions -/

theorem looks_ensure {condition : Prop} [Decidable condition] {failure : Failure}
    (h : condition) : Looks (ensure condition failure) files () := by
  rw [ensure, if_pos h]
  exact looks_pure

theorem refuses_ensure {condition : Prop} [Decidable condition] {failure : Failure}
    (h : ¬ condition) : Refuses (ensure condition failure) files := by
  rw [ensure, if_neg h]
  exact .raise _

/-! ## The directory of a path -/

/-- A path below the workspace, with no part that is no name. -/
def Proper (path : Parts) : Prop := path ≠ [] ∧ ∀ part ∈ path, part ∉ ["", ".", ".."]

/-- Everything above a path is a directory. -/
def Files.Reaches (files : Files) (path : Parts) : Prop :=
  ∀ above, above <+: path → above ≠ path → ∃ mode, files.at? above = some (.directory mode)

/-- What is opened below a directory is a directory, part by part. -/
theorem returns_openBelow (parts : Parts) : ∀ directory, Returns (openBelow directory parts) files
    fun _ files' => files' = files ∧ ∀ below, below <+: parts → below ≠ [] →
      ∃ mode, files.at? (directory ++ below) = some (.directory mode) := by
  induction parts with
  | nil =>
    intro directory
    refine .pure ⟨rfl, fun below hbelow hne => ?_⟩
    exact absurd (prefix_nil.1 hbelow) hne
  | cons part parts ih =>
    intro directory
    refine .bind returns_openDirectory ?_
    rintro _ _ ⟨rfl, hdirectory⟩
    refine looks_unseen.bind ((ih (directory ++ [part])).mono ?_)
    rintro _ _ ⟨rfl, hbelow⟩
    refine ⟨rfl, fun below hfront hne => ?_⟩
    obtain ⟨first, rest, rfl⟩ := exists_cons_of_ne_nil hne
    obtain ⟨rfl, hrest⟩ := cons_prefix_cons.1 hfront
    by_cases hnil : rest = []
    · rw [hnil]
      exact hdirectory
    · obtain ⟨mode, hat⟩ := hbelow rest hrest hnil
      refine ⟨mode, ?_⟩
      rwa [append_assoc] at hat

/-- A path whose parents open is reached. -/
theorem returns_openParents (path : Parts) : Returns (openBelow [] path.dropLast) files
    fun _ files' => files' = files ∧ files.Reaches path := by
  refine (returns_openBelow path.dropLast []).mono ?_
  rintro _ _ ⟨rfl, hbelow⟩
  refine ⟨rfl, fun above hfront hne => ?_⟩
  by_cases hnil : above = []
  · exact ⟨0o755, by rw [hnil, at?, if_pos rfl]⟩
  · refine hbelow above ?_ hnil
    obtain ⟨rest, hrest⟩ := hfront
    have hrest' : rest ≠ [] := by
      rintro rfl
      exact hne (by rw [← hrest, append_nil])
    rw [← hrest, dropLast_append_of_ne_nil hrest']
    exact prefix_append _ _

variable {body : Parts → String → FileAction α}

theorem withParent_eq
    (hpath : Proper (directory ++ [name])) : withParent (directory ++ [name]) body =
      openDirectory [] >>= fun _ =>
        ((openBelow [] (directory ++ [name]).dropLast >>= fun _ => body directory name).handle
          unopened).finally_ unseen := by
  have hname : name ∉ ["", ".", ".."] := hpath.2 name (by simp)
  rw [withParent]
  simp only [List.getLast?_concat, dropLast_concat, if_neg hname]

/-- **In the directory of a path a program sees every part above it as a directory.** -/
theorem returns_withParent (hpath : Proper path) (h : ∀ directory name, path = directory ++ [name] →
      files.Reaches path → Returns (body directory name) files Q) :
    Returns (withParent path body) files Q := by
  obtain ⟨directory, name, rfl⟩ : ∃ directory name, path = directory ++ [name] :=
    ⟨path.dropLast, path.getLast hpath.1, (dropLast_append_getLast hpath.1).symm⟩
  rw [withParent_eq hpath]
  refine .bind returns_openDirectory ?_
  rintro _ _ ⟨rfl, -⟩
  refine returns_closed (.handle (.bind (returns_openParents _) ?_))
  rintro _ _ ⟨rfl, hreaches⟩
  exact h directory name rfl hreaches

theorem refuses_withParent (hpath : Proper path)
    (h : ∀ directory name, path = directory ++ [name] → files.Reaches path →
      Refuses (body directory name) files) : Refuses (withParent path body) files := by
  obtain ⟨directory, name, rfl⟩ : ∃ directory name, path = directory ++ [name] :=
    ⟨path.dropLast, path.getLast hpath.1, (dropLast_append_getLast hpath.1).symm⟩
  rw [withParent_eq hpath]
  refine .bind_right returns_openDirectory ?_
  rintro _ _ ⟨rfl, -⟩
  refine refuses_closed (.handle (.bind_right (returns_openParents _) ?_) ?_)
  · rintro _ _ ⟨rfl, hreaches⟩
    exact h directory name rfl hreaches
  · intro e y hy s'
    rcases e with _ | _ | _
    · cases hy
    · obtain rfl := Option.some.inj hy
      exact .raise _
    · cases hy

/-! ## Tokens -/

/-- What stands at a path, as a token. -/
def Files.token (files : Files) (system : System) (path : Parts) : StateToken :=
  match files.at? path with
  | none => .absent
  | some .symlink => .symlink
  | some .special => .special
  | some (.directory mode) => .directory mode ((files.names path).take 1001)
  | some (.file content mode) => .file mode (system.digest content)

theorem looks_readRegularAt {content : Bytes} {mode : Nat}
    (hat : files.at? (directory ++ [name]) = some (.file content mode)) :
    Looks (readRegularAt directory name) files (content, mode) := by
  refine looks_openFile.bind (returns_closed (looks_fstat.bind ?_))
  rw [hat]
  refine looks_unseen.bind ((looks_readStream hat).bind (looks_fstat.bind ?_))
  refine (looks_ensure ?_).bind looks_pure
  rw [hat]
  rfl

/-- **Only a file is read.** -/
theorem refuses_readRegularAt (hat : ∀ content mode,
      files.at? (directory ++ [name]) ≠ some (.file content mode)) :
    Refuses (readRegularAt directory name) files := by
  refine looks_openFile.refuses (refuses_closed (looks_fstat.refuses ?_))
  split
  · next heq => exact absurd heq (hat _ _)
  · exact .raise _

/-- The token read is that of what stands there. -/
theorem looks_stateTokenAt : Looks (stateTokenAt system directory name) files
    (files.token system (directory ++ [name])) := by
  refine looks_statAt.bind ?_
  rw [Files.token]
  rcases hat : files.at? (directory ++ [name]) with _ | ⟨content, mode⟩ | mode | _ | _
  · exact looks_pure
  · refine (looks_readRegularAt hat).bind ?_
    exact (looks_ensure rfl).bind looks_pure
  · refine .bind returns_openDirectory ?_
    rintro _ _ ⟨rfl, -⟩
    exact Looks.bind (returns_closed looks_listdir) looks_pure
  · exact looks_pure
  · exact looks_pure

theorem looks_stateToken (hpath : Proper path) :
    Looks (stateToken system path) files (files.token system path) := by
  refine returns_withParent hpath ?_
  rintro directory name rfl -
  exact looks_stateTokenAt

/-- What the service reads at a path: a file, or nothing where there is none. -/
def Files.content? (files : Files) (path : Parts) : Option Bytes :=
  (files.at? path).bind Node.content?

/-- Whether the service reads what stands at a path. -/
def Files.Readable (files : Files) (path : Parts) : Prop :=
  files.at? path ≠ some .special ∧ files.at? path ≠ some .symlink

/-- What is readable is read. -/
theorem looks_readFile (hpath : Proper path) (hreadable : files.Readable path) :
    Looks (readFile system path) files (files.content? path) := by
  refine returns_withParent hpath ?_
  rintro directory name rfl -
  refine looks_stateTokenAt.bind ?_
  rw [Files.token, Files.content?]
  rcases hat : files.at? (directory ++ [name]) with _ | ⟨content, mode⟩ | mode | _ | _
  · exact looks_pure
  · exact (looks_readRegularAt hat).bind looks_pure
  · exact looks_pure
  · exact absurd hat hreadable.2
  · exact absurd hat hreadable.1

/-- What is not readable is refused. -/
theorem refuses_readFile (hpath : Proper path) (hreadable : ¬ files.Readable path) :
    Refuses (readFile system path) files := by
  refine refuses_withParent hpath ?_
  rintro directory name rfl -
  refine looks_stateTokenAt.refuses ?_
  rw [Files.token]
  rcases hat : files.at? (directory ++ [name]) with _ | ⟨content, mode⟩ | mode | _ | _
  · exact absurd ⟨by simp [hat], by simp [hat]⟩ hreadable
  · exact absurd ⟨by simp [hat], by simp [hat]⟩ hreadable
  · exact absurd ⟨by simp [hat], by simp [hat]⟩ hreadable
  · exact (refuses_readRegularAt (by simp [hat])).bind
  · exact (refuses_readRegularAt (by simp [hat])).bind

/-! ## Safe paths -/

/-- Whether no part on the way to a path is a link. -/
def Files.linkFree (files : Files) (current : Parts) : Parts → Bool
  | [] => true
  | part :: parts =>
    (match files.at? current, files.at? (current ++ [part]) with
      | some (.directory _), some .symlink => false
      | _, _ => true) && files.linkFree (current ++ [part]) parts

/-- Whether a text names a path below the workspace that no link is on. -/
def Files.safe (files : Files) (relative : String) : Bool :=
  !escapes relative && files.linkFree [] (partsOf relative)

theorem returns_lstat {part : String} : Returns (lstat (path ++ [part])) files fun found files' =>
    files' = files ∧ (found = some .symlink ↔ (match files.at? path, files.at? (path ++ [part]) with
      | some (.directory _), some .symlink => false
      | _, _ => true) = false) := by
  refine returns_systemCall fun _ files' h => ?_
  rw [dropLast_concat] at h
  split at h
  · next mode hdirectory =>
    cases h
    refine ⟨rfl, ?_⟩
    rw [hdirectory]
    rcases files.at? (path ++ [part]) with _ | ⟨_, _⟩ | _ | _ | _ <;> simp
  · cases h
  · next hnone =>
    cases h
    simp [hnone]

variable {relative : String}

theorem returns_refuseLinks (parts : Parts) : ∀ current,
    files.linkFree current parts = true → Looks (refuseLinks relative current parts) files () := by
  induction parts with
  | nil => exact fun _ _ => looks_pure
  | cons part parts ih =>
    intro current hfree
    rw [linkFree, Bool.and_eq_true] at hfree
    refine Returns.bind returns_lstat ?_
    rintro found _ ⟨rfl, hfound⟩
    rw [if_neg]
    · exact ih _ hfree.2
    · rw [hfound, hfree.1]
      exact Bool.noConfusion

theorem refuses_refuseLinks (parts : Parts) : ∀ current,
    files.linkFree current parts = false → Refuses (refuseLinks relative current parts) files := by
  induction parts with
  | nil => exact fun _ h => absurd h Bool.noConfusion
  | cons part parts ih =>
    intro current hlinked
    rw [linkFree, Bool.and_eq_false_iff] at hlinked
    refine .bind_right returns_lstat ?_
    rintro found _ ⟨rfl, hfound⟩
    by_cases hlink : found = some .symlink
    · rw [if_pos hlink]
      exact .raise _
    · rw [if_neg hlink]
      rcases hlinked with hlinked | hlinked
      · exact absurd (hfound.2 hlinked) hlink
      · exact ih _ hlinked

theorem looks_safePath (hsafe : files.safe relative = true) :
    Looks (safePath relative) files (partsOf relative) := by
  rw [safe, Bool.and_eq_true, Bool.not_eq_true'] at hsafe
  rw [safePath, hsafe.1, if_neg Bool.noConfusion]
  exact (returns_refuseLinks _ _ hsafe.2).bind looks_pure

theorem refuses_safePath (hlinked : files.safe relative = false) :
    Refuses (safePath relative) files := by
  rw [safe, Bool.and_eq_false_iff] at hlinked
  rw [safePath]
  split
  · exact .raise _
  · next hform =>
    rcases hlinked with hlinked | hlinked
    · exact absurd (by rwa [Bool.not_eq_false'] at hlinked) hform
    · exact (refuses_refuseLinks _ _ hlinked).bind

theorem Files.proper_of_safe (hsafe : files.safe relative = true) : Proper (partsOf relative) := by
  rw [safe, Bool.and_eq_true, Bool.not_eq_true'] at hsafe
  have hform := hsafe.1
  simp only [escapes, Bool.or_eq_false_iff, decide_eq_false_iff_not] at hform
  refine ⟨hform.1.2, fun part hpart hbad => ?_⟩
  have hkept : part ∉ ["", "."] := of_decide_eq_true (mem_filter.1 hpart).2
  rcases mem_cons.1 hbad with rfl | hbad
  · exact hkept (by simp)
  · rcases mem_cons.1 hbad with rfl | hbad
    · exact hkept (by simp)
    · exact hform.2 (mem_singleton.1 hbad ▸ hpart)

/-! ## Tokens of operations -/

section

variable {operation : ChangeOperation} {content : Option Bytes}

/-- The token of an operation between two paths. -/
def Files.operationToken (files : Files) (system : System) (operation : ChangeOperation)
    (path destination : Parts) : OperationToken :=
  if ChangeOperation.isTransfer operation.kind then
    .transfer (files.token system path) (files.token system destination) destination
  else .path (files.token system path)

theorem looks_operationToken {text : String} (hpath : Proper path)
    (hdestination : ChangeOperation.isTransfer operation.kind →
      operation.destination = some text ∧ files.safe text = true) :
    Looks (operationToken system operation path) files
      (files.operationToken system operation path (partsOf text)) := by
  rw [operationToken, Files.operationToken]
  split
  · next hkind =>
    obtain ⟨htext, hsafe⟩ := hdestination hkind
    rw [htext]
    refine (looks_safePath hsafe).bind ((looks_stateToken hpath).bind ?_)
    exact (looks_stateToken (Files.proper_of_safe hsafe)).bind looks_pure
  · exact (looks_stateToken hpath).bind looks_pure

theorem looks_resultMode {mode : Nat} (hpath : Proper path)
    (hmode : (operation.resultMode <|> (files.token system path).mode?) = some mode) :
    Looks (resultMode system operation path) files mode := by
  rw [resultMode]
  rcases hres : operation.resultMode with _ | m
  · rw [hres] at hmode
    refine (looks_stateToken hpath).bind ?_
    rw [show (files.token system path).mode? = some mode from hmode]
    exact looks_pure
  · rw [hres] at hmode
    obtain rfl : m = mode := Option.some.inj hmode
    exact looks_pure

theorem refuses_resultMode (hpath : Proper path)
    (hmode : (operation.resultMode <|> (files.token system path).mode?) = none) :
    Refuses (resultMode system operation path) files := by
  rw [resultMode]
  rcases hres : operation.resultMode with _ | m
  · rw [hres] at hmode
    refine (looks_stateToken hpath).refuses ?_
    rw [show (files.token system path).mode? = none from hmode]
    exact .raise _
  · rw [hres] at hmode
    cases hmode

end

end Mishkan.Edits
