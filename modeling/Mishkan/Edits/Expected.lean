import Mishkan.Edits.Effects

/-!
# Edits/Expected — the token an operation is expected to leave, and the one it leaves

`effect_as_expected_iff` says for which operations and workspaces the token seen after the effect is
the one that was expected before it.  A copy that asks for mode 0 leaves another one, a move or a
copy is refused where its destination stands or its source is no file, and a set-id bit the platform
takes away is missed.
-/

namespace Mishkan.Edits

open Procedure Artifacts Files

variable {files : Files} {system : System} {operation : ChangeOperation} {path : Parts}
  {text : String} {content : Bytes} {mode : Nat} {after : Option Bytes}

/-- What `apply` does with an operation whose checks hold: it reads the path, notes the token that
is expected and the one before the effect, applies the operation, and looks at the token then. -/
def foresee (system : System) (operation : ChangeOperation) (after : Option Bytes) :
    FileAction (OperationToken × OperationToken) := do
  let path ← safePath operation.path
  let _ ← readFile system path
  let expected ← expectedStateToken system operation path after
  let before ← operationToken system operation path
  applyOperation system operation path after before
  let actual ← operationToken system operation path
  pure (expected, actual)

/-- The mode an operation gives its path: the one it asks for, or the one that is there. -/
def Files.modeFor (files : Files) (system : System) (operation : ChangeOperation) (path : Parts) :
    Option Nat :=
  operation.resultMode <|> (files.token system path).mode?

/-- The kinds that put a content at their path. -/
def writesContent (kind : ChangeOperationKind) : Bool :=
  kind ∈ [.create, .write, .replace, .patch, .rewrite]

/-! ## The kinds with one path -/

theorem expectedStateToken_content (hkind : writesContent operation.kind = true) :
    expectedStateToken system operation path (some content) =
      resultMode system operation path >>= fun mode =>
        (pure (.path (.file mode (system.digest content))) : FileAction OperationToken) := by
  rw [expectedStateToken]
  cases hk : operation.kind <;> first
    | rfl
    | (rw [hk] at hkind; exact absurd hkind (by decide))

theorem looks_pathToken (hkind : ChangeOperation.isTransfer operation.kind = false)
    (hpath : Proper path) :
    Looks (operationToken system operation path) files (.path (files.token system path)) := by
  have hlooks := @looks_operationToken files system path operation "" hpath
    fun h => absurd h (by rw [hkind]; exact Bool.noConfusion)
  rwa [Files.operationToken, hkind, if_neg Bool.noConfusion] at hlooks

theorem isTransfer_of_writesContent (hkind : writesContent operation.kind = true) :
    ChangeOperation.isTransfer operation.kind = false := by
  cases hk : operation.kind <;> first
    | rfl
    | (rw [hk] at hkind; exact absurd hkind (by decide))

theorem returns_apply_content (hkind : writesContent operation.kind = true)
    (hpath : Proper path) (hmode : files.modeFor system operation path = some mode) :
    Returns (applyOperation system operation path (some content)
      (.path (files.token system path))) files fun _ files' =>
        files'.at? path = some (.file content (system.settled mode content)) := by
  have hwrite : Returns (resultMode system operation path >>= fun mode =>
      atomicWrite system path content (some mode) (some (.path (files.token system path)))) files
      fun _ files' => files'.at? path = some (.file content (system.settled mode content)) :=
    (looks_resultMode hpath hmode).bind (returns_atomicWrite hpath)
  rw [applyOperation]
  cases hk : operation.kind <;> first
    | exact hwrite
    | (rw [hk] at hkind; exact absurd hkind (by decide))

/-- With one path, the token is what was expected and what the effect leaves. -/
theorem returns_foresee_single (hsingle : ChangeOperation.isTransfer operation.kind = false)
    (hsafe : files.safe operation.path = true) (hread : files.Readable (partsOf operation.path))
    {expected actual : StateToken}
    (hexpected : Looks (expectedStateToken system operation (partsOf operation.path) after) files
      (.path expected))
    (heffect : Returns (applyOperation system operation (partsOf operation.path) after
      (.path (files.token system (partsOf operation.path)))) files fun _ files' =>
        files'.token system (partsOf operation.path) = actual) :
    Returns (foresee system operation after) files fun tokens _ =>
      tokens = (.path expected, .path actual) := by
  have hpath := proper_of_safe hsafe
  refine (looks_safePath hsafe).bind ((looks_readFile hpath hread).bind (hexpected.bind
    ((looks_pathToken hsingle hpath).bind (.bind heffect ?_))))
  rintro _ files1 rfl
  refine (looks_pathToken hsingle hpath).bind (looks_pure.mono ?_)
  rintro _ _ ⟨rfl, -⟩
  rfl

theorem returns_foresee_content (hkind : writesContent operation.kind = true)
    (hsafe : files.safe operation.path = true) (hread : files.Readable (partsOf operation.path))
    (hmode : files.modeFor system operation (partsOf operation.path) = some mode) :
    Returns (foresee system operation (some content)) files fun tokens _ =>
      tokens = (.path (.file mode (system.digest content)),
        .path (.file (system.settled mode content) (system.digest content))) := by
  have hpath := proper_of_safe hsafe
  refine returns_foresee_single (isTransfer_of_writesContent hkind) hsafe hread ?_
    ((returns_apply_content hkind hpath hmode).mono fun _ files' hat => ?_)
  · rw [expectedStateToken_content hkind]
    exact (looks_resultMode hpath hmode).bind looks_pure
  · rw [Files.token, hat]

/-- What cannot be read is not changed. -/
theorem refuses_foresee_unread (hsafe : files.safe operation.path = true)
    (hread : ¬ files.Readable (partsOf operation.path)) :
    Refuses (foresee system operation after) files :=
  (looks_safePath hsafe).refuses (refuses_readFile (proper_of_safe hsafe) hread).bind

theorem refuses_foresee_content (hkind : writesContent operation.kind = true)
    (hsafe : files.safe operation.path = true) (hread : files.Readable (partsOf operation.path))
    (hmode : files.modeFor system operation (partsOf operation.path) = none) :
    Refuses (foresee system operation (some content)) files :=
  (looks_safePath hsafe).refuses ((looks_readFile (proper_of_safe hsafe) hread).refuses (by
    rw [expectedStateToken_content hkind]
    exact (refuses_resultMode (proper_of_safe hsafe) hmode).bind.bind))

theorem returns_foresee_delete (hkind : operation.kind = .delete)
    (hsafe : files.safe operation.path = true) (hread : files.Readable (partsOf operation.path)) :
    Returns (foresee system operation after) files fun tokens _ =>
      tokens = (.path .absent, .path .absent) := by
  refine returns_foresee_single (by rw [hkind]; rfl) hsafe hread ?_ ?_
  · simp only [expectedStateToken, hkind]
    exact looks_pure
  · simp only [applyOperation, hkind]
    refine (returns_deleteAt (proper_of_safe hsafe)).mono fun _ files' hat => ?_
    rw [Files.token, hat]

theorem returns_foresee_mkdir (hkind : operation.kind = .mkdir)
    (hsafe : files.safe operation.path = true) (hread : files.Readable (partsOf operation.path))
    (hmode : operation.resultMode = some mode) :
    Returns (foresee system operation after) files fun tokens _ =>
      tokens = (.path (.directory mode []), .path (.directory (system.settled mode []) [])) := by
  have hpath := proper_of_safe hsafe
  refine returns_foresee_single (by rw [hkind]; rfl) hsafe hread ?_ ?_
  · simp only [expectedStateToken, hkind]
    exact (looks_resultMode hpath (by rw [hmode]; rfl)).bind looks_pure
  · simp only [applyOperation, hkind, hmode]
    refine (returns_mkdirAt hpath).mono fun _ files' hat => ?_
    rw [Files.token, hat.1, hat.2]
    rfl

/-- Without a mode to give, no directory is made: the path has one only if something is there. -/
theorem refuses_foresee_mkdir (hkind : operation.kind = .mkdir)
    (hsafe : files.safe operation.path = true) (hread : files.Readable (partsOf operation.path))
    (hmode : operation.resultMode = none) : Refuses (foresee system operation after) files := by
  have hpath := proper_of_safe hsafe
  refine (looks_safePath hsafe).refuses ((looks_readFile hpath hread).refuses ?_)
  rcases hfor : files.modeFor system operation (partsOf operation.path) with _ | mode
  · refine Refuses.bind ?_
    simp only [expectedStateToken, hkind]
    exact (refuses_resultMode hpath hfor).bind
  · have hthere : files.at? (partsOf operation.path) ≠ none := by
      intro habsent
      rw [Files.modeFor, hmode, Files.token, habsent] at hfor
      cases hfor
    have hexpected : Looks (expectedStateToken system operation (partsOf operation.path) after)
        files (.path (.directory mode [])) := by
      simp only [expectedStateToken, hkind]
      exact (looks_resultMode hpath hfor).bind looks_pure
    have hsingle : ChangeOperation.isTransfer operation.kind = false := by rw [hkind]; rfl
    refine hexpected.refuses ((looks_pathToken hsingle hpath).refuses (Refuses.bind ?_))
    simp only [applyOperation, hkind]
    refine refuses_withParent hpath ?_
    rintro directory name hname -
    refine looks_stateTokenAt.refuses (Refuses.bind_right (looks_ensure (by rw [hname])) ?_)
    rintro _ _ ⟨-, rfl⟩
    refine .bind_right returns_makeAt ?_
    rintro _ _ ⟨habsent, -⟩
    exact absurd (hname ▸ habsent) hthere

/-! ## Moves and copies -/

section

variable {source target destination : Parts} {sourceName targetName : String}

/-- The token between two paths. -/
def Files.between (files : Files) (system : System) (path destination : Parts) : OperationToken :=
  .transfer (files.token system path) (files.token system destination) destination

theorem looks_betweenToken (hkind : ChangeOperation.isTransfer operation.kind = true)
    (hpath : Proper path) (hdestination : operation.destination = some text)
    (hsafe : files.safe text = true) : Looks (operationToken system operation path) files
      (files.between system path (partsOf text)) := by
  have hlooks := @looks_operationToken files system path operation text hpath
    fun _ => ⟨hdestination, hsafe⟩
  rwa [Files.operationToken, if_pos hkind] at hlooks

theorem looks_moveCopyTokenAt : Looks (moveCopyTokenAt system source sourceName target targetName
    destination) files (.transfer (files.token system (source ++ [sourceName]))
      (files.token system (target ++ [targetName])) destination) :=
  looks_stateTokenAt.bind (looks_stateTokenAt.bind looks_pure)

theorem Files.token_eq_absent : files.token system path = .absent ↔ files.at? path = none := by
  rw [Files.token]
  split <;> simp_all

/-- A transfer does its effect where the source is a file and the destination is not there. -/
theorem returns_transferAt {Q : Unit → Files → Prop}
    (habsent : files.at? (target ++ [targetName]) = none)
    (hat : files.at? (source ++ [sourceName]) = some (.file content mode))
    (heffect : Returns (if operation.kind = .move then
        relink (source ++ [sourceName]) (target ++ [targetName])
      else createFileAt system target targetName content (modeOr mode operation.resultMode))
        files Q) :
    Returns (transferAt system operation (.transfer (files.token system (source ++ [sourceName]))
      (files.token system (target ++ [targetName])) destination) destination source sourceName
      target targetName) files Q := by
  refine looks_moveCopyTokenAt.bind ((looks_ensure rfl).bind (looks_stateTokenAt.bind ?_))
  refine (looks_ensure (token_eq_absent.2 habsent)).bind ?_
  exact (looks_readRegularAt hat).bind heffect

/-- **A transfer is refused where the destination is there or the source is no file.** -/
theorem refuses_transferAt (h : files.at? (target ++ [targetName]) = none →
      ∀ content mode, files.at? (source ++ [sourceName]) ≠ some (.file content mode)) :
    Refuses (transferAt system operation (.transfer (files.token system (source ++ [sourceName]))
      (files.token system (target ++ [targetName])) destination) destination source sourceName
      target targetName) files := by
  refine looks_moveCopyTokenAt.refuses ((looks_ensure rfl).refuses (looks_stateTokenAt.refuses ?_))
  by_cases habsent : files.at? (target ++ [targetName]) = none
  · refine (looks_ensure (token_eq_absent.2 habsent)).refuses ?_
    exact (refuses_readRegularAt (h habsent)).bind
  · exact (refuses_ensure fun heq => habsent (token_eq_absent.1 heq)).bind

theorem returns_moveOrCopyAt {Q : Unit → Files → Prop} (hpath : Proper path)
    (hdestination : operation.destination = some text) (hsafe : files.safe text = true)
    (habsent : files.at? (partsOf text) = none) (hat : files.at? path = some (.file content mode))
    (heffect : files.Reaches path → files.Reaches (partsOf text) → ∀ directory name,
      partsOf text = directory ++ [name] → Returns (if operation.kind = .move then
        relink path (partsOf text)
      else createFileAt system directory name content (modeOr mode operation.resultMode)) files Q) :
    Returns (moveOrCopyAt system operation path (files.between system path (partsOf text)))
      files Q := by
  rw [moveOrCopyAt, hdestination]
  refine (looks_safePath hsafe).bind (returns_withParent hpath ?_)
  rintro source sourceName rfl hreaches
  refine returns_withParent (proper_of_safe hsafe)
    fun target targetName htarget hreaches' => ?_
  have hdone := heffect hreaches hreaches' target targetName htarget
  rw [htarget] at habsent hdone ⊢
  exact returns_transferAt habsent hat hdone

theorem refuses_moveOrCopyAt (hpath : Proper path)
    (hdestination : operation.destination = some text) (hsafe : files.safe text = true)
    (h : files.at? (partsOf text) = none →
      ∀ content mode, files.at? path ≠ some (.file content mode)) :
    Refuses (moveOrCopyAt system operation path (files.between system path (partsOf text)))
      files := by
  rw [moveOrCopyAt, hdestination]
  refine (looks_safePath hsafe).refuses (refuses_withParent hpath ?_)
  rintro source sourceName rfl -
  refine refuses_withParent (proper_of_safe hsafe) fun target targetName htarget _ => ?_
  rw [htarget] at h ⊢
  exact refuses_transferAt h

/-- The token a move or a copy is expected to leave. -/
def Files.expectedBetween (files : Files) (system : System) (operation : ChangeOperation)
    (path destination : Parts) : OperationToken :=
  .transfer (if operation.kind = .move then .absent else files.token system path)
    (match operation.kind, operation.resultMode with
      | .copy, some mode => (files.token system path).setMode mode
      | _, _ => files.token system path) destination

theorem looks_expected_transfer (hkind : ChangeOperation.isTransfer operation.kind = true)
    (hpath : Proper path) (hdestination : operation.destination = some text)
    (hsafe : files.safe text = true) : Looks (expectedStateToken system operation path after) files
      (files.expectedBetween system operation path (partsOf text)) := by
  have hlooks : Looks (safePath text >>= fun destination => stateToken system path >>= fun source =>
      (pure (.transfer (if operation.kind = .move then .absent else source)
        (match operation.kind, operation.resultMode with
        | .copy, some mode => source.setMode mode
        | _, _ => source) destination) : FileAction OperationToken)) files
      (files.expectedBetween system operation path (partsOf text)) :=
    (looks_safePath hsafe).bind ((looks_stateToken hpath).bind looks_pure)
  cases hk : operation.kind <;> first
    | (rw [hk] at hkind; exact absurd hkind (by decide))
    | (simp only [expectedStateToken, hk, hdestination] at hlooks ⊢; exact hlooks)

theorem applyOperation_transfer (hkind : ChangeOperation.isTransfer operation.kind = true)
    {before : OperationToken} : applyOperation system operation path after before =
      moveOrCopyAt system operation path before := by
  cases hk : operation.kind <;> first
    | (rw [hk] at hkind; exact absurd hkind (by decide))
    | simp only [applyOperation, hk]

/-- **A refused transfer is no transfer as expected.** -/
theorem refuses_foresee_transfer (hkind : ChangeOperation.isTransfer operation.kind = true)
    (hsafe : files.safe operation.path = true) (hread : files.Readable (partsOf operation.path))
    (hdestination : operation.destination = some text) (hsafe' : files.safe text = true)
    (h : files.at? (partsOf text) = none →
      ∀ content mode, files.at? (partsOf operation.path) ≠ some (.file content mode)) :
    Refuses (foresee system operation after) files := by
  have hpath := proper_of_safe hsafe
  refine (looks_safePath hsafe).refuses ((looks_readFile hpath hread).refuses
    ((looks_expected_transfer hkind hpath hdestination hsafe').refuses
      ((looks_betweenToken hkind hpath hdestination hsafe').refuses (Refuses.bind ?_))))
  rw [applyOperation_transfer hkind]
  exact refuses_moveOrCopyAt hpath hdestination hsafe' h

theorem returns_foresee_transfer (hkind : ChangeOperation.isTransfer operation.kind = true)
    (hsafe : files.safe operation.path = true) (hdestination : operation.destination = some text)
    (hsafe' : files.safe text = true) (habsent : files.at? (partsOf text) = none)
    (hat : files.at? (partsOf operation.path) = some (.file content mode))
    (left : Option Node) (given : Nat)
    (heffect : files.Reaches (partsOf operation.path) → files.Reaches (partsOf text) →
      ∀ directory name, partsOf text = directory ++ [name] → Returns (if operation.kind = .move then
        relink (partsOf operation.path) (partsOf text)
      else createFileAt system directory name content (modeOr mode operation.resultMode))
        files fun _ files' => files'.at? (partsOf operation.path) = left ∧
          files'.at? (partsOf text) = some (.file content given) ∧
          files.KeepsReached files' (some (partsOf operation.path))) :
    Returns (foresee system operation after) files fun tokens _ =>
      tokens.1 = files.expectedBetween system operation (partsOf operation.path) (partsOf text) ∧
      ∃ files' : Files, files'.at? (partsOf operation.path) = left ∧
        files'.at? (partsOf text) = some (.file content given) ∧
        tokens.2 = files'.between system (partsOf operation.path) (partsOf text) := by
  have hpath := proper_of_safe hsafe
  have hread : files.Readable (partsOf operation.path) := ⟨by simp [hat], by simp [hat]⟩
  refine (looks_safePath hsafe).bind ((looks_readFile hpath hread).bind
    ((looks_expected_transfer hkind hpath hdestination hsafe').bind
      ((looks_betweenToken hkind hpath hdestination hsafe').bind (.bind
        (Q := fun _ files' => files'.at? (partsOf operation.path) = left ∧
          files'.at? (partsOf text) = some (.file content given) ∧ files'.safe text = true)
        ?_ ?_))))
  · rw [applyOperation_transfer hkind]
    refine returns_moveOrCopyAt hpath hdestination hsafe' habsent hat
      fun hsource hreaches directory name hname => ?_
    refine (heffect hsource hreaches directory name hname).mono ?_
    rintro _ files' ⟨hleft, hgiven, hkeeps⟩
    exact ⟨hleft, hgiven, safe_after hsafe' hreaches hat hkeeps hgiven⟩
  · rintro _ files' ⟨hleft, hgiven, hsafe''⟩
    refine (looks_betweenToken hkind hpath hdestination hsafe'').bind (looks_pure.mono ?_)
    rintro _ _ ⟨rfl, -⟩
    exact ⟨rfl, files', hleft, hgiven, rfl⟩

theorem returns_foresee_move (hkind : operation.kind = .move)
    (hsafe : files.safe operation.path = true) (hdestination : operation.destination = some text)
    (hsafe' : files.safe text = true) (habsent : files.at? (partsOf text) = none)
    (hat : files.at? (partsOf operation.path) = some (.file content mode)) :
    Returns (foresee system operation after) files fun tokens _ => tokens.1 = tokens.2 := by
  have htransfer : ChangeOperation.isTransfer operation.kind = true := by rw [hkind]; rfl
  refine (returns_foresee_transfer htransfer hsafe hdestination hsafe' habsent hat none mode
    fun _ hreaches directory name _ => ?_).mono ?_
  · rw [if_pos hkind]
    exact returns_relink (proper_of_safe hsafe).1 (proper_of_safe hsafe').1 hat hreaches
  · rintro ⟨expected, actual⟩ _ ⟨rfl, files', hleft, hgiven, rfl⟩
    rw [Files.expectedBetween, Files.between, if_pos hkind, hkind, Files.token, hat,
      Files.token, hleft, Files.token, hgiven]

/-- **A copy leaves the mode the platform settles on for the mode it asks for, and that is the
source's where it asks for none or for 0.** -/
theorem returns_foresee_copy (hkind : operation.kind = .copy)
    (hsafe : files.safe operation.path = true) (hdestination : operation.destination = some text)
    (hsafe' : files.safe text = true) (habsent : files.at? (partsOf text) = none)
    (hat : files.at? (partsOf operation.path) = some (.file content mode)) :
    Returns (foresee system operation after) files fun tokens _ => tokens.1 = tokens.2 ↔
      system.settled (modeOr mode operation.resultMode) content =
        operation.resultMode.getD mode := by
  have htransfer : ChangeOperation.isTransfer operation.kind = true := by rw [hkind]; rfl
  refine (returns_foresee_transfer htransfer hsafe hdestination hsafe' habsent hat
    (some (.file content mode)) (system.settled (modeOr mode operation.resultMode) content)
    fun hreaches _ directory name hname => ?_).mono ?_
  · rw [if_neg (by rw [hkind]; exact ChangeOperationKind.noConfusion)]
    rw [hname] at habsent ⊢
    refine (returns_createFileAt habsent).mono ?_
    rintro _ files' ⟨hgiven, hkeeps⟩
    have hthere : files.at? (partsOf operation.path) ≠ none := by
      rw [hat]
      exact Option.some_ne_none _
    refine ⟨?_, hgiven, fun other hother hthere' _ => hkeeps other hother hthere' (by simp)⟩
    rw [hkeeps _ hreaches hthere (by simp), hat]
  · rintro ⟨expected, actual⟩ _ ⟨rfl, files', hleft, hgiven, rfl⟩
    have hexpected : files.expectedBetween system operation (partsOf operation.path)
        (partsOf text) = .transfer (.file mode (system.digest content))
          (.file (operation.resultMode.getD mode) (system.digest content)) (partsOf text) := by
      rw [Files.expectedBetween, hkind, Files.token, hat]
      cases operation.resultMode <;> rfl
    rw [hexpected, Files.between, Files.token, hleft, Files.token, hgiven]
    simp only [OperationToken.transfer.injEq, StateToken.file.injEq, and_true, true_and]
    exact eq_comm

end

/-! ## As expected -/

/-- Left alone, a program returns, and no call of it fails. -/
def Quietly {α : Type} (x : FileAction α) (m : Machine Files Unit) (a : α) : Prop :=
  (x.run calm m).1 = .ok a ∧ (x.run calm m).2.failed = m.failed

instance {α : Type} [DecidableEq α] (x : FileAction α) (m : Machine Files Unit) (a : α) :
    Decidable (Quietly x m a) := inferInstanceAs (Decidable (_ ∧ _))

/-- The preconditions of an operation hold: its checks return. -/
structure PreconditionsHold (system : System) (operation : ChangeOperation)
    (m : Machine Files Unit) (path : Parts) : Prop where
  safePath : Quietly (safePath operation.path) m path
  source : Quietly (checkPrecondition system operation path) m ()
  destination : Quietly (checkDestinationPrecondition system operation) m ()

/-- The token seen after the effect of an operation is the one expected before it. -/
def AsExpected (system : System) (operation : ChangeOperation) (after : Option Bytes)
    (m : Machine Files Unit) : Prop :=
  ∃ token, ((foresee system operation after).run calm m).1 = .ok (token, token)

/-- What an operation needs to leave what is expected of it. -/
def KeepsPromise (system : System) (operation : ChangeOperation) (files : Files)
    (after : Option Bytes) : Prop :=
  files.Readable (partsOf operation.path) ∧ match operation.kind with
  | .delete => True
  | .mkdir => ∃ mode, operation.resultMode = some mode ∧ system.settled mode [] = mode
  | .move => ∃ content mode, files.at? (partsOf operation.path) = some (.file content mode) ∧
      files.at? (partsOf (operation.destination.getD "")) = none
  | .copy => ∃ content mode, files.at? (partsOf operation.path) = some (.file content mode) ∧
      files.at? (partsOf (operation.destination.getD "")) = none ∧
      system.settled (modeOr mode operation.resultMode) content =
        operation.resultMode.getD mode
  | _ => ∃ mode, files.modeFor system operation (partsOf operation.path) = some mode ∧
      system.settled mode (after.getD []) = mode

variable {m : Machine Files Unit} {α : Type} {x : FileAction α} {a : α}

theorem Quietly.not_refuses (h : Quietly x m a) : ¬ Refuses x m.state := by
  intro hrefuses
  obtain ⟨e, hr⟩ := hrefuses.run h.2
  rw [h.1] at hr
  cases hr

theorem PreconditionsHold.safe (h : PreconditionsHold system operation m path) :
    m.state.safe operation.path = true := by
  by_contra hlinked
  exact h.safePath.not_refuses (refuses_safePath (Bool.eq_false_iff.2 hlinked))

theorem ChangeOperation.Accepted.transfer (h : operation.Accepted)
    (hkind : ChangeOperation.isTransfer operation.kind = true) :
    (∃ text, operation.destination = some text) ∧
      ∃ precondition, operation.destinationPrecondition = some precondition := by
  have hfields := h.2
  simp only [ChangeOperation.fieldsMatchOperation, Refusal.bind_eq_ok, Refusal.refuseIf_eq_ok,
    exists_const] at hfields
  obtain ⟨-, -, -, -, -, -, -, -, hdestination, hprecondition, -⟩ := hfields
  rw [not_and] at hdestination hprecondition
  exact ⟨Option.ne_none_iff_exists'.1 (hdestination hkind),
    Option.ne_none_iff_exists'.1 (hprecondition hkind)⟩

theorem PreconditionsHold.safe_destination (h : PreconditionsHold system operation m path)
    {precondition : PreconditionKind} (hdestination : operation.destination = some text)
    (hprecondition : operation.destinationPrecondition = some precondition) :
    m.state.safe text = true := by
  by_contra hlinked
  refine h.destination.not_refuses ?_
  rw [checkDestinationPrecondition, hdestination, hprecondition]
  exact (refuses_safePath (Bool.eq_false_iff.2 hlinked)).bind

theorem asExpected_iff_of_returns {condition : Prop}
    (h : Returns (foresee system operation after) m.state fun tokens _ =>
      tokens.1 = tokens.2 ↔ condition)
    (hquiet : ((foresee system operation after).run calm m).2.failed = m.failed) :
    AsExpected system operation after m ↔ condition := by
  obtain ⟨⟨expected, actual⟩, hr, hiff⟩ := h.run hquiet
  rw [← hiff, AsExpected, hr]
  constructor
  · rintro ⟨token, htoken⟩
    cases htoken
    rfl
  · rintro ⟨⟩
    exact ⟨expected, rfl⟩

theorem not_asExpected_of_refuses (h : Refuses (foresee system operation after) m.state)
    (hquiet : ((foresee system operation after).run calm m).2.failed = m.failed) :
    ¬ AsExpected system operation after m := by
  obtain ⟨e, hr⟩ := h.run hquiet
  rintro ⟨token, htoken⟩
  rw [hr] at htoken
  cases htoken

theorem content_as_expected_iff (hkind : writesContent operation.kind = true)
    (hsafe : m.state.safe operation.path = true) (hread : m.state.Readable (partsOf operation.path))
    (hquiet : ((foresee system operation (some content)).run calm m).2.failed = m.failed) :
    AsExpected system operation (some content) m ↔
      ∃ mode, m.state.modeFor system operation (partsOf operation.path) = some mode ∧
        system.settled mode content = mode := by
  rcases hmode : m.state.modeFor system operation (partsOf operation.path) with _ | mode
  · refine iff_of_false (not_asExpected_of_refuses
      (refuses_foresee_content hkind hsafe hread hmode) hquiet) ?_
    rintro ⟨_, h, -⟩
    cases h
  · refine asExpected_iff_of_returns
      ((returns_foresee_content hkind hsafe hread hmode).mono ?_) hquiet
    rintro _ _ rfl
    simp [eq_comm]

/-- **When an operation leaves the token that was expected of it**: its path is not special, a move
or a copy has a file as its source and nothing at its destination, the others but a deletion have a
mode to give, and the mode that is settled on is the one expected, where a copy that asks for mode 0
gives the mode of its source. -/
theorem effect_as_expected_iff (operation : ChangeOperation) (haccepted : operation.Accepted)
    (m : Machine Files Unit) (path : Parts) (hholds : PreconditionsHold system operation m path)
    (after : Option Bytes) (hafter : writesContent operation.kind = true → after.isSome = true)
    (hquiet : ((foresee system operation after).run calm m).2.failed = m.failed) :
    AsExpected system operation after m ↔ KeepsPromise system operation m.state after := by
  have hsafe := hholds.safe
  by_cases hread : m.state.Readable (partsOf operation.path)
  swap
  · exact iff_of_false (not_asExpected_of_refuses (refuses_foresee_unread hsafe hread) hquiet)
      fun h => hread h.1
  have hcontent : writesContent operation.kind = true →
      (AsExpected system operation after m ↔
        ∃ mode, m.state.modeFor system operation (partsOf operation.path) = some mode ∧
          system.settled mode (after.getD []) = mode) := by
    intro hkind
    obtain ⟨content, rfl⟩ := Option.isSome_iff_exists.1 (hafter hkind)
    exact content_as_expected_iff hkind hsafe hread hquiet
  have htransfer : ChangeOperation.isTransfer operation.kind = true →
      ∃ text, operation.destination = some text ∧ m.state.safe text = true := by
    intro hkind
    obtain ⟨⟨text, htext⟩, precondition, hprecondition⟩ := haccepted.transfer hkind
    exact ⟨text, htext, hholds.safe_destination htext hprecondition⟩
  rw [KeepsPromise, and_iff_right hread]
  cases hkind : operation.kind with
  | delete =>
    refine asExpected_iff_of_returns ((returns_foresee_delete hkind hsafe hread).mono ?_) hquiet
    rintro _ _ rfl
    exact iff_of_true rfl trivial
  | mkdir =>
    rcases hmode : operation.resultMode with _ | mode
    · refine iff_of_false (not_asExpected_of_refuses
        (refuses_foresee_mkdir hkind hsafe hread hmode) hquiet) ?_
      rintro ⟨_, h, -⟩
      cases h
    · refine asExpected_iff_of_returns
        ((returns_foresee_mkdir hkind hsafe hread hmode).mono ?_) hquiet
      rintro _ _ rfl
      simp [eq_comm]
  | move =>
    obtain ⟨text, htext, hsafe'⟩ := htransfer (by rw [hkind]; rfl)
    rw [htext]
    by_cases hready : ∃ content mode, m.state.at? (partsOf operation.path) =
        some (.file content mode) ∧ m.state.at? (partsOf text) = none
    · obtain ⟨content, mode, hat, habsent⟩ := hready
      refine asExpected_iff_of_returns
        ((returns_foresee_move hkind hsafe htext hsafe' habsent hat).mono ?_) hquiet
      exact fun _ _ h => iff_of_true h ⟨content, mode, hat, habsent⟩
    · refine iff_of_false (not_asExpected_of_refuses (refuses_foresee_transfer
        (by rw [hkind]; rfl) hsafe hread htext hsafe' ?_) hquiet) hready
      exact fun habsent content mode hat => hready ⟨content, mode, hat, habsent⟩
  | copy =>
    obtain ⟨text, htext, hsafe'⟩ := htransfer (by rw [hkind]; rfl)
    rw [htext]
    by_cases hready : ∃ content mode, m.state.at? (partsOf operation.path) =
        some (.file content mode) ∧ m.state.at? (partsOf text) = none
    · obtain ⟨content, mode, hat, habsent⟩ := hready
      refine asExpected_iff_of_returns
        ((returns_foresee_copy hkind hsafe htext hsafe' habsent hat).mono ?_) hquiet
      intro _ _ hiff
      refine hiff.trans ⟨fun h => ⟨content, mode, hat, habsent, h⟩, ?_⟩
      rintro ⟨_, _, hat', -, h⟩
      rw [hat] at hat'
      cases hat'
      exact h
    · refine iff_of_false (not_asExpected_of_refuses (refuses_foresee_transfer
        (by rw [hkind]; rfl) hsafe hread htext hsafe' ?_) hquiet) ?_
      · exact fun habsent content mode hat => hready ⟨content, mode, hat, habsent⟩
      · rintro ⟨content, mode, hat, habsent, -⟩
        exact hready ⟨content, mode, hat, habsent⟩
  | create | write | replace | patch | rewrite => exact hcontent (by rw [hkind]; rfl)

/-! ## A copy on a platform that takes no bit away -/

/-- Contents are their own digests, and no Git is there. -/
def plainSystem : System where
  umask := 0o022
  ofGroup := true
  privileged := true
  progress _ := 4096
  progress_pos _ := by decide
  sha256 content := String.ofList (content.map fun byte => Char.ofNat byte.toNat)
  token calls := toString calls
  revision := .error (.other "CalledProcessError")
  gitObject _ := .error (.other "CalledProcessError")

/-- A workspace with one file. -/
def oneFile : Machine Files Unit where
  state := ⟨[(["a"], .file [104, 105] 0o644)]⟩
  own := ()

/-- A copy of the file that asks for a mode. -/
def copyWithMode (mode : Nat) : ChangeOperation where
  kind := .copy
  path := "a"
  destination := some "b"
  precondition := .digest
  preconditionValue := some "sha256:hi"
  destinationPrecondition := some .absent
  resultMode := some mode

/-- Mode 0o600 is kept as it is asked for. -/
theorem copy_as_expected : AsExpected plainSystem (copyWithMode 0o600) none oneFile :=
  (effect_as_expected_iff (copyWithMode 0o600) (by decide +kernel) oneFile ["a"]
    ⟨by decide +kernel, by decide +kernel, by decide +kernel⟩ none (fun h => absurd h (by decide))
    (by decide +kernel)).2 ⟨⟨by decide +kernel, by decide +kernel⟩, [104, 105], 0o644,
      by decide +kernel, by decide +kernel, by decide +kernel⟩

/-- **A copy that asks for mode 0 leaves the mode of its source.** -/
theorem copy_mode_zero_missed : (copyWithMode 0).Accepted ∧
    PreconditionsHold plainSystem (copyWithMode 0) oneFile ["a"] ∧
    ((foresee plainSystem (copyWithMode 0) none).run calm oneFile).2.failed = oneFile.failed ∧
    ¬ AsExpected plainSystem (copyWithMode 0) none oneFile := by
  refine ⟨by decide +kernel, ⟨by decide +kernel, by decide +kernel, by decide +kernel⟩,
    by decide +kernel, ?_⟩
  have hrun : ((foresee plainSystem (copyWithMode 0) none).run calm oneFile).1 =
      .ok (.transfer (.file 0o644 "sha256:hi") (.file 0 "sha256:hi") ["b"],
        .transfer (.file 0o644 "sha256:hi") (.file 0o644 "sha256:hi") ["b"]) := by
    decide +kernel
  rintro ⟨token, htoken⟩
  rw [hrun] at htoken
  cases htoken

end Mishkan.Edits
