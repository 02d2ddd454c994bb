import Mishkan.Edits.Workspace

/-!
# Edits/Files — what the change-set service does to files, call by call

A `StateToken` says what stands at a path, as much as two looks at it are compared by.  Every look
and every effect opens the directory of its path part by part, without following links
(`withParent`); an operating-system error below it becomes a refusal.  A file that was looked at is
known again by its content.
-/

namespace Mishkan.Edits

open Procedure Artifacts

/-- What stands at a path. -/
inductive StateToken where
  | absent | symlink | special
  | file (mode : Nat) (digest : String)
  | directory (mode : Nat) (entries : List String)
  /-- Another kind with a mode: what a copy expects of its destination when its source is no
  file. -/
  | decorated (kind : String) (mode : Nat)
deriving DecidableEq

/-- What an operation is recognised by: its path, or both of them. -/
inductive OperationToken where
  | path (token : StateToken)
  | transfer (source destination : StateToken) (destinationPath : Parts)
deriving DecidableEq

namespace StateToken

/-- The mode a token has. -/
def mode? : StateToken → Option Nat
  | .file mode _ => some mode
  | .directory mode _ => some mode
  | .decorated _ mode => some mode
  | _ => none

def isDirectory : StateToken → Bool
  | .directory _ _ => true
  | _ => false

/-- The token with another mode. -/
def setMode (token : StateToken) (mode : Nat) : StateToken :=
  match token with
  | .file _ digest => .file mode digest
  | .directory _ entries => .directory mode entries
  | .absent => .decorated "absent" mode
  | .symlink => .decorated "symlink" mode
  | .special => .decorated "unknown" mode
  | .decorated kind _ => .decorated kind mode

/-- What a precondition or a validation sees of a token. -/
def observed : StateToken → String
  | .absent => "absent"
  | .symlink => "symlink"
  | .directory _ _ => "directory"
  | .file _ digest => digest
  | _ => "special"

end StateToken

/-- Go on only if a condition holds. -/
def ensure (condition : Prop) [Decidable condition] (failure : Failure) : FileAction Unit :=
  if condition then pure () else raise failure

/-! ## Directories -/

/-- Open the parts below a directory, each before the one above is closed. -/
def openBelow (directory : Parts) : Parts → FileAction Unit
  | [] => pure ()
  | part :: parts => do
    openDirectory (directory ++ [part])
    unseen
    openBelow (directory ++ [part]) parts

/-- An operating-system error becomes a refusal. -/
def unopened {α : Type} : Failure → Option (FileAction α)
  | .os _ => some (raise (refusal .authorityNotGranted
      "change parent could not be opened without following links"))
  | _ => none

/-- `_parent_descriptor`: work in the directory of a path. -/
def withParent {α : Type} (relative : Parts) (body : Parts → String → FileAction α) :
    FileAction α :=
  match relative.getLast? with
  | none => raise (refusal .authorityNotGranted "change path is invalid")
  | some name =>
    if name ∈ ["", ".", ".."] then
      raise (refusal .authorityNotGranted "change path is invalid")
    else do
      openDirectory []
      (((openBelow [] relative.dropLast >>= fun _ => body relative.dropLast name).handle
        unopened).finally_ unseen)

/-! ## Looking at files -/

/-- Read a file that is open: nothing else may have been read of it meanwhile. -/
def readOpened (path : Parts) : FileAction (Bytes × Nat) := do
  match ← fstat path with
  | some (.file content mode) =>
    unseen
    let text ← readStream path
    let observed ← fstat path
    ensure (observed.bind Node.content? = some content)
      (refusal .revisionMismatch "change source changed while being read")
    pure (text, mode)
  | _ => raise (refusal .outputContract "move and copy require a regular-file source")

/-- `_read_regular_at` -/
def readRegularAt (directory : Parts) (name : String) : FileAction (Bytes × Nat) := do
  openFile (directory ++ [name])
  (readOpened (directory ++ [name])).finally_ unseen

/-- `_state_token_at` -/
def stateTokenAt (system : System) (directory : Parts) (name : String) : FileAction StateToken := do
  match ← statAt (directory ++ [name]) with
  | none => pure .absent
  | some .symlink => pure .symlink
  | some (.directory mode) =>
    openDirectory (directory ++ [name])
    let entries ← (listdir (directory ++ [name])).finally_ unseen
    pure (.directory mode (entries.take 1001))
  | some .special => pure .special
  | some (.file content mode) =>
    let read ← readRegularAt directory name
    ensure (read.1 = content)
      (refusal .revisionMismatch "change target identity changed while being observed")
    pure (.file mode (system.digest read.1))

/-- `_move_copy_token_at` -/
def moveCopyTokenAt (system : System) (sourceDirectory : Parts) (sourceName : String)
    (destinationDirectory : Parts) (destinationName : String) (destination : Parts) :
    FileAction OperationToken := do
  let source ← stateTokenAt system sourceDirectory sourceName
  let target ← stateTokenAt system destinationDirectory destinationName
  pure (.transfer source target destination)

/-- `_state_token` -/
def stateToken (system : System) (path : Parts) : FileAction StateToken :=
  withParent path (stateTokenAt system)

/-- `_token` -/
def token (system : System) (path : Parts) : FileAction String := do
  let state ← stateToken system path
  pure state.observed

/-- `_read_file` -/
def readFile (system : System) (path : Parts) : FileAction (Option Bytes) :=
  withParent path fun directory name => do
    let token ← stateTokenAt system directory name
    if token = .absent ∨ token.isDirectory then pure none
    else do
      let read ← readRegularAt directory name
      pure (some read.1)

/-- The parts of a path that count: `Path(relative).parts`. -/
def partsOf (relative : String) : Parts :=
  ((relative.toList.splitOn '/').map String.ofList).filter (· ∉ ["", "."])

/-- No part on the way to a path is a link. -/
def refuseLinks (relative : String) (current : Parts) : Parts → FileAction Unit
  | [] => pure ()
  | part :: parts => do
    let node ← lstat (current ++ [part])
    if node = some .symlink then
      raise (refusal .authorityNotGranted "change path contains a symbolic link"
        [("path", .str relative)])
    else refuseLinks relative (current ++ [part]) parts

/-- Whether a text is no path below the workspace. -/
def escapes (relative : String) : Bool :=
  relative.toList.head? = some '/' || partsOf relative = [] || ".." ∈ partsOf relative

/-- `_safe_path` -/
def safePath (relative : String) : FileAction Parts :=
  if escapes relative then
    raise (refusal .authorityNotGranted "change path escapes workspace")
  else do
    refuseLinks relative [] (partsOf relative)
    pure (partsOf relative)

/-! ## Preconditions -/

/-- What a program outside answers. -/
def consult {α : Type} (answer : Except Failure α) : FileAction α :=
  systemCall fun files => do
    let a ← answer
    .ok (a, files)

/-- `_revision_token` -/
def revisionToken (system : System) (path : Parts) : FileAction String := do
  match ← statAt path with
  | some (.file _ _) =>
    let revision ← (consult system.revision).handle fun failure =>
      match failure with
      | .os _ => some (raise (refusal .edit
          "repository-bound revision precondition could not be observed"))
      | _ => none
    match ← readFile system path with
    | some content => pure (revision path (system.digest content))
    | none => raise (refusal .revisionMismatch "change path is no longer a file")
  | _ => pure "absent"

/-- `_git_blob` -/
def gitBlob (system : System) (path : Parts) : FileAction String := do
  match ← readFile system path with
  | some content => consult (system.gitObject content)
  | none => pure "absent"

/-- Whether a precondition holds of what is observed at a path. -/
def satisfies (system : System) (kind : PreconditionKind) (value : Option String) (path : Parts)
    (observed : String) : FileAction Bool :=
  match kind with
  | .absent => pure (observed = "absent")
  | .digest => pure (value = some observed)
  | .revision => do
    let revision ← revisionToken system path
    pure (value = some revision)
  | .gitBlob => do
    let blob ← gitBlob system path
    pure (value = some blob)

/-- `_check_precondition` -/
def checkPrecondition (system : System) (operation : ChangeOperation) (path : Parts) :
    FileAction Unit := do
  let observed ← token system path
  let valid ← satisfies system operation.precondition operation.preconditionValue path observed
  ensure valid (refusal .revisionMismatch "change operation precondition differs from real state"
    [("path", .str operation.path), ("observed", .str observed)])

/-- `_check_destination_precondition` -/
def checkDestinationPrecondition (system : System) (operation : ChangeOperation) :
    FileAction Unit :=
  match operation.destination, operation.destinationPrecondition with
  | some destination, some precondition => do
    let path ← safePath destination
    let shadow : ChangeOperation :=
      ⟨operation.kind, destination, none, precondition, operation.destinationPreconditionValue,
        none, none, operation.inlineContent, operation.artifactReference, operation.match_,
        operation.replacement, operation.expectedOccurrences, operation.patch,
        operation.expectedDigest, operation.resultMode, operation.rewriteEngine,
        operation.rewriteVersion, operation.rewriteRule, operation.rewriteLanguage,
        operation.rewriteScope, operation.rewriteMatches, operation.rewriteParseFailures,
        operation.rewriteIgnoredFiles, operation.rewriteFormatting, operation.rewriteLimits,
        operation.semanticPreservationEvidence, operation.rollback⟩
    checkPrecondition system shadow path
  | _, _ => pure ()

/-! ## Tokens of operations -/

/-- `_result_mode` -/
def resultMode (system : System) (operation : ChangeOperation) (path : Parts) : FileAction Nat :=
  match operation.resultMode with
  | some mode => pure mode
  | none => do
    let state ← stateToken system path
    match state.mode? with
    | some mode => pure mode
    | none => raise (refusal .outputContract "a newly created path has no declared result mode")

/-- `_expected_state_token` -/
def expectedStateToken (system : System) (operation : ChangeOperation) (path : Parts)
    (content : Option Bytes) : FileAction OperationToken :=
  match operation.kind with
  | .mkdir => do
    let mode ← resultMode system operation path
    pure (.path (.directory mode []))
  | .delete => pure (.path .absent)
  | .move | .copy =>
    match operation.destination with
    | none => raise (.other "AssertionError")
    | some text => do
      let destination ← safePath text
      let source ← stateToken system path
      pure (.transfer (if operation.kind = .move then .absent else source)
        (match operation.kind, operation.resultMode with
        | .copy, some mode => source.setMode mode
        | _, _ => source) destination)
  | _ =>
    match content with
    | none => raise (.other "AssertionError")
    | some content => do
      let mode ← resultMode system operation path
      pure (.path (.file mode (system.digest content)))

/-- `_operation_token` -/
def operationToken (system : System) (operation : ChangeOperation) (path : Parts) :
    FileAction OperationToken :=
  if ChangeOperation.isTransfer operation.kind then
    match operation.destination with
    | none => raise (.other "AssertionError")
    | some text => do
      let destination ← safePath text
      let source ← stateToken system path
      let target ← stateToken system destination
      pure (.transfer source target destination)
  else do
    let state ← stateToken system path
    pure (.path state)

/-! ## Effects -/

/-- `_write_all`; every call writes something, so the length is enough fuel. -/
def writeAll (system : System) (path : Parts) : Nat → Bytes → FileAction Unit
  | 0, _ => pure ()
  | fuel + 1, content =>
    if content = [] then pure ()
    else do
      let calls ← count
      let written ← writeSome system path content (system.progress calls)
      if written < 1 then raise (.os .os)
      else writeAll system path fuel (content.drop written)

/-- The name of a staged file. -/
def temporaryName (system : System) (name : String) (calls : Nat) : String :=
  "." ++ name ++ "." ++ system.token calls ++ ".mishkan"

/-- What comes last whether or not a staged file was put in its place. -/
def discard (temporary : Parts) : FileAction Unit := do
  unseen
  unlinkIfPresent temporary

/-- Give a path the mode that is asked for, if one is. -/
def optionally (mode : Option Nat) (change : Nat → FileAction Unit) : FileAction Unit :=
  match mode with
  | some mode => change mode
  | none => pure ()

/-- Fill a staged file with a content. -/
def fill (system : System) (temporary : Parts) (mode : Option Nat) (content : Bytes) :
    FileAction Unit := do
  optionally mode (fchmod system temporary)
  writeAll system temporary content.length content
  unseen

/-- The mode a new file or directory is asked for: `mode or default`. -/
def modeOr (default : Nat) (mode : Option Nat) : Nat :=
  match mode with
  | some 0 | none => default
  | some mode => mode

/-- Put a staged file in the place of what is at a path. -/
def stageOver (system : System) (temporary path : Parts) (content : Bytes) (mode : Option Nat) :
    FileAction Unit := do
  fill system temporary mode content
  replaceFile temporary path
  unseen

/-- What stands at a path is what is expected, if anything is. -/
def requireBefore (system : System) (directory : Parts) (name : String) :
    Option OperationToken → FileAction Unit
  | none => pure ()
  | some expected => do
    let state ← stateTokenAt system directory name
    ensure (.path state = expected) (refusal .revisionMismatch
      "change target changed immediately before its filesystem effect")

/-- `_atomic_write` -/
def atomicWrite (system : System) (path : Parts) (content : Bytes) (mode : Option Nat)
    (expectedBefore : Option OperationToken) : FileAction Unit :=
  withParent path fun directory name => do
    requireBefore system directory name expectedBefore
    let calls ← count
    let temporary := directory ++ [temporaryName system name calls]
    createFile system temporary (modeOr 0o600 mode)
    (stageOver system temporary (directory ++ [name]) content mode).finally_ (discard temporary)

/-- Change the mode of a directory that is open. -/
def chmodOpened (system : System) (path : Parts) (mode : Nat) : FileAction Unit := do
  fchmod system path mode
  unseen

/-- Give a new directory its mode. -/
def chmodDirectory (system : System) (path : Parts) (mode : Nat) : FileAction Unit := do
  openDirectory path
  (chmodOpened system path mode).finally_ unseen

/-- `_mkdir_at` -/
def mkdirAt (system : System) (path : Parts) (expectedBefore : OperationToken)
    (mode : Option Nat) : FileAction Unit :=
  withParent path fun directory name => do
    let state ← stateTokenAt system directory name
    ensure (.path state = expectedBefore) (refusal .revisionMismatch
      "directory target changed immediately before creation")
    mkdir system (directory ++ [name]) (modeOr 0o700 mode)
    optionally mode (chmodDirectory system (directory ++ [name]))
    unseen

/-- Take away what is at a path. -/
def remove (path : Parts) (isDirectory : Bool) : FileAction Unit :=
  if isDirectory then rmdir path else unlink path

/-- `_delete_at` -/
def deleteAt (system : System) (path : Parts) (expectedBefore : OperationToken) :
    FileAction Unit :=
  withParent path fun directory name => do
    let actual ← stateTokenAt system directory name
    ensure (.path actual = expectedBefore) (refusal .revisionMismatch
      "delete target changed immediately before removal")
    remove (directory ++ [name]) actual.isDirectory
    unseen

/-- Give a staged file the name of a path where nothing is. -/
def stageAt (system : System) (temporary path : Parts) (content : Bytes) (mode : Nat) :
    FileAction Unit := do
  fill system temporary (some mode) content
  link temporary path
  unseen

/-- `_create_file_at` -/
def createFileAt (system : System) (directory : Parts) (name : String) (content : Bytes)
    (mode : Nat) : FileAction Unit := do
  let calls ← count
  let temporary := directory ++ [temporaryName system name calls]
  createFile system temporary mode
  (stageAt system temporary (directory ++ [name]) content mode).finally_ (discard temporary)

/-- Give a file another name, then take the old one away. -/
def relink (source destination : Parts) : FileAction Unit := do
  link source destination
  unseen
  unlink source
  unseen

/-- What a move or a copy does once both directories are open. -/
def transferAt (system : System) (operation : ChangeOperation) (expectedBefore : OperationToken)
    (destination : Parts) (sourceDirectory : Parts) (sourceName : String)
    (destinationDirectory : Parts) (destinationName : String) : FileAction Unit := do
  let actual ← moveCopyTokenAt system sourceDirectory sourceName destinationDirectory
    destinationName destination
  ensure (actual = expectedBefore) (refusal .revisionMismatch
    "move/copy paths changed immediately before their filesystem effect")
  let target ← stateTokenAt system destinationDirectory destinationName
  ensure (target = .absent) (refusal .revisionMismatch "change destination is not absent")
  let source ← readRegularAt sourceDirectory sourceName
  if operation.kind = .move then
    relink (sourceDirectory ++ [sourceName]) (destinationDirectory ++ [destinationName])
  else
    createFileAt system destinationDirectory destinationName source.1
      (modeOr source.2 operation.resultMode)

/-- `_move_or_copy_at` -/
def moveOrCopyAt (system : System) (operation : ChangeOperation) (source : Parts)
    (expectedBefore : OperationToken) : FileAction Unit :=
  match operation.destination with
  | none => raise (.other "AssertionError")
  | some text => do
    let destination ← safePath text
    withParent source fun sourceDirectory sourceName =>
      withParent destination fun destinationDirectory destinationName =>
        transferAt system operation expectedBefore destination sourceDirectory sourceName
          destinationDirectory destinationName

/-- `_apply_operation` -/
def applyOperation (system : System) (operation : ChangeOperation) (path : Parts)
    (content : Option Bytes) (beforeToken : OperationToken) : FileAction Unit :=
  match operation.kind with
  | .mkdir => mkdirAt system path beforeToken operation.resultMode
  | .create | .write | .replace | .patch | .rewrite =>
    match content with
    | none => raise (.other "AssertionError")
    | some content => do
      let mode ← resultMode system operation path
      atomicWrite system path content (some mode) (some beforeToken)
  | .move | .copy => moveOrCopyAt system operation path beforeToken
  | .delete => deleteAt system path beforeToken

end Mishkan.Edits
