import Mishkan.Edits.Diff
import Mishkan.Edits.Files

/-!
# Edits/Service — planning, applying and reconciling a change set

The service keeps a change set with one journal entry an operation, and the artifacts it reads and
writes; each transaction is one call.  `apply` goes through the operations in order: an applied one
is skipped, a prepared one is recovered by its tokens, any other is prepared, applied and verified.
Its diffs are kept in a list of its own, and become an artifact when all operations are through.
-/

namespace Mishkan.Edits

open Procedure Artifacts Lines

/-! ## Change sets -/

/-- What a validation expects or observes: a text or a mode. -/
inductive Observation where
  | text (value : String)
  | mode (value : Nat)
deriving DecidableEq

structure ChangeValidation where
  kind : ChangeValidationKind
  path : String
  expectedValue : Option Observation := none
deriving DecidableEq

structure ChangeValidationResult where
  kind : ChangeValidationKind
  path : String
  passed : Bool
  expected : Option Observation
  observed : Observation
deriving DecidableEq

structure ChangeSet where
  pathScopes : List String := ["."]
  operations : List ChangeOperation
  validations : List ChangeValidation := []
deriving DecidableEq

inductive JournalState where
  | pending | prepared | applied | rolledBack
deriving DecidableEq

structure ChangeOperationRow where
  state : JournalState := .pending
  beforeToken : Option OperationToken := none
  preimageReference : Option String := none
  expectedAfterToken : Option OperationToken := none
  actualAfterToken : Option OperationToken := none
deriving DecidableEq

/-- The row of a change set, with those of its operations. -/
structure ChangeSetRow where
  definition : ChangeSet
  journals : List ChangeOperationRow
  state : ChangeSetState := .planned
  revision : Nat := 0
  operationIndex : Nat := 0
  diffReference : Option String := none
  validationResults : Option (List ChangeValidationResult) := none
  reason : Option String := none
deriving DecidableEq

structure ChangeSetResult where
  state : ChangeSetState
  completedOperations : Nat
  revision : Nat
  preimageReferences : List String
  diffReference : Option String
  changedPaths : List String
  validationResults : List ChangeValidationResult
  reason : Option String
deriving DecidableEq

/-- What the service has stored: the change set, and the artifacts by their references. -/
structure ChangeStore where
  changeSet : Option ChangeSetRow := none
  artifacts : List (String × Bytes) := []
deriving DecidableEq

/-- The parts a service is built from. -/
structure ChangeSetService where
  system : System
  matcher : SequenceMatcher
  /-- The reference of the next artifact. -/
  reference : List (String × Bytes) → String
  reference_fresh : ∀ artifacts, ∀ entry ∈ artifacts, entry.1 ≠ reference artifacts
  /-- Whether a content inspector leaves a definition as it is; there may be none. -/
  inspector : Option (ChangeSet → Bool) := none

/-- A program of the service. -/
abbrev ServiceAction := Procedure Files ChangeStore Fault Failure

/-! ## Transactions -/

/-- A transaction of the database. -/
def transaction {α : Type} (f : ChangeStore → Except Failure (α × ChangeStore)) : ServiceAction α :=
  .call (fun _ => .other "OperationalError") fun files store => do
    let (a, store') ← f store
    .ok (a, files, store')

/-- The row of the change set, which has to exist. -/
def ChangeStore.row (store : ChangeStore) : Except Failure ChangeSetRow :=
  Refusal.require store.changeSet (refusal .edit "change set does not exist")

/-- The row of the change set is changed; it is there, or an assertion fails. -/
def ChangeStore.change (store : ChangeStore) (f : ChangeSetRow → ChangeSetRow) :
    Except Failure (Unit × ChangeStore) := do
  let row ← Refusal.require store.changeSet (.other "AssertionError")
  .ok ((), ⟨some (f row), store.artifacts⟩)

/-- The entry of an operation is changed. -/
def ChangeSetRow.changeJournal (row : ChangeSetRow) (position : Nat)
    (f : ChangeOperationRow → ChangeOperationRow) : ChangeSetRow :=
  ⟨row.definition, row.journals.modify position f, row.state, row.revision, row.operationIndex,
    row.diffReference, row.validationResults, row.reason⟩

/-- `_result` -/
def ChangeSetRow.result (row : ChangeSetRow) : ChangeSetResult where
  state := row.state
  completedOperations := row.operationIndex
  revision := row.revision
  preimageReferences := row.journals.filterMap (·.preimageReference)
  diffReference := row.diffReference
  changedPaths :=
    (((row.journals.zip row.definition.operations).flatMap fun entry =>
      if entry.1.state ∈ [.applied, .rolledBack] then entry.2.path :: entry.2.destination.toList
      else []).dedup).mergeSort (· ≤ ·)
  validationResults := row.validationResults.getD []
  reason := row.reason

/-- `_load` -/
def load : ServiceAction ChangeSet :=
  transaction fun store => do
    let row ← store.row
    .ok (row.definition, store)

/-- `_journal` -/
def journalAt (position : Nat) : ServiceAction ChangeOperationRow :=
  transaction fun store => do
    let row ← store.row
    let journal ← Refusal.require row.journals[position]?
      (refusal .edit "change operation journal does not exist")
    .ok (journal, store)

/-- `_set_state` -/
def setState (state : ChangeSetState) : ServiceAction Unit :=
  transaction fun store => do
    let row ← store.row
    .ok ((), ⟨some { row with state := state }, store.artifacts⟩)

/-- `_prepare` -/
def prepare (position : Nat) (beforeToken : OperationToken) (preimageReference : Option String)
    (expectedAfterToken : OperationToken) : ServiceAction Unit :=
  transaction fun store => store.change fun row => row.changeJournal position fun journal =>
    ⟨.prepared, some beforeToken, preimageReference, some expectedAfterToken,
      journal.actualAfterToken⟩

/-- `_mark_applied` -/
def markApplied (position : Nat) (token : OperationToken) : ServiceAction Unit :=
  transaction fun store => store.change fun row =>
    let changed := row.changeJournal position fun journal =>
      { journal with state := .applied, actualAfterToken := some token }
    { changed with
      operationIndex := max row.operationIndex (position + 1), revision := row.revision + 1 }

/-- `_mark_rolled_back` -/
def markRolledBack (position : Nat) : ServiceAction Unit :=
  transaction fun store => store.change fun row =>
    let changed := row.changeJournal position fun journal => { journal with state := .rolledBack }
    { changed with revision := row.revision + 1 }

/-- `_finish` -/
def finish (state : ChangeSetState) (reason : Option String)
    (diffReference : Option String := none)
    (validationResults : Option (List ChangeValidationResult) := none) :
    ServiceAction ChangeSetResult :=
  transaction fun store => do
    let row ← Refusal.require store.changeSet (.other "AssertionError")
    let finished : ChangeSetRow :=
      ⟨row.definition, row.journals, state, row.revision + 1, row.operationIndex,
        diffReference <|> row.diffReference, validationResults <|> row.validationResults, reason⟩
    .ok (finished.result, ⟨some finished, store.artifacts⟩)

/-! ## Artifacts -/

/-- A call of the artifact service. -/
def artifactCall {α : Type} (f : ChangeStore → Except Failure (α × ChangeStore)) :
    ServiceAction α :=
  .call (fun fault => match fault with
      | .permission => refusal .artifact
          "artifact staging body could not be opened without following links"
      | .device => .os .os) fun files store => do
    let (a, store') ← f store
    .ok (a, files, store')

/-- `put_bytes` -/
def putBytes (service : ChangeSetService) (content : Bytes) : ServiceAction String :=
  artifactCall fun store =>
    let reference := service.reference store.artifacts
    .ok (reference, ⟨store.changeSet, store.artifacts ++ [(reference, content)]⟩)

/-- `read_bytes` -/
def readBytes (reference : String) : ServiceAction Bytes :=
  artifactCall fun store => do
    let content ← Refusal.require (store.artifacts.lookup reference)
      (refusal .artifact "artifact manifest does not exist")
    .ok (content, store)

/-- `_preimage` -/
def preimage (service : ChangeSetService) : Option Bytes → ServiceAction (Option String)
  | none => pure none
  | some content => do
    let reference ← putBytes service content
    pure (some reference)

/-! ## The content an operation gives -/

/-- A content cut at every place where a pattern stands. -/
def pieces (pattern : Bytes) : Nat → Bytes → Bytes → List Bytes
  | 0, piece, rest => [piece ++ rest]
  | fuel + 1, piece, rest =>
    if pattern <+: rest then piece :: pieces pattern fuel [] (rest.drop pattern.length)
    else match rest with
      | [] => [piece]
      | byte :: rest => pieces pattern fuel (piece ++ [byte]) rest

/-- A content cut at every place a pattern is counted at: an empty one, at every place. -/
def cut (pattern content : Bytes) : List Bytes :=
  if pattern = [] then [] :: content.map (fun byte => [byte]) ++ [[]]
  else pieces pattern content.length [] content

/-- `bytes.replace`, where `bytes.count` is what is expected. -/
def replaceExactly (operation : ChangeOperation) (before : Bytes) : Except Failure Bytes :=
  let parts := cut (encode (operation.match_.getD "").toList) before
  if operation.expectedOccurrences = some (parts.length - 1) then
    .ok ((encode (operation.replacement.getD "").toList).intercalate parts)
  else
    .error (refusal .revisionMismatch "exact replacement occurrence count differs"
      [("expected", match operation.expectedOccurrences with
        | some count => .int count
        | none => .null), ("observed", .int (parts.length - 1 : Nat))])

/-- How a patch that cannot be applied ends. -/
def patchFailure : Raised → Failure
  | .mishkan error => .mishkan error
  | .valueError message => .other message
  | _ => .other "Exception"

/-- What a patch or a replacement makes of a content. -/
def computedContent (operation : ChangeOperation) (before : Option Bytes) :
    Except Failure (Option Bytes) :=
  match operation.kind with
  | .patch =>
    match before, operation.patch with
    | some before, some patch =>
      ((applyUnifiedPatch before patch.toList operation.path.toList).mapError patchFailure).map some
    | _, _ => .error (refusal .revisionMismatch "exact patch target is absent")
  | .replace =>
    match before with
    | some before => (replaceExactly operation before).map some
    | none => .error (refusal .revisionMismatch "exact replacement target is absent")
  | _ => .ok none

/-- A result that is computed. -/
def ofExcept {α : Type} : Except Failure α → ServiceAction α
  | .ok a => pure a
  | .error failure => raise failure

/-- `_expected_content` -/
def expectedContent (operation : ChangeOperation) (before : Option Bytes) :
    ServiceAction (Option Bytes) :=
  match operation.inlineContent, operation.artifactReference with
  | some content, _ => pure (some (encode content.toList))
  | none, some reference => do
    let content ← readBytes reference
    pure (some content)
  | none, none => ofExcept (computedContent operation before)

/-! ## Restoring -/

/-- What a token says of a path whose operation is undone. -/
def OperationToken.state? : OperationToken → Option StateToken
  | .path token => some token
  | .transfer _ _ _ => none

/-- Give a moved file its old name back, then take the new one away. -/
def unmove (system : System) (journal : ChangeOperationRow) (source destination : Parts) :
    FileAction Unit :=
  withParent source fun sourceDirectory sourceName =>
    withParent destination fun destinationDirectory destinationName => do
      let actual ← moveCopyTokenAt system sourceDirectory sourceName destinationDirectory
        destinationName destination
      ensure (some actual = journal.expectedAfterToken) (refusal .revisionMismatch
        "move paths changed immediately before rollback")
      relink (destinationDirectory ++ [destinationName]) (sourceDirectory ++ [sourceName])

/-- `_restore_move_or_copy_at` -/
def restoreMoveOrCopyAt (system : System) (operation : ChangeOperation) (source : Parts)
    (journal : ChangeOperationRow) : FileAction Unit :=
  match operation.destination with
  | none => raise (.other "AssertionError")
  | some text => do
    let destination ← safePath text
    match journal.expectedAfterToken with
    | some (.transfer _ target _) =>
      if operation.kind = .copy then deleteAt system destination (.path target)
      else unmove system journal source destination
    | _ => raise (refusal .edit "move/copy recovery evidence is invalid")

/-- `_restore_operation` -/
def restoreOperation (service : ChangeSetService) (operation : ChangeOperation) (path : Parts)
    (journal : ChangeOperationRow) : ServiceAction Unit :=
  let before := journal.beforeToken.bind OperationToken.state?
  if ChangeOperation.isTransfer operation.kind then
    within (restoreMoveOrCopyAt service.system operation path journal)
  else match journal.preimageReference with
    | some reference => do
      let content ← readBytes reference
      within (atomicWrite service.system path content (before.bind StateToken.mode?)
        journal.expectedAfterToken)
    | none =>
      if before.any StateToken.isDirectory then
        within (mkdirAt service.system path (journal.expectedAfterToken.getD (.path .absent))
          (before.bind StateToken.mode?))
      else match journal.expectedAfterToken with
        | some expected => within (deleteAt service.system path expected)
        | none => pure ()

/-- `_rollback_applied`, over the operations from the last one on. -/
def rollbackFrom (service : ChangeSetService) :
    List (Nat × ChangeOperation) → ServiceAction ChangeSetState
  | [] => pure .rolledBack
  | (position, operation) :: rest => do
    let journal ← journalAt position
    if journal.state ≠ .applied then rollbackFrom service rest
    else if operation.rollback = .retain then pure .uncertain
    else do
      let path ← within (safePath operation.path)
      let actual ← within (operationToken service.system operation path)
      if some actual ≠ journal.expectedAfterToken then pure .conflict
      else do
        restoreOperation service operation path journal
        markRolledBack position
        rollbackFrom service rest

/-- The operations with their positions. -/
def ChangeSet.positioned (changeSet : ChangeSet) : List (Nat × ChangeOperation) :=
  changeSet.operations.mapIdx fun position operation => (position, operation)

/-- `_rollback_applied` -/
def rollbackApplied (service : ChangeSetService) (changeSet : ChangeSet) :
    ServiceAction ChangeSetState := do
  setState .rollbackPending
  rollbackFrom service changeSet.positioned.reverse

/-- `_rollback_one` -/
def rollbackOne (service : ChangeSetService) (position : Nat) (operation : ChangeOperation)
    (path : Parts) (reason : String) : ServiceAction ChangeSetResult := do
  let journal ← journalAt position
  setState .rollbackPending
  let actual ← within (operationToken service.system operation path)
  if some actual ≠ journal.expectedAfterToken then finish .conflict reason
  else if operation.rollback = .retain then finish .uncertain reason
  else do
    restoreOperation service operation path journal
    finish .rolledBack reason

/-! ## Validations -/

/-- What a validation observes at a path, and whether it passes. -/
def observeValidation (system : System) (validation : ChangeValidation) (path : Parts) :
    FileAction (Observation × Bool) :=
  match validation.kind with
  | .exists => do
    let observed ← token system path
    pure (.text observed, observed ≠ "absent")
  | .absent => do
    let observed ← token system path
    pure (.text observed, observed = "absent")
  | .digest => do
    let observed ← token system path
    pure (.text observed, validation.expectedValue = some (.text observed))
  | .mode => do
    let state ← stateToken system path
    let observed := match state.mode? with
      | some mode => .mode mode
      | none => .text "absent"
    pure (observed, validation.expectedValue = some observed)

/-- `_run_validations` -/
def runValidations (system : System) :
    List ChangeValidation → FileAction (List ChangeValidationResult)
  | [] => pure []
  | validation :: validations => do
    let path ← safePath validation.path
    let (observed, passed) ← observeValidation system validation path
    let results ← runValidations system validations
    pure (⟨validation.kind, validation.path, passed, validation.expectedValue, observed⟩ :: results)

/-! ## Planning -/

/-- `_require_safe_definition` -/
def requireSafeDefinition (service : ChangeSetService) (changeSet : ChangeSet) :
    FileAction Unit :=
  ensure (∀ inspect ∈ service.inspector, inspect changeSet = true) (refusal .secretContent
    "change set requires redaction and cannot be planned faithfully")

/-- The paths a change set names. -/
def ChangeSet.requested (changeSet : ChangeSet) : List String :=
  ((changeSet.operations.flatMap fun operation => operation.path :: operation.destination.toList) ++
    changeSet.validations.map (·.path)).dedup

/-- Whether a path lies in a scope. -/
def inScope (path scope : String) : Bool := partsOf scope <+: partsOf path

/-- Every path of a list is safe. -/
def requireSafePaths : List String → FileAction Unit
  | [] => pure ()
  | path :: paths => do
    let _ ← safePath path
    requireSafePaths paths

/-- `_validate_scope` -/
def validateScope (changeSet : ChangeSet) : FileAction Unit := do
  requireSafePaths changeSet.requested
  let deviations := changeSet.requested.filter fun path => !changeSet.pathScopes.any (inScope path)
  ensure (deviations = []) (refusal .authorityNotGranted
    "change paths exceed the declared change-set scopes"
    [("scope_deviations", .arr ((deviations.mergeSort (· ≤ ·)).map .str))])

/-- `plan` -/
def plan (service : ChangeSetService) (changeSet : ChangeSet) : ServiceAction ChangeSetResult := do
  within (requireSafeDefinition service changeSet)
  within (validateScope changeSet)
  transaction fun store =>
    match store.changeSet with
    | some row => .ok (row.result, store)
    | none =>
      let row : ChangeSetRow := ⟨changeSet, changeSet.operations.map fun _ => {}, .planned, 0, 0,
        none, none, none⟩
      .ok (row.result, ⟨some row, store.artifacts⟩)

/-! ## Applying -/

inductive Recovery where
  | applied | retry | conflict
deriving DecidableEq

/-- `_recover_prepared` -/
def recoverPrepared (service : ChangeSetService) (journal : ChangeOperationRow) (position : Nat)
    (operation : ChangeOperation) (path : Parts) : ServiceAction Recovery := do
  let actual ← within (operationToken service.system operation path)
  if some actual = journal.expectedAfterToken then do
    markApplied position actual
    pure .applied
  else do
    let again ← within (operationToken service.system operation path)
    if some again = journal.beforeToken then pure .retry else pure .conflict

/-- What one operation comes to. -/
inductive Turn where
  /-- The whole of `apply` ends with it. -/
  | returned (result : ChangeSetResult)
  /-- It was applied before. -/
  | skipped
  /-- It is applied now, and its diff is kept. -/
  | recorded (lines : List Text)
deriving DecidableEq

/-- What is found and computed before an operation is applied: the content it gives, and the token
before its effect. -/
structure Prepared where
  before : Option Bytes
  after : Option Bytes
  expected : OperationToken
  beforeToken : OperationToken
deriving DecidableEq

/-- Check an operation, compute what it gives, and note it in its journal entry. -/
def prepareOperation (service : ChangeSetService) (position : Nat) (operation : ChangeOperation)
    (path : Parts) : ServiceAction Prepared := do
  let before ← within (readFile service.system path)
  within (checkPrecondition service.system operation path)
  within (checkDestinationPrecondition service.system operation)
  let after ← expectedContent operation before
  let preimageReference ← preimage service before
  let expected ← within (expectedStateToken service.system operation path after)
  within (ensure (∀ digest ∈ operation.expectedDigest, ∀ content ∈ after,
      service.system.digest content = digest) (refusal .revisionMismatch
    "declared expected result differs from computed exact result"))
  let beforeToken ← within (operationToken service.system operation path)
  prepare position beforeToken preimageReference expected
  pure ⟨before, after, expected, beforeToken⟩

/-- Verify an operation that was just applied. -/
def verifyOperation (service : ChangeSetService) (position : Nat) (operation : ChangeOperation)
    (path : Parts) (prepared : Prepared) : ServiceAction Turn := do
  let actual ← within (operationToken service.system operation path)
  if actual ≠ prepared.expected then do
    let result ← rollbackOne service position operation path
      "operation after-state failed exact verification"
    pure (.returned result)
  else do
    markApplied position actual
    pure (.recorded (operationDiff service.matcher operation prepared.before prepared.after))

/-- An operation that has to be applied now. -/
def performOperation (service : ChangeSetService) (position : Nat) (operation : ChangeOperation)
    (path : Parts) : ServiceAction Turn := do
  let prepared ← prepareOperation service position operation path
  within (applyOperation service.system operation path prepared.after prepared.beforeToken)
  verifyOperation service position operation path prepared

/-- What the journal entry of an operation says is left to do. -/
inductive Remaining where
  | skip
  | stop (result : ChangeSetResult)
  | perform (path : Parts)
deriving DecidableEq

/-- Look at the journal entry of an operation, and recover one that was prepared before. -/
def openOperation (service : ChangeSetService) (position : Nat) (operation : ChangeOperation) :
    ServiceAction Remaining := do
  let journal ← journalAt position
  if journal.state = .applied then pure .skip
  else do
    let path ← within (safePath operation.path)
    if journal.state = .prepared then do
      match ← recoverPrepared service journal position operation path with
      | .applied => pure .skip
      | .retry => pure (.perform path)
      | .conflict =>
        let result ← finish .conflict
          "real state differs from both preimage and expected after-state"
        pure (.stop result)
    else pure (.perform path)

/-- One turn of the loop of `apply`. -/
def applyOne (service : ChangeSetService) (position : Nat) (operation : ChangeOperation) :
    ServiceAction Turn := do
  match ← openOperation service position operation with
  | .skip => pure .skipped
  | .stop result => pure (.returned result)
  | .perform path => performOperation service position operation path

/-- The loop of `apply`: an early result, or the diffs that were kept. -/
def applyAll (service : ChangeSetService) :
    List (Nat × ChangeOperation) → List Text → ServiceAction (ChangeSetResult ⊕ List Text)
  | [], diffs => pure (.inr diffs)
  | (position, operation) :: rest, diffs => do
    match ← applyOne service position operation with
    | .returned result => pure (.inl result)
    | .skipped => applyAll service rest diffs
    | .recorded lines => applyAll service rest (diffs ++ lines)

/-- What `apply` does when all operations are through. -/
def conclude (service : ChangeSetService) (changeSet : ChangeSet) (diffs : List Text) :
    ServiceAction ChangeSetResult := do
  setState .applied
  let diffReference ← putBytes service (encode diffs.flatten)
  let validations ← within (runValidations service.system changeSet.validations)
  if validations.all (·.passed) then
    finish .verified none (some diffReference) (some validations)
  else do
    let rollback ← rollbackApplied service changeSet
    finish rollback (some "one or more selected validations failed") (some diffReference)
      (some validations)

/-- The operations of a change set, and what comes after them. -/
def applyOperations (service : ChangeSetService) (changeSet : ChangeSet) :
    ServiceAction ChangeSetResult := do
  match ← applyAll service changeSet.positioned [] with
  | .inl result => pure result
  | .inr diffs => conclude service changeSet diffs

/-- What an error of the operations is finished with. -/
def settleFailure : Failure → Option (ServiceAction ChangeSetResult)
  | .mishkan error => some (finish .conflict error.message)
  | .os error => some (finish .uncertain ("filesystem effect failed: " ++ error.className))
  | .other _ => none

/-- What `apply` does before its operations. -/
def beginApply (service : ChangeSetService) : ServiceAction ChangeSet := do
  let changeSet ← load
  within (requireSafeDefinition service changeSet)
  within (validateScope changeSet)
  setState .applying
  pure changeSet

/-- `apply` -/
def apply (service : ChangeSetService) : ServiceAction ChangeSetResult := do
  let changeSet ← beginApply service
  (applyOperations service changeSet).handle settleFailure

end Mishkan.Edits
