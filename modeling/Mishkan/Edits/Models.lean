import Mishkan.Artifacts.Models
import Mishkan.Foundations.Refusal

/-!
# Edits/Models — change sets, their operations and what each has to declare

A change set is a list of operations on the files of a workspace.  `fieldsMatchOperation` is the
check an operation passes before anything else sees it.
-/

namespace Mishkan.Edits

open Refusal

inductive ChangeOperationKind where
  | mkdir | create | write | replace | patch | rewrite | move | copy | delete
deriving DecidableEq

def ChangeOperationKind.value : ChangeOperationKind → String
  | .mkdir => "mkdir"
  | .create => "create"
  | .write => "write"
  | .replace => "replace"
  | .patch => "patch"
  | .rewrite => "rewrite"
  | .move => "move"
  | .copy => "copy"
  | .delete => "delete"

inductive PreconditionKind where
  | absent | digest | revision | gitBlob
deriving DecidableEq

inductive RollbackPolicy where
  | restore | retain
deriving DecidableEq

inductive ChangeValidationKind where
  | exists | absent | digest | mode
deriving DecidableEq

inductive ChangeSetState where
  | planned | applying | applied | verified | rollbackPending | rolledBack | conflict | uncertain
deriving DecidableEq

structure ChangeOperation where
  kind : ChangeOperationKind
  path : String
  destination : Option String := none
  precondition : PreconditionKind
  preconditionValue : Option String := none
  destinationPrecondition : Option PreconditionKind := none
  destinationPreconditionValue : Option String := none
  inlineContent : Option String := none
  artifactReference : Option String := none
  match_ : Option String := none
  replacement : Option String := none
  expectedOccurrences : Option Nat := none
  patch : Option String := none
  expectedDigest : Option String := none
  resultMode : Option Nat := none
  rewriteEngine : Option String := none
  rewriteVersion : Option String := none
  rewriteRule : Option String := none
  rewriteLanguage : Option String := none
  rewriteScope : Option String := none
  rewriteMatches : Option Nat := none
  rewriteParseFailures : List String := []
  rewriteIgnoredFiles : List String := []
  rewriteFormatting : Option String := none
  rewriteLimits : List (String × Int) := []
  semanticPreservationEvidence : Option String := none
  rollback : RollbackPolicy := .restore
deriving DecidableEq

namespace ChangeOperation

/-- A text that is there and not empty. -/
def given (text : Option String) : Bool := text.any (· ≠ "")

/-- A text within a bound. -/
def within (bound : Nat) (text : Option String) : Bool := text.all (·.length ≤ bound)

/-- The bounds of the fields. -/
def fieldsInBounds (o : ChangeOperation) : Bool :=
  o.path ≠ "" && o.path.length ≤ 4096 && o.destination.all (· ≠ "") && within 4096 o.destination &&
    within 4096 o.preconditionValue && within 4096 o.destinationPreconditionValue &&
    within 1048576 o.inlineContent && within 262144 o.match_ && within 1048576 o.replacement &&
    within 1048576 o.patch && o.resultMode.all (· ≤ 0o7777) && within 262144 o.rewriteRule &&
    within 262144 o.semanticPreservationEvidence

/-- The kinds that carry their content. -/
def isContentKind (kind : ChangeOperationKind) : Bool := kind ∈ [.create, .write, .rewrite]

/-- The kinds whose path is new when its precondition says it is absent. -/
def createsPath (kind : ChangeOperationKind) : Bool := kind ∈ [.mkdir, .create, .write, .rewrite]

/-- The kinds with a second path. -/
def isTransfer (kind : ChangeOperationKind) : Bool := kind ∈ [.move, .copy]

/-- How many sources of content are declared. -/
def sources (o : ChangeOperation) : Nat :=
  (if o.inlineContent.isSome then 1 else 0) + if o.artifactReference.isSome then 1 else 0

/-- All the evidence a rewrite needs is there. -/
def hasRewriteEvidence (o : ChangeOperation) : Bool :=
  given o.rewriteEngine && given o.rewriteVersion && given o.rewriteRule &&
    given o.rewriteLanguage && given o.rewriteScope && given o.rewriteFormatting &&
    o.rewriteMatches.isSome && o.rewriteLimits ≠ []

/-- Some evidence of a rewrite is there. -/
def claimsRewrite (o : ChangeOperation) : Bool :=
  o.rewriteEngine.isSome || o.rewriteVersion.isSome || o.rewriteRule.isSome ||
    o.rewriteLanguage.isSome || o.rewriteScope.isSome || o.rewriteMatches.isSome ||
    o.rewriteFormatting.isSome || o.semanticPreservationEvidence.isSome ||
    o.rewriteParseFailures ≠ [] || o.rewriteIgnoredFiles ≠ [] || o.rewriteLimits ≠ []

/-- The check of the model: which fields go with which kind. -/
def fieldsMatchOperation (o : ChangeOperation) : Except Raised Unit := do
  refuseIf (o.precondition = .absent ∧ o.preconditionValue.isSome)
    (.valueError "absent precondition accepts no value")
  refuseIf (o.precondition ≠ .absent ∧ ¬ given o.preconditionValue)
    (.valueError "selected precondition requires an exact value")
  refuseIf (isContentKind o.kind ∧ o.sources ≠ 1)
    (.valueError "content operation requires exactly one content source")
  refuseIf (o.kind = .replace ∧
      (o.match_ = none ∨ o.replacement = none ∨ o.expectedOccurrences = none))
    (.valueError "replace requires exact match, replacement, and count")
  refuseIf (o.kind = .patch ∧ ¬ given o.patch)
    (.valueError "patch requires one non-empty unified diff")
  refuseIf (o.kind = .patch ∧
      (o.match_.isSome ∨ o.replacement.isSome ∨ o.expectedOccurrences.isSome))
    (.valueError "patch cannot also declare replacement fields")
  refuseIf (o.kind ≠ .patch ∧ o.patch.isSome)
    (.valueError "unified diff content is accepted only by patch operations")
  refuseIf (o.precondition = .absent ∧ createsPath o.kind ∧ o.resultMode = none)
    (.valueError "a newly created path requires an explicit result mode")
  refuseIf (isTransfer o.kind ∧ o.destination = none)
    (.valueError "move and copy require a destination")
  refuseIf (isTransfer o.kind ∧ o.destinationPrecondition = none)
    (.valueError "move and copy require an explicit destination precondition")
  refuseIf (¬ isTransfer o.kind ∧ o.destination.isSome)
    (.valueError "destination is accepted only by move and copy")
  refuseIf (¬ isTransfer o.kind ∧
      (o.destinationPrecondition.isSome ∨ given o.destinationPreconditionValue))
    (.valueError "destination preconditions are accepted only by move and copy")
  refuseIf (o.kind = .move ∧ o.resultMode.isSome)
    (.valueError "move preserves the source mode and accepts no result mode")
  refuseIf (o.destinationPrecondition = some .absent ∧ o.destinationPreconditionValue.isSome)
    (.valueError "absent destination precondition accepts no value")
  refuseIf (o.destinationPrecondition.isSome ∧ o.destinationPrecondition ≠ some .absent ∧
      ¬ given o.destinationPreconditionValue)
    (.valueError "selected destination precondition requires an exact value")
  refuseIf (o.kind = .rewrite ∧ ¬ o.hasRewriteEvidence)
    (.valueError ("rewrite requires engine, version, rule, language, scope, matches, " ++
      "formatting, and limits evidence"))
  refuseIf (o.kind ≠ .rewrite ∧ o.claimsRewrite)
    (.valueError "rewrite evidence is accepted only by rewrite operations")

/-- An operation the model accepts. -/
def Accepted (o : ChangeOperation) : Prop :=
  o.fieldsInBounds = true ∧ o.fieldsMatchOperation = .ok ()

instance (o : ChangeOperation) : Decidable o.Accepted := inferInstanceAs (Decidable (_ ∧ _))

end ChangeOperation

end Mishkan.Edits
