import Mishkan.Domain.Errors
import Mishkan.Foundations.Refusal
import Mishkan.Foundations.Table
import Mishkan.Foundations.Transition

/-!
# Skills/Repository — versions of skills and their lifecycle

A version row is a `SkillVersionRecord`: the columns repeat what its payload says.  What no
operation reads of a record — its metadata, provenance and mutation — is its `content`.

The operations of `SQLiteSkillLifecycleRepository` are one transaction each.  `decide` and
`reactivate` move the active pointer of a skill, `archive` removes it; the state of a version is
written separately, by all of them.
-/

namespace Mishkan

open Refusal

inductive SkillVersionState where
  | candidate | validating | eligible | staged | active | quarantined | rejected | archived
  | superseded
deriving DecidableEq

def SkillVersionState.value : SkillVersionState → String
  | .candidate => "candidate"
  | .validating => "validating"
  | .eligible => "eligible"
  | .staged => "staged"
  | .active => "active"
  | .quarantined => "quarantined"
  | .rejected => "rejected"
  | .archived => "archived"
  | .superseded => "superseded"

inductive SkillMutationDisposition where
  | allow | requireReview | deny
deriving DecidableEq

structure SkillInspectionResult where
  packageFingerprint : String
  quarantined : Bool
  /-- The profile, the findings and the counts. -/
  content : Json
deriving DecidableEq

structure SkillVersionRecord where
  id : Uuid
  skillName : String
  skillVersion : String
  state : SkillVersionState
  /-- The fingerprint of the provenance lock. -/
  packageFingerprint : String
  inspection : Option SkillInspectionResult := none
  content : Json
  policyFingerprint : String
  activationDecisionId : Option Uuid := none
  revision : Nat := 1
  pinned : Bool := false
  updatedAt : Instant
deriving DecidableEq

structure SkillLifecycleDecision where
  decisionId : Uuid
  versionId : Uuid
  disposition : SkillMutationDisposition
  actorId : String
  policyFingerprint : String
  expectedActiveVersionId : Option Uuid := none
  quarantineOverride : Bool := false
  reason : String
  decidedAt : Instant
deriving DecidableEq

/-- The active version of a skill. -/
structure SkillActiveVersionRow where
  skillName : String
  versionId : Uuid
  revision : Nat
  updatedAt : Instant
deriving DecidableEq

/-- Identifiers, and pairs of skill and semantic version, are unique. -/
instance : Keyed SkillVersionRecord := .ofKeys fun v => (v.id, v.skillName, v.skillVersion)

/-- A skill has one pointer. -/
instance : Keyed SkillActiveVersionRow := .ofKey (·.skillName)

instance : Keyed SkillLifecycleDecision := .ofKey (·.decisionId)

/-- The tables of skill versions, of active pointers and of recorded decisions. -/
structure SkillStore where
  versions : Table SkillVersionRecord := ∅
  pointers : Table SkillActiveVersionRow := ∅
  decisions : Table SkillLifecycleDecision := ∅
deriving DecidableEq

/-- The record one revision further. -/
def SkillVersionRecord.revised (record : SkillVersionRecord) (now : Instant) : SkillVersionRecord :=
  { record with revision := record.revision + 1, updatedAt := now }

/-- The record in another state, as a decision puts it there. -/
def SkillVersionRecord.decided (record : SkillVersionRecord) (state : SkillVersionState)
    (decision : SkillLifecycleDecision) (now : Instant) : SkillVersionRecord :=
  { record.revised now with
    state := state
    activationDecisionId := some decision.decisionId
    policyFingerprint := decision.policyFingerprint }

/-- The record written over a row: all but the identity of the row. -/
def SkillVersionRecord.over (record row : SkillVersionRecord) : SkillVersionRecord :=
  { record with id := row.id, skillName := row.skillName, skillVersion := row.skillVersion }

/-- The pointer row moved to a version. -/
def SkillActiveVersionRow.moved (versionId : Uuid) (updatedAt : Instant)
    (row : SkillActiveVersionRow) : SkillActiveVersionRow :=
  { row with versionId := versionId, revision := row.revision + 1, updatedAt := updatedAt }

namespace SkillStore

/-! ## Rows -/

/-- `_require_row`. -/
def requireRow (s : SkillStore) (versionId : Uuid) : Except Raised SkillVersionRecord :=
  require (s.versions.find (·.id = versionId)) <|
    fault .skillSelection "skill version does not exist" [("version_id", .str versionId.text)]

def pointer? (s : SkillStore) (skillName : String) : Option SkillActiveVersionRow :=
  s.pointers.find (·.skillName = skillName)

def decision? (s : SkillStore) (decisionId : Uuid) : Option SkillLifecycleDecision :=
  s.decisions.find (·.decisionId = decisionId)

/-- `_update_row`. -/
def updateRow (s : SkillStore) (record : SkillVersionRecord) : SkillStore :=
  { s with versions := s.versions.update (·.id = record.id) record.over (fun _ => rfl) }

/-- `_record_decision`. -/
def recordDecision (s : SkillStore) (decision : SkillLifecycleDecision) :
    Except Raised SkillStore := do
  let decisions ← require (s.decisions.insert decision) <|
    fault .duplicateResult "skill lifecycle decision already exists"
  return { s with decisions := decisions }

/-- `_revision_error`. -/
def revisionError (current : SkillVersionRecord) : Raised :=
  fault .revisionMismatch "skill version revision changed"
    [("observed_revision", .int current.revision)]

/-! ## Candidates and inspections -/

def registerCandidate (s : SkillStore) (record : SkillVersionRecord) :
    Except Raised (SkillVersionRecord × SkillStore) := do
  refuseIf (record.state ≠ .candidate ∨ record.inspection ≠ none) <|
    fault .skillContract "new skill version must enter as an uninspected candidate"
  match s.versions.find fun v =>
      v.skillName = record.skillName && v.skillVersion = record.skillVersion with
  | some observed =>
    refuseIf (observed ≠ record) <|
      fault .skillTrust "skill semantic version already identifies different content"
        [("skill", .str record.skillName), ("version", .str record.skillVersion)]
    return (observed, s)
  | none =>
    let versions ← require (s.versions.insert record) <|
      fault .skillTrust "skill candidate conflicts with an existing immutable version"
    return (record, { s with versions := versions })

def recordInspection (s : SkillStore) (versionId : Uuid) (inspection : SkillInspectionResult)
    (expectedRevision : Nat) (now : Instant) :
    Except Raised (SkillVersionRecord × SkillStore) := do
  let current ← s.requireRow versionId
  refuseIf (current.revision ≠ expectedRevision) (revisionError current)
  refuseIf (inspection.packageFingerprint ≠ current.packageFingerprint) <|
    fault .skillTrust "skill inspection differs from the provenance lock"
  refuseIf (current.state ∉ [.candidate, .validating, .quarantined]) <|
    fault .skillTrust "skill version state does not permit inspection"
      [("state", .str current.state.value)]
  let state := if inspection.quarantined then .quarantined else .eligible
  let updated := { current.revised now with inspection := some inspection, state := state }
  return (updated, s.updateRow updated)

/-! ## Decisions -/

/-- `_activate_pointer`: the pointer moves to the version if the decision names the version it is
at, and that one is superseded. -/
def activatePointer (s : SkillStore) (current : SkillVersionRecord)
    (decision : SkillLifecycleDecision) (now : Instant) : Except Raised SkillStore := do
  let observed := (s.pointer? current.skillName).map (·.versionId)
  refuseIf (observed ≠ decision.expectedActiveVersionId) <|
    fault .revisionMismatch "active skill version changed before activation"
      [("expected", .ofOption (decision.expectedActiveVersionId.map Uuid.text)),
        ("observed", .ofOption (observed.map Uuid.text))]
  match s.pointer? current.skillName with
  | none =>
    let pointers ← require (s.pointers.insert
      ⟨current.skillName, current.id, 1, decision.decidedAt⟩) .integrityError
    return { s with pointers := pointers }
  | some pointer =>
    let prior ← s.requireRow pointer.versionId
    let superseded := if prior.id = current.id then s
      else s.updateRow { prior.revised now with state := .superseded }
    let pointers := s.pointers.update (·.skillName = current.skillName)
      (SkillActiveVersionRow.moved current.id decision.decidedAt) (fun _ => rfl)
    return { superseded with pointers := pointers }

/-- The state a decision on an inspected version asks for. -/
def decisionTarget (inspection : SkillInspectionResult) (decision : SkillLifecycleDecision) :
    SkillVersionState :=
  if decision.disposition = .deny then .rejected
  else if inspection.quarantined ∧ ¬ decision.quarantineOverride then .quarantined
  else if decision.disposition = .requireReview then .staged
  else .active

/-- The pointer moves when the target is the active state. -/
def moveTo (s : SkillStore) (target : SkillVersionState) (current : SkillVersionRecord)
    (decision : SkillLifecycleDecision) (now : Instant) : Except Raised SkillStore :=
  if target = .active then s.activatePointer current decision now else .ok s

def decide (s : SkillStore) (decision : SkillLifecycleDecision) (now : Instant) :
    Except Raised (SkillVersionRecord × SkillStore) :=
  match s.decision? decision.decisionId with
  | some existing => do
    refuseIf (existing ≠ decision) <|
      fault .duplicateResult "skill lifecycle decision identity contains different content"
    let row ← s.requireRow decision.versionId
    return (row, s)
  | none => do
    let current ← s.requireRow decision.versionId
    let inspection ← require current.inspection <|
      fault .skillTrust "skill version cannot be decided before inspection"
    let target := decisionTarget inspection decision
    let moved ← s.moveTo target current decision now
    let updated := current.decided target decision now
    let recorded ← (moved.updateRow updated).recordDecision decision
    return (updated, recorded)

/-- The pointer is removed if it is at the version. -/
def unpoint (s : SkillStore) (current : SkillVersionRecord) : SkillStore :=
  { s with pointers :=
      if (s.pointer? current.skillName).map (·.versionId) = some current.id then
        s.pointers.keep fun p => p.skillName ≠ current.skillName
      else s.pointers }

def archive (s : SkillStore) (versionId : Uuid) (decision : SkillLifecycleDecision)
    (expectedRevision : Nat) (now : Instant) :
    Except Raised (SkillVersionRecord × SkillStore) := do
  refuseIf (decision.versionId ≠ versionId) <|
    fault .skillContract "archive decision targets another version"
  refuseIf (decision.disposition ≠ .allow) <|
    fault .authorityNotGranted "archive requires an allow decision"
  let current ← s.requireRow versionId
  refuseIf (current.revision ≠ expectedRevision) (revisionError current)
  refuseIf current.pinned <| fault .skillTrust "pinned skill version cannot be archived"
  let updated := { current.revised now with state := .archived }
  let recorded ← ((s.unpoint current).updateRow updated).recordDecision decision
  return (updated, recorded)

/-- `reactivate`; its operation is `restore` or `reset`, and only names the event. -/
def reactivate (s : SkillStore) (versionId : Uuid) (decision : SkillLifecycleDecision)
    (expectedRevision : Nat) (operation : String) (now : Instant) :
    Except Raised (SkillVersionRecord × SkillStore) := do
  refuseIf (operation ∉ ["restore", "reset"]) <|
    fault .skillContract "skill reactivation mode is invalid"
  refuseIf (decision.versionId ≠ versionId) <|
    fault .skillContract "skill reactivation decision targets another version"
  refuseIf (decision.disposition ≠ .allow) <|
    fault .authorityNotGranted "skill reactivation requires an allow decision"
  match s.decision? decision.decisionId with
  | some _ =>
    let row ← s.requireRow versionId
    return (row, s)
  | none =>
    let current ← s.requireRow versionId
    refuseIf (current.revision ≠ expectedRevision) (revisionError current)
    let inspection ← require current.inspection <|
      fault .skillTrust "skill version cannot be reactivated before inspection"
    refuseIf (inspection.quarantined ∧ ¬ decision.quarantineOverride) <|
      fault .skillTrust "quarantined skill reactivation requires explicit override authority"
    let moved ← s.activatePointer current decision now
    let updated := current.decided .active decision now
    let recorded ← (moved.updateRow updated).recordDecision decision
    return (updated, recorded)

def setPin (s : SkillStore) (versionId : Uuid) (pinned : Bool) (expectedRevision : Nat)
    (now : Instant) : Except Raised (SkillVersionRecord × SkillStore) := do
  let current ← s.requireRow versionId
  refuseIf (current.revision ≠ expectedRevision) (revisionError current)
  let updated := { current.revised now with pinned := pinned }
  return (updated, s.updateRow updated)

/-! ## Queries -/

/-- `active`: the version the pointer of a skill references. -/
def active (s : SkillStore) (skillName : String) : Except Raised (Option SkillVersionRecord) :=
  match s.pointer? skillName with
  | none => .ok none
  | some pointer => (s.requireRow pointer.versionId).map some

/-- `active_versions`, without its bound: the versions some pointer references. -/
def activeVersions (s : SkillStore) : List SkillVersionRecord :=
  s.versions.select fun v => s.pointers.rows.any fun p => p.versionId = v.id

/-! ## Operations -/

inductive Operation where
  | registerCandidate (record : SkillVersionRecord)
  | recordInspection (versionId : Uuid) (inspection : SkillInspectionResult)
    (expectedRevision : Nat) (now : Instant)
  | decide (decision : SkillLifecycleDecision) (now : Instant)
  | archive (versionId : Uuid) (decision : SkillLifecycleDecision) (expectedRevision : Nat)
    (now : Instant)
  | reactivate (versionId : Uuid) (decision : SkillLifecycleDecision) (expectedRevision : Nat)
    (operation : String) (now : Instant)
  | setPin (versionId : Uuid) (pinned : Bool) (expectedRevision : Nat) (now : Instant)

/-- What an operation returns. -/
def result (s : SkillStore) : Operation → Except Raised (SkillVersionRecord × SkillStore)
  | .registerCandidate record => s.registerCandidate record
  | .recordInspection versionId inspection revision now =>
    s.recordInspection versionId inspection revision now
  | .decide decision now => s.decide decision now
  | .archive versionId decision revision now => s.archive versionId decision revision now
  | .reactivate versionId decision revision operation now =>
    s.reactivate versionId decision revision operation now
  | .setPin versionId pinned revision now => s.setPin versionId pinned revision now

/-- The store after an operation: a refused one changes nothing. -/
def step (s : SkillStore) (op : Operation) : SkillStore := commit s (s.result op)

end SkillStore

end Mishkan
