import Mishkan.Tools.GatewayModels
import Mishkan.Workers.Models

/-!
# Execution/Sessions — the rows of execution sessions, and what settles them

A session row is written by the supervisor only.  `SessionRow.settled` is the row a settlement
leaves: its state, its exit code, the settlement of its effects and the artifacts of its output, as
`_settle_locked` computes them from the row it has read and from what it observes of the workspace.
-/

namespace Mishkan.Execution

/-! ## Requests -/

inductive SessionMode where
  | pty | job
deriving DecidableEq

inductive SessionState where
  | starting | running | ready | cancelling | settled | failed | lost | uncertain
deriving DecidableEq

/-- The states `reconcile_all` selects, and in which `status` looks for a lost process. -/
def SessionState.isLive : SessionState → Bool
  | .starting | .running | .ready | .cancelling => true
  | _ => false

/-- How a job tells that it is ready. -/
inductive ReadinessProbe where
  | processRunning
  | outputContains (value : String)
deriving DecidableEq

/-- What the supervisor keeps of a request. -/
structure SessionRequest where
  mode : SessionMode
  expectedExitCodes : List Int := [0]
  declaredPaths : List String := []
  declaredEffects : List String := []
  readiness : Option ReadinessProbe := none
  deadline : Instant
deriving DecidableEq

/-- What identifies a process across restarts of the daemon. -/
structure ProcessIdentity where
  pid : Nat
  processGroupId : Nat
  createTime : Nat
deriving DecidableEq

/-- What a settlement has seen of the workspace, and the diff it has stored. -/
structure WorkspaceEffectEvidence where
  baseFingerprint : String
  afterFingerprint : String
  changedPaths : List String
  scopeDeviations : List String
  complete : Bool
  omissions : List String
deriving DecidableEq

/-! ## Rows -/

structure SessionRow where
  request : SessionRequest
  state : SessionState
  identity : Option ProcessIdentity := none
  stdoutCursor : Nat := 0
  stderrCursor : Nat := 0
  exitCode : Option Int := none
  signal : Option Int := none
  stdoutReference : Option String := none
  stderrReference : Option String := none
  /-- The evidence of the settlement, with the reference of its diff. -/
  effectEvidence : Option (WorkspaceEffectEvidence × Option String) := none
  observedEffects : List String := []
  producedArtifacts : List String := []
  effectSettlement : Option EffectSettlement := none
  terminationCause : Option String := none
  retryable : Bool := false
  error : Option String := none
  cancellationRequested : Bool := false
  finishedAt : Option Instant := none
deriving DecidableEq

/-! ## Settlement -/

/-- What a settlement finds: the sizes and artifacts of the two spools, the effects on the
workspace, the diff it stores when there are some, and the files the session has produced.  `none`
is an inspection that raised. -/
structure Observation where
  spools : Option (Nat × Nat)
  stdoutReference : String
  stderrReference : String
  evidence : Option WorkspaceEffectEvidence
  effectDiff : Option String
  produced : Option (List String)
  now : Instant
deriving DecidableEq

/-- `_effect_settlement`: how the declared effects stand against the observed ones. -/
def settleEffects (request : SessionRequest) (evidence : WorkspaceEffectEvidence)
    (diffReference : Option String) : EffectSettlement :=
  if ¬ evidence.complete ∨ evidence.scopeDeviations ≠ []
      ∨ evidence.changedPaths ≠ [] ∧ diffReference = none then .uncertain
  else if request.declaredEffects = [] then
    if evidence.changedPaths ≠ [] then .uncertain else .absent
  else if request.declaredEffects.all (·.startsWith "filesystem.")
      ∧ request.declaredPaths ≠ [] then
    if evidence.changedPaths ≠ [] then .completed else .absent
  else .uncertain

/-- What a settlement concludes from its observation. -/
structure Conclusion where
  observedEffects : List String
  effectDiff : Option String
  producedArtifacts : List String
  evidenceError : Option String
  settlement : EffectSettlement

namespace Observation

/-- The effects that were observed, the reference of their diff, and whether that failed. -/
def effects (o : Observation) : List String × Option String × Bool :=
  match o.evidence with
  | none => ([], none, true)
  | some evidence =>
    if evidence.changedPaths = [] then ([], none, false)
    else match o.effectDiff with
      | none => ([], none, true)
      | some diff => (evidence.changedPaths.map ("filesystem.change:" ++ ·), some diff, false)

def conclude (o : Observation) (request : SessionRequest) : Conclusion :=
  let (observed, diff, failed) := o.effects
  let spoolError := if o.spools = none then some "spool_integrity_failed" else none
  let effectError := if failed then some "effect_observation_failed" else spoolError
  let error := match o.produced with
    | some _ => effectError
    | none => effectError.or (some "produced_artifact_capture_failed")
  { observedEffects := observed
    effectDiff := diff
    producedArtifacts := o.produced.getD []
    evidenceError := error
    settlement := match error, o.evidence with
      | none, some evidence => settleEffects request evidence diff
      | _, _ => .uncertain }

end Observation

inductive ExecutionStatus where
  | completed | failed | timedOut | cancelled | lost | uncertain
deriving DecidableEq

namespace SessionRow

/-- The row of a session that was just prepared. -/
def prepared (request : SessionRequest) : SessionRow where
  request := request
  state := .starting

/-- The session ends with an exit code it did not expect, or with none. -/
def failedExit (row : SessionRow) (exitCode : Option Int) : Bool :=
  match exitCode with
  | none => true
  | some code => code ∉ row.request.expectedExitCodes

/-- Why the session ended, when it was not already known. -/
def cause (row : SessionRow) (exitCode : Option Int) : Option String :=
  row.terminationCause.or <| match exitCode with
    | some code => if code < 0 then some "signal_termination" else none
    | none => none

/-- The status a settlement reports, why the session terminated, and the settlement of its
effects. -/
def outcome (row : SessionRow) (exitCode : Option Int) (c : Conclusion) :
    ExecutionStatus × Option String × EffectSettlement :=
  let cause := row.cause exitCode
  if row.state = .lost then
    (.lost, cause.or (some "pty_handle_lost"),
      if row.request.declaredEffects ≠ [] then .uncertain else c.settlement)
  else if row.state = .uncertain then
    (.uncertain, cause.or (some "process_identity_lost"), .uncertain)
  else if c.evidenceError ≠ none ∨ c.settlement = .uncertain then (.uncertain, cause, c.settlement)
  else if row.cancellationRequested then
    (if cause = some "timed_out" then .timedOut else .cancelled, cause, c.settlement)
  else if row.failedExit exitCode then (.failed, cause, c.settlement)
  else (.completed, cause, c.settlement)

/-- The terminal state of a settlement made from a row. -/
def finalState (row : SessionRow) (exitCode : Option Int) (c : Conclusion) : SessionState :=
  if row.state = .lost then .lost
  else if row.state = .uncertain then .uncertain
  else if c.evidenceError ≠ none ∨ c.settlement = .uncertain then .uncertain
  else if row.cancellationRequested then .settled
  else if row.failedExit exitCode then .failed
  else .settled

/-- What a settlement reports as the error of a session. -/
def reportedError (row : SessionRow) (exitCode : Option Int) (c : Conclusion) : Option String :=
  let (status, cause, _) := row.outcome exitCode c
  let error := if status = .completed then none else c.evidenceError.or cause
  if error = none ∧ row.failedExit exitCode then some "unexpected_exit_code" else error

/-- The row a settlement leaves: computed from the row it has read, written to the row it finds. -/
def settled (row current : SessionRow) (exitCode : Option Int) (o : Observation) : SessionRow :=
  let c := o.conclude row.request
  let (status, cause, settlement) := row.outcome exitCode c
  let (stdout, stderr) := o.spools.getD (0, 0)
  { current with
    state := row.finalState exitCode c
    exitCode := exitCode
    signal := match exitCode with
      | some code => if code < 0 then some (-code) else none
      | none => none
    stdoutCursor := stdout
    stderrCursor := stderr
    stdoutReference := some o.stdoutReference
    stderrReference := some o.stderrReference
    observedEffects := c.observedEffects
    effectEvidence := o.evidence.map (·, c.effectDiff)
    producedArtifacts := c.producedArtifacts
    effectSettlement := some settlement
    terminationCause := cause
    retryable := status = .failed ∧ settlement = .absent
    error := row.reportedError exitCode c
    finishedAt := some o.now }

/-- A settlement is finished, with the settlement of its effects and one of the four final
states. -/
theorem settled_finished (row current : SessionRow) (exitCode : Option Int) (o : Observation) :
    (row.settled current exitCode o).finishedAt = some o.now ∧
      (row.settled current exitCode o).effectSettlement ≠ none ∧
      (row.settled current exitCode o).state.isLive = false := by
  refine ⟨rfl, by simp [settled], ?_⟩
  change (row.finalState exitCode _).isLive = false
  unfold finalState
  split_ifs <;> rfl

end SessionRow

end Mishkan.Execution
