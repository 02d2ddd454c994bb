import Mishkan.Foundations.Dialogue
import Mishkan.Tools.Results

/-!
# Tools/Invocation — one call of the gateway, question by question

`CapabilityGateway.invoke` as a dialogue with its collaborators: the checks before the call has an
id, the journal of planned calls, the audit sink, the concurrency controller, the adapter and the
observation of the workspace.  Each of them may answer or raise; only the controller always answers.

The handlers of `invoke` read its local variables, so an exception is raised with them (`Thrown`).
-/

namespace Mishkan

open Dialogue

/-! ## Exceptions -/

/-- An exception, as the handlers of `invoke` tell it apart. -/
inductive Failure where
  /-- `CapabilityCancelled` -/
  | capabilityCancelled
  | raised (raised : Raised)
  /-- An exception of a type that no handler names. -/
  | other (type : String)
deriving DecidableEq

/-- The local variables the handlers read. -/
structure Locals where
  callId : Option Uuid := none
  journalReserved : Bool := false
  dispatchStarted : Bool := false
  dispatchedStatus : Option CallStatus := none
deriving DecidableEq

/-- An exception, and the local variables as it was raised. -/
structure Thrown where
  locals : Locals
  failure : Failure

/-! ## Questions -/

/-- The steps of a call that come before its reservation, in their order. -/
inductive Stage where
  | binding | inputSchema | boundCall | argumentInspection | credentialReferences
  | resolvedTargets | resolvedPathState | declaredArguments | boundTargets | operationEvidence
  | isolationProfile | envelope | plannedRequestFingerprint
deriving DecidableEq

/-- Where in a call an event is audited. -/
inductive AuditPoint where
  | replayed | authorized | started | returned | terminal
deriving DecidableEq

/-- What a comparison of two snapshots of the workspace shows. -/
structure WorkspaceEffectEvidence where
  baseFingerprint : String
  afterFingerprint : String
  changedPaths : List String
  scopeDeviations : List String
  complete : Bool
  omissions : List String

/-- What is asked of a collaborator that may raise. -/
inductive Call where
  | stage (stage : Stage)
  | evaluatePolicy
  | reservePlannedCall
  /-- Inspect the reason of an event and record it. -/
  | audit (point : AuditPoint) (eventType decision : String)
  | cancellationRequested
  | resolveCredentials
  | snapshotWorkspace
  | markPlannedCallDispatching
  /-- The resolved paths are as they were: before the adapter runs, or after it has returned. -/
  | requireResolvedPathState (returned : Bool)
  | invokeAdapter
  /-- Take the second snapshot and compare the two. -/
  | compareWorkspace
  /-- Inspect the difference and store it as an artifact. -/
  | storeWorkspaceDiff
  /-- A journal that does not raise returns the result it is given. -/
  | completePlannedCall (result : ToolResultEnvelope) (settlement : EffectSettlement)
deriving DecidableEq

def Call.Answer : Call → Type
  | .evaluatePolicy => Decision
  | .reservePlannedCall => Option ToolResultEnvelope
  | .cancellationRequested => Bool
  | .resolveCredentials => List (String × String)
  | .invokeAdapter => AdapterResult
  | .compareWorkspace => WorkspaceEffectEvidence
  | .storeWorkspaceDiff => String
  | _ => Unit

/-- Everything `invoke` asks. -/
inductive Question where
  | acquire (key : String) (limit : Nat)
  | release (key : String)
  | of (call : Call)
deriving DecidableEq

def Question.Reply : Question → Type
  | .acquire .. => Bool
  | .release _ => Unit
  | .of call => Except Failure call.Answer

abbrev Program := Dialogue Question Question.Reply Thrown

/-- Ask a collaborator; what it raises is thrown on. -/
def asking {ε : Type} (throw : Failure → ε) (call : Call) :
    Dialogue Question Question.Reply ε call.Answer :=
  .ask (.of call) fun reply => .ended (Except.mapError throw reply)

namespace Locals

def ask (l : Locals) (call : Call) : Program call.Answer := asking (⟨l, ·⟩) call

def throw {α : Type} (l : Locals) (failure : Failure) : Program α := .raise ⟨l, failure⟩

/-- Raise an error of the domain; its details do not outlast the handler. -/
def refuse {α : Type} (l : Locals) (code : ErrorCode) (message : String) : Program α :=
  l.throw (.raised (fault code message))

/-- The status of a call that raised. -/
def raisedStatus (l : Locals) (code : ErrorCode) : CallStatus :=
  let codes :=
    if l.callId = none then preDispatchCodes ++ [.toolSchema, .file, .secretContent]
    else preDispatchCodes
  match l.dispatchedStatus with
  | some .cancelled => .cancelled
  | some .uncertain => .uncertain
  | _ => if code ∈ codes then .refused else .failed

end Locals

/-! ## Invocations -/

/-- What an invocation is made with: its context, arguments and targets as far as `invoke` itself
reads them, and the collaborators that are asked nothing that could raise by itself. -/
structure Invocation where
  contract : ToolContract
  repository : String
  resources : ResourceRequest
  /-- The effects the arguments declare. -/
  effects : List String := []
  /-- The call is planned, and there is a journal of planned calls. -/
  planned : Bool := false
  /-- The arguments request the complete output as artifacts. -/
  artifactsRequested : Bool := false
  /-- The adapters there are. -/
  adapters : List String
  callId : Uuid
  /-- The ids drawn for the result of the call and for a terminal one. -/
  resultId : Uuid
  terminalId : Uuid
  runId : Uuid
  taskAttemptId : String
  resolved : ResolvedTargets := {}
  inspector : Inspection.ContentInspector
  /-- The evidence of the operation as observed before it, and what it is completed to. -/
  operationEvidence : Option (JsonObject → Except Raised JsonObject) := none
  artifactStore : Option (ArtifactCandidate → Except Raised String) := none
  /-- Validation of an output against a schema. -/
  validates : Json → JsonObject → Bool

/-- What `invoke` returns. -/
inductive Returned where
  | issued (result : ToolResultEnvelope)
  /-- The terminal result of a call that never had an id. -/
  | unissued (status : CallStatus) (code : ErrorCode) (reason : String)
deriving DecidableEq

def Returned.status : Returned → CallStatus
  | .issued result => result.status
  | .unissued status _ _ => status

namespace Invocation

variable (i : Invocation)

def concurrencyKey : String := i.repository ++ ":" ++ i.contract.toolId

/-- `adapter_config["effect_observation"]`, where it is an object. -/
def effectConfiguration? : Option JsonObject :=
  match Json.lookup i.contract.adapterConfig "effect_observation" with
  | some (.obj configuration) => some configuration
  | _ => none

/-- The workspace is observed around the adapter. -/
def observes : Bool := i.effects ≠ [] ∧ i.effectConfiguration?.isSome

/-- `str(item)`; no effect is taken to be the text of a fraction, a list or an object. -/
def itemText? : Json → Option String
  | .null => some "None"
  | .bool b => some (if b then "True" else "False")
  | .int n => some (toString n)
  | .str text => some text
  | _ => none

/-- The effects an observation can show. -/
def observableEffects : List String :=
  match i.effectConfiguration?.bind (Json.lookup · "observable_effects") with
  | some (.arr items) => items.filterMap itemText?
  | _ => []

/-! ### The observation of the workspace -/

/-- The observation accounts for every declared effect. -/
def proven (evidence : WorkspaceEffectEvidence) (reference : Option String) : Bool :=
  i.effects.all (· ∈ i.observableEffects) ∧ evidence.complete ∧ evidence.scopeDeviations = [] ∧
    (evidence.changedPaths = [] ∨ reference ≠ none)

/-- How the observation settles the effects. -/
def observedSettlement (evidence : WorkspaceEffectEvidence) (reference : Option String) :
    EffectSettlement :=
  if i.proven evidence reference then
    if evidence.changedPaths ≠ [] then .completed else .absent
  else .uncertain

/-- The status of a call whose effects were observed. -/
def observedStatus (evidence : WorkspaceEffectEvidence) (reference : Option String)
    (result : AdapterResult) : CallStatus :=
  if i.proven evidence reference then
    if Json.lookup result.output "status" = some (.str "completed") then .completed
    else if i.observedSettlement evidence reference = .absent then .failed
    else result.callStatus
  else result.callStatus

/-- The members the observation sets. -/
def observedMembers (evidence : WorkspaceEffectEvidence) (reference : Option String) :
    JsonObject :=
  [("observed_effects", .strings
      (if i.observedSettlement evidence reference = .completed then i.effects else [])),
    ("effect_settlement", .str (i.observedSettlement evidence reference).value),
    ("base_snapshot_fingerprint", .str evidence.baseFingerprint),
    ("after_snapshot_fingerprint", .str evidence.afterFingerprint),
    ("changed_paths", .strings evidence.changedPaths),
    ("scope_deviations", .strings evidence.scopeDeviations),
    ("effect_diff_artifact_ref", .ofOption reference),
    ("effect_observation_complete", .bool evidence.complete),
    ("effect_observation_omissions", .strings evidence.omissions),
    ("effect_validation", .str
      (if i.proven evidence reference then "bounded-before-after-snapshot"
        else "incomplete-or-out-of-scope"))]

/-- The result of the adapter with what was observed. -/
def observed (evidence : WorkspaceEffectEvidence) (reference : Option String)
    (result : AdapterResult) : AdapterResult :=
  let callStatus := i.observedStatus evidence reference result
  { result with
    output := (i.observedMembers evidence reference).foldl
      (fun output m => DispatchedCall.assign output m.1 m.2) result.output
    externalReferences := result.externalReferences ++ reference.toList
    callStatus := callStatus
    retryable := false
    errorCode := if callStatus = .completed then none else result.errorCode
    reason := if callStatus = .completed then
        some "command effects were verified by bounded workspace snapshots"
      else result.reason }

def applyWorkspaceEffectObservation (l : Locals) (result : AdapterResult) :
    Program AdapterResult := do
  let evidence ← l.ask .compareWorkspace
  if evidence.changedPaths ≠ [] ∧ i.artifactStore.isSome then
    let reference ← l.ask .storeWorkspaceDiff
    return i.observed evidence (some reference) result
  else
    return i.observed evidence none result

/-! ### The call -/

/-- What a decision of the policy that does not allow the call is raised as. -/
def requireAllowed (l : Locals) : Decision → Program Unit
  | .requireApproval =>
    l.refuse .authorizationMissing "capability requires matching interactive approval"
  | .deny => l.refuse .authorityNotGranted "effective policy denies the exact capability request"
  | .allow => pure ()

/-- The steps before the policy is asked. -/
def stages : List Stage :=
  [.binding, .inputSchema, .boundCall, .argumentInspection, .credentialReferences,
    .resolvedTargets] ++
  (if i.contract.effectClass = .read then [.resolvedPathState] else []) ++
  [.declaredArguments, .boundTargets, .operationEvidence, .isolationProfile]

/-- Everything that is checked before the call has an id. -/
def authorize : Program Unit := do
  let l : Locals := {}
  i.stages.forM fun stage => l.ask (.stage stage)
  requireAllowed l (← l.ask .evaluatePolicy)
  onlyIf (i.artifactsRequested ∧ i.artifactStore.isNone) <| l.refuse .toolUnavailable
    "requested complete-output artifacts require a configured artifact store"
  l.ask (.stage .envelope)

/-- The body of the inner `try`: run the adapter and observe what it did. -/
def runAdapter (l : Locals) : Program (Locals × AdapterResult) := do
  onlyIf (i.contract.effectClass = .read) (l.ask (.requireResolvedPathState false))
  let result ← l.ask .invokeAdapter
  let l := { l with dispatchedStatus := some result.callStatus }
  if i.observes then
    let result ← i.applyWorkspaceEffectObservation l result
    return ({ l with dispatchedStatus := some result.callStatus }, result)
  else
    return (l, result)

/-- From the acquired slot to its release. -/
def withSlot (l : Locals) : Program (Locals × AdapterResult) := do
  onlyIf i.observes (l.ask .snapshotWorkspace)
  onlyIf l.journalReserved (l.ask .markPlannedCallDispatching)
  let l := { l with dispatchStarted := true }
  l.ask (.audit .started "tool.call_started" "dispatching")
  (i.runAdapter l).finally_ (.ask (.release i.concurrencyKey) fun _ => pure ())

/-- What the gateway has at hand when the result of the adapter is completed. -/
def dispatchedCall (credentials : List (String × String)) : DispatchedCall where
  contract := i.contract
  resultId := i.resultId
  callId := i.callId
  runId := i.runId
  taskAttemptId := i.taskAttemptId
  resolved := i.resolved
  credentials := credentials
  inspector := i.inspector
  operationEvidence := i.operationEvidence
  artifactStore := i.artifactStore
  validates := i.validates

/-- The event of a call that returned. -/
def returnedEvent : CallStatus → String
  | .cancelled => "tool.call_cancelled"
  | .uncertain => "tool.call_uncertain"
  | .failed => "tool.call_failed"
  | .completed | .refused => "tool.call_completed"

/-- Complete a planned call in the journal. -/
def completeJournaledCall {ε : Type} (throw : Failure → ε) (l : Locals)
    (settlement : EffectSettlement) : Returned → Dialogue Question Question.Reply ε Returned
  | .issued result => do
    onlyIf l.journalReserved (asking throw (.completePlannedCall result settlement))
    return .issued result
  | .unissued status code reason => return .unissued status code reason

/-- The result block: complete the result of the adapter, audit it and settle the call. -/
def settle (l : Locals) (credentials : List (String × String)) (result : AdapterResult) :
    Program Returned := do
  onlyIf (result.actualTargets ≠ i.resolved) <| l.refuse .toolEffect
    "adapter-reported actual targets differ from the authorized targets"
  onlyIf (i.contract.effectClass = .read) (l.ask (.requireResolvedPathState true))
  match (i.dispatchedCall credentials).completeResult result with
  | .error raised => l.throw (.raised raised)
  | .ok envelope =>
    l.ask (.audit .returned (returnedEvent envelope.status) envelope.status.value)
    completeJournaledCall (⟨l, ·⟩) l
      (effectSettlement i.effects envelope.toToolResultEnvelope l.dispatchStarted)
      (.issued envelope.toToolResultEnvelope)

/-- What follows the reservation. -/
def dispatch (l : Locals) : Program Returned := do
  l.ask (.audit .authorized "tool.call_authorized" "allow")
  let requested : Bool ← l.ask .cancellationRequested
  onlyIf requested (l.throw .capabilityCancelled)
  let credentials ← l.ask .resolveCredentials
  onlyIf (i.contract.adapter ∉ i.adapters) <|
    l.refuse .toolUnavailable "bound tool adapter is unavailable"
  let acquired : Bool ← .ask (.acquire i.concurrencyKey i.resources.concurrency) pure
  if acquired then
    let (l, result) ← i.withSlot l
    i.settle l credentials result
  else
    l.refuse .toolUnavailable "capability concurrency bound is currently exhausted"

/-- The body of the outer `try`. -/
def attempt : Program Returned := do
  i.authorize
  let l : Locals := { callId := some i.callId }
  if i.planned then
    l.ask (.stage .plannedRequestFingerprint)
    match ← l.ask .reservePlannedCall with
    | some replayed =>
      l.ask (.audit .replayed "tool.call_replayed" replayed.status.value)
      return .issued replayed
    | none => i.dispatch { l with journalReserved := true }
  else i.dispatch l

/-! ### The handlers -/

def terminal (l : Locals) (status : CallStatus) (code : ErrorCode) (reason : String) : Returned :=
  match l.callId with
  | none => .unissued status code reason
  | some callId => .issued
    { id := i.terminalId
      callId := callId
      runId := i.runId
      taskAttemptId := i.taskAttemptId
      toolId := i.contract.toolId
      toolVersion := i.contract.version
      status := status
      errorCode := some code
      reason := reason }

/-- Audit a terminal result and settle the call. -/
def conclude (l : Locals) (eventType : String) (status : CallStatus) (code : ErrorCode)
    (reason : String) : Dialogue Question Question.Reply Failure Returned := do
  asking id (.audit .terminal eventType status.value)
  completeJournaledCall id l (if l.dispatchStarted ∧ i.effects ≠ [] then .uncertain else .absent)
    (i.terminal l status code reason)

/-- The event of a call that raised. -/
def failedEvent (code : ErrorCode) (status : CallStatus) : String :=
  if code = .toolSchema then "tool.schema_failed"
  else match status with
    | .cancelled => "tool.call_cancelled"
    | .uncertain => "tool.call_uncertain"
    | .refused => "tool.call_refused"
    | .completed | .failed => "tool.call_failed"

/-- `except (MishkanError, OSError, ValueError)` -/
def fail (l : Locals) (code : ErrorCode) (reason : String) :
    Dialogue Question Question.Reply Failure Returned :=
  i.conclude l (failedEvent code (l.raisedStatus code)) (l.raisedStatus code) code reason

def handler (thrown : Thrown) : Dialogue Question Question.Reply Failure Returned :=
  let l := thrown.locals
  match thrown.failure with
  | .capabilityCancelled =>
    i.conclude l "tool.call_cancelled" .cancelled .toolEffect "tool call was cancelled"
  | .raised .timeoutError =>
    i.conclude l "tool.call_timed_out" .uncertain .toolEffect
      "tool timeout left effect state uncertain"
  | .raised (.mishkan error) => i.fail l error.code error.message
  | .raised .osError => i.fail l .toolEffect "tool effect failed: OSError"
  | .raised (.valueError _) => i.fail l .toolEffect "tool effect failed: ValueError"
  | failure => .raise failure

/-- One call of the gateway, for a tool the registry has. -/
def invoke : Dialogue Question Question.Reply Failure Returned := i.attempt.handle i.handler

/-! ## What the parts of a call ask -/

variable {i} {l : Locals} {P : Question → Prop}

theorem asks_asking {ε : Type} {throw : Failure → ε} {call : Call} (h : P (.of call)) :
    (asking throw call).Asks P := ⟨h, fun _ => trivial⟩

theorem asks_ask {call : Call} (h : P (.of call)) : (l.ask call).Asks P := asks_asking h

theorem asks_refuse {α : Type} (code : ErrorCode) (message : String) :
    (l.refuse code message : Program α).Asks P := trivial

/-- The checks before the call has an id are steps and one question to the policy. -/
theorem asks_authorize (hstage : ∀ stage, P (.of (.stage stage)))
    (hpolicy : P (.of .evaluatePolicy)) : i.authorize.Asks P := by
  unfold authorize
  refine .bind (.forM fun stage _ => asks_ask (hstage stage)) fun _ => ?_
  refine .bind (asks_ask hpolicy) fun decision => ?_
  refine .bind ?_ fun _ => .bind (.onlyIf (asks_refuse _ _)) fun _ => asks_ask (hstage _)
  cases decision <;> trivial

theorem asks_runAdapter (hpath : P (.of (.requireResolvedPathState false)))
    (hadapter : P (.of .invokeAdapter)) (hcompare : P (.of .compareWorkspace))
    (hstore : P (.of .storeWorkspaceDiff)) : (i.runAdapter l).Asks P := by
  unfold runAdapter
  refine .bind (.onlyIf (asks_ask hpath)) fun _ => .bind (asks_ask hadapter) fun result => ?_
  dsimp only
  split
  · refine .bind ?_ fun _ => trivial
    unfold applyWorkspaceEffectObservation
    refine .bind (asks_ask hcompare) fun evidence => ?_
    split
    · exact .bind (asks_ask hstore) fun _ => trivial
    · trivial
  · trivial

theorem asks_completeJournaledCall {ε : Type} {throw : Failure → ε} {settlement : EffectSettlement}
    {returned : Returned}
    (h : ∀ result settlement, P (.of (.completePlannedCall result settlement))) :
    (completeJournaledCall throw l settlement returned).Asks P := by
  cases returned with
  | issued result => exact .bind (.onlyIf (asks_asking (h result settlement))) fun _ => trivial
  | unissued => trivial

theorem asks_settle {credentials : List (String × String)} {result : AdapterResult}
    (hpath : P (.of (.requireResolvedPathState true)))
    (haudit : ∀ eventType decision, P (.of (.audit .returned eventType decision)))
    (hcomplete : ∀ result settlement, P (.of (.completePlannedCall result settlement))) :
    (i.settle l credentials result).Asks P := by
  unfold settle
  refine .bind (.onlyIf (asks_refuse _ _)) fun _ => .bind (.onlyIf (asks_ask hpath)) fun _ => ?_
  split
  · trivial
  · exact .bind (asks_ask (haudit _ _)) fun _ => asks_completeJournaledCall hcomplete

theorem asks_handler {thrown : Thrown}
    (haudit : ∀ eventType decision, P (.of (.audit .terminal eventType decision)))
    (hcomplete : ∀ result settlement, P (.of (.completePlannedCall result settlement))) :
    (i.handler thrown).Asks P := by
  have hconclude : ∀ l eventType status code reason,
      (i.conclude l eventType status code reason).Asks P := fun _ _ _ _ _ =>
    .bind (asks_asking (haudit _ _)) fun _ => asks_completeJournaledCall hcomplete
  unfold handler
  dsimp only
  split
  · exact hconclude _ _ _ _ _
  · exact hconclude _ _ _ _ _
  · exact hconclude _ _ _ _ _
  · exact hconclude _ _ _ _ _
  · exact hconclude _ _ _ _ _
  · trivial

end Invocation

/-! ## A push -/

/-- An unplanned push. -/
def pushInvocation : Invocation where
  contract := pushContract
  repository := "repository"
  resources := pushContract.resources
  adapters := ["native.git.push"]
  callId := 90
  resultId := 91
  terminalId := 92
  runId := 1
  taskAttemptId := "build:1"
  inspector := ⟨"default", []⟩
  validates := fun _ _ => true

/-- Everything is granted; `audited` says what comes of an event, and `adapter` of the push. -/
def pushAnswers (audited : AuditPoint → Except Failure Unit)
    (adapter : Except Failure AdapterResult) : (call : Call) → Except Failure call.Answer
  | .audit point _ _ => audited point
  | .evaluatePolicy => .ok .allow
  | .reservePlannedCall => .ok none
  | .cancellationRequested => .ok false
  | .resolveCredentials => .ok []
  | .invokeAdapter => adapter
  | .compareWorkspace | .storeWorkspaceDiff => .error (.raised .osError)
  | .stage _ | .snapshotWorkspace | .markPlannedCallDispatching | .requireResolvedPathState _
  | .completePlannedCall .. => .ok ()

/-- The host of a push that runs alone and is audited. -/
def pushHost (adapter : Except Failure AdapterResult) : (q : Question) → q.Reply
  | .acquire .. => true
  | .release _ => ()
  | .of call => pushAnswers (fun _ => .ok ()) adapter call

end Mishkan
