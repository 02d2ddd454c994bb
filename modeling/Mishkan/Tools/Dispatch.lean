import Mishkan.Persistence.System

/-!
# Tools/Dispatch — planned calls in flight

The half of `CapabilityGateway.invoke` that follows the authorization of a planned call: reserve the
call in the journal, mark it dispatching, run the adapter, and complete the call with what it
returned or with how it failed.  An invocation that has reserved its call is a `Flight`; any number
of them are in flight at once, and a crash loses them all and keeps the store.

`dispatches` records every run of an adapter with the settlement its own invocation completed it
with.  Nothing reads it but the properties.
-/

namespace Mishkan

open Refusal

/-- The identity of a planned call: run, task attempt and call. -/
abbrev CallKey := Uuid × String × String

def PlannedToolCallRow.call (c : PlannedToolCallRow) : CallKey :=
  (c.runId, c.taskAttemptId, c.plannedCallId)

def Reservation.call (r : Reservation) : CallKey := (r.runId, r.taskAttemptId, r.plannedCallId)

/-! ## Settlements -/

/-- The settlement a result reports in its output, if it reports one. -/
def reportedSettlement (result : ToolResultEnvelope) : Option EffectSettlement := do
  let output ← result.output
  let raw ← (Json.lookup output "effect_settlement").or (Json.lookup output "settlement")
  EffectSettlement.ofValue? (← raw.asStr?)

/-- How the effect of a returned result is settled. -/
def effectSettlement (declaredEffects : List String) (result : ToolResultEnvelope)
    (dispatchStarted : Bool) : EffectSettlement :=
  if declaredEffects = [] then .absent
  else match reportedSettlement result with
    | some settlement => settlement
    | none =>
      if result.status = .completed then .completed
      else if dispatchStarted then .uncertain else .absent

/-- The codes that say a call never reached its adapter. -/
def preDispatchCodes : List ErrorCode :=
  [.authorizationMissing, .authorityNotGranted, .policyConflict, .toolUnavailable, .toolDrift,
    .revisionMismatch]

/-- The status of a call that raised, given the status its adapter had returned. -/
def raisedStatus (code : ErrorCode) (dispatched : Option CallStatus) : CallStatus :=
  match dispatched with
  | some .cancelled => .cancelled
  | some .uncertain => .uncertain
  | _ => if code ∈ preDispatchCodes then .refused else .failed

/-! ## Invocations in flight -/

/-- An invocation that has reserved its call. -/
structure Flight where
  token : Nat
  reservation : Reservation
  dispatchStarted : Bool := false
deriving DecidableEq

/-- How an invocation in flight ends. -/
inductive Ending where
  /-- The adapter returned and the result passed validation. -/
  | returned (result : ToolResultEnvelope)
  | cancelled
  | timedOut
  /-- A failure, with the status the adapter had returned if it had. -/
  | raised (code : ErrorCode) (reason : String) (dispatched : Option CallStatus)

/-- The ending an exception is handled as; any other ends the thread. -/
def Raised.ending? (dispatched : Option CallStatus) : Raised → Option Ending
  | .mishkan error => some (.raised error.code error.message dispatched)
  | .osError => some (.raised .toolEffect "tool effect failed: OSError" dispatched)
  | .valueError _ => some (.raised .toolEffect "tool effect failed: ValueError" dispatched)
  | .timeoutError => some .timedOut
  | .integrityError | .keyError _ => none

namespace Flight

def call (f : Flight) : CallKey := f.reservation.call

/-- The two are the same invocation. -/
def same (f g : Flight) : Bool := g.call = f.call ∧ g.token = f.token

/-- The adapter of the flight begins to run. -/
def start (f g : Flight) : Flight := if f.same g then { g with dispatchStarted := true } else g

/-- The terminal result of a call that did not return one. -/
def terminal (f : Flight) (id : Uuid) (status : CallStatus) (code : ErrorCode) (reason : String) :
    ToolResultEnvelope where
  id := id
  callId := f.reservation.invocationId
  runId := f.reservation.runId
  taskAttemptId := f.reservation.taskAttemptId
  toolId := f.reservation.toolId
  toolVersion := f.reservation.toolVersion
  status := status
  errorCode := some code
  reason := reason

/-- How the effect of a call that did not return is settled. -/
def failureSettlement (f : Flight) : EffectSettlement :=
  if f.dispatchStarted ∧ f.reservation.declaredEffects ≠ [] then .uncertain else .absent

/-- What an ending completes the call with. -/
def conclusion (f : Flight) (resultId : Uuid) : Ending → ToolResultEnvelope × EffectSettlement
  | .returned result =>
    (result, effectSettlement f.reservation.declaredEffects result f.dispatchStarted)
  | .cancelled =>
    (f.terminal resultId .cancelled .toolEffect "tool call was cancelled", f.failureSettlement)
  | .timedOut =>
    (f.terminal resultId .uncertain .toolEffect "tool timeout left effect state uncertain",
      f.failureSettlement)
  | .raised code reason dispatched =>
    (f.terminal resultId (raisedStatus code dispatched) code reason, f.failureSettlement)

end Flight

/-- One run of an adapter. -/
structure Dispatch where
  token : Nat
  call : CallKey
  effectClass : EffectClass
  /-- The settlement its own invocation completed the call with. -/
  outcome : Option EffectSettlement := none
deriving DecidableEq

/-- The invocation of the flight has completed the call: record the settlement of its dispatch. -/
def Dispatch.settle (f : Flight) (settlement : EffectSettlement) (d : Dispatch) : Dispatch :=
  if d.call = f.call ∧ d.token = f.token ∧ d.outcome = none then
    { d with outcome := some settlement } else d

structure Invocations where
  store : Store := .empty
  flights : List Flight := []
  dispatches : List Dispatch := []
  drawn : Nat := 0

/-- The transaction is one of the journal of planned calls. -/
def Op.isPlannedCall : Op → Bool
  | .reservePlannedCall .. | .markPlannedCallDispatching .. | .completePlannedCall .. => true
  | _ => false

inductive InvocationOp where
  /-- Any other transaction of the store, recoveries included. -/
  | transaction (op : Op) (h : op.isPlannedCall = false)
  | reserve (r : Reservation)
  | dispatch (call : CallKey) (token : Nat) (resultId : Uuid)
  | conclude (call : CallKey) (token : Nat) (resultId : Uuid) (ending : Ending)
  /-- One invocation dies. -/
  | abandon (call : CallKey) (token : Nat)
  /-- All of them do. -/
  | crash

namespace Invocations

variable (safe : ContentInspector) (j : Invocations)

/-- The flight of a call that drew the token. -/
def flight? (call : CallKey) (token : Nat) : Option Flight :=
  j.flights.find? fun f => f.call = call ∧ f.token = token

/-- The invocation is over. -/
def land (f : Flight) : Invocations :=
  { j with flights := j.flights.filter fun g => ! f.same g }

/-- Complete the call in the journal and land. -/
def complete (f : Flight) (result : ToolResultEnvelope) (settlement : EffectSettlement) :
    Except Raised Invocations := do
  let (_, s) ← j.store.completePlannedCall safe f.reservation.invocationId
    f.reservation.requestFingerprint result settlement
  return { j.land f with store := s, dispatches := j.dispatches.map (Dispatch.settle f settlement) }

/-- Complete a call as it ended.  When the journal refuses a returned result, the refusal is handled
as a failure of the call. -/
def conclude (f : Flight) (resultId : Uuid) (ending : Ending) : Invocations :=
  let (result, settlement) := f.conclusion resultId ending
  match j.complete safe f result settlement, ending with
  | .ok j', _ => j'
  | .error raised, .returned result =>
    match raised.ending? (some result.status) with
    | none => j.land f
    | some ending =>
      let (result, settlement) := f.conclusion resultId ending
      match j.complete safe f result settlement with
      | .ok j' => j'
      | .error _ => j.land f
  | .error _, _ => j.land f

/-- The adapter of the flight begins to run. -/
def dispatched (f : Flight) (s : Store) : Invocations :=
  { j with
    store := s
    flights := j.flights.map f.start
    dispatches := j.dispatches ++ [⟨f.token, f.call, f.reservation.effectClass, none⟩] }

/-- Mark the call dispatching and run its adapter. -/
def dispatch (f : Flight) (resultId : Uuid) : Invocations :=
  match j.store.markPlannedCallDispatching f.reservation.invocationId
      f.reservation.requestFingerprint with
  | .ok (_, s) => j.dispatched f s
  | .error raised => match raised.ending? none with
    | some ending => j.conclude safe f resultId ending
    | none => j.land f

/-- Reserve a call; a replayed or refused one does not take off. -/
def reserve (r : Reservation) : Invocations :=
  match j.store.reservePlannedCall r with
  | .ok (none, s) =>
    { j with store := s, flights := j.flights ++ [⟨j.drawn, r, false⟩], drawn := j.drawn + 1 }
  | .ok (some _, s) => { j with store := s }
  | .error _ => j

/-- One event of the system. -/
def step (deployment : Deployment) (j : Invocations) : InvocationOp → Invocations
  | .transaction op _ => { j with store := Mishkan.step deployment j.store op }
  | .reserve r => j.reserve r
  | .dispatch call token resultId =>
    match j.flight? call token with
    | none => j
    | some f => if f.dispatchStarted then j else j.dispatch deployment.safe f resultId
  | .conclude call token resultId ending =>
    match j.flight? call token, ending with
    | none, _ => j
    | some f, .returned result =>
      -- only an adapter that was run returns
      if f.dispatchStarted then j.conclude deployment.safe f resultId (.returned result) else j
    | some f, ending => j.conclude deployment.safe f resultId ending
  | .abandon call token => match j.flight? call token with
    | none => j
    | some f => j.land f
  | .crash => { j with flights := [] }

end Invocations

/-! ## The property -/

/-- The dispatches of one call, in order. -/
def Invocations.dispatchesOf (j : Invocations) (call : CallKey) : List Dispatch :=
  j.dispatches.filter (·.call = call)

/-- **State-changing calls are dispatched at most once**: of any call that is not a read, every
dispatch but the last was completed by its own invocation with its effect absent. -/
def AtMostOnce (j : Invocations) : Prop :=
  ∀ d ∈ j.dispatches, d.effectClass ≠ .read →
    ∀ earlier ∈ (j.dispatchesOf d.call).dropLast, earlier.outcome = some .absent

instance (j : Invocations) : Decidable (AtMostOnce j) :=
  inferInstanceAs (Decidable (∀ d ∈ j.dispatches, _))

/-- **When at most once is kept**: a recovery finds no state-changing call dispatching that declared
no effects, and none is reserved while another invocation of it is yet to be dispatched. -/
def KeepsDispatches (j : Invocations) : InvocationOp → Prop
  | .transaction (.reconcileInterrupted runId) _ =>
      ∀ c ∈ j.store.calls, Store.isRetrySafe runId c = true → c.effectClass = .read
  | .reserve r => r.effectClass ≠ .read →
      ∀ f ∈ j.flights, f.call = r.call → f.dispatchStarted = true
  | _ => True

instance (j : Invocations) (op : InvocationOp) : Decidable (KeepsDispatches j op) := by
  unfold KeepsDispatches
  split <;> infer_instance

/-! ## Calls that are dispatched twice -/

/-- The contract of `git.push`: a remote write without an argument to declare effects in. -/
def pushContract : ToolContract where
  toolId := "git.push"
  version := "1.0.0"
  effectClass := .repositoryRemoteWrite
  adapter := "native.git.push"
  inputSchema := .obj []
  resultSchema := .obj [("type", .str "object")]
  targetScopes := ["remote", "branch"]
  targetArguments := [("remote", ["remote"]), ("branch", ["branch"])]
  credentialRefs := ["git.remote"]
  resources := { timeoutSeconds := 120, memoryMb := some 128, network := true }
  scopesDeclared := by simp

/-- A planned call of the contract that declares the effects. -/
def pushReservation (effects : List String) : Reservation where
  invocationId := 90
  runId := 1
  taskAttemptId := "build:1"
  plannedCallId := "push"
  requestFingerprint := ⟨{
    runId := 1
    taskAttemptId := "build:1"
    plannedCallId := "push"
    toolId := "git.push"
    toolVersion := "1.0.0"
    contractFingerprint := pushContract.provenanceFingerprint
    registryFingerprint := "registry"
    planFingerprint := "plan"
    policyFingerprint := "policy"
    authorizationFingerprint := ⟨{
      planFingerprint := "plan"
      identity := "developer"
      objectiveClass := "build"
      repository := "repository"
      outcome := "built"
      role := "developer"
      capability := "git.push"
      effectClass := "repository_remote_write"
      effects := effects
      remotes := ["origin"]
      branches := ["main"]
      credentials := ["git.remote"]
      resources := pushContract.resources }⟩
    arguments := .obj [("branch", .str "main"), ("remote", .str "origin")]
    declaredTargets := { remotes := ["origin"], branches := ["main"] } }⟩
  toolId := "git.push"
  toolVersion := "1.0.0"
  effectClass := .repositoryRemoteWrite
  declaredEffects := effects

def pushCall : CallKey := (1, "build:1", "push")

def pushStart : List InvocationOp :=
  [.transaction (.startOrResume 1 sampleDiscovery "build" "built") rfl]

/-- A push that declares no effects is dispatched again after a crash; and one that does is when a
second invocation reserves it before the first has dispatched it. -/
theorem push_dispatched_twice :
    ¬ AtMostOnce (Transition.run (Invocations.step sampleDeployment) {} (pushStart ++
      [.reserve (pushReservation []), .dispatch pushCall 0 70, .crash,
        .transaction (.reconcileInterrupted 1) rfl, .reserve (pushReservation []),
        .dispatch pushCall 1 71])) ∧
    ¬ AtMostOnce (Transition.run (Invocations.step sampleDeployment) {} (pushStart ++
      [.reserve (pushReservation ["remote"]), .reserve (pushReservation ["remote"]),
        .dispatch pushCall 0 70, .dispatch pushCall 1 71, .reserve (pushReservation ["remote"]),
        .dispatch pushCall 2 72])) := by
  decide

end Mishkan
