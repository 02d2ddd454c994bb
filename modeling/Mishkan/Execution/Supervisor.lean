import Mishkan.Execution.Sessions
import Mishkan.Foundations.Pool

/-!
# Execution/Supervisor — the calls on one session, step by step

A call is a stack of frames; its next step is that of the first.  A frame is one transaction, one
probe of the process, or the wait for the lock of the session, which `cancel` and `settle` take and
`status`, the launch and the wait for readiness do not (`Frame.isLocked`).  Between two steps other
calls run, the process may exit, and the daemon may crash, which loses the calls and the process
handle.
-/

namespace Mishkan.Execution

/-! ## State -/

/-- The process of a session, as the operating system has it. -/
structure SessionProcess where
  identity : ProcessIdentity
  /-- Its exit code, once it has exited. -/
  exitCode : Option Int := none
deriving DecidableEq

/-- What the calls on a session share. -/
structure Supervisor where
  row : Option SessionRow := none
  /-- The spool directory of the session exists. -/
  spooled : Bool := false
  /-- The process handle is registered; it is lost with the daemon. -/
  handle : Bool := false
  process : Option SessionProcess := none
deriving DecidableEq

namespace Supervisor

/-- `process.poll()`: the exit code of the process, once it has exited. -/
def returncode (s : Supervisor) : Option Int := s.process.bind (·.exitCode)

/-- The process runs. -/
def alive (s : Supervisor) : Bool := s.process.any (·.exitCode = none)

/-- `_identity_matches`: the process of the recorded identity still runs. -/
def identityMatches (s : Supervisor) (row : SessionRow) : Bool :=
  row.identity ≠ none ∧ row.identity = s.process.map (·.identity) ∧ s.alive

/-- Rewrite the row of the session. -/
def rewrite (s : Supervisor) (f : SessionRow → SessionRow) : Supervisor :=
  { s with row := s.row.map f }

/-- The process exits, with a code. -/
def exit (s : Supervisor) (code : Int) : Supervisor :=
  { s with process := s.process.map fun p => { p with exitCode := p.exitCode.or (some code) } }

end Supervisor

/-! ## Calls -/

/-- One step of a call, with what the call knows by then. -/
inductive Frame where
  /-- `start`: make the spool directory. -/
  | prepare (request : SessionRequest)
  | insertRow (request : SessionRequest)
  | spawn
  | register
  | record
  /-- `_abort_start`: end the process of a launch that failed. -/
  | abort
  | markInterrupted
  | awaitReadiness (probe : ReadinessProbe)
  | updateState (state : SessionState)
  | status
  /-- `status`, with the row it has read. -/
  | poll (row : SessionRow)
  /-- `status` without a handle. -/
  | probe (row : SessionRow)
  | settle
  /-- `_settle_locked` begins. -/
  | settleRead
  | settlePoll (row : SessionRow)
  /-- The settlement of a row, and whether it was made with a process handle. -/
  | settleCommit (row : SessionRow) (exitCode : Option Int) (handled : Bool)
  | cancel (cause : String)
  /-- `_cancel_locked` begins. -/
  | cancelMark (cause : String)
  /-- So many signals are left to send. -/
  | cancelSignal (left : Nat)
  | cancelWait (left : Nat)
  | reconcile
deriving DecidableEq

/-- The lock of the session is held at this step. -/
def Frame.isLocked : Frame → Bool
  | .settleRead | .settlePoll _ | .settleCommit .. | .cancelMark _ | .cancelSignal _
  | .cancelWait _ => true
  | _ => false

/-- The step belongs to the launch of the process. -/
def Frame.isLaunching : Frame → Bool
  | .insertRow _ | .spawn | .register | .record | .abort => true
  | _ => false

/-- A call: the frames that are left of it. -/
abbrev Call := List Frame

/-- The call holds the lock of the session. -/
def Call.isLocked (call : Call) : Bool := call.any Frame.isLocked

/-- The call launches the process. -/
def Call.isLaunching (call : Call) : Bool := call.any Frame.isLaunching

/-- What the entry points are called with. -/
inductive Request where
  | start (request : SessionRequest)
  | status
  | cancel (cause : String)
  | settle
  | reconcileAll
deriving DecidableEq

/-- What a step meets. -/
structure Surroundings where
  now : Instant
  identity : ProcessIdentity
  /-- The launch fails at this step. -/
  launchFails : Bool := false
  /-- The wait for readiness is over. -/
  readinessOver : Bool := false
  /-- The output the readiness probe waits for is there. -/
  outputReady : Bool := false
  /-- The resource limit that is exceeded. -/
  resourceCause : Option String := none
  /-- Whether the output limit is reached; `none` when a spool is not intact. -/
  outputLimit : Option Bool := some false
  /-- No process took the signal. -/
  signalLost : Bool := false
  /-- The grace after a signal is over. -/
  graceOver : Bool := false
  /-- How an aborted launch ends its process. -/
  abortCode : Int := 125
  observation : Observation
deriving DecidableEq

/-- No other call holds the lock of the session. -/
def LockFree (others : List Call) : Prop := ∀ other ∈ others, other.isLocked = false

instance (others : List Call) : Decidable (LockFree others) :=
  inferInstanceAs (Decidable (∀ other ∈ others, _))

/-! ## Steps -/

/-- What follows a step, and what it leaves; `none` when the call raises. -/
abbrev Progress := Option (List Frame) × Supervisor

/-- `status` with a handle. -/
def pollStep (s : Supervisor) (around : Surroundings) (row : SessionRow) : List Frame :=
  if s.returncode = none ∧ ¬ row.cancellationRequested ∧ row.request.deadline ≤ around.now then
    [.cancel "timed_out"]
  else match (if s.returncode = none then around.resourceCause else none) with
    | some cause => [.cancel cause]
    | none =>
      if ¬ row.cancellationRequested ∧ around.outputLimit = none then [.cancel "spool_integrity"]
      else if ¬ row.cancellationRequested ∧ around.outputLimit = some true then
        [.cancel "output_limit"]
      else if s.returncode ≠ none ∧ row.state ≠ .settled ∧ row.state ≠ .failed then [.settle]
      else []

/-- `status` without a handle. -/
def probeStep (s : Supervisor) (around : Surroundings) (row : SessionRow) : List Frame :=
  if row.state.isLive then
    if row.state = .starting then [.markInterrupted, .settle]
    else if row.cancellationRequested then [.cancel (row.terminationCause.getD "cancelled")]
    else if row.request.deadline ≤ around.now then [.cancel "timed_out"]
    else match around.resourceCause, around.outputLimit with
      | some cause, _ => [.cancel cause]
      | none, none => [.cancel "spool_integrity"]
      | none, some true => [.cancel "output_limit"]
      | none, some false =>
        if row.request.mode = .pty then [.updateState .lost, .settle]
        else if ¬ s.identityMatches row then [.updateState .uncertain, .settle]
        else []
  else []

/-- The row of a launch that did not cross its release gate. -/
def SessionRow.interrupted (row : SessionRow) : SessionRow :=
  if row.finishedAt ≠ none then row
  else { row with
    state := .failed
    terminationCause := some "launch_interrupted"
    error := some "session launch did not cross its durable release gate" }

/-- The row of a session that is being cancelled. -/
def SessionRow.cancelling (row : SessionRow) (cause : String) : SessionRow :=
  { row with cancellationRequested := true, state := .cancelling, terminationCause := some cause }

/-- The row of a session whose process was recorded. -/
def SessionRow.recorded (row : SessionRow) (identity : ProcessIdentity) : SessionRow :=
  { row with identity := some identity, state := .running }

/-- One step of a call, under a profile with so many cancellation signals. -/
def Frame.step (signals : Nat) (others : List Call) (s : Supervisor) (around : Surroundings) :
    Frame → Progress
  | .prepare request =>
    if s.spooled then (none, s) else (some [.insertRow request], { s with spooled := true })
  | .insertRow request => (some [.spawn], { s with row := some (.prepared request) })
  | .spawn =>
    if around.launchFails then (some [.markInterrupted, .settle], s)
    else (some [.register], { s with process := some ⟨around.identity, none⟩ })
  | .register => (some [.record], { s with handle := true })
  | .record =>
    match s.row, s.process with
    | some row, some process =>
      if around.launchFails then (some [.abort], s)
      else
        let waits := match row.request.mode, row.request.readiness with
          | .job, some readiness => [.awaitReadiness readiness]
          | _, _ => []
        (some (waits ++ [.status]), s.rewrite (·.recorded process.identity))
    | _, _ => (some [.abort], s)
  | .abort => (some [.markInterrupted, .settle], s.exit around.abortCode)
  | .markInterrupted => (some [], s.rewrite SessionRow.interrupted)
  | .awaitReadiness readiness =>
    if around.readinessOver then (some [.cancel "cancelled"], s)
    else if s.returncode ≠ none then (some [.settle], s)
    else if readiness = .processRunning ∨ around.outputReady then (some [.updateState .ready], s)
    else (some [.awaitReadiness readiness], s)
  | .updateState state => (some [], s.rewrite fun row => { row with state := state })
  | .status =>
    match s.row with
    | none => (none, s)
    | some row => (some [.poll row], s)
  | .poll row => if s.handle then (some (pollStep s around row), s) else (some [.probe row], s)
  | .probe row => (some (probeStep s around row), s)
  | .settle => if LockFree others then (some [.settleRead], s) else (some [.settle], s)
  | .settleRead =>
    match s.row with
    | none => (none, s)
    | some row => if row.finishedAt ≠ none then (some [], s) else (some [.settlePoll row], s)
  | .settlePoll row =>
    if s.handle then
      if s.returncode = none then (some [], s)
      else (some [.settleCommit row s.returncode true], s)
    else (some [.settleCommit row row.exitCode false], s)
  | .settleCommit row exitCode _ =>
    (some [], s.rewrite fun current => row.settled current exitCode around.observation)
  | .cancel cause =>
    if LockFree others then (some [.cancelMark cause], s) else (some [.cancel cause], s)
  | .cancelMark cause =>
    match s.row with
    | none => (none, s)
    | some row =>
      if row.finishedAt ≠ none then (some [], s)
      else (some [.cancelSignal signals], s.rewrite (·.cancelling cause))
  | .cancelSignal 0 => (some [.settleRead], s)
  | .cancelSignal (left + 1) =>
    if s.row.any s.identityMatches then
      if around.signalLost then (some [.settleRead, .cancelWait left], s)
      else (some [.cancelWait left], s)
    else (some [.settleRead], s)
  | .cancelWait left =>
    if around.graceOver then (some [.cancelSignal left], s)
    else if s.row.any s.identityMatches then (some [.cancelWait left], s)
    else (some [.settleRead], s)
  | .reconcile =>
    if s.row.any (·.state.isLive) then (some [.status], s) else (some [], s)

/-- The rest of a call, if it has not ended. -/
def Call.rest : Call → Option Call
  | [] => none
  | frames => some frames

/-- The next step of a call. -/
def Call.step (signals : Nat) (others : List Call) (s : Supervisor) (around : Surroundings) :
    Call → Option Call × Supervisor
  | [] => (none, s)
  | frame :: frames =>
    match frame.step signals others s around with
    | (none, s') => (none, s')
    | (some next, s') => (Call.rest (next ++ frames), s')

/-- The frames of an entry point. -/
def Request.frames : Request → Call
  | .start request => [.prepare request]
  | .status => [.status]
  | .cancel cause => [.cancel cause]
  | .settle => [.settle]
  | .reconcileAll => [.reconcile]

/-- The calls on a session; from outside its process exits, and a crash loses its handle. -/
def supervisorProgram (signals : Nat) :
    Pool.Program Supervisor Call Request Surroundings Int where
  start s request := (some request.frames, s)
  advance others s around call := call.step signals others s around
  outside s code := s.exit code
  restart s := { s with handle := false }

/-- A session, with the calls on it. -/
abbrev Sessions := Pool Supervisor Call

abbrev Operation := Pool.Operation Request Surroundings Int

/-- Before the session is started. -/
def Sessions.none : Sessions := ⟨{}, []⟩

abbrev Sessions.step (signals : Nat) : Sessions → Operation → Sessions :=
  Pool.step (supervisorProgram signals)

end Mishkan.Execution
