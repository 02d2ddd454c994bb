import Mishkan.Foundations.JsonText
import Mishkan.Foundations.Lines
import Mishkan.Foundations.Refusal
import Mishkan.Policy.Evaluator
import Mishkan.Tools.GatewayModels

/-!
# Edits/Git — explicit stateful effects of Git

An effect is prepared: it has to be authorized, and repository, branch, index and remote have to be
what the request expects.  Its command is run (`argv`), and it is settled from what is observed
afterwards (`settleGit`).

What the subprocesses do is given by a `GitHost`, which answers each command of the procedure.
-/

namespace Mishkan.Edits

open Refusal

inductive GitEffectMode where
  | stage | commit | push | forceWithLease | forcePush
deriving DecidableEq

namespace GitEffectMode

def value : GitEffectMode → String
  | .stage => "stage"
  | .commit => "commit"
  | .push => "push"
  | .forceWithLease => "force_with_lease"
  | .forcePush => "force_push"

/-- The modes that write to a remote repository. -/
def isRemote : GitEffectMode → Bool
  | .push | .forceWithLease | .forcePush => true
  | .stage | .commit => false

end GitEffectMode

/-! ## Requests -/

/-- The parts of an address. -/
structure SplitUrl where
  scheme : String
  username : Option String := none
  password : Option String := none
  hostname : Option String
  /-- The port, or how reading it fails. -/
  port : Except Raised (Option Nat)
  path : String
  query : String
  fragment : String

/-- The functions of the language that take addresses apart and put them together. -/
structure UrlLibrary where
  urlsplit : String → Except Raised SplitUrl
  urlunsplit : (scheme netloc path query fragment : String) → String

structure GitEffectFields where
  mode : GitEffectMode
  workspace : String
  paths : List String := []
  remote : Option String := none
  branch : Option String := none
  authorName : Option String := none
  authorEmail : Option String := none
  message : Option String := none
  expectedRemoteOid : Option String := none
  expectedHead : Option String := none
  expectedRemoteUrl : Option String := none
  credentialReference : Option String := none
  requireCleanWorktree : Bool := false
deriving DecidableEq

/-- A text that is there and not empty. -/
def truthy (text : Option String) : Bool := text.any (· ≠ "")

variable (urls : UrlLibrary)

/-- `mode_fields_are_exact` -/
def modeFieldsAreExact (request : GitEffectFields) : Except Raised Unit := do
  refuseIf (request.mode = .stage ∧ request.paths = [])
    (.valueError "Git stage requires explicit paths")
  refuseIf (request.mode = .commit ∧ ¬ (truthy request.authorName ∧ truthy request.authorEmail ∧
      truthy request.message))
    (.valueError "Git commit requires explicit author and message")
  refuseIf (request.mode = .commit ∧ request.paths = [])
    (.valueError "Git commit requires the exact staged paths")
  refuseIf (request.mode.isRemote ∧ ¬ (truthy request.remote ∧ truthy request.branch))
    (.valueError "Git push effect requires explicit remote and branch")
  refuseIf (request.mode.isRemote ∧ ¬ truthy request.expectedRemoteUrl)
    (.valueError "Git push effect requires the expected remote URL")
  refuseIf (request.mode = .forceWithLease ∧ ¬ truthy request.expectedRemoteOid)
    (.valueError "force-with-lease requires the expected remote object id")
  match request.expectedRemoteUrl with
  | none => pure ()
  | some url =>
    let parsed ← urls.urlsplit url
    refuseIf (parsed.username ≠ none ∨ parsed.password ≠ none)
      (.valueError "Git remote URL must not embed credentials")
  refuseIf (request.credentialReference ≠ none ∧ request.mode.isRemote = false)
    (.valueError "Git credentials are accepted only by remote effects")

/-- A request whose fields fit its mode. -/
structure GitEffectRequest extends GitEffectFields where
  exact : modeFieldsAreExact urls toGitEffectFields = .ok ()

/-! ## Subprocesses -/

/-- A process that has ended, with its decoded output. -/
structure CompletedProcess where
  returncode : Int
  stdout : String
  stderr : String
deriving DecidableEq

/-- How running a command turns out. -/
inductive GitOutcome where
  | completed (process : CompletedProcess)
  /-- The process was started and stopped when its time was over. -/
  | timedOut
  /-- The process has ended and its output is not UTF-8. -/
  | undecodable
  /-- The process could not be started. -/
  | notStarted
deriving DecidableEq

/-- The commands of the procedure, in its order. -/
inductive GitCall where
  | showToplevel | absoluteGitDir | showCurrent | headBefore | status | stagedNames | getUrl
  | lsRemoteBefore | effect | headAfter | lsRemoteAfter | diff | names
deriving DecidableEq

/-- What the procedure meets: its subprocesses, the paths of the workspace, the artifact store. -/
structure GitHost where
  run : GitCall → List String → GitOutcome
  /-- `Path.resolve(strict=True)`. -/
  resolveStrict : String → Except Raised String
  /-- `Path.resolve()`. -/
  resolve : String → Except Raised String
  /-- `put_bytes` of a diff: the reference of its artifact. -/
  putBytes : String → Except Raised String

def GitOutcome.result : GitOutcome → Except Raised CompletedProcess
  | .completed process => .ok process
  | .timedOut => .error .timeoutError
  | .undecodable => .error (.valueError "UnicodeDecodeError")
  | .notStarted => .error .osError

/-- `str.strip` -/
def stripped (text : String) : String := String.ofList (Lines.strip text.toList)

/-- `str.splitlines`, without the empty lines. -/
def nonemptyLines (text : String) : List String :=
  ((Lines.splitLines text.toList).map fun line =>
    String.ofList (line.rdropWhile Lines.isBreak)).filter (· ≠ "")

/-- The first word of a text. -/
def firstWord (text : String) : String :=
  String.ofList ((text.toList.dropWhile Lines.isSpace).takeWhile fun c => !Lines.isSpace c)

/-- What a revision is resolved to, if it is. -/
def revision (process : CompletedProcess) : Option String :=
  if process.returncode = 0 then some (stripped process.stdout) else none

/-- The object a listed branch points to, `none` for a branch that is not listed and for a listing
that failed. -/
def remoteOid (process : CompletedProcess) : Option String :=
  if process.returncode ≠ 0 ∨ stripped process.stdout = "" then none
  else some (firstWord process.stdout)

/-- `_required_value` -/
def requiredValue (process : CompletedProcess) (message : String) : Except Raised String := do
  let value := stripped process.stdout
  refuseIf (process.returncode ≠ 0 ∨ value = "") (fault .edit message)
  pure value

/-- A member that is a text and not empty. -/
def credentialText (members : JsonObject) (name : String) : Bool :=
  match members.lookup name with
  | some (.str value) => value ≠ ""
  | _ => false

/-- What `_run_remote` asks of a credential. -/
def checkCredential : Option String → Except Raised Unit
  | none => pure ()
  | some value =>
    match Json.loads value.toList with
    | none =>
      .error (fault .outputContract "Git credential must be a JSON username/password object")
    | some (.obj members) => do
      refuseIf (¬ (members.length = 2 ∧ (members.lookup "username").isSome ∧
          (members.lookup "password").isSome))
        (fault .outputContract "Git credential must contain only username and password")
      refuseIf (¬ (credentialText members "username" ∧ credentialText members "password"))
        (fault .outputContract "Git credential values must be text")
    | some _ =>
      .error (fault .outputContract "Git credential must contain only username and password")

variable {urls} (host : GitHost)

/-- `_run` -/
def GitHost.runGit (call : GitCall) (arguments : List String) : Except Raised CompletedProcess :=
  (host.run call arguments).result

/-- `_run_remote` -/
def GitHost.runRemote (credential : Option String) (call : GitCall) (arguments : List String) :
    Except Raised CompletedProcess := do
  checkCredential credential
  host.runGit call arguments

/-- `_redact_url` -/
def redactUrl (urls : UrlLibrary) : Option String → Except Raised (Option String)
  | none => pure none
  | some value => do
    let parsed ← urls.urlsplit value
    if parsed.username = none ∧ parsed.password = none then pure (some value)
    else
      let port ← parsed.port
      let name := parsed.hostname.getD ""
      let netloc := match port with
        | none => name
        | some port => name ++ ":" ++ toString port
      pure (some (urls.urlunsplit parsed.scheme netloc parsed.path parsed.query parsed.fragment))

/-! ## The procedure -/

/-- The caller, the policy and the approval. -/
structure GitAuthority where
  authorization : AuthorizationRequest
  policy : EffectivePolicy
  approval : Option ApprovalEvidence := none
  credentialValue : Option String := none
  now : Instant

/-- What was observed before the command is run. -/
structure GitPrepared where
  repositoryRoot : String
  gitDirectory : String
  currentBranch : Option String
  beforeRevision : Option String
  remoteUrl : Option String
  remoteBefore : Option String
  argv : List String
deriving DecidableEq

structure GitEffectResult where
  mode : GitEffectMode
  returncode : Int
  settlement : EffectSettlement
  beforeRevision : Option String
  afterRevision : Option String
  repositoryRoot : String
  gitDirectory : String
  currentBranch : Option String
  remoteUrl : Option String
  remoteRevisionBefore : Option String
  remoteRevisionAfter : Option String
  targetRevision : Option String
  validation : List String
  changedPaths : List String
  diffReference : String
  stdout : String
  stderr : String
deriving DecidableEq

variable (request : GitEffectRequest urls) (authority : GitAuthority)

/-- The request is the one that was authorized. -/
def checkAuthority : Except Raised Unit := do
  refuseIf (authority.authorization.effects ≠ ["git." ++ request.mode.value])
    (fault .authorityNotGranted "Git effect differs from the exact policy request")
  refuseIf (authority.authorization.credentials ≠ request.credentialReference.toList)
    (fault .authorityNotGranted "Git credential reference differs from the exact policy request")
  refuseIf (authority.credentialValue.isNone ≠ request.credentialReference.isNone)
    (fault .authorizationMissing "Git credential material does not match the authorized reference")
  let decision ← (evaluate authority.authorization authority.policy authority.approval
    authority.now).mapError fun refusal => fault refusal.code refusal.message
  refuseIf (decision.decision ≠ .allow)
    (fault .authorityNotGranted "Git effect is not authorized")

/-- The index holds exactly the paths to commit. -/
def checkStaged : Except Raised Unit :=
  if request.mode = .commit then do
    let staged ← host.runGit .stagedNames ["diff", "--cached", "--name-only"]
    refuseIf ((nonemptyLines staged.stdout).insertionSort (· ≤ ·) ≠
        request.paths.insertionSort (· ≤ ·))
      (fault .revisionMismatch "Git staged paths differ from the exact commit target")
  else pure ()

/-- The listing of a branch of a remote. -/
def lsRemoteArguments (remote branch : String) : List String :=
  ["ls-remote", "--heads", remote, "refs/heads/" ++ branch]

/-- The remote is the expected one, and what its branch points to. -/
def observeRemote : Except Raised (Option String × Option String) :=
  match request.remote with
  | none => pure (none, none)
  | some remote => do
    let listed ← host.runGit .getUrl ["remote", "get-url", remote]
    let remoteUrl ← requiredValue listed "Git remote identity could not be observed"
    refuseIf (some remoteUrl ≠ request.expectedRemoteUrl)
      (fault .revisionMismatch "Git remote URL differs from the authorized remote")
    let branch ← require request.branch (.valueError "AssertionError")
    let before ← host.runRemote authority.credentialValue .lsRemoteBefore
      (lsRemoteArguments remoteUrl branch)
    pure (some remoteUrl, remoteOid before)

/-- `_argv` -/
def argv : Except Raised (List String) :=
  match request.mode with
  | .stage => pure (["add", "--"] ++ request.paths)
  | .commit => do
    refuseIf (¬ (truthy request.authorName ∧ truthy request.authorEmail ∧ truthy request.message))
      (.valueError "AssertionError")
    pure ["-c", "user.name=" ++ request.authorName.getD "", "-c",
      "user.email=" ++ request.authorEmail.getD "", "commit", "-m", request.message.getD ""]
  | mode => do
    refuseIf (¬ (truthy request.remote ∧ truthy request.branch)) (.valueError "AssertionError")
    let target ← require request.expectedRemoteUrl
      (fault .authorizationMissing "Git remote effect has no immutable authorized destination")
    let branch := request.branch.getD ""
    match mode with
    | .push => pure ["push", target, branch]
    | .forceWithLease => do
      refuseIf (¬ truthy request.expectedRemoteOid) (.valueError "AssertionError")
      pure ["push", "--force-with-lease=" ++ branch ++ ":" ++ request.expectedRemoteOid.getD "",
        target, branch]
    | _ => pure ["push", "--force", target, branch]

/-- Everything before the command: what is observed, and the command. -/
def prepareGit : Except Raised GitPrepared := do
  checkAuthority request authority
  let workspace ← host.resolveStrict request.workspace
  let toplevel ← host.runGit .showToplevel ["rev-parse", "--show-toplevel"]
  let repositoryRoot ← requiredValue toplevel "Git repository root could not be observed"
  let resolvedRoot ← host.resolve repositoryRoot
  refuseIf (resolvedRoot ≠ workspace)
    (fault .authorityNotGranted "Git effect workspace is not the exact repository root")
  let directory ← host.runGit .absoluteGitDir ["rev-parse", "--absolute-git-dir"]
  let gitDirectory ← requiredValue directory "Git directory identity could not be observed"
  let branch ← host.runGit .showCurrent ["branch", "--show-current"]
  let currentBranch := if stripped branch.stdout = "" then none else some (stripped branch.stdout)
  let before ← host.runGit .headBefore ["rev-parse", "HEAD"]
  refuseIf (request.expectedHead ≠ none ∧ request.expectedHead ≠ revision before)
    (fault .revisionMismatch "Git HEAD differs from the exact base")
  refuseIf (request.branch ≠ none ∧ currentBranch ≠ request.branch)
    (fault .revisionMismatch "Git branch differs from the authorized branch")
  let status ← host.runGit .status ["status", "--porcelain=v1"]
  refuseIf (request.requireCleanWorktree ∧ status.stdout ≠ "")
    (fault .revisionMismatch "Git validation requires a clean worktree before this effect")
  checkStaged host request
  let (remoteUrl, remoteBefore) ← observeRemote host request authority
  let argv ← argv request
  pure
    { repositoryRoot := repositoryRoot
      gitDirectory := gitDirectory
      currentBranch := currentBranch
      beforeRevision := revision before
      remoteUrl := remoteUrl
      remoteBefore := remoteBefore
      argv := argv }

/-- `_evidence_arguments`: of the diff and of the names. -/
def evidenceArguments (before after remoteBefore : Option String) : List String × List String :=
  if request.mode = .stage then
    (["diff", "--cached", "--binary"], ["diff", "--cached", "--name-only"])
  else
    match (if request.mode = .commit then before else remoteBefore), after with
    | some base, some after =>
      (["diff", "--binary", base, after], ["diff", "--name-only", base, after])
    | none, some after =>
      (["show", "--format=", "--binary", after], ["show", "--format=", "--name-only", after])
    | _, none => (["diff", "--binary"], ["diff", "--name-only"])

/-- What an effect is settled as. -/
def gitSettlement (mode : GitEffectMode) (returncode : Int)
    (target remoteBefore remoteAfter : Option String) : EffectSettlement :=
  if mode.isRemote then
    if target ≠ none ∧ remoteAfter = target then .completed
    else if remoteAfter = remoteBefore then .absent
    else .uncertain
  else if returncode = 0 then .completed
  else .absent

/-- The branch of the remote after the command. -/
def observeRemoteAfter : Except Raised (Option String) :=
  if request.remote.isSome then do
    let after ← host.runRemote authority.credentialValue .lsRemoteAfter
      (lsRemoteArguments (request.expectedRemoteUrl.getD "") (request.branch.getD ""))
    pure (remoteOid after)
  else pure none

/-- The command of the effect. -/
def runEffect (prepared : GitPrepared) : Except Raised CompletedProcess :=
  if request.remote.isSome then host.runRemote authority.credentialValue .effect prepared.argv
  else host.runGit .effect prepared.argv

/-- The command and what follows it. -/
def settleGit (prepared : GitPrepared) : Except Raised GitEffectResult := do
  let completed ← runEffect host request authority prepared
  let after ← host.runGit .headAfter ["rev-parse", "HEAD"]
  let remoteAfter ← observeRemoteAfter host request authority
  let target := revision after
  let evidence := evidenceArguments request prepared.beforeRevision target prepared.remoteBefore
  let diff ← host.runGit .diff evidence.1
  let names ← host.runGit .names evidence.2
  let reference ← host.putBytes diff.stdout
  let settlement := gitSettlement request.mode completed.returncode target prepared.remoteBefore
    remoteAfter
  let remoteUrl ← redactUrl urls prepared.remoteUrl
  pure
    { mode := request.mode
      returncode := completed.returncode
      settlement := settlement
      beforeRevision := prepared.beforeRevision
      afterRevision := target
      repositoryRoot := prepared.repositoryRoot
      gitDirectory := prepared.gitDirectory
      currentBranch := prepared.currentBranch
      remoteUrl := remoteUrl
      remoteRevisionBefore := prepared.remoteBefore
      remoteRevisionAfter := remoteAfter
      targetRevision := target
      validation :=
        ["repository-root-verified", "git-directory-verified",
          if truthy request.branch then "branch-verified" else "branch-observed",
          if truthy request.remote then "remote-verified" else "remote-not-applicable",
          if settlement = .completed then "target-verified" else "target-unsettled"]
      changedPaths := (nonemptyLines names.stdout).insertionSort (· ≤ ·)
      diffReference := reference
      stdout := completed.stdout
      stderr := completed.stderr }

/-- `GovernedGitService.execute` -/
def executeGit : Except Raised GitEffectResult := do
  let prepared ← prepareGit host request authority
  settleGit host request authority prepared

end Mishkan.Edits
