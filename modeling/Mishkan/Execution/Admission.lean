import Mishkan.Config.Models
import Mishkan.Execution.Sessions
import Mishkan.Tools.Results

/-!
# Execution/Admission — what the supervisor admits, and which secrets are contained

`ExecutionRequest` is a request as it is validated and written, `admission` the part of
`SessionSupervisor.start` in front of its first durable step: the guards on the request and the
inspection of its text.  What is admitted is persisted as it is, but for the values of its
environment.
-/

namespace Mishkan.Execution

open Refusal List Json Json

/-! ## Requests -/

inductive ExecutionMode where
  | process | shell | pty | job
deriving DecidableEq

def ExecutionMode.value : ExecutionMode → String
  | .process => "process"
  | .shell => "shell"
  | .pty => "pty"
  | .job => "job"

/-- What stands for a credential in an environment: a binding identifier or a typed reference. -/
inductive CredentialBinding where
  | identifier (name : String)
  | reference (reference : CredentialReference)
deriving DecidableEq

def CredentialBinding.isReference : CredentialBinding → Bool
  | .identifier _ => false
  | .reference _ => true

structure OutputPolicy where
  previewBytes : Nat
  preserveFullOutputAsArtifact : Bool := false
deriving DecidableEq

/-- A moment in UTC. -/
structure Datetime where
  year : Nat
  month : Nat
  day : Nat
  hour : Nat := 0
  minute : Nat := 0
  second : Nat := 0
  microsecond : Nat := 0
deriving DecidableEq

/-- A number with leading zeros. -/
def zeroPadded (width n : Nat) : String :=
  let digits := Nat.toDigits 10 n
  String.ofList (List.replicate (width - digits.length) '0' ++ digits)

def Datetime.isoformat (t : Datetime) : String :=
  zeroPadded 4 t.year ++ "-" ++ zeroPadded 2 t.month ++ "-" ++ zeroPadded 2 t.day ++ "T" ++
    zeroPadded 2 t.hour ++ ":" ++ zeroPadded 2 t.minute ++ ":" ++ zeroPadded 2 t.second ++
    (if t.microsecond = 0 then "" else "." ++ zeroPadded 6 t.microsecond) ++ "Z"

/-- The common execution envelope. -/
structure ExecutionRequest where
  schemaVersion : String := "1.0"
  executionId : Uuid
  mode : ExecutionMode
  cwd : String := "."
  executable : Option String := none
  args : List String := []
  script : Option String := none
  /-- The members of the shell profile. -/
  shellProfile : Option JsonObject := none
  environment : List (String × String) := []
  credentialEnvironment : List (String × CredentialBinding) := []
  credentialReferences : List CredentialReference := []
  stdin : Option String := none
  timeoutSeconds : Option Nat := none
  expectedExitCodes : List Int := [0]
  declaredPaths : List String := []
  declaredExecutables : List String := []
  networkDestinations : List String := []
  declaredEffects : List String := []
  outputPolicy : Option OutputPolicy := none
  owner : Option String := none
  runId : Option String := none
  taskId : Option String := none
  sessionProfile : Option String := none
  deadline : Option Datetime := none
  rows : Nat := 24
  columns : Nat := 80
  /-- The probe, and its timeout as a decimal fraction. -/
  readiness : Option (ReadinessProbe × Int × Nat) := none
  policyFingerprint : Option String := none
deriving DecidableEq

namespace ExecutionRequest

/-! ### Validation -/

def isAbsolute (path : String) : Prop := path.toList.head? = some '/'

instance (path : String) : Decidable (isAbsolute path) := inferInstanceAs (Decidable (_ = _))

/-- The path is relative and does not climb. -/
def isWorkspaceRelative (path : String) : Prop :=
  ¬ isAbsolute path ∧ ['.', '.'] ∉ path.toList.splitOn '/'

instance (path : String) : Decidable (isWorkspaceRelative path) :=
  inferInstanceAs (Decidable (_ ∧ _))

/-- `[A-Za-z_][A-Za-z0-9_]*` -/
def isEnvironmentName (name : String) : Prop :=
  ∃ c ∈ name.toList.head?, (c.isAlpha ∨ c = '_') ∧ ∀ d ∈ name.toList, d.isAlphanum ∨ d = '_'

instance (name : String) : Decidable (isEnvironmentName name) :=
  match h : name.toList.head? with
  | none => isFalse (by simp [isEnvironmentName, h])
  | some c =>
    decidable_of_iff ((c.isAlpha ∨ c = '_') ∧ name.toList.all fun d => d.isAlphanum ∨ d = '_')
      (by simp [isEnvironmentName, h])

/-- What the validators of the envelope ask of a request in session mode. -/
structure Valid (request : ExecutionRequest) : Prop where
  cwd : request.cwd ≠ "" ∧ isWorkspaceRelative request.cwd
  environment : ∀ m ∈ request.environment, isEnvironmentName m.1
  credentialEnvironment : ∀ m ∈ request.credentialEnvironment, isEnvironmentName m.1 ∧
    m.2.isReference = true
  disjoint : ∀ m ∈ request.environment, m.1 ∉ request.credentialEnvironment.map Prod.fst
  expectedExitCodes : request.expectedExitCodes.Nodup
  declaredPaths : request.declaredPaths.Nodup ∧
    ∀ path ∈ request.declaredPaths, path ≠ "" ∧ isWorkspaceRelative path
  declaredExecutables : request.declaredExecutables.Nodup ∧
    ∀ path ∈ request.declaredExecutables, isAbsolute path
  networkDestinations : request.networkDestinations.Nodup
  declaredEffects : request.declaredEffects.Nodup
  mode : request.mode = .pty ∧ request.readiness = none ∨
    request.mode = .job ∧ request.rows = 24 ∧ request.columns = 80
  executable : ∃ path ∈ request.executable, isAbsolute path
  operations : request.script = none ∧ request.shellProfile = none ∧ request.stdin = none
  owned : request.owner ≠ none ∧ request.runId ≠ none ∧ request.taskId ≠ none ∧
    request.sessionProfile ≠ none ∧ request.deadline ≠ none
  policyFingerprint : ∃ fingerprint ∈ request.policyFingerprint, fingerprint.length = 64
  bounds : (∀ seconds ∈ request.timeoutSeconds, 1 ≤ seconds ∧ seconds ≤ 86400) ∧
    1 ≤ request.rows ∧ request.rows ≤ 1000 ∧ 1 ≤ request.columns ∧ request.columns ≤ 4000

/-! ### The text of a request -/

def CredentialReference.toJson (reference : CredentialReference) : Json :=
  .obj [("source", .str reference.source.value), ("locator", .str reference.locator)]

def CredentialBinding.toJson : CredentialBinding → Json
  | .identifier name => .str name
  | .reference reference => CredentialReference.toJson reference

def OutputPolicy.toJson (policy : OutputPolicy) : Json :=
  .obj [("preview_bytes", .int policy.previewBytes),
    ("preserve_full_output_as_artifact", .bool policy.preserveFullOutputAsArtifact)]

def ReadinessProbe.toJson : ReadinessProbe × Int × Nat → Json
  | (.processRunning, mantissa, scale) =>
    .obj [("kind", .str "process_running"), ("value", .null),
      ("timeout_seconds", .decimal mantissa scale)]
  | (.outputContains value, mantissa, scale) =>
    .obj [("kind", .str "output_contains"), ("value", .str value),
      ("timeout_seconds", .decimal mantissa scale)]

/-- The members in front of the arguments, the first one apart. -/
def membersBefore (request : ExecutionRequest) : JsonObject :=
  [("execution_id", .str request.executionId.text),
    ("mode", .str request.mode.value),
    ("cwd", .str request.cwd),
    ("executable", ofOption request.executable)]

/-- The members behind the arguments. -/
def membersAfter (request : ExecutionRequest) : JsonObject :=
  [("script", ofOption request.script),
    ("shell_profile", (request.shellProfile.map obj).getD .null),
    ("environment", .obj (request.environment.map fun m => (m.1, .str m.2))),
    ("credential_environment",
      .obj (request.credentialEnvironment.map fun m => (m.1, CredentialBinding.toJson m.2))),
    ("credential_references",
      .arr (request.credentialReferences.map CredentialReference.toJson)),
    ("stdin", ofOption request.stdin),
    ("timeout_seconds", (request.timeoutSeconds.map fun n => int n).getD .null),
    ("expected_exit_codes", .arr (request.expectedExitCodes.map .int)),
    ("declared_paths", .strings request.declaredPaths),
    ("declared_executables", .strings request.declaredExecutables),
    ("network_destinations", .strings request.networkDestinations),
    ("declared_effects", .strings request.declaredEffects),
    ("output_policy", (request.outputPolicy.map OutputPolicy.toJson).getD .null),
    ("owner", ofOption request.owner),
    ("run_id", ofOption request.runId),
    ("task_id", ofOption request.taskId),
    ("session_profile", ofOption request.sessionProfile),
    ("deadline", ofOption (request.deadline.map Datetime.isoformat)),
    ("rows", .int request.rows),
    ("columns", .int request.columns),
    ("readiness", (request.readiness.map ReadinessProbe.toJson).getD .null),
    ("policy_fingerprint", ofOption request.policyFingerprint)]

/-- The members of a request, in the order of its fields. -/
def toJson (request : ExecutionRequest) : Json :=
  .obj (("schema_version", .str request.schemaVersion) :: (request.membersBefore ++
    ("args", .strings request.args) :: request.membersAfter))

/-- The compact layout of `model_dump_json`: only what must be is escaped. -/
def modelStyle : JsonStyle where
  ascii := false
  padding := []
  sortKeys := false

/-- `request.model_dump_json()`. -/
def modelDumpJson (request : ExecutionRequest) : List Char := request.toJson.dumps modelStyle

end ExecutionRequest

/-! ## Admission -/

/-- What the supervisor has been set up with, and what it finds on the file system. -/
structure SessionSupervisor where
  /-- The names of the configured session profiles. -/
  profiles : List String
  contentInspector : Option Inspection.ContentInspector
  /-- The directory a relative path resolves to below the workspace. -/
  sessionWorkspace : String → Except Raised String
  isFile : String → Bool

/-- A request that is admitted. -/
structure AdmittedSession where
  workspace : String
  environment : List (String × String)
  secretValues : List String
  /-- The request that is persisted. -/
  sanitizedRequest : ExecutionRequest

namespace SessionSupervisor

/-- The credential references of an environment, by name. -/
def environmentReferences (bindings : List (String × CredentialBinding)) :
    List (String × CredentialReference) :=
  bindings.filterMap fun m =>
    match m.2 with
    | .identifier _ => none
    | .reference reference => some (m.1, reference)

/-- The inspection of the request's text: it must be let through unchanged. -/
def inspectRequest (supervisor : SessionSupervisor) (request : ExecutionRequest)
    (secretValues : List String) : Except Raised Unit :=
  match supervisor.contentInspector with
  | none => .ok ()
  | some inspector => do
    let inspected ← inspector.inspect request.modelDumpJson secretValues
    refuseIf (inspected ≠ request.modelDumpJson) (fault .secretContent
      "session request requires redaction and cannot be executed faithfully")

/-- `SessionSupervisor.start` up to its first durable step. -/
def admission (supervisor : SessionSupervisor) (request : ExecutionRequest)
    (credentialValues : List (String × String)) : Except Raised AdmittedSession := do
  refuseIf (request.mode ≠ .pty ∧ request.mode ≠ .job)
    (fault .execution "session start requires PTY or job mode")
  let profile ← require request.sessionProfile (.valueError "assertion failed")
  refuseIf (profile ∉ supervisor.profiles)
    (fault .configuration "session profile does not exist")
  let workspace ← supervisor.sessionWorkspace request.cwd
  let executable ← require request.executable (.valueError "assertion failed")
  refuseIf (¬ ExecutionRequest.isAbsolute executable ∨ ¬ supervisor.isFile executable)
    (fault .execution "session executable must be an existing absolute file")
  let references := environmentReferences request.credentialEnvironment
  refuseIf (references.length ≠ request.credentialEnvironment.length)
    (fault .outputContract "session credential reference is invalid")
  let locators := (references.map Prod.snd ++ request.credentialReferences).map (·.locator)
  refuseIf (∃ locator ∈ locators, locator ∉ credentialValues.map Prod.fst)
    (fault .authorizationMissing
      "session credential references were not resolved after authorization")
  let resolved ← references.mapM fun m =>
    (require (credentialValues.lookup m.2.locator) (.keyError m.2.locator)).map (m.1, ·)
  let secretValues := credentialValues.map Prod.snd
  supervisor.inspectRequest request secretValues
  .ok
    { workspace := workspace
      environment := request.environment ++ resolved
      secretValues := secretValues
      sanitizedRequest :=
        { request with environment := request.environment.map fun m => (m.1, "[PRESENT]") } }

/-! ## What the text of a request shows -/

/-- An argument or a string of the environment contains the word. -/
def Holds (request : ExecutionRequest) (word : String) : Prop :=
  ∃ s : String, word.toList <:+: s.toList ∧
    (s ∈ request.args ∨ ∃ m ∈ request.environment, s = m.1 ∨ s = m.2)

theorem mem_texts_toJson {request : ExecutionRequest} {s : String}
    (h : s ∈ request.args ∨ ∃ m ∈ request.environment, s = m.1 ∨ s = m.2) :
    s ∈ request.toJson.texts := by
  rw [ExecutionRequest.toJson, texts, mem_memberTexts]
  rcases h with h | ⟨m, hm, h⟩
  · refine ⟨("args", .strings request.args), by simp, .inr ?_⟩
    simpa [strings, texts, mem_itemTexts] using h
  · refine ⟨("environment", .obj (request.environment.map fun m => (m.1, .str m.2))),
      by simp [ExecutionRequest.membersAfter], .inr ?_⟩
    rw [texts, mem_memberTexts]
    refine ⟨(m.1, .str m.2), mem_map.mpr ⟨m, hm, rfl⟩, ?_⟩
    simpa [texts] using h

/-- **A secret that its own escape shows** keeps every request that holds it from being admitted. -/
theorem admission_refuses {supervisor : SessionSupervisor} {request : ExecutionRequest}
    {credentialValues : List (String × String)} {secret : String}
    (hinspector : supervisor.contentInspector ≠ none)
    (hsecret : secret ∈ credentialValues.map Prod.snd) (hne : secret ≠ "")
    (hholds : Holds request secret) (hshown : secret.toList <:+: escape false secret.toList) :
    ∃ raised, supervisor.admission request credentialValues = .error raised := by
  cases hadmitted : supervisor.admission request credentialValues with
  | error raised => exact ⟨raised, rfl⟩
  | ok admitted =>
    exfalso
    simp only [admission, bind_eq_ok] at hadmitted
    obtain ⟨_, -, _, -, _, -, _, -, _, -, _, -, _, -, _, -, _, -, _, hinspect, -⟩ := hadmitted
    obtain ⟨inspector, hsome⟩ := Option.ne_none_iff_exists'.mp hinspector
    simp only [inspectRequest, hsome, bind_eq_ok] at hinspect
    obtain ⟨inspected, hinspect, -⟩ := hinspect
    refine Inspection.ContentInspector.not_exposes_of_inspect hinspect ⟨secret, hsecret, hne, ?_⟩
    obtain ⟨s, hs, hplace⟩ := hholds
    exact hshown.trans ((escape_infix_escape hs).trans
      (escape_infix_dumps ExecutionRequest.modelStyle (mem_texts_toJson hplace)))

/-! ## A request that shows nothing -/

/-- A request in session mode without arguments. -/
def baseRequest : ExecutionRequest where
  executionId := 1
  mode := .job
  executable := some "/bin/run"
  owner := some "owner"
  runId := some "run"
  taskId := some "task"
  sessionProfile := some "default"
  deadline := some { year := 2026, month := 1, day := 1 }
  policyFingerprint := some (String.ofList (List.replicate 64 'f'))

/-- The same with one argument. -/
def openRequest (s : String) : ExecutionRequest := { baseRequest with args := [s] }

theorem openRequest_valid (s : String) : (openRequest s).Valid := by
  have hvalid : baseRequest.Valid := by
    constructor <;> decide +kernel
  exact ⟨hvalid.cwd, hvalid.environment, hvalid.credentialEnvironment, hvalid.disjoint,
    hvalid.expectedExitCodes, hvalid.declaredPaths, hvalid.declaredExecutables,
    hvalid.networkDestinations, hvalid.declaredEffects, hvalid.mode, hvalid.executable,
    hvalid.operations, hvalid.owned, hvalid.policyFingerprint, hvalid.bounds⟩

/-- A supervisor whose inspector, if it has one, has no rules of its own. -/
def openSupervisor (configured : Bool) : SessionSupervisor where
  profiles := ["default"]
  contentInspector := if configured then some ⟨"open", []⟩ else none
  sessionWorkspace := .ok
  isFile := fun _ => true

/-- What stands before the argument. -/
def argumentBefore : List Char :=
  '{' :: (quote false "schema_version" ++ ':' :: (quote false "1.0" ++
    renderOpen ExecutionRequest.modelStyle baseRequest.membersBefore)) ++
    ',' :: (quote false "args" ++ [':', '[', '"'])

/-- What stands behind it. -/
def argumentAfter : List Char :=
  '"' :: ']' :: renderMembers ExecutionRequest.modelStyle baseRequest.membersAfter

theorem modelDumpJson_openRequest (s : String) : (openRequest s).modelDumpJson =
    argumentBefore ++ (escape false s.toList ++ argumentAfter) := by
  have hbefore : (openRequest s).membersBefore = baseRequest.membersBefore := rfl
  have hafter : (openRequest s).membersAfter = baseRequest.membersAfter := rfl
  rw [ExecutionRequest.modelDumpJson, dumps, if_neg (by decide), ExecutionRequest.toJson,
    render, renderMembers_append, hbefore, hafter, renderMembers]
  have hargs : render ExecutionRequest.modelStyle (.strings (openRequest s).args) =
      '[' :: '"' :: (escape false s.toList ++ ['"', ']']) := by
    simp [openRequest, strings, render, renderItems, quote,
      ExecutionRequest.modelStyle]
  have hversion : render ExecutionRequest.modelStyle (.str (openRequest s).schemaVersion) =
      quote false "1.0" := rfl
  rw [hargs, hversion]
  simp only [argumentBefore, argumentAfter, ExecutionRequest.modelStyle, append_assoc,
    cons_append, nil_append]

/-- The text around the argument escapes nothing. -/
theorem plain_around : ∀ c ∈ argumentBefore ++ argumentAfter,
    escapeChar false c = [c] ∨ c = '"' := by
  have hall : (argumentBefore ++ argumentAfter).all
      (fun c => escapeChar false c = [c] ∨ c = '"') = true := by
    decide +kernel
  simpa only [all_eq_true, decide_eq_true_eq] using hall

/-- **A request whose text shows no secret is admitted**, and so is any where nothing is
inspected. -/
theorem admission_openRequest {configured : Bool} {secret s : String}
    (hhidden : configured = true → ¬ secret.toList <:+: (openRequest s).modelDumpJson) :
    ∃ admitted, (openSupervisor configured).admission (openRequest s) [("token", secret)] =
        .ok admitted ∧ admitted.sanitizedRequest.args = [s] := by
  have hinspect : (openSupervisor configured).inspectRequest (openRequest s) [secret] = .ok () := by
    cases configured with
    | false => rfl
    | true =>
      have hthrough : Inspection.ContentInspector.inspect ⟨"open", []⟩
          (openRequest s).modelDumpJson [secret] = .ok (openRequest s).modelDumpJson := by
        refine Inspection.ContentInspector.inspect_of_not_exposes rfl ?_
        rintro ⟨s', hs', -, hshown⟩
        obtain rfl : s' = secret := mem_singleton.mp hs'
        exact hhidden rfl hshown
      simp [inspectRequest, openSupervisor, hthrough, refuseIf]
  have hworkspace : (openSupervisor configured).sessionWorkspace (openRequest s).cwd =
    .ok (openRequest s).cwd := rfl
  have hreferences : environmentReferences (openRequest s).credentialEnvironment = [] := rfl
  rw [admission, refuseIf_of_not (by simp [openRequest, baseRequest]), ok_bind,
    require_eq_ok.mpr (show (openRequest s).sessionProfile = some "default" from rfl), ok_bind,
    refuseIf_of_not (by simp [openSupervisor]), ok_bind, hworkspace, ok_bind,
    require_eq_ok.mpr (show (openRequest s).executable = some "/bin/run" from rfl), ok_bind,
    refuseIf_of_not (by simp [openSupervisor, ExecutionRequest.isAbsolute]), ok_bind]
  rw [hreferences]
  dsimp only
  rw [refuseIf_of_not (by simp [openRequest, baseRequest]), ok_bind,
    refuseIf_of_not (by simp [openRequest, baseRequest]), ok_bind]
  simp only [mapM_nil, pure, Except.pure, ok_bind, map_cons, map_nil, hinspect]
  exact ⟨_, rfl, rfl⟩

/-- **A secret without a quotation mark that its escape does not show** is in an argument of a
request that is admitted with it. -/
theorem exists_admitted {secret : String} (hne : secret ≠ "") (hquote : '"' ∉ secret.toList)
    (hhidden : ¬ secret.toList <:+: escape false secret.toList) :
    ∃ s : String, secret.toList <:+: s.toList ∧
      ¬ secret.toList <:+: (openRequest s).modelDumpJson := by
  obtain ⟨z, hz, hhead, hlast⟩ := exists_padding secret.toList
  refine ⟨padded z secret, infix_padded, fun hshown => ?_⟩
  rw [modelDumpJson_openRequest] at hshown
  -- some character of the secret is escaped, and no such character stands around the argument
  obtain ⟨c, hc, hcescape⟩ : ∃ c ∈ secret.toList, escapeChar false c ≠ [c] := by
    by_contra hplain
    push Not at hplain
    rw [escape_eq_self hplain] at hhidden
    exact hhidden (infix_refl _)
  have haround : c ∉ argumentBefore ++ argumentAfter := by
    intro hmem
    rcases plain_around c hmem with hplain | rfl
    · exact hcescape hplain
    · exact hquote hc
  rw [mem_append, not_or] at haround
  rcases infix_around_padded (escapeChar_padding hz) hhead hlast hne hshown with h | h | h
  · exact haround.1 (h.subset hc)
  · exact haround.2 (h.subset hc)
  · exact hhidden h

end SessionSupervisor

/-! ## Containment -/

/-- **No result of an adapter that holds the secret is completed** by the gateway: whatever the
call, nothing is returned, audited or journalled of it. -/
def GatewayContains (secret : String) : Prop :=
  ∀ (call : DispatchedCall) (result : AdapterResult), secret ∈ call.secretValues →
    result.Holds secret → ∃ raised, call.completeResult result = .error raised

/-- **No request that holds the secret is admitted** by a supervisor with, or without, a content
inspector. -/
def SupervisorContains (configured : Bool) (secret : String) : Prop :=
  ∀ (supervisor : SessionSupervisor) (request : ExecutionRequest)
    (credentialValues : List (String × String)),
    supervisor.contentInspector.isSome = configured → request.Valid →
    secret ∈ credentialValues.map Prod.snd → SessionSupervisor.Holds request secret →
    ∃ raised, supervisor.admission request credentialValues = .error raised

theorem supervisorContains_of_shown {secret : String} (hne : secret ≠ "")
    (hshown : secret.toList <:+: escape false secret.toList) :
    SupervisorContains true secret :=
  fun _ _ _ hconfigured _ hsecret hholds =>
    SessionSupervisor.admission_refuses (by rintro h; simp [h] at hconfigured) hsecret hne hholds
      hshown

theorem shown_of_supervisorContains {configured : Bool} {secret : String} (hne : secret ≠ "")
    (hquote : '"' ∉ secret.toList) (hcontains : SupervisorContains configured secret) :
    configured = true ∧ secret.toList <:+: escape false secret.toList := by
  -- a request that is admitted with the secret in its argument
  have hrefused : ∀ s : String, secret.toList <:+: s.toList → ¬ (configured = true →
        ¬ secret.toList <:+: (SessionSupervisor.openRequest s).modelDumpJson) := by
    intro s hs hhidden
    obtain ⟨admitted, hadmitted, -⟩ := SessionSupervisor.admission_openRequest hhidden
    obtain ⟨raised, hraised⟩ := hcontains (SessionSupervisor.openSupervisor configured)
      (SessionSupervisor.openRequest s) [("token", secret)]
      (by cases configured <;> rfl) (SessionSupervisor.openRequest_valid s)
      (mem_singleton.mpr rfl) ⟨s, hs, .inl (mem_singleton.mpr rfl)⟩
    rw [hraised] at hadmitted
    cases hadmitted
  constructor
  · by_contra hoff
    exact hrefused secret (infix_refl _) fun hon => absurd hon hoff
  · by_contra hhidden
    obtain ⟨s, hs, hunseen⟩ := SessionSupervisor.exists_admitted hne hquote hhidden
    exact hrefused s hs fun _ => hunseen

/-- **A resolved secret is contained exactly when its JSON escape shows it.**  The gateway refuses
every result that holds it just then, or when it is part of the punctuation of every result.  A
supervisor with an inspector refuses every request that holds it when its escape shows it, and, if
it has no quotation mark, only then; one without an inspector refuses nothing for it. -/
theorem secrets_contained_iff (secret : String) (hne : secret ≠ "") (configured : Bool) :
    (GatewayContains secret ↔ DispatchedCall.Shows secret) ∧
      (secret.toList <:+: escape false secret.toList → SupervisorContains true secret) ∧
      ('"' ∉ secret.toList → (SupervisorContains configured secret ↔
        configured = true ∧ secret.toList <:+: escape false secret.toList)) := by
  refine ⟨DispatchedCall.refused_iff_shows hne, supervisorContains_of_shown hne, fun hquote => ?_⟩
  constructor
  · exact shown_of_supervisorContains hne hquote
  · rintro ⟨rfl, hshown⟩
    exact supervisorContains_of_shown hne hshown

/-- A plain token is contained; a backslash inside a secret takes it out of both checks. -/
theorem secrets_contained_samples :
    (GatewayContains "token-1" ∧ SupervisorContains true "token-1") ∧
      ¬ GatewayContains "pass\\word" ∧ ¬ SupervisorContains true "pass\\word" := by
  have hplain := secrets_contained_iff "token-1" (by decide) true
  have hslash := secrets_contained_iff "pass\\word" (by decide) true
  refine ⟨⟨hplain.1.mpr (by decide +kernel), hplain.2.1 (by decide +kernel)⟩, fun h => ?_,
    fun h => ?_⟩
  · exact absurd (hslash.1.mp h) (by decide +kernel)
  · exact absurd ((hslash.2.2 (by decide +kernel)).mp h).2 (by decide +kernel)

/-- **A secret with a quotation mark crosses both boundaries**: the gateway returns the result that
holds it, and the supervisor admits the request that does, to persist it with the argument. -/
theorem secret_crosses :
    (∃ envelope, (DispatchedCall.openCall "pass\"word").completeResult
        { output := [("text", .str "pass\"word")], actualTargets := {} } = .ok envelope ∧
      envelope.output = some [("text", .str "pass\"word")]) ∧
    (SessionSupervisor.openRequest "pass\"word").Valid ∧
      ∃ admitted, (SessionSupervisor.openSupervisor true).admission
          (SessionSupervisor.openRequest "pass\"word") [("token", "pass\"word")] = .ok admitted ∧
        admitted.sanitizedRequest.args = ["pass\"word"] := by
  refine ⟨?_, SessionSupervisor.openRequest_valid _, ?_⟩
  · obtain ⟨envelope, hcomplete, houtput, -⟩ : ∃ envelope,
        (DispatchedCall.openCall "pass\"word").completeResult
          { output := [("text", .str "pass\"word")], actualTargets := {}, externalReferences := [],
            evidence := [] } = .ok envelope ∧
        envelope.output = some [("text", .str "pass\"word")] ∧ envelope.externalReferences = [] ∧
        envelope.adapterEvidence = [] :=
      DispatchedCall.completeResult_of_hidden (by decide +kernel) (by decide +kernel)
        (by decide +kernel)
    exact ⟨envelope, hcomplete, houtput⟩
  · exact SessionSupervisor.admission_openRequest fun _ => by decide +kernel

end Mishkan.Execution
