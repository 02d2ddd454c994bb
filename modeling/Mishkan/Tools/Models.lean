import Mishkan.Policy.Models

/-!
# Tools/Models — atomic tool contracts, registry snapshots and task bindings

`ToolContract` keeps the fields that planning and dispatch read.  A binding records the contract it
was made from by its provenance fingerprint.
-/

namespace Mishkan

inductive EffectClass where
  | read | filesystemWrite | command | network | repositoryWrite | repositoryRemoteWrite
  | deployment | release | migration | registryLifecycle
deriving DecidableEq

structure ToolContract where
  toolId : String
  version : String
  effectClass : EffectClass
  adapter : String
  inputSchema : Json
  resultSchema : Json
  targetScopes : List String
  /-- The argument selectors of each target scope. -/
  targetArguments : List (String × List String)
  credentialRefs : List String := []
  credentialArguments : List String := []
  policyArguments : List String := []
  artifactOutputArgument : Option String := none
  resources : ResourceRequest
  adapterConfig : JsonObject := []
  operationEvidence : Bool := false
  /-- The selectors cover exactly the declared scopes. -/
  scopesDeclared : ∀ scope, scope ∈ targetArguments.map Prod.fst ↔ scope ∈ targetScopes
deriving DecidableEq

/-- A contract may declare no scopes. -/
theorem ToolContract.noScopes (scope : String) :
    scope ∈ ([] : List (String × List String)).map Prod.fst ↔ scope ∈ ([] : List String) := by
  simp

/-- The fingerprint of a contract's public content. -/
def ToolContract.provenanceFingerprint (contract : ToolContract) : Digest ToolContract := ⟨contract⟩

structure RegistrySnapshot where
  tools : List ToolContract
  fingerprint : String
deriving DecidableEq

/-- The unique contract of a tool in the snapshot. -/
def RegistrySnapshot.require (snapshot : RegistrySnapshot) (toolId : String) :
    Except Raised ToolContract :=
  match snapshot.tools.filter (·.toolId = toolId) with
  | [contract] => .ok contract
  | _ => .error (.valueError "registry snapshot does not contain exactly one tool")

structure ToolBinding where
  taskId : String
  role : String
  toolId : String
  toolVersion : String
  contractFingerprint : Digest ToolContract
  registryFingerprint : String
  allowedTargets : List String
  allowedCallFingerprints : List (Digest Json) := []
deriving DecidableEq

end Mishkan
