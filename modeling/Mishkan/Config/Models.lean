import Mishkan.Foundations.Refusal
import Mishkan.Knowledge.Models

/-!
# Config/Models — the parts of the configuration that decide what is contacted

Credential references, MCP connections and knowledge sources, with what their validation promises: a
`KnowledgeConfig` and an `McpConfig` cannot be built without it.  A mapping is the list of its
entries, read with `List.lookup`.
-/

/-! ## Credentials -/

namespace Mishkan.Execution

inductive CredentialSource where
  | env | file | keyring | command
deriving DecidableEq

def CredentialSource.value : CredentialSource → String
  | .env => "env"
  | .file => "file"
  | .keyring => "keyring"
  | .command => "command"

/-- A late-resolution locator; never a credential value. -/
structure CredentialReference where
  source : CredentialSource
  locator : String
deriving DecidableEq

end Mishkan.Execution

/-! ## MCP connections -/

namespace Mishkan

open Execution (CredentialReference)

inductive McpTransport where
  | stdio | streamableHttp
deriving DecidableEq

structure McpConnectionConfig where
  transport : McpTransport
  credentialRefs : List CredentialReference := []
  networkProfile : Option String := none
  endpoint : Option String := none
  command : Option String := none
  isolationProfile : Option String := none
  inheritEnvironment : List String := []
  environment : List (String × CredentialReference) := []
  headers : List (String × CredentialReference) := []
  enabled : Bool := true
deriving DecidableEq

/-- An optional text that is there and not empty. -/
def isGiven (text : Option String) : Bool := text.any (· ≠ "")

/-- `transport_inputs_are_disjoint` -/
structure McpConnectionConfig.InputsDisjoint (connection : McpConnectionConfig) : Prop where
  stdio : connection.transport = .stdio →
    isGiven connection.command ∧ isGiven connection.isolationProfile ∧ connection.endpoint = none ∧
      connection.networkProfile = none ∧ connection.headers = []
  streamableHttp : connection.transport = .streamableHttp →
    connection.endpoint ≠ none ∧ isGiven connection.networkProfile ∧ connection.command = none ∧
      connection.isolationProfile = none ∧ connection.environment = [] ∧
      connection.inheritEnvironment = []
  declared : ∀ mapped ∈ connection.environment ++ connection.headers,
    mapped.2.locator ∈ connection.credentialRefs.map (·.locator)

structure McpConfig where
  connections : List (String × McpConnectionConfig) := []
  disjoint : ∀ entry ∈ connections, entry.2.InputsDisjoint

end Mishkan

/-! ## Knowledge sources -/

namespace Mishkan.Knowledge

open Execution (CredentialReference)

structure KnowledgeSourceConfig where
  enabled : Bool
  knowledgeClass : KnowledgeClass
  adapter : String
  networkProfile : Option String := none
  endpoint : Option String := none
  mcpConnection : Option String := none
  credentialRefs : List CredentialReference := []
  credentialHeader : Option String := none
  queryTimeoutSeconds : Rat := 30
  operationTimeoutSeconds : Rat := 300
deriving DecidableEq

/-- `adapter_has_exact_transport` -/
structure KnowledgeSourceConfig.ExactTransport (source : KnowledgeSourceConfig) : Prop where
  literal : source.adapter = "native.literal" →
    source.endpoint = none ∧ source.mcpConnection = none ∧ source.credentialRefs = [] ∧
      source.credentialHeader = none ∧ source.networkProfile = none
  graphify : source.adapter = "graphify.mcp" →
    source.mcpConnection ≠ none ∧ source.endpoint = none ∧ source.knowledgeClass = .structural
  http : source.adapter ≠ "native.literal" → source.adapter ≠ "graphify.mcp" →
    source.endpoint ≠ none ∧ source.mcpConnection = none ∧ source.networkProfile ≠ none
  header : source.credentialRefs ≠ [] ↔ source.credentialHeader ≠ none

/-- `source_selection_is_complete_and_compatible` -/
structure SelectionComplete (sources : List (String × KnowledgeSourceConfig))
    (order : List (KnowledgeClass × List String)) (graphRefresh : Bool) : Prop where
  unique : ∀ entry ∈ order, entry.2.Nodup
  compatible : ∀ entry ∈ order, ∀ sourceId ∈ entry.2,
    ∃ source, sources.lookup sourceId = some source ∧ source.knowledgeClass = entry.1
  selected : ∀ sourceId source, sources.lookup sourceId = some source → source.enabled →
    ∃ entry ∈ order, sourceId ∈ entry.2
  literal : ∃ sourceIds, order.lookup .literal = some sourceIds ∧
    ∃ sourceId ∈ sourceIds, ∃ source, sources.lookup sourceId = some source ∧ source.enabled
  structural : ∀ sourceIds, order.lookup .structural = some sourceIds →
    (∃ sourceId ∈ sourceIds, ∃ source, sources.lookup sourceId = some source ∧ source.enabled) →
      graphRefresh

structure KnowledgeConfig where
  sources : List (String × KnowledgeSourceConfig)
  selectionOrder : List (KnowledgeClass × List String)
  literalFallback : Bool
  graphRefresh : Bool := false
  exact : ∀ entry ∈ sources, entry.2.ExactTransport
  complete : SelectionComplete sources selectionOrder graphRefresh

namespace KnowledgeConfig

variable {config : KnowledgeConfig} {knowledgeClass : KnowledgeClass} {sourceId : String}

/-- The selection order of a class, empty when none is configured. -/
def order (config : KnowledgeConfig) (knowledgeClass : KnowledgeClass) : List String :=
  (config.selectionOrder.lookup knowledgeClass).getD []

/-- `sources[…]` -/
def source (config : KnowledgeConfig) (sourceId : String) : Except Raised KnowledgeSourceConfig :=
  Refusal.require (config.sources.lookup sourceId) (.keyError sourceId)

/-- The source is configured and enabled. -/
def isEnabled (config : KnowledgeConfig) (sourceId : String) : Bool :=
  (config.sources.lookup sourceId).any (·.enabled)

theorem mem_selectionOrder (h : sourceId ∈ config.order knowledgeClass) :
    ∃ entry ∈ config.selectionOrder, entry.1 = knowledgeClass ∧ sourceId ∈ entry.2 ∧
      entry.2 = config.order knowledgeClass := by
  unfold order at h ⊢
  cases hlookup : config.selectionOrder.lookup knowledgeClass with
  | none =>
    rw [hlookup] at h
    cases h
  | some sourceIds =>
    rw [hlookup] at h
    obtain ⟨before, after, hsplit, -⟩ := List.lookup_eq_some_iff.mp hlookup
    exact ⟨(knowledgeClass, sourceIds), hsplit ▸ List.mem_append_right _ List.mem_cons_self, rfl, h,
      rfl⟩

/-- **What is selected for a class is a source of this class.** -/
theorem lookup_of_mem_order (h : sourceId ∈ config.order knowledgeClass) :
    ∃ source, config.sources.lookup sourceId = some source ∧
      source.knowledgeClass = knowledgeClass := by
  obtain ⟨entry, hentry, rfl, hmem, -⟩ := mem_selectionOrder h
  exact config.complete.compatible entry hentry sourceId hmem

end KnowledgeConfig

end Mishkan.Knowledge
