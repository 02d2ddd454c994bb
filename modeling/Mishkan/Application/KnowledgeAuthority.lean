import Mathlib.Data.List.Dedup
import Mishkan.Application.Contracts
import Mishkan.Edits.Git
import Mishkan.Knowledge.Query

/-!
# Application/KnowledgeAuthority — the authority of a knowledge query, and what the query contacts

`ApplicationCommandAuthority.authorize` derives the scope of a `knowledge.query` command from the
configuration of its sources, and `KnowledgeService.query` selects sources from the same
configuration again.  `queriedSources_covers` compares the two selections, and
`query_within_authority` says that what is contacted lies in the scope that was authorized.
-/

namespace Mishkan

open Refusal Knowledge Precedence List
open Edits (SplitUrl)

/-! ## Network destinations -/

/-- The port of a URL without one. -/
def defaultPort (scheme : String) : Except Raised Nat :=
  if scheme = "https" then .ok 443
  else if scheme = "http" then .ok 80
  else .error (.valueError "non-HTTP network destination requires an explicit port")

/-- `_network_destination` -/
def networkDestination (urlsplit : String → Except Raised SplitUrl) (endpoint : String) :
    Except Raised String := do
  let parsed ← urlsplit endpoint
  let hostname ← require (parsed.hostname.filter fun _ => parsed.scheme ≠ "")
    (.valueError "network destination must be an absolute URL")
  let given ← parsed.port
  let port ← given.elim (defaultPort parsed.scheme) .ok
  return parsed.scheme ++ "://" ++ hostname ++ ":" ++ toString port

/-- The texts of a set, in order. -/
def sortedSet (texts : List String) : List String := texts.dedup.insertionSort (· ≤ ·)

theorem mem_sortedSet {texts : List String} {text : String} :
    text ∈ sortedSet texts ↔ text ∈ texts := by
  rw [sortedSet, mem_insertionSort, mem_dedup]

/-! ## The scope of a source -/

/-- What a command is authorized from: the configuration, the policy and the workspace. -/
structure ApplicationCommandAuthority where
  knowledge : Option KnowledgeConfig
  mcp : Option McpConfig
  workspace : String
  policy : EffectivePolicy

/-- The functions of the libraries: the parts of a URL, the identity a text writes, the validation
of a query, and the text of a fingerprint. -/
structure AuthorityLibraries where
  urlsplit : String → Except Raised SplitUrl
  uuid : String → Option Uuid
  validateQuery : Json → Except Raised KnowledgeQuery
  hexdigest : Digest ApplicationCommand → String

namespace ApplicationCommandAuthority

section

variable (authority : ApplicationCommandAuthority) (libraries : AuthorityLibraries)

/-- `_configured_mcp_connection` -/
def configuredMcpConnection (connectionId : String) : Except Raised McpConnectionConfig := do
  let mcp ← require authority.mcp (fault .mcp "MCP mediation is not configured")
  require ((mcp.connections.lookup connectionId).filter (·.enabled))
    (fault .mcp "MCP connection is not enabled")

/-- The destination of an endpoint, if there is one. -/
def destinations (endpoint : Option String) : Except Raised (List String) :=
  endpoint.toList.mapM (networkDestination libraries.urlsplit)

/-- The credentials and destinations a source has through its connection. -/
def connectionScope (connectionId : Option String) :
    Except Raised (List String × List String) :=
  match connectionId with
  | none => .ok ([], [])
  | some connectionId => do
    let connection ← authority.configuredMcpConnection connectionId
    let destinations ← destinations libraries connection.endpoint
    return (connection.credentialRefs.map (·.locator), destinations)

/-- `_knowledge_source_scope` -/
def knowledgeSourceScope (sourceId : String) :
    Except Raised (List String × List String × Int) := do
  let knowledge ← require authority.knowledge
    (fault .requiredDependency "knowledge capability is not configured")
  let source ← require ((knowledge.sources.lookup sourceId).filter (·.enabled))
    (fault .toolUnavailable "knowledge source is unavailable")
  let own ← destinations libraries source.endpoint
  let (credentials, destinations) ← authority.connectionScope libraries source.mcpConnection
  return (sortedSet (source.credentialRefs.map (·.locator) ++ credentials),
    sortedSet (own ++ destinations), source.operationTimeoutSeconds.ceil)

end

end ApplicationCommandAuthority

/-! ## The sources of a query -/

/-- The query may fall back on literal sources. -/
def mayFallBack (knowledge : KnowledgeConfig) (query : KnowledgeQuery) : Bool :=
  knowledge.literalFallback && query.knowledgeClass.fallsBack && query.scope.repository.isSome

/-- One turn of `source_ids.extend`: a literal source that is enabled and not there yet. -/
def extendSource (knowledge : KnowledgeConfig) (sourceIds : List String) (item : String) :
    Except Raised (List String) :=
  if item ∈ sourceIds then .ok sourceIds
  else do
    let source ← knowledge.source item
    return if source.enabled then sourceIds ++ [item] else sourceIds

/-- The sources of the first pass, as `authorize` chooses them. -/
def chosenSources (knowledge : KnowledgeConfig) (query : KnowledgeQuery) :
    Except Raised (List String) :=
  if query.preferredSources ≠ [] then .ok query.preferredSources
  else
    keepIf (fun item => (knowledge.source item).map (·.enabled))
      (knowledge.order query.knowledgeClass)

/-- The sources `authorize` derives authority for. -/
def queriedSources (knowledge : KnowledgeConfig) (query : KnowledgeQuery) :
    Except Raised (List String) := do
  let chosen ← chosenSources knowledge query
  if mayFallBack knowledge query then
    (knowledge.order .literal).foldlM (extendSource knowledge) chosen
  else .ok chosen

/-- The check of a source, and its configuration. -/
def selectSource (knowledge : KnowledgeConfig) (query : KnowledgeQuery) (sourceId : String) :
    Except Raised KnowledgeSourceConfig := do
  let source ← require ((knowledge.sources.lookup sourceId).filter (·.enabled))
    (.valueError "knowledge query references an unavailable source")
  refuseIf (source.knowledgeClass ≠ query.knowledgeClass ∧
      ¬ (source.knowledgeClass = .literal ∧ mayFallBack knowledge query))
    (.valueError "knowledge query references an incompatible source")
  return source

/-! ## Commands -/

/-- What a command type promises of its commands. -/
structure CommandContract where
  targetType : String
  required : List String
  optional : List String := []

/-- The contract of `knowledge.query`; its target is a UUID. -/
def knowledgeQueryContract : CommandContract where
  targetType := "knowledge_query"
  required := ["query"]

/-- `_validate_envelope`, for a command whose target is a UUID. -/
def validateEnvelope (libraries : AuthorityLibraries) (contract : CommandContract)
    (command : ApplicationCommand) : Except Raised String := do
  refuseIf (command.targetType ≠ contract.targetType) <|
    fault .outputContract "application command target type differs from its public contract"
      [("command_type", .str command.commandType), ("target_type", .str contract.targetType)]
  let targetId ← require command.targetId <|
    fault .outputContract "command target identity is required"
  let _ ← require (libraries.uuid targetId) <|
    fault .outputContract "command target identity must be a UUID"
  let received := command.payload.map (·.1)
  refuseIf (¬ contract.required ⊆ received ∨ ¬ received ⊆ contract.required ++ contract.optional) <|
    fault .outputContract "application command payload fields differ from its public contract"
      [("command_type", .str command.commandType),
        ("required_fields", .arr ((sortedSet contract.required).map .str)),
        ("optional_fields", .arr ((sortedSet contract.optional).map .str)),
        ("received_fields", .arr ((sortedSet received).map .str))]
  return targetId

structure AuthorizedApplicationCommand where
  command : ApplicationCommand
  request : AuthorizationRequest
  decision : AuthorizationDecision
  knowledgeQuery : Option KnowledgeQuery := none

/-- The exceptions that say a payload does not match, translated. -/
def translated (command : ApplicationCommand) (error : Raised) : Raised :=
  match error with
  | .keyError _ | .valueError _ =>
    fault .outputContract "application command payload does not match its authorization contract"
      [("command_type", .str command.commandType)]
  | error => error

/-- A refusal of the policy, as it is raised. -/
def PolicyRefusal.raised (refusal : PolicyRefusal) : Raised :=
  fault refusal.code refusal.message <|
    match refusal with
    | .conflict _ rules decisions =>
      [("rules", .arr (rules.map .str)), ("decisions", .arr (decisions.map .str))]
    | .approvalMismatch _ => []

/-- What a query is to be authorized for. -/
structure QueryAuthority where
  query : KnowledgeQuery
  paths : List String
  credentials : List String
  networkDestinations : List String
  externalResources : List String
  usesNetwork : Bool

namespace ApplicationCommandAuthority

section

variable (authority : ApplicationCommandAuthority) (libraries : AuthorityLibraries)

/-- The resources of a query. -/
def queryResources (query : KnowledgeQuery) (sourceIds : List String) : List String :=
  keepFirst id (("knowledge-project:" ++ query.scope.projectId) ::
      ("knowledge-class:" ++ query.knowledgeClass.value) ::
      sourceIds.map ("knowledge-source:" ++ ·)) ++
    query.scope.repository.elim [] fun repository =>
      ["repository:" ++ repository.repositoryId, "repository-revision:" ++ repository.revision]

/-- The branch of `authorize` for `knowledge.query`. -/
def queryAuthority (targetId : String) (command : ApplicationCommand) :
    Except Raised QueryAuthority := do
  let payload ← require (Json.lookup command.payload "query") (.keyError "query")
  let query ← libraries.validateQuery payload
  refuseIf (targetId ≠ query.queryId.text) <|
    .valueError "knowledge query target differs from its identity"
  let knowledge ← require authority.knowledge <|
    fault .requiredDependency "knowledge capability is not configured"
  let sourceIds ← queriedSources knowledge query
  let selected ← sourceIds.mapM (selectSource knowledge query)
  let scopes ← sourceIds.mapM (authority.knowledgeSourceScope libraries)
  let networkDestinations := sortedSet (scopes.flatMap (·.2.1))
  return { query := query
           paths := if query.scope.repository.isSome then [authority.workspace] else []
           credentials := sortedSet (scopes.flatMap (·.1))
           networkDestinations := networkDestinations
           externalResources := queryResources query sourceIds
           usesNetwork := networkDestinations ≠ [] || selected.any (·.mcpConnection.isSome) }

/-- The request a query is decided by. -/
def queryRequest (command : ApplicationCommand) (scope : QueryAuthority) :
    AuthorizationRequest where
  planFingerprint := libraries.hexdigest command.fingerprint
  identity := command.actorId
  objectiveClass := "application-command"
  repository := authority.workspace
  outcome := command.commandType
  role := "application-client"
  capability := "application.knowledge.query"
  effectClass := "read"
  effects := ["knowledge.query"]
  paths := scope.paths
  arguments := [command.commandType]
  networkDestinations := scope.networkDestinations
  credentials := scope.credentials
  externalResources := scope.externalResources
  resources :=
    { timeoutSeconds := max 1 (min scope.query.deadlineSeconds.ceil.toNat 86400)
      network := scope.usesNetwork }

/-- `authorize`; a command of another type is authorized by `others`. -/
def authorize (others : ApplicationCommand → Except Raised AuthorizedApplicationCommand)
    (command : ApplicationCommand) (now : Instant) :
    Except Raised AuthorizedApplicationCommand :=
  if command.commandType ≠ "knowledge.query" then others command
  else do
    let targetId ← validateEnvelope libraries knowledgeQueryContract command
    let scope ← (authority.queryAuthority libraries targetId command).mapError (translated command)
    let request := authority.queryRequest libraries command scope
    let decision ← (evaluate request authority.policy none now).mapError PolicyRefusal.raised
    return { command := command
             request := request
             decision := decision
             knowledgeQuery := some scope.query }

end

end ApplicationCommandAuthority

/-! ## The two selections -/

section Selection

variable {knowledge : KnowledgeConfig} {query : KnowledgeQuery} {service : KnowledgeService}
  {sourceIds chosen selected items : List String} {sourceId : String}

/-- **What a turn of the extension leaves**: what was there, and its source if it is enabled. -/
theorem extendSource_spec {extended : List String}
    (h : extendSource knowledge chosen sourceId = .ok extended) :
    chosen ⊆ extended ∧ (knowledge.isEnabled sourceId → sourceId ∈ extended) := by
  unfold extendSource at h
  split at h
  · rename_i hmem
    obtain rfl := Except.ok.inj h
    exact ⟨List.Subset.refl _, fun _ => hmem⟩
  · obtain ⟨source, hsource, hresult⟩ := bind_eq_ok.mp h
    have hlookup := require_eq_ok.mp hsource
    obtain rfl := pure_eq_ok.mp hresult
    by_cases henabled : source.enabled
    · rw [if_pos henabled]
      exact ⟨subset_append_left _ _, fun _ => mem_append_right _ mem_cons_self⟩
    · rw [if_neg henabled]
      refine ⟨List.Subset.refl _, fun h => absurd ?_ henabled⟩
      simpa [KnowledgeConfig.isEnabled, hlookup] using h

theorem extendSources_spec (h : items.foldlM (extendSource knowledge) chosen = .ok sourceIds) :
    chosen ⊆ sourceIds ∧ ∀ item ∈ items, knowledge.isEnabled item → item ∈ sourceIds := by
  induction items generalizing chosen with
  | nil =>
    cases h
    exact ⟨List.Subset.refl _, fun _ h => nomatch h⟩
  | cons item items ih =>
    obtain ⟨extended, hturn, hrest⟩ := bind_eq_ok.mp h
    obtain ⟨hkept, hitem⟩ := extendSource_spec hturn
    obtain ⟨hsubset, hitems⟩ := ih hrest
    refine ⟨List.Subset.trans hkept hsubset, fun other hother henabled => ?_⟩
    rcases mem_cons.mp hother with rfl | hother
    · exact hsubset (hitem henabled)
    · exact hitems other hother henabled

/-- **What authority is derived for**: the sources of the first pass, and every enabled literal
source where the query may fall back. -/
theorem queriedSources_spec (h : queriedSources knowledge query = .ok sourceIds) :
    ∃ chosen, chosenSources knowledge query = .ok chosen ∧ chosen ⊆ sourceIds ∧
      (mayFallBack knowledge query → ∀ item ∈ knowledge.order .literal,
        knowledge.isEnabled item → item ∈ sourceIds) := by
  obtain ⟨chosen, hchosen, hrest⟩ := bind_eq_ok.mp h
  split at hrest
  · obtain ⟨hsubset, hitems⟩ := extendSources_spec hrest
    exact ⟨chosen, hchosen, hsubset, fun _ => hitems⟩
  · rename_i hnot
    obtain rfl := Except.ok.inj hrest
    exact ⟨_, hchosen, List.Subset.refl _, fun h => absurd h hnot⟩

/-- The order of the service is the choice of `authorize`, where it is not refused. -/
theorem sourceOrder_eq_chosenSources (h : service.sourceOrder query = .ok selected) :
    chosenSources service.config query = .ok selected := by
  unfold KnowledgeService.sourceOrder at h
  unfold chosenSources
  split at h
  · rename_i hpreferred
    obtain ⟨invalid, -, -, -, hresult⟩ := by simpa only [bind_eq_ok] using h
    rw [if_pos hpreferred, pure_eq_ok.mp hresult]
  · rename_i hpreferred
    rw [if_neg hpreferred, ← h]
    rfl

/-- A literal source of the fallback is enabled, and not selected yet. -/
theorem mem_fallbackSources (h : service.fallbackSources selected = .ok items)
    (hmem : sourceId ∈ items) :
    sourceId ∈ service.config.order .literal ∧ service.config.isEnabled sourceId := by
  obtain ⟨literal, hliteral, hkept⟩ := bind_eq_ok.mp h
  obtain ⟨-, rfl⟩ := keepIf_eq_ok.mp hkept
  obtain ⟨hfiltered, henabled⟩ := mem_filter.mp hmem
  refine ⟨?_, ?_⟩
  · rw [KnowledgeConfig.order, require_eq_ok.mp hliteral]
    exact (mem_filter.mp hfiltered).1
  · unfold KnowledgeConfig.isEnabled
    cases hlookup : service.config.sources.lookup sourceId with
    | none =>
      simp [KnowledgeService.sourceEnabled, KnowledgeConfig.source, hlookup, require] at henabled
    | some source =>
      simpa [KnowledgeService.sourceEnabled, KnowledgeConfig.source, hlookup, require] using
        henabled

/-- **What a query contacts is what authority is derived for.** -/
theorem queriedSources_covers {surroundings : QuerySurroundings} {call : AdapterCall}
    (h : queriedSources service.config query = .ok sourceIds)
    (hcall : call ∈ (service.query surroundings query).1) : call.sourceId ∈ sourceIds := by
  obtain ⟨chosen, hchosen, hsubset, hliteral⟩ := queriedSources_spec h
  obtain ⟨-, selected, hselected, hmem | ⟨hallowed, items, hitems, hmem⟩⟩ := query_contacted hcall
  · rw [sourceOrder_eq_chosenSources hselected] at hchosen
    exact hsubset (Except.ok.inj hchosen ▸ hmem)
  · obtain ⟨horder, henabled⟩ := mem_fallbackSources hitems hmem
    refine hliteral ?_ _ horder henabled
    simp only [KnowledgeService.literalFallbackAllowed, Bool.and_eq_true] at hallowed
    simp only [mayFallBack, Bool.and_eq_true]
    exact hallowed.1

/-- What the check of a source says of it. -/
theorem selectSource_eq_ok {source : KnowledgeSourceConfig}
    (h : selectSource knowledge query sourceId = .ok source) :
    knowledge.sources.lookup sourceId = some source ∧ source.enabled ∧
      (source.knowledgeClass = query.knowledgeClass ∨
        source.knowledgeClass = .literal ∧ mayFallBack knowledge query) := by
  simp only [selectSource, bind_eq_ok, require_eq_ok, refuseIf_eq_ok, pure_eq_ok,
    Option.filter_eq_some_iff] at h
  obtain ⟨_, ⟨hlookup, henabled⟩, _, hcompatible, rfl⟩ := h
  refine ⟨hlookup, henabled, or_iff_not_imp_left.mpr fun hclass => ?_⟩
  exact not_not.mp fun hno => hcompatible ⟨hclass, hno⟩

/-- **The order of the service**, for preferred sources that are checked: it is refused for those
that are not in the selection order of the class of the query. -/
theorem sourceOrder_of_selected (h : ∀ item ∈ query.preferredSources, ∃ source,
      selectSource service.config query item = .ok source) :
    (∃ error, service.sourceOrder query = .error error) ↔
      ∃ item ∈ query.preferredSources, item ∉ service.config.order query.knowledgeClass := by
  unfold KnowledgeService.sourceOrder
  split
  · have hinvalid : ∀ item ∈ query.preferredSources, service.isInvalid query item =
        .ok (decide (item ∉ service.config.order query.knowledgeClass)) := by
      intro item hitem
      unfold KnowledgeService.isInvalid
      split
      · rename_i hnot
        rw [decide_eq_true hnot]
      · rename_i hmem
        rw [not_not] at hmem
        obtain ⟨source, hselected⟩ := h item hitem
        obtain ⟨hlookup, henabled, -⟩ := selectSource_eq_ok hselected
        obtain ⟨found, hfound, hclass⟩ := KnowledgeConfig.lookup_of_mem_order hmem
        obtain rfl : source = found := Option.some.inj (hlookup.symm.trans hfound)
        simp [KnowledgeConfig.source, require, hlookup, henabled, hclass, hmem, pure, Except.pure]
    rw [keepIf_of_forall hinvalid, ok_bind]
    by_cases hnone : query.preferredSources.filter
        (fun item => decide (item ∉ service.config.order query.knowledgeClass)) = []
    · rw [refuseIf_of_not (not_not.mpr hnone), ok_bind]
      rw [filter_eq_nil_iff] at hnone
      constructor
      · rintro ⟨error, herror⟩
        cases herror
      · rintro ⟨item, hitem, hnot⟩
        exact absurd (decide_eq_true hnot) (hnone item hitem)
    · rw [refuseIf_of hnone]
      refine ⟨fun _ => ?_, fun _ => ⟨_, rfl⟩⟩
      obtain ⟨item, hitem⟩ := exists_mem_of_ne_nil _ hnone
      obtain ⟨hpreferred, hnot⟩ := mem_filter.mp hitem
      exact ⟨item, hpreferred, of_decide_eq_true hnot⟩
  · rename_i hpreferred
    rw [not_not] at hpreferred
    have henabled : ∀ item ∈ service.config.order query.knowledgeClass,
        service.sourceEnabled item = .ok (service.config.isEnabled item) := by
      intro item hitem
      obtain ⟨source, hlookup, -⟩ := KnowledgeConfig.lookup_of_mem_order hitem
      simp [KnowledgeService.sourceEnabled, KnowledgeConfig.source, KnowledgeConfig.isEnabled,
        require, hlookup, pure, Except.pure]
    rw [keepIf_of_forall henabled, hpreferred]
    simp

end Selection

/-! ## The scope that is authorized -/

/-- The credentials and the endpoint are among those of the request. -/
structure AuthorizationRequest.Reaches (request : AuthorizationRequest)
    (libraries : AuthorityLibraries) (credentials : List Execution.CredentialReference)
    (endpoint : Option String) : Prop where
  credentials : ∀ reference ∈ credentials, reference.locator ∈ request.credentials
  endpoint : ∀ url ∈ endpoint, ∃ destination,
    networkDestination libraries.urlsplit url = .ok destination ∧
      destination ∈ request.networkDestinations

/-- What is asked of an adapter lies in the request: its source, and the credentials and the
endpoint of the source and of its connection. -/
structure AuthorizationRequest.Covers (request : AuthorizationRequest)
    (authority : ApplicationCommandAuthority) (libraries : AuthorityLibraries)
    (call : AdapterCall) : Prop where
  resource : "knowledge-source:" ++ call.sourceId ∈ request.externalResources
  source : request.Reaches libraries call.source.credentialRefs call.source.endpoint
  connection : ∀ connectionId ∈ call.source.mcpConnection, ∃ connection,
    authority.configuredMcpConnection connectionId = .ok connection ∧
      request.Reaches libraries (connection.credentialRefs ++
        (connection.environment ++ connection.headers).map (·.2)) connection.endpoint

section Coverage

variable {authority : ApplicationCommandAuthority} {libraries : AuthorityLibraries}
  {command : ApplicationCommand} {authorized : AuthorizedApplicationCommand} {now : Instant}
  {others : ApplicationCommand → Except Raised AuthorizedApplicationCommand}
  {knowledge : KnowledgeConfig} {sourceId targetId : String} {endpoint : Option String}
  {credentials found : List String} {seconds : Int}

open ApplicationCommandAuthority

theorem destinations_spec (h : destinations libraries endpoint = .ok found) :
    ∀ url ∈ endpoint, ∃ destination, networkDestination libraries.urlsplit url = .ok destination ∧
      destination ∈ found := by
  intro url hurl
  obtain ⟨destination, hmem, hread⟩ := mapM_of_mem h (Option.mem_toList.mpr hurl)
  exact ⟨destination, hread, hmem⟩

/-- What a connection maps credentials to is declared. -/
theorem declared_of_configured {connectionId : String} {connection : McpConnectionConfig}
    (h : authority.configuredMcpConnection connectionId = .ok connection) :
    ∀ mapped ∈ connection.environment ++ connection.headers,
      mapped.2.locator ∈ connection.credentialRefs.map (·.locator) := by
  simp only [configuredMcpConnection, bind_eq_ok, require_eq_ok, Option.filter_eq_some_iff] at h
  obtain ⟨mcp, -, hlookup, -⟩ := h
  obtain ⟨before, after, hsplit, -⟩ := List.lookup_eq_some_iff.mp hlookup
  have hmem : (connectionId, connection) ∈ mcp.connections := by
    rw [hsplit]
    exact mem_append_right _ mem_cons_self
  exact (mcp.disjoint _ hmem).declared

theorem connectionScope_spec {connectionId : Option String}
    (h : authority.connectionScope libraries connectionId = .ok (credentials, found)) :
    ∀ name ∈ connectionId, ∃ connection, authority.configuredMcpConnection name = .ok connection ∧
      credentials = connection.credentialRefs.map (·.locator) ∧
      destinations libraries connection.endpoint = .ok found := by
  rintro name hname
  obtain rfl : connectionId = some name := hname
  simp only [connectionScope, bind_eq_ok, return_eq_ok] at h
  obtain ⟨connection, hconnection, _, hdestinations, rfl, rfl⟩ := h
  exact ⟨connection, hconnection, rfl, hdestinations⟩

/-- **The scope of a source** holds its credentials and endpoint, and those of its connection. -/
theorem knowledgeSourceScope_spec {source : KnowledgeSourceConfig} (request : AuthorizationRequest)
    (hknowledge : authority.knowledge = some knowledge)
    (hsource : knowledge.sources.lookup sourceId = some source)
    (h : authority.knowledgeSourceScope libraries sourceId = .ok (credentials, found, seconds))
    (hcredentials : credentials ⊆ request.credentials)
    (hfound : found ⊆ request.networkDestinations) :
    request.Reaches libraries source.credentialRefs source.endpoint ∧
      ∀ connectionId ∈ source.mcpConnection, ∃ connection,
        authority.configuredMcpConnection connectionId = .ok connection ∧
          request.Reaches libraries (connection.credentialRefs ++
            (connection.environment ++ connection.headers).map (·.2)) connection.endpoint := by
  simp only [knowledgeSourceScope, hknowledge, bind_eq_ok, require_eq_ok, pure_eq_ok,
    Option.some.injEq, Option.filter_eq_some_iff, Prod.mk.injEq, Prod.exists] at h
  obtain ⟨_, rfl, _, hboth, own, hown, mapped, through, hthrough, rfl, rfl, -⟩ := h
  obtain ⟨hlookup, -⟩ := hboth
  obtain rfl := Option.some.inj (hsource.symm.trans hlookup)
  refine ⟨⟨fun reference hreference => ?_, fun url hurl => ?_⟩, fun connectionId hconnection => ?_⟩
  · refine hcredentials (mem_sortedSet.mpr (mem_append_left _ ?_))
    exact mem_map_of_mem hreference
  · obtain ⟨destination, hread, hmem⟩ := destinations_spec hown url hurl
    exact ⟨destination, hread, hfound (mem_sortedSet.mpr (mem_append_left _ hmem))⟩
  · obtain ⟨connection, hconfigured, rfl, hdestinations⟩ :=
      connectionScope_spec hthrough connectionId hconnection
    refine ⟨connection, hconfigured, fun reference hreference => ?_, fun url hurl => ?_⟩
    · refine hcredentials (mem_sortedSet.mpr (mem_append_right _ ?_))
      rcases mem_append.mp hreference with hreference | hreference
      · exact mem_map_of_mem hreference
      · obtain ⟨mapping, hmapping, rfl⟩ := mem_map.mp hreference
        exact declared_of_configured hconfigured mapping hmapping
    · obtain ⟨destination, hread, hmem⟩ := destinations_spec hdestinations url hurl
      exact ⟨destination, hread, hfound (mem_sortedSet.mpr (mem_append_right _ hmem))⟩

/-- What the branch of a query has checked, and what it derives. -/
structure DerivesAuthority (authority : ApplicationCommandAuthority)
    (libraries : AuthorityLibraries) (knowledge : KnowledgeConfig) (scope : QueryAuthority)
    (sourceIds : List String) (scopes : List (List String × List String × Int)) : Prop where
  configured : authority.knowledge = some knowledge
  queried : queriedSources knowledge scope.query = .ok sourceIds
  selected : ∀ sourceId ∈ sourceIds, ∃ source,
    selectSource knowledge scope.query sourceId = .ok source
  evaluated : sourceIds.mapM (authority.knowledgeSourceScope libraries) = .ok scopes
  credentials : scope.credentials = sortedSet (scopes.flatMap (·.1))
  destinations : scope.networkDestinations = sortedSet (scopes.flatMap (·.2.1))
  resources : scope.externalResources = queryResources scope.query sourceIds

theorem queryAuthority_spec {scope : QueryAuthority}
    (h : authority.queryAuthority libraries targetId command = .ok scope) :
    ∃ knowledge sourceIds scopes,
      DerivesAuthority authority libraries knowledge scope sourceIds scopes := by
  simp only [queryAuthority, bind_eq_ok, require_eq_ok, refuseIf_eq_ok, pure_eq_ok] at h
  obtain ⟨payload, -, query, -, -, -, knowledge, hknowledge, sourceIds, hqueried, selected,
    hselected, scopes, hscoped, rfl⟩ := h
  refine ⟨knowledge, sourceIds, scopes, hknowledge, hqueried, fun sourceId hmem => ?_, hscoped, rfl,
    rfl, rfl⟩
  obtain ⟨source, -, hsource⟩ := mapM_of_mem hselected hmem
  exact ⟨source, hsource⟩

theorem authorize_spec (htype : command.commandType = "knowledge.query")
    (h : authority.authorize libraries others command now = .ok authorized) :
    ∃ targetId scope, authority.queryAuthority libraries targetId command = .ok scope ∧
      authorized.request = authority.queryRequest libraries command scope ∧
      authorized.knowledgeQuery = some scope.query := by
  rw [authorize, if_neg (not_not.mpr htype)] at h
  simp only [bind_eq_ok, mapError_eq_ok, pure_eq_ok] at h
  obtain ⟨targetId, -, scope, hscope, decision, -, rfl⟩ := h
  exact ⟨targetId, scope, hscope, rfl, rfl⟩

/-- **What a query asks of adapters is authorized.** -/
theorem DerivesAuthority.covers {scope : QueryAuthority} {sourceIds : List String}
    {scopes : List (List String × List String × Int)} {service : KnowledgeService}
    {surroundings : QuerySurroundings} {call : AdapterCall}
    (h : DerivesAuthority authority libraries knowledge scope sourceIds scopes)
    (hservice : service.config = knowledge)
    (hcall : call ∈ (service.query surroundings scope.query).1) :
    (authority.queryRequest libraries command scope).Covers authority libraries call := by
  subst hservice
  have hmem := queriedSources_covers h.queried hcall
  obtain ⟨⟨source, hlookup, remaining, hsource⟩, -⟩ := query_contacted hcall
  obtain ⟨⟨credentials, found, seconds⟩, hscope, hread⟩ := mapM_of_mem h.evaluated hmem
  have hreaches := knowledgeSourceScope_spec (authority.queryRequest libraries command scope)
    h.configured hlookup hread
    (fun name hname => by
      change name ∈ scope.credentials
      rw [h.credentials, mem_sortedSet, mem_flatMap]
      exact ⟨_, hscope, hname⟩)
    (fun name hname => by
      change name ∈ scope.networkDestinations
      rw [h.destinations, mem_sortedSet, mem_flatMap]
      exact ⟨_, hscope, hname⟩)
  refine ⟨?_, ?_, ?_⟩
  · change _ ∈ scope.externalResources
    rw [h.resources, queryResources]
    refine mem_append_left _ (mem_keepFirst_id.mpr ?_)
    exact mem_cons_of_mem _ (mem_cons_of_mem _ (mem_map_of_mem hmem))
  · rw [hsource]
    exact hreaches.1
  · rw [hsource]
    exact hreaches.2

/-- **A query contacts nothing outside its authority, and is refused by the selection of the service
for nothing else than a preferred source outside the selection order of its class.** -/
theorem query_within_authority (htype : command.commandType = "knowledge.query")
    (h : authority.authorize libraries others command now = .ok authorized)
    {service : KnowledgeService} (hservice : authority.knowledge = some service.config) :
    ∃ query, authorized.knowledgeQuery = some query ∧
      (∀ surroundings, ∀ call ∈ (service.query surroundings query).1,
        authorized.request.Covers authority libraries call) ∧
      ((∃ error, service.sourceOrder query = .error error) ↔
        ∃ sourceId ∈ query.preferredSources,
          sourceId ∉ service.config.order query.knowledgeClass) := by
  obtain ⟨targetId, scope, hscope, hrequest, hquery⟩ := authorize_spec htype h
  obtain ⟨knowledge, sourceIds, scopes, hderives⟩ := queryAuthority_spec hscope
  obtain rfl : service.config = knowledge :=
    Option.some.inj (hservice.symm.trans hderives.configured)
  refine ⟨scope.query, hquery, fun surroundings call hcall => ?_, ?_⟩
  · rw [hrequest]
    exact hderives.covers rfl hcall
  · refine sourceOrder_of_selected fun sourceId hpreferred => hderives.selected sourceId ?_
    obtain ⟨chosen, hchosen, hsubset, -⟩ := queriedSources_spec hderives.queried
    rw [chosenSources, if_pos (ne_nil_of_mem hpreferred)] at hchosen
    exact hsubset (Except.ok.inj hchosen ▸ hpreferred)

end Coverage

/-! ## A configuration with a semantic and a literal source -/

def codeSource : KnowledgeSourceConfig :=
  { enabled := true, knowledgeClass := .literal, adapter := "native.literal" }

def docsSource : KnowledgeSourceConfig where
  enabled := true
  knowledgeClass := .semantic
  adapter := "cognee.oss"
  networkProfile := some "web"
  endpoint := some "https://docs.example/api"
  credentialRefs := [⟨.env, "DOCS_TOKEN"⟩]
  credentialHeader := some "authorization"

def configuredSources : List (String × KnowledgeSourceConfig) :=
  [("code", codeSource), ("docs", docsSource)]

def configuredOrder : List (KnowledgeClass × List String) :=
  [(.semantic, ["docs"]), (.literal, ["code"])]

theorem querySources_exact : ∀ entry ∈ configuredSources, entry.2.ExactTransport := by
  intro entry hentry
  rw [configuredSources, mem_cons, mem_singleton] at hentry
  rcases hentry with rfl | rfl
  · exact ⟨by decide, by decide, by decide, by decide⟩
  · exact ⟨by decide, by decide, by decide, by decide⟩

theorem queryOrder_complete : SelectionComplete configuredSources configuredOrder false where
  unique := by decide
  compatible := by
    intro entry hentry sourceId hsource
    rw [configuredOrder, mem_cons, mem_singleton] at hentry
    rcases hentry with rfl | rfl
    · rw [mem_singleton] at hsource
      exact ⟨docsSource, hsource ▸ rfl, rfl⟩
    · rw [mem_singleton] at hsource
      exact ⟨codeSource, hsource ▸ rfl, rfl⟩
  selected := by
    intro sourceId source hlookup _
    obtain ⟨before, after, hsplit, -⟩ := List.lookup_eq_some_iff.mp hlookup
    have hmem : (sourceId, source) ∈ configuredSources := by
      rw [hsplit]
      exact mem_append_right _ mem_cons_self
    rw [configuredSources, mem_cons, mem_singleton] at hmem
    rcases hmem with heq | heq
    · rw [(Prod.mk.inj heq).1]
      exact ⟨(.literal, ["code"]), by decide, by decide⟩
    · rw [(Prod.mk.inj heq).1]
      exact ⟨(.semantic, ["docs"]), by decide, by decide⟩
  literal := ⟨["code"], rfl, "code", by decide, codeSource, rfl, rfl⟩
  structural := by
    intro sourceIds hlookup
    cases hlookup

def configuredKnowledge : KnowledgeConfig where
  sources := configuredSources
  selectionOrder := configuredOrder
  literalFallback := true
  exact := querySources_exact
  complete := queryOrder_complete

def queryAuthoritySample : ApplicationCommandAuthority where
  knowledge := some configuredKnowledge
  mcp := none
  workspace := "/work"
  policy := ⟨[], ""⟩

def semanticQuery : KnowledgeQuery where
  queryId := 7
  knowledgeClass := .semantic
  scope :=
    { projectId := "p"
      contextRevision := "r"
      repository := some ⟨"repo", "abc", by decide⟩ }
  revisionBound := by decide
  unique := nodup_nil

def queryLibraries : AuthorityLibraries where
  urlsplit _ := .ok
    { scheme := "https"
      hostname := some "docs.example"
      port := .ok none
      path := "/api"
      query := ""
      fragment := "" }
  uuid text := if text = (7 : Uuid).text then some 7 else none
  validateQuery _ := .ok semanticQuery
  hexdigest _ := ""

def queryCommand : ApplicationCommand where
  commandId := 1
  commandType := "knowledge.query"
  actorId := "ana"
  targetType := "knowledge_query"
  targetId := some "00000000-0000-0000-0000-000000000007"
  issuedAt := 0
  payload := [("query", .null)]

/-- The service of the configuration, with both its adapters. -/
def queryService : KnowledgeService where
  config := configuredKnowledge
  adapters := ["native.literal", "cognee.oss"]
  networkProfiles := ["web"]

theorem semanticQuery_within_authority : ∃ authorized,
    queryAuthoritySample.authorize queryLibraries (fun _ => .error .osError) queryCommand 0 =
        .ok authorized ∧
      ∃ query, authorized.knowledgeQuery = some query ∧
        (∀ surroundings, ∀ call ∈ (queryService.query surroundings query).1,
          authorized.request.Covers queryAuthoritySample queryLibraries call) ∧
        ((∃ error, queryService.sourceOrder query = .error error) ↔
          ∃ sourceId ∈ query.preferredSources,
            sourceId ∉ queryService.config.order query.knowledgeClass) := by
  obtain ⟨authorized, h⟩ : ∃ authorized, queryAuthoritySample.authorize queryLibraries
      (fun _ => .error .osError) queryCommand 0 = .ok authorized := ⟨_, rfl⟩
  exact ⟨authorized, h, query_within_authority rfl h rfl⟩

end Mishkan
