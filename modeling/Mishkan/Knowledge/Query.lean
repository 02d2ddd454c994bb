import Mathlib.Algebra.Order.Ring.Unbundled.Rat
import Mishkan.Config.Models
import Mishkan.Foundations.Precedence

/-!
# Knowledge/Query — the sources a query is put to

`KnowledgeService.query` goes through the sources of its order, and through the literal ones when
these gave nothing acceptable.  Both passes are one loop, `goThrough`, with what is different
between them in `QueryPass`.  `QuerySurroundings` are the answers of the repository, the policy, the
credential resolver, the adapters and the artifact store; no source is visited twice, so they are
keyed by it.  `contacted` is what was asked of adapters, also when the query ends by raising.
-/

namespace Mishkan.Knowledge

open Refusal Precedence

/-! ## Queries -/

structure KnowledgeScope where
  projectId : String
  contextRevision : String
  repository : Option RepositoryRevision := none

/-- The classes a literal search may stand in for. -/
def KnowledgeClass.fallsBack : KnowledgeClass → Bool
  | .semantic | .structural => true
  | _ => false

def KnowledgeClass.value : KnowledgeClass → String
  | .literal => "literal"
  | .episodic => "episodic"
  | .semantic => "semantic"
  | .structural => "structural"

/-- A query, as it is validated. -/
structure KnowledgeQuery where
  queryId : Uuid
  knowledgeClass : KnowledgeClass
  scope : KnowledgeScope
  required : Bool := false
  preferredSources : List String := []
  maxResults : Nat := 10
  maxBytes : Nat := 262144
  deadlineSeconds : Rat := 30
  content : Json := .null
  revisionBound : knowledgeClass = .literal ∨ knowledgeClass = .structural →
    scope.repository ≠ none
  unique : preferredSources.Nodup

/-- The query without its preferred sources. -/
def KnowledgeQuery.unpreferred (query : KnowledgeQuery) : KnowledgeQuery :=
  { query with preferredSources := [], unique := List.nodup_nil }

inductive KnowledgeQueryState where
  | running | completed | degraded | failed | cancelled
deriving DecidableEq

def KnowledgeQueryState.value : KnowledgeQueryState → String
  | .running => "running"
  | .completed => "completed"
  | .degraded => "degraded"
  | .failed => "failed"
  | .cancelled => "cancelled"

inductive KnowledgeAttemptState where
  | succeeded | empty | unavailable | failed
deriving DecidableEq

inductive KnowledgeStaleness where
  | current | stale | notApplicable | unknown
deriving DecidableEq

def KnowledgeStaleness.value : KnowledgeStaleness → String
  | .current => "current"
  | .stale => "stale"
  | .notApplicable => "not_applicable"
  | .unknown => "unknown"

/-! ## What the surroundings answer -/

structure RawKnowledgeRecord where
  externalRecordId : Option String := none
  content : List UInt8
  sourceRevision : Option String := none
  description : Json := .null

structure ProviderKnowledgeResult where
  records : List RawKnowledgeRecord
  providerSchema : String
  limitation : Option String := none

/-- What the inspection leaves of a content. -/
structure InspectedContent where
  content : List UInt8
  findings : List String := []
  redacted : Bool := false

structure KnowledgeItem where
  sourceId : String
  externalRecordId : Option String
  contentReference : String
  sourceRevision : Option String
  staleness : KnowledgeStaleness
  stalenessReason : Option String
  rank : Nat
  description : Json
  inspectionFindings : List String
  contentTransformed : Bool

/-- `_acceptable` -/
def KnowledgeItem.acceptable (item : KnowledgeItem) : Bool :=
  item.staleness ≠ .stale && item.staleness ≠ .unknown

structure KnowledgeSourceAttempt where
  sourceId : String
  state : KnowledgeAttemptState
  resultCount : Nat := 0
  errorCode : Option String := none
  providerSchema : Option String := none
  limitation : Option String := none

structure KnowledgeBundle where
  query : KnowledgeQuery
  items : List KnowledgeItem
  attempts : List KnowledgeSourceAttempt
  unavailableSources : List String
  limitations : List String
  bundleReference : String

/-- What the visit of one source is answered; `remaining` is what is left of the deadline. -/
structure SourceAnswers where
  remaining : Rat
  policy : Except Raised Unit
  credentials : Except Raised (List (Option String))
  result : Except Raised ProviderKnowledgeResult
  inspected : RawKnowledgeRecord → Except Raised InspectedContent
  stored : RawKnowledgeRecord → Except Raised String
  /-- The record satisfies the evidence contract. -/
  conforms : RawKnowledgeRecord → Bool
  recorded : Except Raised Unit

structure QuerySurroundings where
  started : Except Raised KnowledgeQueryState
  loaded : Except Raised KnowledgeBundle
  source : String → SourceAnswers
  failed : Except Raised Unit
  published : Except Raised String
  completed : Except Raised Unit

/-- What an adapter is asked. -/
structure AdapterCall where
  query : KnowledgeQuery
  sourceId : String
  source : KnowledgeSourceConfig
  credentials : List String
  networkProfile : Option String

structure KnowledgeService where
  config : KnowledgeConfig
  adapters : List String
  networkProfiles : List String

/-! ## Source selection -/

namespace KnowledgeService

/-- A preferred source is refused: it is not in the order, not enabled or of another class. -/
def isInvalid (service : KnowledgeService) (query : KnowledgeQuery) (sourceId : String) :
    Except Raised Bool :=
  if sourceId ∉ service.config.order query.knowledgeClass then .ok true
  else do
    let source ← service.config.source sourceId
    return !source.enabled || source.knowledgeClass ≠ query.knowledgeClass

/-- The source is enabled. -/
def sourceEnabled (service : KnowledgeService) (sourceId : String) : Except Raised Bool := do
  let source ← service.config.source sourceId
  return source.enabled

/-- The refusal of preferred sources. -/
def preferenceRefused (invalid : List String) : Raised :=
  fault .outputContract "preferred knowledge source is disabled or incompatible"
    [("sources", .arr (invalid.map .str))]

/-- `_source_order` -/
def sourceOrder (service : KnowledgeService) (query : KnowledgeQuery) :
    Except Raised (List String) :=
  if query.preferredSources ≠ [] then do
    let invalid ← keepIf (service.isInvalid query) query.preferredSources
    refuseIf (invalid ≠ []) (preferenceRefused invalid)
    return query.preferredSources
  else keepIf service.sourceEnabled (service.config.order query.knowledgeClass)

/-- A selected source is literal. -/
def isLiteral (service : KnowledgeService) (sourceId : String) : Bool :=
  (service.config.sources.lookup sourceId).any (·.knowledgeClass = .literal)

/-- `_literal_fallback_allowed` -/
def literalFallbackAllowed (service : KnowledgeService) (query : KnowledgeQuery)
    (selected : List String) : Bool :=
  service.config.literalFallback && query.knowledgeClass.fallsBack &&
    query.scope.repository.isSome && !selected.any service.isLiteral

/-- The literal sources a query falls back on. -/
def fallbackSources (service : KnowledgeService) (selected : List String) :
    Except Raised (List String) := do
  let literal ← require (service.config.selectionOrder.lookup .literal) (.keyError "literal")
  keepIf service.sourceEnabled (literal.filter (· ∉ selected))

end KnowledgeService

/-! ## The visit of a source -/

/-- How far a query is, and what was asked of adapters. -/
structure QueryProgress where
  attempts : List KnowledgeSourceAttempt := []
  items : List KnowledgeItem := []
  totalBytes : Nat := 0
  unavailable : List String := []
  limitations : List String := []
  contacted : List AdapterCall := []

/-- How a visit ends: with the next source, or the loop ends with it. -/
inductive Turn where
  | next
  | last
  | raised (error : Raised)
  /-- The query is marked as failed before the error is raised. -/
  | failed (error : Raised)

inductive QueryPass where
  | primary
  | fallback (startRank byteBudget : Nat)

namespace QueryPass

def startRank : QueryPass → Nat
  | primary => 1
  | fallback startRank _ => startRank

def byteBudget (query : KnowledgeQuery) : QueryPass → Nat
  | primary => query.maxBytes
  | fallback _ byteBudget => byteBudget

/-- The limitations with which the loop breaks before a source, if it does. -/
def breaks (pass : QueryPass) (query : KnowledgeQuery) (progress : QueryProgress)
    (remaining : Rat) : Option (List String) :=
  let bound := query.maxResults ≤ progress.items.length ∨
    pass.byteBudget query ≤ progress.totalBytes
  match pass with
  | primary =>
    if bound then some []
    else if remaining ≤ 0 then some ["deadline_exhausted"]
    else none
  | fallback _ _ => if remaining ≤ 0 ∨ bound then some ["deadline_or_bound_exhausted"] else none

/-- The failures that say a source is unavailable. -/
def isUnavailable (pass : QueryPass) (code : ErrorCode) : Bool :=
  match code, pass with
  | .optionalDependency, _ | .requiredDependency, _ | .toolUnavailable, _ => true
  | .authorizationMissing, primary | .configuration, primary => true
  | _, _ => false

/-- An error of the try block that ends the query. -/
def stops (pass : QueryPass) (error : Raised) : Turn :=
  match pass with
  | primary => .failed error
  | fallback _ _ => .raised error

end QueryPass

/-- The failures of a source that end the query. -/
def endsQuery (code : ErrorCode) : Bool :=
  [.authorityNotGranted, .policyConflict, .context, .secretContent].contains code

/-- Keep an attempt, and go on with what it changes. -/
def QueryProgress.attempted (progress : QueryProgress) (answers : SourceAnswers)
    (attempt : KnowledgeSourceAttempt) (unavailable limitations : List String) :
    QueryProgress × Turn :=
  match answers.recorded with
  | .error error => (progress, .raised error)
  | .ok () =>
    ({ progress with
       attempts := progress.attempts ++ [attempt]
       unavailable := progress.unavailable ++ unavailable
       limitations := progress.limitations ++ limitations }, .next)

def sourceFailed (sourceId : String) (code : ErrorCode) : String :=
  "source_failed:" ++ sourceId ++ ":" ++ code.value

/-- A visit whose try block raises. -/
def QueryProgress.refused (progress : QueryProgress) (pass : QueryPass) (answers : SourceAnswers)
    (sourceId : String) (error : Raised) : QueryProgress × Turn :=
  match error with
  | .mishkan envelope =>
    if endsQuery envelope.code then (progress, pass.stops error)
    else if pass.isUnavailable envelope.code then
      progress.attempted answers
        { sourceId := sourceId
          state := .unavailable
          errorCode := some envelope.code.value
          limitation := some envelope.message } [sourceId] []
    else
      progress.attempted answers
        { sourceId := sourceId
          state := .failed
          errorCode := some envelope.code.value
          limitation := some envelope.message } [] [sourceFailed sourceId envelope.code]
  | error => (progress, .raised error)

/-! ## The items of a source -/

/-- `_staleness` -/
def staleness (query : KnowledgeQuery) (sourceRevision : Option String) :
    KnowledgeStaleness × Option String :=
  match query.scope.repository, query.knowledgeClass with
  | none, _ | _, .episodic => (.notApplicable, none)
  | some repository, _ =>
    match sourceRevision with
    | none => (.unknown, some "source omitted its indexed repository revision")
    | some sourceRevision =>
      if sourceRevision = repository.revision then (.current, none)
      else
        (.stale, some ("source revision " ++ sourceRevision ++
          " differs from requested revision " ++ repository.revision))

/-- `_publish_item` -/
def publishItem (answers : SourceAnswers) (query : KnowledgeQuery) (sourceId : String)
    (record : RawKnowledgeRecord) (rank remainingBytes : Nat) :
    Except Raised (KnowledgeItem × Nat × List String) := do
  let inspected ← answers.inspected record
  refuseIf (remainingBytes < inspected.content.length) <|
    fault .outputContract "knowledge result exceeds the remaining query byte bound"
      [("bound", .str "bytes"), ("remaining", .int remainingBytes)]
  let reference ← answers.stored record
  refuseIf (¬ answers.conforms record) <|
    fault .outputContract "knowledge provider record violates the normalized evidence contract"
      [("source_id", .str sourceId)]
  let (staleness, reason) := staleness query record.sourceRevision
  return ({ sourceId := sourceId
            externalRecordId := record.externalRecordId
            contentReference := reference
            sourceRevision := record.sourceRevision
            staleness := staleness
            stalenessReason := reason
            rank := rank
            description := record.description
            inspectionFindings := inspected.findings
            contentTransformed := inspected.redacted },
    inspected.content.length, inspected.findings.map ("content_finding:" ++ ·))

/-- How the loop over the records of a source ends. -/
inductive RecordsEnd where
  | done
  | recordError (error : MishkanError)
  | stops (turn : Turn)

/-- The error says that the byte bound is reached. -/
def isByteBound (error : MishkanError) : Bool :=
  error.code = .outputContract && Json.lookup error.details "bound" = some (.str "bytes")

/-- The loop over the records of a source. -/
def publishRecords (answers : SourceAnswers) (query : KnowledgeQuery) (pass : QueryPass)
    (sourceId : String) : List RawKnowledgeRecord → QueryProgress → QueryProgress × RecordsEnd
  | [], progress => (progress, .done)
  | record :: rest, progress =>
    if query.maxResults ≤ progress.items.length then (progress, .done)
    else
      match publishItem answers query sourceId record (pass.startRank + progress.items.length)
        (pass.byteBudget query - progress.totalBytes) with
      | .ok (item, size, limitations) =>
        publishRecords answers query pass sourceId rest
          { progress with
            items := progress.items ++ [item]
            totalBytes := progress.totalBytes + size
            limitations := progress.limitations ++ limitations }
      | .error (.mishkan error) =>
        match error.code, pass with
        | .secretContent, .primary => (progress, .stops (.failed (.mishkan error)))
        | _, _ =>
          if isByteBound error then
            ({ progress with limitations := progress.limitations ++ ["result_bound_reached"] },
              .done)
          else (progress, .recordError error)
      | .error error => (progress, .stops (.raised error))

/-- The limitation a result comes with; only the first pass reports it. -/
def QueryPass.reports (pass : QueryPass) (sourceId : String) (limitation : Option String) :
    List String :=
  match pass, limitation with
  | primary, some limitation =>
    if limitation = "" then [] else ["source:" ++ sourceId ++ ":" ++ limitation]
  | _, _ => []

/-- A visit whose adapter has answered. -/
def QueryProgress.answered (progress : QueryProgress) (pass : QueryPass) (answers : SourceAnswers)
    (query : KnowledgeQuery) (sourceId : String) (result : ProviderKnowledgeResult) :
    QueryProgress × Turn :=
  let (published, ending) := publishRecords answers query pass sourceId result.records progress
  let accepted := published.items.length - progress.items.length
  match ending with
  | .stops turn => (published, turn)
  | .recordError error =>
    published.attempted answers
      { sourceId := sourceId
        state := .failed
        resultCount := accepted
        errorCode := some error.code.value
        providerSchema := some result.providerSchema
        limitation := some error.message } []
      (sourceFailed sourceId error.code :: pass.reports sourceId result.limitation)
  | .done =>
    published.attempted answers
      { sourceId := sourceId
        state := if accepted = 0 then .empty else .succeeded
        resultCount := accepted
        providerSchema := some result.providerSchema
        limitation := result.limitation } [] (pass.reports sourceId result.limitation)

/-! ## The loop -/

namespace KnowledgeService

/-- The source as an adapter is given it. -/
def effectiveSource (source : KnowledgeSourceConfig) (remaining : Rat) : KnowledgeSourceConfig :=
  { source with queryTimeoutSeconds := min source.queryTimeoutSeconds remaining }

/-- The try block of a visit: what is asked of the adapter, and how it ends. -/
def ask (service : KnowledgeService) (answers : SourceAnswers) (query : KnowledgeQuery)
    (sourceId : String) (source : KnowledgeSourceConfig) :
    List AdapterCall × Except Raised ProviderKnowledgeResult :=
  match answers.policy, answers.credentials with
  | .error error, _ => ([], .error error)
  | .ok (), .error error => ([], .error error)
  | .ok (), .ok resolved =>
    ([{ query := query
        sourceId := sourceId
        source := effectiveSource source answers.remaining
        credentials := resolved.reduceOption
        networkProfile := source.networkProfile.filter (service.networkProfiles.contains ·) }],
      answers.result)

/-- The body of the loop. -/
def visit (service : KnowledgeService) (surroundings : QuerySurroundings) (query : KnowledgeQuery)
    (pass : QueryPass) (progress : QueryProgress) (sourceId : String) : QueryProgress × Turn :=
  let answers := surroundings.source sourceId
  match pass.breaks query progress answers.remaining with
  | some limitations =>
    ({ progress with limitations := progress.limitations ++ limitations }, .last)
  | none =>
    match service.config.source sourceId with
    | .error error => (progress, .raised error)
    | .ok source =>
      if source.adapter ∉ service.adapters then
        progress.attempted answers
          { sourceId := sourceId
            state := .unavailable
            errorCode := some ErrorCode.optionalDependency.value
            limitation := some ("adapter unavailable: " ++ source.adapter) } [sourceId] []
      else
        let (calls, outcome) := service.ask answers query sourceId source
        let asked := { progress with contacted := progress.contacted ++ calls }
        match outcome with
        | .error error => asked.refused pass answers sourceId error
        | .ok result => asked.answered pass answers query sourceId result

/-- Raise an error after the query is marked as failed. -/
def failing (surroundings : QuerySurroundings) (error : Raised) : Raised :=
  match surroundings.failed with
  | .error raised => raised
  | .ok () => error

/-- The loop over the sources of a pass, and the error it ends with. -/
def goThrough (service : KnowledgeService) (surroundings : QuerySurroundings)
    (query : KnowledgeQuery) (pass : QueryPass) :
    List String → QueryProgress → QueryProgress × Option Raised
  | [], progress => (progress, none)
  | sourceId :: rest, progress =>
    match service.visit surroundings query pass progress sourceId with
    | (progress, .next) => service.goThrough surroundings query pass rest progress
    | (progress, .last) => (progress, none)
    | (progress, .raised error) => (progress, some error)
    | (progress, .failed error) => (progress, some (failing surroundings error))

/-! ## The query -/

/-- `_staleness_limitations`, but for the repetitions. -/
def stalenessLimitations (items : List KnowledgeItem) : List String :=
  (items.filter fun item => !item.acceptable).map fun item =>
    "staleness:" ++ item.sourceId ++ ":" ++ item.staleness.value

/-- What the query does when its sources have been gone through. -/
def settle (surroundings : QuerySurroundings) (query : KnowledgeQuery) (sourceIds : List String)
    (progress : QueryProgress) : Except Raised KnowledgeBundle := do
  let limitations := keepFirst id (progress.limitations ++ stalenessLimitations progress.items)
  let unavailable := keepFirst id progress.unavailable
  refuseIf (query.required ∧ ¬ progress.items.any (·.acceptable)) <|
    failing surroundings <|
      fault .requiredDependency "required knowledge query produced no current acceptable evidence"
        [("query_id", .str query.queryId.text), ("sources", .arr (sourceIds.map .str))]
  let noted := if unavailable = [] then [] else [ErrorCode.optionalDependency.value]
  let reference ← surroundings.published
  surroundings.completed
  return { query := query
           items := progress.items
           attempts := progress.attempts
           unavailableSources := unavailable
           limitations := keepFirst id (limitations ++ noted)
           bundleReference := reference }

/-- The fallback on literal sources, after the first pass. -/
def fallBack (service : KnowledgeService) (surroundings : QuerySurroundings)
    (query : KnowledgeQuery) (sourceIds : List String) (progress : QueryProgress) :
    List AdapterCall × Except Raised KnowledgeBundle :=
  match service.fallbackSources sourceIds with
  | .error error => (progress.contacted, .error error)
  | .ok fallbackIds =>
    let (fallback, ended) := service.goThrough surroundings query.unpreferred
      (.fallback (progress.items.length + 1) (query.maxBytes - progress.totalBytes)) fallbackIds {}
    let contacted := progress.contacted ++ fallback.contacted
    match ended with
    | some error =>
      if error.envelope?.any (endsQuery ·.code) then
        (contacted, .error (failing surroundings error))
      else (contacted, .error error)
    | none =>
      (contacted, settle surroundings query (sourceIds ++ fallbackIds)
        { attempts := progress.attempts ++ fallback.attempts
          items := progress.items ++ fallback.items
          totalBytes := progress.totalBytes + fallback.totalBytes
          unavailable := progress.unavailable ++ fallback.unavailable
          limitations := progress.limitations ++ fallback.limitations ++
            (if fallbackIds = [] then [] else ["literal_fallback"]) })

/-- The query of sources, once it is started. -/
def querySources (service : KnowledgeService) (surroundings : QuerySurroundings)
    (query : KnowledgeQuery) (sourceIds : List String) :
    List AdapterCall × Except Raised KnowledgeBundle :=
  let (progress, ended) := service.goThrough surroundings query .primary sourceIds {}
  match ended with
  | some error => (progress.contacted, .error error)
  | none =>
    if ¬ progress.items.any (·.acceptable) ∧ service.literalFallbackAllowed query sourceIds then
      service.fallBack surroundings query sourceIds progress
    else (progress.contacted, settle surroundings query sourceIds progress)

/-- `query`: what was asked of adapters, and how it ends. -/
def query (service : KnowledgeService) (surroundings : QuerySurroundings)
    (query : KnowledgeQuery) : List AdapterCall × Except Raised KnowledgeBundle :=
  match service.sourceOrder query with
  | .error error => ([], .error error)
  | .ok sourceIds =>
    match surroundings.started with
    | .error error => ([], .error error)
    | .ok .completed | .ok .degraded => ([], surroundings.loaded)
    | .ok .running => service.querySources surroundings query sourceIds
    | .ok state =>
      ([], .error (fault .revisionMismatch "knowledge query is already terminal"
        [("state", .str state.value)]))

end KnowledgeService

/-! ## What is asked of adapters -/

section Contacts

variable {service : KnowledgeService} {surroundings : QuerySurroundings} {answers : SourceAnswers}
  {query : KnowledgeQuery} {pass : QueryPass} {progress : QueryProgress} {sourceId : String}
  {sourceIds selected : List String} {call : AdapterCall}

/-- The call is for a configured source, but for the time it is given. -/
def AdapterCall.IsOf (service : KnowledgeService) (call : AdapterCall) : Prop :=
  ∃ source, service.config.sources.lookup call.sourceId = some source ∧
    ∃ remaining, call.source = KnowledgeService.effectiveSource source remaining

@[simp] theorem attempted_contacted {attempt : KnowledgeSourceAttempt}
    {unavailable limitations : List String} :
    (progress.attempted answers attempt unavailable limitations).1.contacted =
      progress.contacted := by
  unfold QueryProgress.attempted
  split <;> rfl

@[simp] theorem refused_contacted {error : Raised} :
    (progress.refused pass answers sourceId error).1.contacted = progress.contacted := by
  cases error with
  | mishkan envelope =>
    simp only [QueryProgress.refused]
    split
    · rfl
    · split <;> exact attempted_contacted
  | _ => rfl

@[simp] theorem publishRecords_contacted {records : List RawKnowledgeRecord} :
    (publishRecords answers query pass sourceId records progress).1.contacted =
      progress.contacted := by
  induction records generalizing progress with
  | nil => rfl
  | cons record rest ih =>
    simp only [publishRecords]
    split
    · rfl
    · split
      · exact ih
      · split
        · rfl
        · split <;> rfl
      · rfl

@[simp] theorem answered_contacted {result : ProviderKnowledgeResult} :
    (progress.answered pass answers query sourceId result).1.contacted = progress.contacted := by
  simp only [QueryProgress.answered]
  split <;> simp

theorem ask_of {source : KnowledgeSourceConfig}
    (hsource : service.config.sources.lookup sourceId = some source)
    (h : call ∈ (service.ask answers query sourceId source).1) :
    call.sourceId = sourceId ∧ call.IsOf service := by
  unfold KnowledgeService.ask at h
  split at h
  · cases h
  · cases h
  · rw [List.mem_singleton.mp h]
    exact ⟨rfl, source, hsource, _, rfl⟩

/-- **A visit asks the adapter of its source alone.** -/
theorem visit_contacted (h : call ∈ (service.visit surroundings query pass progress
    sourceId).1.contacted) :
    call ∈ progress.contacted ∨ call.sourceId = sourceId ∧ call.IsOf service := by
  simp only [KnowledgeService.visit] at h
  split at h
  · exact .inl h
  · split at h
    · exact .inl h
    · rename_i source hsource
      have hlookup := require_eq_ok.mp hsource
      split at h
      · rw [attempted_contacted] at h
        exact .inl h
      · -- however the try block ends, what it asked is kept
        split at h
        · rw [refused_contacted] at h
          exact (List.mem_append.mp h).imp_right (ask_of hlookup)
        · rw [answered_contacted] at h
          exact (List.mem_append.mp h).imp_right (ask_of hlookup)

/-- **A loop asks the adapters of its sources alone.** -/
theorem goThrough_contacted (h : call ∈ (service.goThrough surroundings query pass sourceIds
    progress).1.contacted) :
    call ∈ progress.contacted ∨ call.sourceId ∈ sourceIds ∧ call.IsOf service := by
  induction sourceIds generalizing progress with
  | nil => exact .inl h
  | cons sourceId rest ih =>
    have hvisit : ∀ visited turn,
        service.visit surroundings query pass progress sourceId = (visited, turn) →
          call ∈ visited.contacted →
          call ∈ progress.contacted ∨ call.sourceId ∈ sourceId :: rest ∧ call.IsOf service := by
      rintro visited turn heq hcall
      obtain rfl : _ = visited := congrArg Prod.fst heq
      rcases visit_contacted hcall with hbefore | ⟨hid, hof⟩
      · exact .inl hbefore
      · exact .inr ⟨hid ▸ List.mem_cons_self, hof⟩
    simp only [KnowledgeService.goThrough] at h
    split at h
    · rename_i visited heq
      rcases ih h with hbefore | ⟨hmem, hof⟩
      · exact hvisit _ _ heq hbefore
      · exact .inr ⟨List.mem_cons_of_mem _ hmem, hof⟩
    · exact hvisit _ _ (by assumption) h
    · exact hvisit _ _ (by assumption) h
    · exact hvisit _ _ (by assumption) h

/-- What is asked in the fallback is asked of the literal sources it goes through. -/
theorem fallBack_contacted (h : call ∈ (service.fallBack surroundings query selected progress).1) :
    call ∈ progress.contacted ∨ call.IsOf service ∧ ∃ fallbackIds,
      service.fallbackSources selected = .ok fallbackIds ∧ call.sourceId ∈ fallbackIds := by
  simp only [KnowledgeService.fallBack] at h
  split at h
  · exact .inl h
  · rename_i fallbackIds hfallback
    have hcalls : call ∈ progress.contacted ++ (service.goThrough surroundings
        query.unpreferred (.fallback (progress.items.length + 1)
          (query.maxBytes - progress.totalBytes)) fallbackIds {}).1.contacted := by
      split at h
      · split at h <;> exact h
      · exact h
    rcases List.mem_append.mp hcalls with hcall | hcall
    · exact .inl hcall
    · rcases goThrough_contacted hcall with hnone | ⟨hmem, hof⟩
      · cases hnone
      · exact .inr ⟨hof, fallbackIds, hfallback, hmem⟩

/-- **Whom a query contacts**: the sources of its order, and the literal ones where the fallback is
allowed. -/
theorem query_contacted (h : call ∈ (service.query surroundings query).1) :
    call.IsOf service ∧ ∃ selected, service.sourceOrder query = .ok selected ∧
      (call.sourceId ∈ selected ∨
        service.literalFallbackAllowed query selected ∧
          ∃ fallbackIds, service.fallbackSources selected = .ok fallbackIds ∧
            call.sourceId ∈ fallbackIds) := by
  simp only [KnowledgeService.query] at h
  split at h
  · cases h
  · rename_i selected hselected
    have hfirst (hcall : call ∈ (service.goThrough surroundings query .primary selected
        {}).1.contacted) : call.sourceId ∈ selected ∧ call.IsOf service := by
      rcases goThrough_contacted hcall with hnone | hfound
      · cases hnone
      · exact hfound
    split at h
    · cases h
    · cases h
    · cases h
    · simp only [KnowledgeService.querySources] at h
      split at h
      · exact ⟨(hfirst h).2, selected, hselected, .inl (hfirst h).1⟩
      · split at h
        · rename_i hallowed
          rcases fallBack_contacted h with hcall | ⟨hof, hfallback⟩
          · exact ⟨(hfirst hcall).2, selected, hselected, .inl (hfirst hcall).1⟩
          · exact ⟨hof, selected, hselected, .inr ⟨hallowed.2, hfallback⟩⟩
        · exact ⟨(hfirst h).2, selected, hselected, .inl (hfirst h).1⟩
    · cases h

end Contacts

end Mishkan.Knowledge
