import Mishkan.Knowledge.Operations

/-!
# Knowledge/Outline — what a step does to the store, and what a call relies on

A step writes one transition, one corpus or one new operation, or none of them (`Frame.Effect`).
Whatever it is, the store only grows (`KnowledgeStore.Later`), so what a call has read stays a
version of what is there.
-/

namespace Mishkan.Knowledge

open Refusal List

/-! ## What a frame writes -/

/-- The transition a frame makes: the operation as the call knows it, and what is written. -/
def Frame.transition? : Frame →
    Option (KnowledgeOperation × KnowledgeOperationState × Option String × List String)
  | .begin _ _ operation =>
    match operation.state with
    | .queued => some (operation, .running, none, [])
    | .running =>
      some (operation, .uncertain, operation.providerOperationId, operation.resultReferences)
    | _ => none
  | .succeed attempt =>
    some (attempt.operation, .succeeded, attempt.providerOperationId, attempt.resultReferences)
  | .markUncertain mark _ =>
    some (mark.operation, .uncertain, mark.providerOperationId, mark.resultReferences)
  | .cancelQueued operation => some (operation, .cancelled, none, [])
  | .requestCancel operation => some (operation, .cancelRequested, none, [])
  | .settle operation settlement resultReferences _ =>
    settlement.settlement.state?.map fun state => (operation, state,
      firstText settlement.providerOperationId operation.providerOperationId, resultReferences)
  | _ => none

/-- The corpus a frame writes. -/
def Frame.put? : Frame → Option KnowledgeCorpus
  | .setIndexing _ corpus => some { corpus with state := .indexing }
  | .putReady attempt => attempt.corpus.map attempt.readyCorpus
  | .putFinalized _ _ corpus => some corpus
  | _ => none

/-- A call may start the mutation of this operation. -/
def Frame.ticket? (service : KnowledgeMutationService) : Frame → Option Uuid
  | .setIndexing attempt _ => some attempt.operation.operationId
  | .send call attempt =>
    if call = service.firstCall attempt.request then some attempt.operation.operationId else none
  | _ => none

/-- The tables and the starts are as they were, and the rest has grown. -/
structure KnowledgeStore.SameTables (s s' : KnowledgeStore) : Prop where
  operations : s'.operations = s.operations
  corpora : s'.corpora = s.corpora
  recorded : s'.recorded = s.recorded
  artifacts : s.artifacts <+: s'.artifacts
  started : s'.started = s.started
  reported : s.reported <+: s'.reported
  graphs : s.graphs <+: s'.graphs

/-- What a step writes. -/
inductive Frame.Effect (service : KnowledgeMutationService) (s : KnowledgeStore) :
    Frame → KnowledgeStore → Prop
  | none {frame : Frame} {s' : KnowledgeStore} (same : s.SameTables s') :
      Frame.Effect service s frame s'
  | start {call : ProviderCall} {attempt : Attempt}
      (first : call = service.firstCall attempt.request) :
      Frame.Effect service s (.send call attempt) (s.start attempt.operation.operationId)
  | create {operationId : Uuid} {request : KnowledgeRequest} {corpus : Option KnowledgeCorpus}
      {reference : String} {row : KnowledgeOperation} {operations : Table KnowledgeOperation}
      (new : s.operation? operationId = .none) (available : s.Available reference)
      (hcorpus : ∀ corpusId ∈ request.corpusId, s.corpus? corpusId ≠ .none)
      (hrow : row = { request.candidate operationId reference with revision := 1 })
      (insert : s.operations.insert row = some operations) :
      Frame.Effect service s (.createOperation operationId request corpus reference)
        { s with operations := operations }
  | move {frame : Frame} {operation row : KnowledgeOperation} {state : KnowledgeOperationState}
      {providerOperationId : Option String} {resultReferences : List String} {s' : KnowledgeStore}
      (move : frame.transition? = some (operation, state, providerOperationId, resultReferences))
      (written : s.transitionOperation operation.operationId operation.revision state
        providerOperationId resultReferences = .ok (row, s')) : Frame.Effect service s frame s'
  | put {frame : Frame} {corpus durable : KnowledgeCorpus} {s' : KnowledgeStore}
      (put : frame.put? = some corpus)
      (written : s.putCorpus corpus corpus.revision = .ok (durable, s')) :
      Frame.Effect service s frame s'

namespace Frame.Effect

variable {service : KnowledgeMutationService} {s s' : KnowledgeStore} {frame : Frame}

theorem refl : Frame.Effect service s frame s :=
  .none ⟨rfl, rfl, rfl, prefix_rfl, rfl, prefix_rfl, prefix_rfl⟩

theorem ofArtifact (artifact : StoredArtifact) :
    Frame.Effect service s frame { s with artifacts := s.artifacts ++ [artifact] } :=
  .none ⟨rfl, rfl, rfl, prefix_append _ _, rfl, prefix_rfl, prefix_rfl⟩

theorem ofReported {l : List (Uuid × KnowledgeOperationState)} :
    Frame.Effect service s frame { s with reported := s.reported ++ l } :=
  .none ⟨rfl, rfl, rfl, prefix_rfl, rfl, prefix_append _ _, prefix_rfl⟩

theorem ofGraphs {l : List (Uuid × String × String)} :
    Frame.Effect service s frame { s with graphs := s.graphs ++ l } :=
  .none ⟨rfl, rfl, rfl, prefix_rfl, rfl, prefix_rfl, prefix_append _ _⟩

end Frame.Effect

/-! ## Versions of a row -/

/-- What a transition leaves alone. -/
def KnowledgeOperation.identity (operation : KnowledgeOperation) : KnowledgeOperation :=
  { operation with
    state := .queued
    providerOperationId := none
    resultReferences := []
    revision := 0 }

/-- `row` is this operation, or a later version of it. -/
structure KnowledgeOperation.Before (operation row : KnowledgeOperation) : Prop where
  identity : row.identity = operation.identity
  version : row = operation ∨ operation.revision < row.revision ∧ row.state ≠ .queued

namespace KnowledgeOperation.Before

variable {o row row' : KnowledgeOperation}

theorem refl : o.Before o := ⟨rfl, .inl rfl⟩

theorem trans (h : o.Before row) (h' : row.Before row') : o.Before row' := by
  refine ⟨h'.identity.trans h.identity, ?_⟩
  rcases h'.version with rfl | ⟨hlater, hstate⟩
  · exact h.version
  · rcases h.version with rfl | ⟨hearlier, -⟩
    · exact .inr ⟨hlater, hstate⟩
    · exact .inr ⟨hearlier.trans hlater, hstate⟩

theorem eq_of_revision (h : o.Before row) (hrevision : row.revision = o.revision) : row = o := by
  rcases h.version with rfl | ⟨hlater, -⟩
  · rfl
  · omega

theorem of_queued (h : o.Before row) (hstate : row.state = .queued) : row = o :=
  h.version.resolve_right fun hlater => hlater.2 hstate

theorem corpusId (h : o.Before row) : row.corpusId = o.corpusId :=
  (congrArg KnowledgeOperation.corpusId h.identity :)

theorem requestFingerprint (h : o.Before row) : row.requestFingerprint = o.requestFingerprint :=
  (congrArg KnowledgeOperation.requestFingerprint h.identity :)

end KnowledgeOperation.Before

/-- A transition never goes back to `queued`. -/
theorem not_queued_of_transition {state state' : KnowledgeOperationState}
    (h : state' ∈ transitions state) : state' ≠ .queued := by
  cases state <;> simp [transitions] at h <;> aesop

namespace KnowledgeStore

/-- The call has read this operation at some time. -/
def Knows (s : KnowledgeStore) (operation : KnowledgeOperation) : Prop :=
  ∃ row, s.operation? operation.operationId = some row ∧ operation.Before row

/-- The store has grown. -/
structure Later (s s' : KnowledgeStore) : Prop where
  operation : ∀ {id row}, s.operation? id = some row →
    ∃ row', s'.operation? id = some row' ∧ row.Before row'
  corpus : ∀ {id}, s.corpus? id ≠ none → s'.corpus? id ≠ none
  started : s.started ⊆ s'.started
  reported : s.reported ⊆ s'.reported
  graphs : s.graphs ⊆ s'.graphs
  recorded : s.recorded ⊆ s'.recorded
  artifacts : s.artifacts <+: s'.artifacts

variable {s s' : KnowledgeStore}

theorem SameTables.later (h : s.SameTables s') : s.Later s' where
  operation hrow := ⟨_, by rwa [operation?, h.operations], .refl⟩
  corpus hcorpus := by rwa [corpus?, h.corpora]
  started := by simp [h.started]
  reported := h.reported.subset
  graphs := h.graphs.subset
  recorded := by simp [h.recorded]
  artifacts := h.artifacts

/-- A transition leaves a later version of its operation. -/
theorem later_of_transition {operationId : Uuid} {expectedRevision : Nat}
    {state : KnowledgeOperationState} {providerOperationId : Option String}
    {resultReferences : List String} {row : KnowledgeOperation}
    (h : s.transitionOperation operationId expectedRevision state providerOperationId
      resultReferences = .ok (row, s')) : s.Later s' := by
  obtain ⟨current, hcurrent, -, -, hstate, -, -, rfl⟩ := transitionOperation_eq_ok.mp h
  refine ⟨fun {id found} hfound => ?_, id, fun _ => id, fun _ => id, fun _ => id, fun _ => id,
    prefix_rfl⟩
  rw [operation?_moveOperation]
  by_cases hid : id = operationId
  · subst hid
    obtain rfl := Option.some.inj (hcurrent.symm.trans hfound)
    refine ⟨current.moved state providerOperationId resultReferences, ?_, rfl,
      .inr ⟨Nat.lt_succ_self _, not_queued_of_transition hstate⟩⟩
    rw [if_pos rfl, hfound]
    rfl
  · exact ⟨found, by rw [if_neg hid, hfound], .refl⟩

theorem later_of_put {c durable : KnowledgeCorpus} {expectedRevision : Nat}
    (h : s.putCorpus c expectedRevision = .ok (durable, s')) : s.Later s' := by
  obtain ⟨-, -, -, -, hcorpus, corpora, rfl⟩ := putCorpus_eq_ok h
  refine ⟨fun hrow => ⟨_, hrow, .refl⟩, fun {id} hid => ?_, fun _ => id, fun _ => id, fun _ => id,
    subset_append_left _ _, prefix_rfl⟩
  rw [hcorpus]
  split
  · simp
  · exact hid

theorem later_of_insert {row : KnowledgeOperation} {operations : Table KnowledgeOperation}
    (hnew : s.operation? row.operationId = none) (h : s.operations.insert row = some operations) :
    s.Later { s with operations := operations } := by
  refine ⟨fun {id found} hfound => ⟨found, ?_, .refl⟩, id, fun _ => id, fun _ => id, fun _ => id,
    fun _ => id, prefix_rfl⟩
  rw [operation?_insert h, if_neg, hfound]
  rintro rfl
  simp [hnew] at hfound

end KnowledgeStore

/-- **Whatever a step writes, the store grows.** -/
theorem Frame.Effect.later {service : KnowledgeMutationService} {s s' : KnowledgeStore}
    {frame : Frame} (h : frame.Effect service s s') : s.Later s' := by
  cases h with
  | none same => exact same.later
  | start =>
    exact ⟨fun hrow => ⟨_, hrow, .refl⟩, id, subset_append_left _ _, fun _ => id, fun _ => id,
      fun _ => id, prefix_rfl⟩
  | create hnew _ _ hrow hinsert =>
    subst hrow
    exact KnowledgeStore.later_of_insert hnew hinsert
  | move _ hwritten => exact KnowledgeStore.later_of_transition hwritten
  | put _ hwritten => exact KnowledgeStore.later_of_put hwritten

/-! ## What an operation asks for -/

/-- The request asks for this snapshot and revision; a refresh leaves the snapshot open. -/
def KnowledgeRequest.Asks (snapshotReference indexedRevision : Option String) :
    KnowledgeRequest → Prop
  | .ingest r => snapshotReference = some r.contentReference ∧
      indexedRevision = r.repository.map (·.revision)
  | .refresh r => indexedRevision = r.repository.map (·.revision)
  | .capture _ => True

namespace KnowledgeStore

/-- The snapshot and the revision are those of the operation: what its request asks for, or, for a
refresh, a graph that was handed over for it. -/
def Content (s : KnowledgeStore) (o : KnowledgeOperation)
    (snapshotReference indexedRevision : Option String) : Prop :=
  o.requestFingerprint.of.Asks snapshotReference indexedRevision ∨
    o.requestFingerprint.of.kind = .refresh ∧ ∃ graph revision,
      (o.operationId, graph, revision) ∈ s.graphs ∧ snapshotReference = some graph ∧
        indexedRevision = some revision

/-- The corpus of the operation was recorded ready with its snapshot and revision. -/
def Recorded (s : KnowledgeStore) (o : KnowledgeOperation) : Prop :=
  ∀ corpusId ∈ o.corpusId, ∃ c ∈ s.recorded, c.corpusId = corpusId ∧ c.state = .ready ∧
    s.Content o c.snapshotReference c.indexedRevision

/-- The provider reported the settlement of this operation. -/
def Reported (s : KnowledgeStore) (o : KnowledgeOperation) (state : KnowledgeOperationState) :
    Prop := (o.operationId, state) ∈ s.reported

end KnowledgeStore

/-- The source of a request admits it. -/
def KnowledgeMutationService.Prepared (service : KnowledgeMutationService)
    (request : KnowledgeRequest) : Prop :=
  ∃ source, service.sourceRuntime request.sourceId = .ok source ∧
    ∃ policyFingerprint, service.admits source policyFingerprint request = .ok ()

/-- A semantic refresh has a snapshot. -/
def KnowledgeMutationService.HasSnapshot (service : KnowledgeMutationService)
    (request : KnowledgeRequest) (snapshotReference : Option String) : Prop :=
  ∀ r, request = .refresh r → (service.source? r.sourceId).any (·.knowledgeClass = .semantic) →
    snapshotReference ≠ none

/-- What a mutation has checked of its source and of its corpus. -/
structure KnowledgeMutationService.Ready (service : KnowledgeMutationService)
    (request : KnowledgeRequest) (corpus : Option KnowledgeCorpus) : Prop where
  prepared : service.Prepared request
  corpusId : corpus.map (·.corpusId) = request.corpusId
  snapshot : service.HasSnapshot request (corpus.bind (·.snapshotReference))

/-- The row is one of this service's requests. -/
structure KnowledgeOperation.Fits (service : KnowledgeMutationService) (o : KnowledgeOperation) :
    Prop where
  kind : o.kind = o.requestFingerprint.of.kind
  sourceId : o.sourceId = o.requestFingerprint.of.sourceId
  corpusId : o.corpusId = o.requestFingerprint.of.corpusId
  prepared : service.Prepared o.requestFingerprint.of

/-! ## What a call relies on -/

/-- The provider calls a request may make. -/
def KnowledgeRequest.calls : KnowledgeRequest → List ProviderCall
  | .ingest _ => [.add, .cognify]
  | .capture _ => [.capture]
  | .refresh _ => [.build, .cognify]

/-- What a call knows of an attempt. -/
structure Attempt.Sound (s : KnowledgeStore) (a : Attempt) : Prop where
  known : s.Knows a.operation
  marks : ∀ m ∈ a.marks, m.operation = a.operation
  corpusId : a.corpus.map (·.corpusId) = a.operation.corpusId
  recorded : ∀ c ∈ a.corpus, c ∈ s.recorded

/-- The attempt has a target that is the operation's. -/
structure Attempt.Targets (s : KnowledgeStore) (a : Attempt) : Prop where
  sound : a.Sound s
  content : s.Content a.operation a.snapshotReference a.indexedRevision
  snapshot : a.operation.corpusId ≠ none → a.snapshotReference ≠ none

/-- What a call relies on at a frame. -/
def Frame.Stage (service : KnowledgeMutationService) (s : KnowledgeStore) : Frame → Prop
  | .prepare .. | .cancel _ | .reconcile .. => True
  | .requireCorpus _ request corpusId =>
    service.Prepared request ∧ request.corpusId = some corpusId
  | .resumeExisting _ request corpus | .requestArtifact _ request corpus
  | .createOperation _ request corpus _ => service.Ready request corpus
  | .begin request corpus operation => service.Ready request corpus ∧ s.Knows operation ∧
      operation.requestFingerprint = request.fingerprint
  | .setIndexing a corpus => service.Ready a.request (some corpus) ∧ s.Knows a.operation ∧
      a.operation.requestFingerprint = a.request.fingerprint
  | .send call a => a.Sound s ∧ a.operation.requestFingerprint = a.request.fingerprint ∧
      call ∈ a.request.calls ∧
      (call ≠ .build → s.Content a.operation a.snapshotReference a.indexedRevision ∧
        (a.request.kind = .ingest → a.snapshotReference ≠ none) ∧
        service.HasSnapshot a.request a.snapshotReference)
  | .await call a => a.Sound s ∧ a.operation.requestFingerprint = a.request.fingerprint ∧
      call ∈ a.request.calls ∧ (call ≠ .build → a.Targets s)
  | .responseArtifact a => a.Targets s ∧
      a.operation.requestFingerprint = a.request.fingerprint ∧ s.Reported a.operation .succeeded
  | .graphArtifact _ a => a.Sound s ∧ a.operation.requestFingerprint.of.kind = .refresh ∧
      s.Reported a.operation .succeeded
  | .diffArtifact build graph a => a.Sound s ∧
      a.operation.requestFingerprint.of.kind = .refresh ∧ s.Reported a.operation .succeeded ∧
      (a.operation.operationId, graph, build.indexedRevision) ∈ s.graphs
  | .publish a | .putReady a => a.Targets s ∧ s.Reported a.operation .succeeded
  | .succeed a => a.Sound s ∧ s.Reported a.operation .succeeded ∧ s.Recorded a.operation
  | .markUncertain mark outer =>
    s.Knows mark.operation ∧ ∀ m ∈ outer, m.operation = mark.operation
  | .cancelQueued o => s.Knows o ∧ o.state = .queued
  | .requestCancel o => s.Knows o ∧ o.state = .running
  | .cancelRuntime o | .askCancel o => s.Knows o ∧ o.state = .cancelRequested
  | .reconcileRuntime o | .askReconcile o => s.Knows o ∧ o.state = .uncertain
  | .reconcileCorpus o corpusId => s.Knows o ∧ o.state = .uncertain ∧
      o.requestFingerprint.of.kind = .refresh ∧ o.corpusId = some corpusId
  | .recover o corpus => s.Knows o ∧ o.state = .uncertain ∧
      o.requestFingerprint.of.kind = .refresh ∧ o.corpusId = some corpus.corpusId ∧
      corpus ∈ s.recorded
  | .finalize o settlement corpusId => s.Knows o ∧ o.state = .uncertain ∧
      o.corpusId = some corpusId ∧ settlement.settlement = .succeeded ∧ s.Reported o .succeeded
  | .putFinalized o settlement corpus => s.Knows o ∧ o.state = .uncertain ∧
      o.corpusId = some corpus.corpusId ∧ settlement.settlement = .succeeded ∧
      s.Reported o .succeeded ∧ corpus.state = .ready ∧
      ∃ request, s.requestOf o.requestReference = some request ∧
        (request = o.requestFingerprint.of →
          s.Content o corpus.snapshotReference corpus.indexedRevision)
  | .settleResponse o settlement marks | .settle o settlement _ marks =>
    s.Knows o ∧ (∀ m ∈ marks, m.operation = o) ∧
      (∀ state ∈ settlement.settlement.state?, s.Reported o state) ∧
      (o.state = .cancelRequested ∧ marks ≠ [] ∨ o.state = .uncertain ∧ marks = [] ∧
        (settlement.settlement = .succeeded → o.corpusId ≠ none →
          ∃ request, s.requestOf o.requestReference = some request ∧
            (request = o.requestFingerprint.of → s.Recorded o)))

/-! ## What grows stays known -/

namespace KnowledgeStore.Later

variable {service : KnowledgeMutationService} {s s' : KnowledgeStore}

variable {o : KnowledgeOperation}

theorem knows (h : s.Later s') (ho : s.Knows o) : s'.Knows o := by
  obtain ⟨row, hrow, hbefore⟩ := ho
  obtain ⟨row', hrow', hlater⟩ := h.operation hrow
  exact ⟨row', hrow', hbefore.trans hlater⟩

theorem content (h : s.Later s') {snapshot indexed : Option String}
    (hc : s.Content o snapshot indexed) : s'.Content o snapshot indexed := by
  refine hc.imp id ?_
  rintro ⟨hkind, graph, revision, hmem, hsnapshot, hindexed⟩
  exact ⟨hkind, graph, revision, h.graphs hmem, hsnapshot, hindexed⟩

theorem isRecorded (h : s.Later s') (ho : s.Recorded o) : s'.Recorded o := by
  intro corpusId hcorpus
  obtain ⟨c, hc, hid, hready, hcontent⟩ := ho corpusId hcorpus
  exact ⟨c, h.recorded hc, hid, hready, h.content hcontent⟩

theorem isReported (h : s.Later s') {state : KnowledgeOperationState}
    (ho : s.Reported o state) : s'.Reported o state := h.reported ho

theorem requestOf (h : s.Later s') {reference : String} {request : KnowledgeRequest}
    (hr : s.requestOf reference = some request) : s'.requestOf reference = some request := by
  obtain ⟨rest, hrest⟩ := h.artifacts
  obtain ⟨artifact, hfind, hrequest⟩ := Option.bind_eq_some_iff.mp hr
  rw [KnowledgeStore.requestOf, ← hrest, List.find?_append, hfind]
  exact hrequest

theorem sound (h : s.Later s') {a : Attempt} (ha : a.Sound s) : a.Sound s' where
  known := h.knows ha.known
  marks := ha.marks
  corpusId := ha.corpusId
  recorded c hc := h.recorded (ha.recorded c hc)

theorem targets (h : s.Later s') {a : Attempt} (ha : a.Targets s) : a.Targets s' where
  sound := h.sound ha.sound
  content := h.content ha.content
  snapshot := ha.snapshot

/-- **What a call relies on stays true while the store grows.** -/
theorem stage (h : s.Later s') {frame : Frame} (hf : frame.Stage service s) :
    frame.Stage service s' := by
  cases frame with
  | prepare | cancel | reconcile => trivial
  | requireCorpus | resumeExisting | requestArtifact | createOperation => exact hf
  | begin => exact ⟨hf.1, h.knows hf.2.1, hf.2.2⟩
  | setIndexing => exact ⟨hf.1, h.knows hf.2.1, hf.2.2⟩
  | send =>
    obtain ⟨hsound, hcontent, hcalls, htarget⟩ := hf
    exact ⟨h.sound hsound, hcontent, hcalls,
      fun hcall => ⟨h.content (htarget hcall).1, (htarget hcall).2⟩⟩
  | await =>
    obtain ⟨hsound, hcontent, hcalls, htarget⟩ := hf
    exact ⟨h.sound hsound, hcontent, hcalls, fun hcall => h.targets (htarget hcall)⟩
  | responseArtifact => exact ⟨h.targets hf.1, hf.2.1, h.isReported hf.2.2⟩
  | graphArtifact => exact ⟨h.sound hf.1, hf.2.1, h.isReported hf.2.2⟩
  | diffArtifact => exact ⟨h.sound hf.1, hf.2.1, h.isReported hf.2.2.1, h.graphs hf.2.2.2⟩
  | publish | putReady => exact ⟨h.targets hf.1, h.isReported hf.2⟩
  | succeed => exact ⟨h.sound hf.1, h.isReported hf.2.1, h.isRecorded hf.2.2⟩
  | markUncertain | cancelQueued | requestCancel | cancelRuntime | askCancel | reconcileRuntime
  | askReconcile | reconcileCorpus => exact ⟨h.knows hf.1, hf.2⟩
  | recover =>
    obtain ⟨hknown, hstate, hkind, hcorpus, hrecorded⟩ := hf
    exact ⟨h.knows hknown, hstate, hkind, hcorpus, h.recorded hrecorded⟩
  | finalize =>
    obtain ⟨hknown, hstate, hcorpus, hsettled, hreported⟩ := hf
    exact ⟨h.knows hknown, hstate, hcorpus, hsettled, h.isReported hreported⟩
  | putFinalized =>
    obtain ⟨hknown, hstate, hcorpus, hsettled, hreported, hready, request, hread, hcontent⟩ := hf
    exact ⟨h.knows hknown, hstate, hcorpus, hsettled, h.isReported hreported, hready, request,
      h.requestOf hread, fun heq => h.content (hcontent heq)⟩
  | settleResponse | settle =>
    obtain ⟨hknown, hmarks, hreported, hcase⟩ := hf
    refine ⟨h.knows hknown, hmarks, fun state hstate => h.isReported (hreported state hstate),
      hcase.imp id ?_⟩
    rintro ⟨hstate, hnil, hrecorded⟩
    refine ⟨hstate, hnil, fun hsettled hcorpus => ?_⟩
    obtain ⟨request, hread, hof⟩ := hrecorded hsettled hcorpus
    exact ⟨request, h.requestOf hread, fun heq => h.isRecorded (hof heq)⟩

end KnowledgeStore.Later

/-! ## The store -/

/-- What holds of the store at every point of every run. -/
structure KnowledgeStore.Invariant (service : KnowledgeMutationService) (s : KnowledgeStore) :
    Prop where
  fits : ∀ {id row}, s.operation? id = some row → row.Fits service
  corpus : ∀ {id row}, s.operation? id = some row → ∀ corpusId ∈ row.corpusId,
    s.corpus? corpusId ≠ none
  recorded : ∀ {id c}, s.corpus? id = some c → c ∈ s.recorded
  nodup : s.started.Nodup
  started : ∀ {id}, id ∈ s.started → ∃ row, s.operation? id = some row ∧ row.state ≠ .queued

/-- The mutation of this operation may still be started, by one call. -/
def KnowledgeStore.Startable (s : KnowledgeStore) (id : Uuid) : Prop :=
  id ∉ s.started ∧ ∃ row, s.operation? id = some row ∧ row.state ≠ .queued

/-- What a call relies on. -/
def Frame.Relies (service : KnowledgeMutationService) (s : KnowledgeStore) (frame : Frame) :
    Prop :=
  frame.Stage service s ∧ ∀ id ∈ frame.ticket? service, s.Startable id

/-- No two calls may start the mutation of one operation. -/
def Frame.Apart (service : KnowledgeMutationService) (frame other : Frame) : Prop :=
  ∀ id ∈ frame.ticket? service, id ∉ other.ticket? service

end Mishkan.Knowledge
