import Mishkan.Knowledge.Outline

/-!
# Knowledge/Steps — the steps of a mutation

Each frame has one lemma: a step from it that succeeds has one of the effects, and establishes what
the call relies on next (`Frame.Stepped`).
-/

namespace Mishkan.Knowledge

open Refusal List KnowledgeStore

/-! ## One step -/

/-- A step from `frame` leaves the call at `f` no right to start a mutation, unless the call had it
and has not used it, or the operation has just left `queued`. -/
def Frame.Hands (service : KnowledgeMutationService) (s s' : KnowledgeStore) (frame f : Frame) :
    Prop :=
  ∀ id ∈ f.ticket? service,
    frame.ticket? service = some id ∧ (∀ call attempt, frame ≠ .send call attempt) ∨
      (∃ row, s.operation? id = some row ∧ row.state = .queued) ∧
        ∃ row, s'.operation? id = some row ∧ row.state ≠ .queued

/-- What a step from a frame leaves: an effect, and what the call relies on next. -/
def Frame.Stepped (service : KnowledgeMutationService) (s : KnowledgeStore) (frame : Frame)
    (next : Option Frame) (s' : KnowledgeStore) : Prop :=
  frame.Effect service s s' ∧ ∀ f ∈ next, f.Stage service s' ∧ frame.Hands service s s' f

/-- A step from a frame that has what it relies on leaves what such a step leaves. -/
def Frame.Steps (frame : Frame) (service : KnowledgeMutationService) (s : KnowledgeStore)
    (answer : Answer) (next : Option Frame) (s' : KnowledgeStore) : Prop :=
  s.Invariant service → frame.Stage service s →
    frame.next service s answer = .ok (next, s') → frame.Stepped service s next s'

section Steps

variable {service : KnowledgeMutationService} {s s' : KnowledgeStore} {answer : Answer}
  {next : Option Frame} {operation : KnowledgeOperation} {request : KnowledgeRequest}
  {corpus : Option KnowledgeCorpus} {operationId corpusId : Uuid} {attempt : Attempt}

variable {frame f : Frame}

/-- A step to a frame that may start nothing. -/
theorem stepped_of (hticket : f.ticket? service = none)
    (heffect : frame.Effect service s s') (h : f.Stage service s') :
    frame.Stepped service s (some f) s' := by
  refine ⟨heffect, ?_⟩
  rintro _ ⟨⟩
  exact ⟨h, by simp [Frame.Hands, hticket]⟩

/-- A step that writes nothing, to a frame. -/
theorem stepped_read (hticket : f.ticket? service = none)
    (h : f.Stage service s) : frame.Stepped service s (some f) s :=
  stepped_of hticket .refl h

/-- A step that writes nothing, and returns. -/
theorem stepped_return {frame : Frame} : frame.Stepped service s none s := ⟨.refl, by simp⟩

/-- A step that stores an artifact. -/
theorem stepped_artifact (hticket : f.ticket? service = none) (artifact : StoredArtifact)
    (h : f.Stage service { s with artifacts := s.artifacts ++ [artifact] }) :
    frame.Stepped service s (some f) { s with artifacts := s.artifacts ++ [artifact] } :=
  stepped_of hticket (.ofArtifact artifact) h

theorem stepped_prepare {policyFingerprint : Option String} :
    (Frame.prepare operationId request policyFingerprint).Steps service s answer next s' := by
  intro _ _ h
  simp only [Frame.next, bind_eq_ok, refuseIf_eq_ok, return_eq_ok] at h
  obtain ⟨_, -, source, hsource, _, hadmits, rfl, rfl⟩ := h
  have hprepared : service.Prepared request := ⟨source, hsource, policyFingerprint, hadmits⟩
  cases hcorpus : request.corpusId with
  | some corpusId => exact stepped_read rfl ⟨hprepared, hcorpus⟩
  | none =>
    refine stepped_read rfl ⟨hprepared, hcorpus.symm, ?_⟩
    rintro r rfl
    cases hcorpus

theorem stepped_requireCorpus :
    (Frame.requireCorpus operationId request corpusId).Steps service s answer next s' := by
  intro _ hstage h
  simp only [Frame.next, bind_eq_ok, refuseIf_eq_ok, return_eq_ok, corpus_eq_ok] at h
  obtain ⟨_, -, c, ⟨hc, -⟩, _, -, _, hadmits, rfl, rfl⟩ := h
  obtain ⟨-, hid⟩ := KnowledgeStore.corpus?_eq_some.mp hc
  refine stepped_read rfl ⟨hstage.1, ?_, ?_⟩
  · simp [hstage.2, hid]
  · rintro r rfl hsemantic
    simp only [KnowledgeMutationService.admitsCorpus, bind_eq_ok, refuseIf_eq_ok] at hadmits
    obtain ⟨_, hsnapshot, -⟩ := hadmits
    exact fun hnone => hsnapshot ⟨hsemantic, hnone⟩

theorem stepped_resumeExisting :
    (Frame.resumeExisting operationId request corpus).Steps service s answer next s' := by
  intro _ hstage h
  simp only [Frame.next, bind_eq_ok, refuseIf_eq_ok] at h
  obtain ⟨_, -, h⟩ := h
  cases hrow : s.operation? operationId with
  | none =>
    simp only [hrow, return_eq_ok] at h
    obtain ⟨rfl, rfl⟩ := h
    exact stepped_read rfl hstage
  | some row =>
    simp only [hrow, bind_eq_ok, refuseIf_eq_ok, return_eq_ok, not_not] at h
    obtain ⟨_, -, _, hcontent, rfl, rfl⟩ := h
    obtain ⟨-, hid⟩ := KnowledgeStore.operation?_eq_some.mp hrow
    exact stepped_read rfl ⟨hstage, ⟨row, hid ▸ hrow, .refl⟩, hcontent⟩

theorem stepped_requestArtifact :
    (Frame.requestArtifact operationId request corpus).Steps service s answer next s' := by
  intro _ hstage h
  cases answer <;> simp only [Frame.next, bind_eq_ok, return_eq_ok, Prod.exists,
    putBytes_eq_ok, throw, throwThe, MonadExceptOf.throw, reduceCtorEq] at h
  obtain ⟨stored, _, ⟨-, rfl, rfl⟩, rfl, rfl⟩ := h
  exact stepped_artifact rfl _ hstage

theorem stepped_createOperation {reference : String} :
    (Frame.createOperation operationId request corpus reference).Steps service s answer next
      s' := by
  intro _ hstage h
  simp only [Frame.next, bind_eq_ok, refuseIf_eq_ok, return_eq_ok, Prod.exists] at h
  obtain ⟨_, -, row, created, hcreated, rfl, rfl⟩ := h
  rcases createOperation_cases hcreated with
    ⟨hrow, hcontent, rfl⟩ | ⟨hnew, havailable, hcorpus, -, rfl, operations, hinsert, rfl⟩
  · obtain ⟨-, hid⟩ := KnowledgeStore.operation?_eq_some.mp hrow
    exact stepped_read rfl ⟨hstage, ⟨row, hid ▸ hrow, .refl⟩, hcontent⟩
  · refine stepped_of rfl (.create hnew havailable hcorpus rfl hinsert)
      ⟨hstage, ⟨_, ?_, .refl⟩, rfl⟩
    exact (KnowledgeStore.operation?_insert hinsert _).trans (if_pos rfl)

variable {state : KnowledgeOperationState} {providerOperationId : Option String}
  {resultReferences : List String} {expectedRevision : Nat}

/-- After a transition the operation is the one that was moved. -/
theorem operation?_of_transition {row : KnowledgeOperation}
    (h : s.transitionOperation operationId expectedRevision state providerOperationId
      resultReferences = .ok (row, s')) : s'.operation? operationId = some row := by
  obtain ⟨current, hcurrent, -, -, -, -, rfl, rfl⟩ := transitionOperation_eq_ok.mp h
  rw [KnowledgeStore.operation?_moveOperation, if_pos rfl, hcurrent]
  rfl

/-- After a transition the call knows the operation it has moved. -/
theorem knows_of_transition {row : KnowledgeOperation}
    (h : s.transitionOperation operationId expectedRevision state providerOperationId
      resultReferences = .ok (row, s')) :
    s'.Knows row ∧ row.state = state ∧ row.operationId = operationId := by
  have hrow := operation?_of_transition h
  obtain ⟨-, hid⟩ := KnowledgeStore.operation?_eq_some.mp hrow
  obtain ⟨current, -, -, -, -, -, rfl, -⟩ := transitionOperation_eq_ok.mp h
  exact ⟨⟨_, hid ▸ hrow, .refl⟩, rfl, hid⟩

variable {o row : KnowledgeOperation}

/-- The operation a transition moves is the one the call knew. -/
theorem identity_of_transition (ho : s.Knows o)
    (h : s.transitionOperation o.operationId expectedRevision state providerOperationId
      resultReferences = .ok (row, s')) : row.identity = o.identity := by
  obtain ⟨current, hcurrent, -, -, -, -, rfl, -⟩ := transitionOperation_eq_ok.mp h
  obtain ⟨found, hfound, hbefore⟩ := ho
  obtain rfl := Option.some.inj (hcurrent.symm.trans hfound)
  exact hbefore.identity

/-- A transition that was made finds the operation as the call knows it. -/
theorem found_of_transition (ho : s.Knows o)
    (h : s.transitionOperation o.operationId o.revision state providerOperationId
      resultReferences = .ok (row, s')) : s.operation? o.operationId = some o := by
  obtain ⟨current, hcurrent, -, hrevision, -⟩ := transitionOperation_eq_ok.mp h
  obtain ⟨found, hfound, hbefore⟩ := ho
  obtain rfl := Option.some.inj (hcurrent.symm.trans hfound)
  rw [hcurrent, hbefore.eq_of_revision hrevision]

theorem queued_of_transition (ho : s.Knows o) (hstate : o.state = .queued)
    (h : s.transitionOperation o.operationId o.revision state providerOperationId
      resultReferences = .ok (row, s')) :
    ∃ found, s.operation? o.operationId = some found ∧ found.state = .queued :=
  ⟨o, found_of_transition ho h, hstate⟩

/-- The attempt of a request that was begun. -/
theorem sound_attempt (hknown : s.Knows operation)
    (hcorpus : corpus.map (·.corpusId) = operation.corpusId)
    (hrecorded : ∀ c ∈ corpus, c ∈ s.recorded) : (request.attempt operation corpus).Sound s where
  known := hknown
  marks := by simp [KnowledgeRequest.attempt, KnowledgeRequest.mark]
  corpusId := hcorpus
  recorded := hrecorded

/-- What the attempt of a request asks for is the operation's. -/
theorem content_attempt (hcontent : operation.requestFingerprint = request.fingerprint) :
    s.Content operation (request.attempt operation corpus).snapshotReference
      (request.attempt operation corpus).indexedRevision := by
  refine .inl ?_
  rw [hcontent]
  cases request with
  | ingest => exact ⟨rfl, rfl⟩
  | refresh => exact rfl
  | capture => trivial

/-- What a call relies on before it sends the mutation of a request it has begun. -/
theorem stage_send (hsnapshot : service.HasSnapshot request (corpus.bind (·.snapshotReference)))
    (hcontent : operation.requestFingerprint = request.fingerprint)
    (hsound : (request.attempt operation corpus).Sound s) :
    (Frame.send (service.firstCall request) (request.attempt operation corpus)).Stage service
      s := by
  refine ⟨hsound, hcontent, ?_, fun _ => ⟨content_attempt hcontent, ?_, ?_⟩⟩
  · cases request with
    | refresh =>
      simp only [KnowledgeMutationService.firstCall, KnowledgeRequest.attempt]
      split <;> simp [KnowledgeRequest.calls]
    | ingest | capture => exact mem_cons_self
  · intro hkind
    cases request <;> simp_all [KnowledgeRequest.kind, KnowledgeRequest.attempt]
  · rintro r rfl
    exact hsnapshot r rfl

/-- An operation a call knows fits the service. -/
theorem fits_of_knows (hinv : s.Invariant service) (hknown : s.Knows operation) :
    operation.Fits service := by
  obtain ⟨found, hfound, hbefore⟩ := hknown
  obtain ⟨hkind, hsource, hcorpus, hprepared⟩ := hinv.fits hfound
  have hidentity := hbefore.identity
  rw [hbefore.requestFingerprint] at hkind hsource hcorpus hprepared
  exact ⟨(congrArg KnowledgeOperation.kind hidentity :).symm.trans hkind,
    (congrArg KnowledgeOperation.sourceId hidentity :).symm.trans hsource,
    hbefore.corpusId.symm.trans hcorpus, hprepared⟩

/-- The corpus of an operation is that of its request. -/
theorem corpusId_of_knows (hinv : s.Invariant service) (hknown : s.Knows operation)
    (hcontent : operation.requestFingerprint = request.fingerprint) :
    operation.corpusId = request.corpusId := by
  rw [(fits_of_knows hinv hknown).corpusId, hcontent]
  rfl

theorem stepped_begin : (Frame.begin request corpus operation).Steps service s answer next s' := by
  intro hinv hstage h
  obtain ⟨hready, hknown, hcontent⟩ := hstage
  simp only [Frame.next, bind_eq_ok, refuseIf_eq_ok] at h
  obtain ⟨_, -, h⟩ := h
  cases hstate : operation.state <;> simp only [hstate, bind_eq_ok, return_eq_ok, Prod.exists] at h
  case queued =>
    obtain ⟨row, after, hwritten, rfl, rfl⟩ := h
    obtain ⟨hknows, hmoved, hid⟩ := knows_of_transition hwritten
    have hidentity := identity_of_transition hknown hwritten
    have hfingerprint : row.requestFingerprint = request.fingerprint :=
      (congrArg KnowledgeOperation.requestFingerprint hidentity :).trans hcontent
    have hqueued : ∀ id, id = row.operationId →
        (∃ found, s.operation? id = some found ∧ found.state = .queued) ∧
          ∃ found, after.operation? id = some found ∧ found.state ≠ .queued := by
      rintro _ rfl
      refine ⟨hid ▸ queued_of_transition hknown hstate hwritten, row, ?_, by simp [hmoved]⟩
      exact hid ▸ operation?_of_transition hwritten
    refine ⟨.move (by simp [Frame.transition?, hstate]) hwritten, ?_⟩
    rintro _ ⟨⟩
    cases corpus with
    | some corpus => exact ⟨⟨hready, hknows, hfingerprint⟩, fun id ht =>
        .inr (hqueued id (Option.some.inj ht).symm)⟩
    | none =>
      refine ⟨?_, fun id ht => .inr (hqueued id ?_)⟩
      swap
      · exact (Option.some.inj ((if_pos rfl).symm.trans ht)).symm
      refine stage_send hready.snapshot hfingerprint (sound_attempt hknows ?_ ?_)
      · have hcorpus := corpusId_of_knows hinv hknown hcontent
        exact (hready.corpusId.trans hcorpus.symm).trans
          (congrArg KnowledgeOperation.corpusId hidentity :).symm
      · simp
  case running =>
    obtain ⟨row, _, hwritten, rfl, rfl⟩ := h
    exact ⟨.move (by simp [Frame.transition?, hstate]) hwritten, by simp⟩
  all_goals
    obtain ⟨rfl, rfl⟩ := h
    exact stepped_return

/-- What a compare-and-swap on a corpus leaves recorded. -/
theorem recorded_of_put {c durable : KnowledgeCorpus}
    (h : s.putCorpus c expectedRevision = .ok (durable, s')) :
    durable ∈ s'.recorded ∧ durable.corpusId = c.corpusId ∧ durable.state = c.state ∧
      durable.snapshotReference = c.snapshotReference ∧
      durable.indexedRevision = c.indexedRevision := by
  obtain ⟨-, -, -, rfl, -, corpora, rfl⟩ := putCorpus_eq_ok h
  exact ⟨mem_append_right _ mem_cons_self, rfl, rfl, rfl, rfl⟩

theorem stepped_setIndexing {c : KnowledgeCorpus} :
    (Frame.setIndexing attempt c).Steps service s answer next s' := by
  intro hinv hstage h
  obtain ⟨hready, hknown, hcontent⟩ := hstage
  simp only [Frame.next, bind_eq_ok, refuseIf_eq_ok, return_eq_ok, Prod.exists] at h
  obtain ⟨_, -, durable, _, hwritten, rfl, rfl⟩ := h
  have heffect : (Frame.setIndexing attempt c).Effect service s _ := .put rfl hwritten
  refine ⟨heffect, ?_⟩
  obtain ⟨hmem, hid, -, hsnapshot, -⟩ := recorded_of_put hwritten
  have hcorpus := corpusId_of_knows hinv hknown hcontent
  rintro _ ⟨⟩
  refine ⟨?_, fun id ht => .inl ⟨(if_pos rfl).symm.trans ht, by simp⟩⟩
  refine stage_send ?_ hcontent (sound_attempt (heffect.later.knows hknown) ?_ ?_)
  · simpa [hsnapshot] using hready.snapshot
  · simpa [hid, hcorpus] using hready.corpusId
  · rintro _ ⟨⟩
    exact hmem

variable {call : ProviderCall}

/-- The class of the source that admits a request which goes to a provider call. -/
theorem snapshot_of_sends (hsends : service.sends call request = .ok ())
    (hcalls : call ∈ request.calls) (hcall : call ≠ .build) {snapshotReference : Option String}
    (hingest : request.kind = .ingest → snapshotReference ≠ none)
    (hsnapshot : service.HasSnapshot request snapshotReference)
    (hcorpus : request.corpusId ≠ none) : snapshotReference ≠ none := by
  simp only [KnowledgeMutationService.sends, bind_eq_ok, require_eq_ok, refuseIf_eq_ok,
    not_and, not_not] at hsends
  obtain ⟨source, hsource, _, hclass, -⟩ := hsends
  cases request with
  | ingest r => exact hingest rfl
  | capture r => exact absurd rfl hcorpus
  | refresh r =>
    refine hsnapshot r rfl ?_
    have hcognify : call = .cognify := by simpa [KnowledgeRequest.calls, hcall] using hcalls
    rw [show service.source? r.sourceId = some source from hsource]
    simpa using hclass rfl hcognify

theorem stepped_send : (Frame.send call attempt).Steps service s answer next s' := by
  intro hinv hstage h
  obtain ⟨hsound, hcontent, hcalls, htarget⟩ := hstage
  simp only [Frame.next, bind_eq_ok, refuseIf_eq_ok, return_eq_ok] at h
  obtain ⟨_, -, _, hsends, rfl, rfl⟩ := h
  have heffect : (Frame.send call attempt).Effect service s
      (if call = service.firstCall attempt.request then s.start attempt.operation.operationId
        else s) := by
    split
    · rename_i hfirst
      exact .start hfirst
    · exact .refl
  refine stepped_of rfl heffect ⟨heffect.later.sound hsound, hcontent, hcalls, fun hcall => ?_⟩
  obtain ⟨htargets, hingest, hsnapshot⟩ := htarget hcall
  refine ⟨heffect.later.sound hsound, heffect.later.content htargets, fun hcorpus => ?_⟩
  rw [corpusId_of_knows hinv hsound.known hcontent] at hcorpus
  exact snapshot_of_sends hsends hcalls hcall hingest hsnapshot hcorpus

/-- The provider's answer leaves the attempt its operation, its corpus and its target. -/
theorem sound_answered (hsound : attempt.Sound s) (call : ProviderCall)
    (providerOperationId : Option String) :
    (attempt.answered call providerOperationId).Sound s := by
  obtain ⟨hknown, hmarks, hcorpus, hrecorded⟩ := hsound
  unfold Attempt.answered
  split
  · exact ⟨hknown, hmarks, hcorpus, hrecorded⟩
  · exact ⟨hknown, by simp [KnowledgeRequest.mark], hcorpus, hrecorded⟩

@[simp] theorem answered_operation (call : ProviderCall) (providerOperationId : Option String) :
    (attempt.answered call providerOperationId).operation = attempt.operation := by
  unfold Attempt.answered
  split <;> rfl

@[simp] theorem answered_request (call : ProviderCall) (providerOperationId : Option String) :
    (attempt.answered call providerOperationId).request = attempt.request := by
  unfold Attempt.answered
  split <;> rfl

@[simp] theorem answered_snapshot (call : ProviderCall) (providerOperationId : Option String) :
    (attempt.answered call providerOperationId).snapshotReference = attempt.snapshotReference := by
  unfold Attempt.answered
  split <;> rfl

@[simp] theorem answered_revision (call : ProviderCall) (providerOperationId : Option String) :
    (attempt.answered call providerOperationId).indexedRevision = attempt.indexedRevision := by
  unfold Attempt.answered
  split <;> rfl

theorem targets_answered (htargets : attempt.Targets s) (call : ProviderCall)
    (providerOperationId : Option String) :
    (attempt.answered call providerOperationId).Targets s where
  sound := sound_answered htargets.sound call providerOperationId
  content := by simpa using htargets.content
  snapshot := by simpa using htargets.snapshot

theorem later_report (operationId : Uuid) (state : KnowledgeOperationState) :
    s.Later (s.report operationId state) :=
  KnowledgeStore.SameTables.later
    ⟨rfl, rfl, rfl, prefix_rfl, rfl, prefix_append _ _, prefix_rfl⟩

theorem reported_report (o : KnowledgeOperation) (state : KnowledgeOperationState) :
    (s.report o.operationId state).Reported o state :=
  mem_append_right _ mem_cons_self

/-- A step that records what the provider reports. -/
theorem stepped_report
    (hticket : f.ticket? service = none) (h : f.Stage service (s.report operationId state)) :
    frame.Stepped service s (some f) (s.report operationId state) :=
  stepped_of hticket .ofReported h

theorem stepped_await : (Frame.await call attempt).Steps service s answer next s' := by
  intro hinv hstage h
  obtain ⟨hsound, hcontent, hcalls, htarget⟩ := hstage
  have hkind : attempt.operation.requestFingerprint.of.kind = attempt.request.kind := by
    rw [hcontent]
    rfl
  have hlater := later_report (s := s) attempt.operation.operationId .succeeded
  have hanswered : ∀ {state : KnowledgeOperationState} (providerOperationId : Option String),
      (s.report attempt.operation.operationId state).Reported
        (attempt.answered call providerOperationId).operation state := by
    intro state providerOperationId
    rw [answered_operation]
    exact reported_report _ _
  cases call <;> cases answer <;> simp only [Frame.next, return_eq_ok, throw, throwThe,
    MonadExceptOf.throw, reduceCtorEq] at h <;> obtain ⟨rfl, rfl⟩ := h
  case add.answered providerOperationId =>
    have hadd := targets_answered (htarget (by simp)) .add providerOperationId
    have hcorpus := corpusId_of_knows hinv hsound.known hcontent
    cases hrequest : attempt.request <;> rw [hrequest] at hcalls hcorpus <;>
      simp [KnowledgeRequest.calls] at hcalls
    have hsnapshot := hadd.snapshot (by simp [hcorpus, KnowledgeRequest.corpusId])
    refine stepped_read ?_ ⟨hadd.sound, by simpa using hcontent, ?_, fun _ => ⟨hadd.content,
      fun _ => hsnapshot, fun _ _ _ => hsnapshot⟩⟩
    · simp [Frame.ticket?, hrequest, KnowledgeMutationService.firstCall]
    · simp [hrequest, KnowledgeRequest.calls]
  case build.built build =>
    refine stepped_report rfl ⟨hlater.sound hsound, ?_, reported_report _ _⟩
    rw [hkind]
    cases hrequest : attempt.request <;> rw [hrequest] at hcalls <;>
      simp [KnowledgeRequest.calls] at hcalls
    rfl
  case cognify.answered providerOperationId =>
    exact stepped_report rfl ⟨targets_answered (hlater.targets (htarget (by simp))) _ _,
      by simpa using hcontent, hanswered _⟩
  case capture.answered providerOperationId =>
    exact stepped_report rfl ⟨targets_answered (hlater.targets (htarget (by simp))) _ _,
      by simpa using hcontent, hanswered _⟩

/-- An artifact that is stored is one more. -/
theorem later_artifact (artifact : StoredArtifact) :
    s.Later { s with artifacts := s.artifacts ++ [artifact] } :=
  KnowledgeStore.SameTables.later
    ⟨rfl, rfl, rfl, prefix_append _ _, rfl, prefix_rfl, prefix_rfl⟩

theorem stepped_responseArtifact :
    (Frame.responseArtifact attempt).Steps service s answer next s' := by
  intro hinv hstage h
  obtain ⟨htargets, hcontent, hreported⟩ := hstage
  cases answer <;> simp only [Frame.next, bind_eq_ok, return_eq_ok, Prod.exists,
    putBytes_eq_ok, throw, throwThe, MonadExceptOf.throw, reduceCtorEq] at h
  case stored reference =>
    obtain ⟨_, _, ⟨-, rfl, rfl⟩, rfl, rfl⟩ := h
    have hlater := later_artifact (s := s) { reference := reference }
    obtain ⟨⟨hknown, hmarks, hcorpus, hrecorded⟩, htarget, hsnapshot⟩ := hlater.targets htargets
    split
    · rename_i hnone
      refine stepped_artifact rfl _ ⟨⟨hknown, hmarks, hcorpus, hrecorded⟩,
        hlater.isReported hreported, ?_⟩
      intro corpusId hid
      have hop := corpusId_of_knows hinv htargets.sound.known hcontent
      rw [show attempt.request.corpusId = none from hnone] at hop
      exact absurd (hop.symm.trans hid) (by simp)
    · exact stepped_artifact rfl _ ⟨⟨⟨hknown, hmarks, hcorpus, hrecorded⟩, htarget, hsnapshot⟩,
        hlater.isReported hreported⟩

theorem stepped_graphArtifact {build : GraphRefreshBuild} :
    (Frame.graphArtifact build attempt).Steps service s answer next s' := by
  intro _ hstage h
  obtain ⟨hsound, hkind, hreported⟩ := hstage
  cases answer <;> simp only [Frame.next, bind_eq_ok, return_eq_ok, Prod.exists,
    putBytes_eq_ok, throw, throwThe, MonadExceptOf.throw, reduceCtorEq] at h
  case stored graph =>
    obtain ⟨stored, _, ⟨-, rfl, rfl⟩, rfl, rfl⟩ := h
    have heffect : (Frame.graphArtifact build attempt).Effect service s
        (KnowledgeStore.handOver { s with artifacts := s.artifacts ++ [{ reference := graph }] }
          attempt.operation.operationId (some (graph, build.indexedRevision))) :=
      .none ⟨rfl, rfl, rfl, prefix_append _ _, rfl, prefix_rfl, prefix_append _ _⟩
    exact stepped_of rfl heffect ⟨heffect.later.sound hsound, hkind,
      heffect.later.isReported hreported, mem_append_right _ mem_cons_self⟩

theorem stepped_diffArtifact {build : GraphRefreshBuild} {graph : String} :
    (Frame.diffArtifact build graph attempt).Steps service s answer next s' := by
  intro _ hstage h
  obtain ⟨hsound, hkind, hreported, hgraph⟩ := hstage
  cases answer <;> simp only [Frame.next, bind_eq_ok, return_eq_ok, Prod.exists,
    putBytes_eq_ok, throw, throwThe, MonadExceptOf.throw, reduceCtorEq] at h
  case stored diff =>
    obtain ⟨_, _, ⟨-, rfl, rfl⟩, rfl, rfl⟩ := h
    have hlater := later_artifact (s := s) { reference := diff }
    obtain ⟨hknown, hmarks, hcorpus, hrecorded⟩ := hlater.sound hsound
    refine stepped_artifact rfl _ ⟨⟨⟨hknown, ?_, hcorpus, hrecorded⟩,
      .inr ⟨hkind, _, _, hgraph, rfl, rfl⟩, fun _ => by simp [Attempt.withGraph]⟩,
      hlater.isReported hreported⟩
    intro m hm
    rcases mem_cons.mp hm with rfl | hm
    · rfl
    · exact hmarks m hm

/-- A corpus recorded ready with the target of an attempt is the operation's. -/
theorem recorded_of_targets (htargets : attempt.Targets s) {c : KnowledgeCorpus}
    (hc : c ∈ s.recorded) (hid : attempt.operation.corpusId = some c.corpusId)
    (hready : c.ReadyWith attempt.snapshotReference attempt.indexedRevision) :
    s.Recorded attempt.operation := by
  intro corpusId hcorpus
  obtain ⟨hstate, hsnapshot, hindexed⟩ := hready
  refine ⟨c, hc, Option.some.inj (hid.symm.trans hcorpus), hstate, ?_⟩
  rw [hsnapshot, hindexed]
  exact htargets.content

theorem stepped_publish : (Frame.publish attempt).Steps service s answer next s' := by
  intro _ hstage h
  obtain ⟨htargets, hreported⟩ := hstage
  simp only [Frame.next, bind_eq_ok, refuseIf_eq_ok, return_eq_ok] at h
  obtain ⟨_, -, rfl, rfl⟩ := h
  split
  · rename_i hready
    obtain ⟨c, hc, hready⟩ : ∃ c, attempt.corpus = some c ∧
        c.ReadyWith attempt.snapshotReference attempt.indexedRevision := by
      cases hcorpus : attempt.corpus with
      | none => simp [hcorpus] at hready
      | some c => exact ⟨c, rfl, by simpa [hcorpus] using hready⟩
    refine stepped_read rfl ⟨htargets.sound, hreported, recorded_of_targets htargets
      (htargets.sound.recorded c hc) ?_ hready⟩
    rw [← htargets.sound.corpusId, hc]
    rfl
  · exact stepped_read rfl ⟨htargets, hreported⟩

theorem stepped_putReady : (Frame.putReady attempt).Steps service s answer next s' := by
  intro _ hstage h
  obtain ⟨htargets, hreported⟩ := hstage
  simp only [Frame.next, bind_eq_ok, refuseIf_eq_ok, require_eq_ok, return_eq_ok, Prod.exists] at h
  obtain ⟨_, -, c, hc, durable, _, hwritten, rfl, rfl⟩ := h
  have heffect : (Frame.putReady attempt).Effect service s _ :=
    .put (by simp [Frame.put?, hc]) hwritten
  obtain ⟨hmem, hid, hstate, hsnapshot, hindexed⟩ := recorded_of_put hwritten
  have htargets' := heffect.later.targets htargets
  refine stepped_of rfl heffect ⟨htargets'.sound, heffect.later.isReported hreported,
    recorded_of_targets htargets' hmem ?_ ⟨hstate, hsnapshot, hindexed⟩⟩
  rw [← htargets.sound.corpusId, hc, hid]
  rfl

end Steps

end Mishkan.Knowledge
