import Mishkan.Knowledge.Steps

/-!
# Knowledge/Settlements — the steps of a cancellation and a reconciliation

The lemmas of the frames that settle an operation, and with them the proof outline of the whole
service (`outline`): what every call relies on holds at every point of every interleaving.
-/

namespace Mishkan.Knowledge

open Refusal List KnowledgeStore

section Steps

variable {service : KnowledgeMutationService} {s s' : KnowledgeStore} {answer : Answer}
  {next : Option Frame} {operation : KnowledgeOperation} {request : KnowledgeRequest}
  {corpus : Option KnowledgeCorpus} {operationId corpusId : Uuid} {attempt : Attempt}

variable {frame : Frame}

/-- A step that makes the transition of its frame, and returns. -/
theorem stepped_move {o row : KnowledgeOperation} {state : KnowledgeOperationState}
    {providerOperationId : Option String} {resultReferences : List String}
    (hmove : frame.transition? = some (o, state, providerOperationId, resultReferences))
    (hwritten : s.transitionOperation o.operationId o.revision state providerOperationId
      resultReferences = .ok (row, s')) : frame.Stepped service s none s' :=
  ⟨.move hmove hwritten, by simp⟩

theorem stepped_succeed : (Frame.succeed attempt).Steps service s answer next s' := by
  intro _ _ h
  simp only [Frame.next, bind_eq_ok, refuseIf_eq_ok, return_eq_ok, Prod.exists] at h
  obtain ⟨_, -, row, _, hwritten, rfl, rfl⟩ := h
  exact stepped_move rfl hwritten

theorem stepped_markUncertain {mark : Mark} {outer : List Mark} :
    (Frame.markUncertain mark outer).Steps service s answer next s' := by
  intro _ _ h
  simp only [Frame.next, bind_eq_ok, refuseIf_eq_ok, return_eq_ok, Prod.exists] at h
  obtain ⟨_, -, row, _, hwritten, rfl, rfl⟩ := h
  exact stepped_move rfl hwritten

theorem stepped_cancelQueued : (Frame.cancelQueued operation).Steps service s answer next s' := by
  intro _ _ h
  simp only [Frame.next, bind_eq_ok, refuseIf_eq_ok, return_eq_ok, Prod.exists] at h
  obtain ⟨_, -, row, _, hwritten, rfl, rfl⟩ := h
  exact stepped_move rfl hwritten

variable {settlement : ProviderReconciliation}

variable {marks : List Mark}

theorem stepped_settle {resultReferences : List String} :
    (Frame.settle operation settlement resultReferences marks).Steps service s answer next s' := by
  intro _ _ h
  simp only [Frame.next, bind_eq_ok, refuseIf_eq_ok, require_eq_ok, return_eq_ok, Prod.exists] at h
  obtain ⟨_, -, state, hstate, row, _, hwritten, rfl, rfl⟩ := h
  exact stepped_move (by rw [Frame.transition?, hstate]; rfl) hwritten

/-- What a call reads of an operation it knows. -/
theorem knows_of_read (h : s.operation? operationId = some operation) : s.Knows operation := by
  obtain ⟨-, hid⟩ := KnowledgeStore.operation?_eq_some.mp h
  exact ⟨operation, hid ▸ h, .refl⟩

theorem stepped_cancel : (Frame.cancel operationId).Steps service s answer next s' := by
  intro _ _ h
  simp only [Frame.next, bind_eq_ok, refuseIf_eq_ok, operation_eq_ok] at h
  obtain ⟨_, -, o, ⟨ho, -⟩, h⟩ := h
  have hknown := knows_of_read ho
  cases hstate : o.state <;> simp only [hstate, return_eq_ok] at h <;> obtain ⟨rfl, rfl⟩ := h
  case queued => exact stepped_read rfl ⟨hknown, hstate⟩
  case running => exact stepped_read rfl ⟨hknown, hstate⟩
  all_goals exact stepped_return

theorem stepped_requestCancel : (Frame.requestCancel operation).Steps service s answer next s' := by
  intro _ _ h
  simp only [Frame.next, bind_eq_ok, refuseIf_eq_ok, return_eq_ok, Prod.exists] at h
  obtain ⟨_, -, row, _, hwritten, rfl, rfl⟩ := h
  obtain ⟨hknows, hstate, -⟩ := knows_of_transition hwritten
  exact stepped_of rfl (.move rfl hwritten) ⟨hknows, hstate⟩

theorem stepped_cancelRuntime : (Frame.cancelRuntime operation).Steps service s answer next s' := by
  intro _ hstage h
  simp only [Frame.next, bind_eq_ok, refuseIf_eq_ok, return_eq_ok] at h
  obtain ⟨_, -, _, -, rfl, rfl⟩ := h
  exact stepped_read rfl hstage

/-- What the provider settles is reported. -/
theorem reported_settlement (o : KnowledgeOperation) (settlement : ProviderReconciliation) :
    ∀ state ∈ settlement.settlement.state?,
      (s.reportSettlement o.operationId settlement).Reported o state := by
  intro state hstate
  refine mem_append_right _ ?_
  rw [hstate]
  exact mem_cons_self

@[simp] theorem ticket?_settling (settlement : ProviderReconciliation) (marks : List Mark) :
    (settling operation settlement marks).ticket? service = none := by
  unfold settling
  split <;> rfl

/-- What is left to do once a settlement is known relies on the same. -/
theorem stage_settling (h : (Frame.settleResponse operation settlement marks).Stage service s) :
    (settling operation settlement marks).Stage service s := by
  unfold settling
  split
  · exact h
  · exact h

theorem stepped_askCancel : (Frame.askCancel operation).Steps service s answer next s' := by
  intro _ hstage h
  obtain ⟨hknown, hstate⟩ := hstage
  cases answer <;> simp only [Frame.next, bind_eq_ok, return_eq_ok, throw, throwThe,
    MonadExceptOf.throw, reduceCtorEq] at h
  case settled settlement =>
    obtain ⟨_, -, rfl, rfl⟩ := h
    have heffect : (Frame.askCancel operation).Effect service s
        (s.reportSettlement operation.operationId settlement) := .ofReported
    split
    · exact ⟨heffect, by simp⟩
    · refine stepped_of (ticket?_settling _ _) heffect (stage_settling
        ⟨heffect.later.knows hknown, by simp, reported_settlement _ _, ?_⟩)
      exact .inl ⟨hstate, by simp⟩

theorem stepped_reconcile {expectedRevision : Nat} :
    (Frame.reconcile operationId expectedRevision).Steps service s answer next s' := by
  intro _ _ h
  simp only [Frame.next, bind_eq_ok, refuseIf_eq_ok, return_eq_ok, operation_eq_ok]
    at h
  obtain ⟨_, -, o, ⟨ho, -⟩, _, -, rfl, rfl⟩ := h
  split
  · rename_i hstate
    exact stepped_read rfl ⟨knows_of_read ho, hstate⟩
  · exact stepped_return

/-- An operation whose provider is the graph port is a refresh. -/
theorem kind_of_usesGraph (hfits : operation.Fits service)
    (hgraph : service.usesGraph operation.sourceId = true) :
    operation.requestFingerprint.of.kind = .refresh := by
  obtain ⟨source, hsource, _, hadmits⟩ := hfits.prepared
  simp only [KnowledgeMutationService.sourceRuntime, bind_eq_ok, require_eq_ok, pure_eq_ok,
    Option.filter_eq_some_iff] at hsource
  obtain ⟨found, ⟨hfound, -⟩, _, -, _, -, hsame⟩ := hsource
  subst hsame
  rw [hfits.sourceId] at hgraph
  have hclass : found.knowledgeClass = .structural := by
    simp only [KnowledgeMutationService.usesGraph, KnowledgeMutationService.isStructural, hfound,
      Option.any_some, Bool.and_eq_true, decide_eq_true_eq] at hgraph
    exact hgraph.1
  cases hrequest : operation.requestFingerprint.of with
  | refresh => rfl
  | ingest | capture =>
    rw [hrequest] at hadmits
    simp [KnowledgeMutationService.admits, hclass] at hadmits

theorem stepped_reconcileRuntime :
    (Frame.reconcileRuntime operation).Steps service s answer next s' := by
  intro hinv hstage h
  obtain ⟨hknown, hstate⟩ := hstage
  simp only [Frame.next, bind_eq_ok, refuseIf_eq_ok] at h
  obtain ⟨_, -, _, -, h⟩ := h
  split at h
  · rename_i hgraph
    simp only [bind_eq_ok, require_eq_ok, return_eq_ok] at h
    obtain ⟨corpusId, hcorpus, rfl, rfl⟩ := h
    exact stepped_read rfl ⟨hknown, hstate, kind_of_usesGraph (fits_of_knows hinv hknown) hgraph,
      hcorpus⟩
  · obtain ⟨rfl, rfl⟩ := return_eq_ok.mp h
    exact stepped_read rfl ⟨hknown, hstate⟩

theorem stepped_reconcileCorpus :
    (Frame.reconcileCorpus operation corpusId).Steps service s answer next s' := by
  intro hinv hstage h
  obtain ⟨hknown, hstate, hkind, hcorpus⟩ := hstage
  simp only [Frame.next, bind_eq_ok, refuseIf_eq_ok, return_eq_ok, corpus_eq_ok] at h
  obtain ⟨_, -, c, ⟨hc, -⟩, rfl, rfl⟩ := h
  obtain ⟨-, hid⟩ := KnowledgeStore.corpus?_eq_some.mp hc
  exact stepped_read rfl ⟨hknown, hstate, hkind, by rw [hid]; exact hcorpus, hinv.recorded hc⟩

variable {c : KnowledgeCorpus}

theorem stepped_recover :
    (Frame.recover operation c).Steps service s answer next s' := by
  intro _ hstage h
  obtain ⟨hknown, hstate, hkind, hcorpus, hrecorded⟩ := hstage
  cases answer <;> simp only [Frame.next, return_eq_ok, throw, throwThe, MonadExceptOf.throw,
    reduceCtorEq] at h
  case notRecovered =>
    obtain ⟨rfl, rfl⟩ := h
    exact stepped_read rfl ⟨hknown, hstate⟩
  case built build =>
    split at h
    · obtain ⟨rfl, rfl⟩ := return_eq_ok.mp h
      have hlater := later_report (s := s) operation.operationId .succeeded
      refine stepped_report rfl ⟨⟨hlater.knows hknown, by simp, hcorpus.symm, ?_⟩, hkind,
        reported_report _ _⟩
      rintro _ ⟨⟩
      exact hrecorded
    · cases h

theorem stepped_askReconcile : (Frame.askReconcile operation).Steps service s answer next s' := by
  intro _ hstage h
  obtain ⟨hknown, hstate⟩ := hstage
  cases answer <;> simp only [Frame.next, return_eq_ok, throw, throwThe, MonadExceptOf.throw,
    reduceCtorEq] at h
  case settled settlement =>
    obtain ⟨rfl, rfl⟩ := h
    have heffect : (Frame.askReconcile operation).Effect service s
        (s.reportSettlement operation.operationId settlement) := .ofReported
    have hknown' := heffect.later.knows hknown
    have hreported := reported_settlement (s := s) operation settlement
    split
    · exact ⟨heffect, by simp⟩
    · unfold reconciled
      split
      · rename_i hsettled hcorpus
        exact stepped_of rfl heffect ⟨hknown', hstate, hcorpus, hsettled,
          hreported _ (by rw [hsettled]; rfl)⟩
      · rename_i hother
        refine stepped_of (ticket?_settling _ _) heffect (stage_settling
          ⟨hknown', by simp, hreported, .inr ⟨hstate, rfl, ?_⟩⟩)
        intro hsettled hcorpus
        obtain ⟨corpusId, hid⟩ := Option.ne_none_iff_exists'.mp hcorpus
        exact absurd hid (hother corpusId hsettled)

/-- **What a finalization expects of the corpus is the operation's**, when its request reads back as
it was made. -/
theorem content_of_expected
    {snapshot revision : Option String} {graph : Option (String × String)}
    (hfits : operation.Fits service)
    (h : expectedContent s operation settlement c = .ok (snapshot, revision, graph)) :
    ∃ request, s.requestOf operation.requestReference = some request ∧
      (request = operation.requestFingerprint.of →
        (s.handOver operation.operationId graph).Content operation snapshot revision) := by
  unfold expectedContent at h
  split at h
  · rename_i r _ hread
    simp only [return_eq_ok] at h
    obtain ⟨rfl, rfl, rfl⟩ := h
    exact ⟨_, hread, fun heq => .inl (by rw [← heq]; exact ⟨rfl, rfl⟩)⟩
  · rename_i r hkind hread
    refine ⟨_, hread, fun heq => ?_⟩
    split at h
    · simp only [bind_eq_ok, require_eq_ok, refuseIf_eq_ok, return_eq_ok, Prod.exists] at h
      obtain ⟨graph, revision, -, _, -, rfl, rfl, rfl⟩ := h
      exact .inr ⟨hfits.kind ▸ hkind, graph, revision,
        mem_append_right _ mem_cons_self, rfl, rfl⟩
    · simp only [return_eq_ok] at h
      obtain ⟨rfl, rfl, rfl⟩ := h
      exact .inl (by rw [← heq]; exact rfl)
  · cases h

theorem stepped_finalize :
    (Frame.finalize operation settlement corpusId).Steps service s answer next s' := by
  intro hinv hstage h
  obtain ⟨hknown, hstate, hcorpus, hsettled, hreported⟩ := hstage
  simp only [Frame.next, bind_eq_ok, refuseIf_eq_ok, corpus_eq_ok, Prod.exists] at h
  obtain ⟨_, -, c, ⟨hc, -⟩, snapshot, revision, graph, hexpected, h⟩ := h
  obtain ⟨-, hid⟩ := KnowledgeStore.corpus?_eq_some.mp hc
  obtain ⟨request, hread, hcontent⟩ := content_of_expected (fits_of_knows hinv hknown) hexpected
  have heffect : (Frame.finalize operation settlement corpusId).Effect service s
      (s.handOver operation.operationId graph) := .ofGraphs
  have hknown' := heffect.later.knows hknown
  split at h
  · rename_i hready
    obtain ⟨rfl, rfl⟩ := return_eq_ok.mp h
    obtain ⟨hstateReady, hsnapshot, hrevision⟩ := hready
    refine stepped_of (ticket?_settling _ _) heffect (stage_settling ⟨hknown', by simp, ?_,
      .inr ⟨hstate, rfl, fun _ _ => ⟨request, hread, fun heq id hop =>
        ⟨c, hinv.recorded hc, ?_, hstateReady, ?_⟩⟩⟩⟩)
    · intro state hsome
      rw [hsettled] at hsome
      obtain rfl := Option.some.inj hsome
      exact hreported
    · exact hid.trans (Option.some.inj (hcorpus.symm.trans hop))
    · rw [hsnapshot, hrevision]
      exact hcontent heq
  · simp only [bind_eq_ok, refuseIf_eq_ok, return_eq_ok] at h
    obtain ⟨_, -, rfl, rfl⟩ := h
    exact stepped_of rfl heffect ⟨hknown', hstate, by rw [hcorpus, ← hid]; rfl, hsettled, hreported,
      rfl, request, hread, hcontent⟩

theorem stepped_putFinalized :
    (Frame.putFinalized operation settlement c).Steps service s answer next s' := by
  intro _ hstage h
  obtain ⟨hknown, hstate, hcorpus, hsettled, hreported, hready, request, hread, hcontent⟩ := hstage
  simp only [Frame.next, bind_eq_ok, refuseIf_eq_ok, return_eq_ok, Prod.exists] at h
  obtain ⟨_, -, durable, _, hwritten, rfl, rfl⟩ := h
  have heffect : (Frame.putFinalized operation settlement c).Effect service s _ := .put rfl hwritten
  obtain ⟨hmem, hid, hdurable, hsnapshot, hindexed⟩ := recorded_of_put hwritten
  refine stepped_of (ticket?_settling _ _) heffect (stage_settling
    ⟨heffect.later.knows hknown, by simp, ?_, .inr ⟨hstate, rfl, fun _ _ =>
      ⟨request, heffect.later.requestOf hread, fun heq id hop =>
        ⟨durable, hmem, ?_, ?_, ?_⟩⟩⟩⟩)
  · intro state hsome
    rw [hsettled] at hsome
    obtain rfl := Option.some.inj hsome
    exact heffect.later.isReported hreported
  · exact hid.trans (Option.some.inj (hcorpus.symm.trans hop))
  · exact hdurable.trans hready
  · rw [hsnapshot, hindexed]
    exact heffect.later.content (hcontent heq)

theorem stepped_settleResponse :
    (Frame.settleResponse operation settlement marks).Steps service s answer next s' := by
  intro _ hstage h
  cases answer <;> simp only [Frame.next, bind_eq_ok, return_eq_ok, Prod.exists,
    putBytes_eq_ok, throw, throwThe, MonadExceptOf.throw, reduceCtorEq] at h
  case stored reference =>
    obtain ⟨_, _, ⟨-, rfl, rfl⟩, rfl, rfl⟩ := h
    exact stepped_artifact rfl _ ((later_artifact { reference := reference }).stage hstage)

/-- **A step that succeeds has an effect, and establishes what the call relies on next.** -/
theorem stepped_of_next : frame.Steps service s answer next s' := by
  cases frame with
  | prepare => exact stepped_prepare
  | requireCorpus => exact stepped_requireCorpus
  | resumeExisting => exact stepped_resumeExisting
  | requestArtifact => exact stepped_requestArtifact
  | createOperation => exact stepped_createOperation
  | begin => exact stepped_begin
  | setIndexing => exact stepped_setIndexing
  | send => exact stepped_send
  | await => exact stepped_await
  | responseArtifact => exact stepped_responseArtifact
  | graphArtifact => exact stepped_graphArtifact
  | diffArtifact => exact stepped_diffArtifact
  | publish => exact stepped_publish
  | putReady => exact stepped_putReady
  | succeed => exact stepped_succeed
  | markUncertain => exact stepped_markUncertain
  | cancel => exact stepped_cancel
  | cancelQueued => exact stepped_cancelQueued
  | requestCancel => exact stepped_requestCancel
  | cancelRuntime => exact stepped_cancelRuntime
  | askCancel => exact stepped_askCancel
  | reconcile => exact stepped_reconcile
  | reconcileRuntime => exact stepped_reconcileRuntime
  | reconcileCorpus => exact stepped_reconcileCorpus
  | recover => exact stepped_recover
  | askReconcile => exact stepped_askReconcile
  | finalize => exact stepped_finalize
  | putFinalized => exact stepped_putFinalized
  | settleResponse => exact stepped_settleResponse
  | settle => exact stepped_settle

/-- The marks around a frame are of an operation the call knows. -/
theorem knows_marks (hstage : frame.Stage service s) {mark : Mark}
    {outer : List Mark} (hmarks : frame.marks = mark :: outer) :
    s.Knows mark.operation ∧ ∀ m ∈ outer, m.operation = mark.operation := by
  have hknown : ∀ o : KnowledgeOperation, s.Knows o → (∀ m ∈ frame.marks, m.operation = o) →
      s.Knows mark.operation ∧ ∀ m ∈ outer, m.operation = mark.operation := by
    intro o ho hall
    rw [hmarks, forall_mem_cons] at hall
    rw [hall.1]
    exact ⟨ho, hall.2⟩
  have hsound : ∀ a : Attempt, a.Sound s → frame.marks = a.marks →
      s.Knows mark.operation ∧ ∀ m ∈ outer, m.operation = mark.operation :=
    fun a ha heq => hknown a.operation ha.known (by rw [heq]; exact ha.marks)
  cases frame with
  | send _ a => exact hsound a hstage.1 rfl
  | await _ a => exact hsound a hstage.1 rfl
  | responseArtifact a => exact hsound a hstage.1.sound rfl
  | graphArtifact _ a => exact hsound a hstage.1 rfl
  | diffArtifact _ _ a => exact hsound a hstage.1 rfl
  | publish a => exact hsound a hstage.1.sound rfl
  | putReady a => exact hsound a hstage.1.sound rfl
  | succeed a => exact hsound a hstage.1 rfl
  | markUncertain m _ => exact hknown m.operation hstage.1 hstage.2
  | askCancel o => exact hknown o hstage.1 (by simp [Frame.marks])
  | settleResponse o _ _ => exact hknown o hstage.1 hstage.2.1
  | settle o _ _ _ => exact hknown o hstage.1 hstage.2.1
  | _ => cases hmarks

/-- **One step of a call**, whether it succeeds or raises. -/
theorem stepped_advance (answer : Answer) (hinv : s.Invariant service)
    (hstage : frame.Stage service s) : frame.Stepped service s (frame.advance service s answer).1
      (frame.advance service s answer).2 := by
  unfold Frame.advance
  split
  · rename_i result hnext
    exact stepped_of_next hinv hstage hnext
  · split
    · exact stepped_return
    · rename_i hmarks
      exact stepped_read rfl (knows_marks hstage hmarks)

end Steps

/-! ## The invariant -/

namespace Frame.Effect

variable {service : KnowledgeMutationService} {s s' : KnowledgeStore} {frame : Frame}

/-- A new operation fits the service. -/
theorem fits_candidate {request : KnowledgeRequest} (hprepared : service.Prepared request)
    (operationId : Uuid) (reference : String) :
    ({ request.candidate operationId reference with revision := 1 } :
      KnowledgeOperation).Fits service := ⟨rfl, rfl, rfl, hprepared⟩

/-- A later version of an operation fits the service. -/
theorem fits_before {o row : KnowledgeOperation} (hfits : o.Fits service) (h : o.Before row) :
    row.Fits service := by
  obtain ⟨hkind, hsource, hcorpus, hprepared⟩ := hfits
  have hidentity := h.identity
  rw [← h.requestFingerprint] at hkind hsource hcorpus hprepared
  exact ⟨(congrArg KnowledgeOperation.kind hidentity :).trans hkind,
    (congrArg KnowledgeOperation.sourceId hidentity :).trans hsource,
    h.corpusId.trans hcorpus, hprepared⟩

/-- A row after a step was there before, or was created by it. -/
theorem row_cases (h : frame.Effect service s s') {id : Uuid} {row : KnowledgeOperation}
    (hrow : s'.operation? id = some row) :
    (∃ before, s.operation? id = some before ∧ before.Before row) ∨
      s.operation? id = Option.none ∧ ∃ request corpus reference,
        frame = .createOperation id request corpus reference ∧
        row = { request.candidate id reference with revision := 1 } ∧
        ∀ corpusId ∈ request.corpusId, s.corpus? corpusId ≠ Option.none := by
  cases hbefore : s.operation? id with
  | some before =>
    obtain ⟨row', hrow', hlater⟩ := h.later.operation hbefore
    obtain rfl := Option.some.inj (hrow.symm.trans hrow')
    exact .inl ⟨before, rfl, hlater⟩
  | none =>
    refine .inr ⟨rfl, ?_⟩
    cases h with
    | none same =>
      rw [KnowledgeStore.operation?, same.operations] at hrow
      exact absurd (hbefore.symm.trans hrow) (by simp)
    | start => exact absurd (hbefore.symm.trans hrow) (by simp)
    | @create operationId request corpus reference created _ hnew _ hcorpus hcreated hinsert =>
      rw [KnowledgeStore.operation?_insert hinsert] at hrow
      subst hcreated
      split at hrow
      · rename_i hid
        obtain rfl := Option.some.inj hrow
        obtain rfl : id = operationId := hid
        exact ⟨request, corpus, reference, rfl, rfl, hcorpus⟩
      · exact absurd (hbefore.symm.trans hrow) (by simp)
    | move _ hwritten =>
      obtain ⟨current, hcurrent, -, -, -, -, -, rfl⟩ :=
        transitionOperation_eq_ok.mp hwritten
      rw [KnowledgeStore.operation?_moveOperation, hbefore] at hrow
      split at hrow <;> cases hrow
    | put _ hwritten =>
      obtain ⟨-, -, -, -, -, corpora, rfl⟩ := putCorpus_eq_ok hwritten
      exact absurd (hbefore.symm.trans hrow) (by simp)

/-- A corpus after a step was there before, or is recorded by it. -/
theorem corpus_recorded (h : frame.Effect service s s')
    (hrecorded : ∀ {id c}, s.corpus? id = some c → c ∈ s.recorded) {id : Uuid}
    {c : KnowledgeCorpus} (hc : s'.corpus? id = some c) : c ∈ s'.recorded := by
  cases h with
  | none same =>
    rw [KnowledgeStore.corpus?, same.corpora] at hc
    rw [same.recorded]
    exact hrecorded hc
  | start | create => exact hrecorded hc
  | move _ hwritten =>
    obtain ⟨-, -, -, -, -, -, -, rfl⟩ := transitionOperation_eq_ok.mp hwritten
    exact hrecorded hc
  | put _ hwritten =>
    obtain ⟨-, -, -, -, hcorpus, corpora, rfl⟩ := putCorpus_eq_ok hwritten
    rw [hcorpus] at hc
    split at hc
    · obtain rfl := Option.some.inj hc
      exact mem_append_right _ mem_cons_self
    · exact mem_append_left _ (hrecorded hc)

/-- The operations that were started: as before, or one more. -/
theorem started_cases (h : frame.Effect service s s') : s'.started = s.started ∨
    (∃ call attempt, frame = .send call attempt) ∧
      ∃ id, frame.ticket? service = some id ∧ s'.started = s.started ++ [id] := by
  cases h with
  | none same => exact .inl same.started
  | start first => exact .inr ⟨⟨_, _, rfl⟩, _, if_pos first, rfl⟩
  | create => exact .inl rfl
  | move _ hwritten =>
    obtain ⟨-, -, -, -, -, -, -, rfl⟩ := transitionOperation_eq_ok.mp hwritten
    exact .inl rfl
  | put _ hwritten =>
    obtain ⟨-, -, -, -, -, corpora, rfl⟩ := putCorpus_eq_ok hwritten
    exact .inl rfl

/-- A row that has left `queued` does not go back. -/
theorem not_queued (h : s.Later s') {id : Uuid}
    (hrow : ∃ row, s.operation? id = some row ∧ row.state ≠ .queued) :
    ∃ row, s'.operation? id = some row ∧ row.state ≠ .queued := by
  obtain ⟨row, hrow, hstate⟩ := hrow
  obtain ⟨row', hrow', hlater⟩ := h.operation hrow
  refine ⟨row', hrow', fun hqueued => hstate ?_⟩
  rw [← hlater.of_queued hqueued, hqueued]

/-- **Every step keeps the invariant.** -/
theorem invariant (h : frame.Effect service s s') (hinv : s.Invariant service)
    (hrelies : frame.Relies service s) : s'.Invariant service where
  fits hrow := by
    rcases h.row_cases hrow with ⟨before, hbefore, hlater⟩ | ⟨-, request, _, _, rfl, rfl, -⟩
    · exact fits_before (hinv.fits hbefore) hlater
    · exact fits_candidate hrelies.1.prepared _ _
  corpus hrow corpusId hid := by
    refine h.later.corpus ?_
    rcases h.row_cases hrow with ⟨before, hbefore, hlater⟩ | ⟨-, request, _, _, rfl, rfl, hcorpus⟩
    · exact hinv.corpus hbefore corpusId (hlater.corpusId ▸ hid)
    · exact hcorpus corpusId hid
  recorded hc := h.corpus_recorded hinv.recorded hc
  nodup := by
    rcases h.started_cases with heq | ⟨-, id, hticket, heq⟩
    · exact heq ▸ hinv.nodup
    · rw [heq, nodup_append]
      refine ⟨hinv.nodup, nodup_singleton _, ?_⟩
      rintro a ha b hb rfl
      rw [mem_singleton.mp hb] at ha
      exact (hrelies.2 id hticket).1 ha
  started {id} hid := by
    rcases h.started_cases with heq | ⟨-, started, hticket, heq⟩
    · exact not_queued h.later (hinv.started (heq ▸ hid))
    · rw [heq, mem_append, mem_singleton] at hid
      rcases hid with hid | rfl
      · exact not_queued h.later (hinv.started hid)
      · exact not_queued h.later (hrelies.2 _ hticket).2

/-- An operation another call may start is not started by this step. -/
theorem startable (h : frame.Effect service s s') {id : Uuid} (hid : s.Startable id)
    (hne : ∀ started ∈ frame.ticket? service, started ≠ id) : s'.Startable id := by
  refine ⟨?_, not_queued h.later hid.2⟩
  rcases h.started_cases with heq | ⟨-, started, hticket, heq⟩
  · exact heq ▸ hid.1
  · rw [heq, mem_append, mem_singleton, not_or]
    exact ⟨hid.1, fun heq' => hne started hticket heq'.symm⟩

end Frame.Effect

/-! ## What a step does to a row -/

section Rows

variable {service : KnowledgeMutationService} {s s' : KnowledgeStore} {frame : Frame}

/-- The call knows the operation whose transition it makes. -/
theorem Frame.Stage.knows_transition (hstage : frame.Stage service s) {o : KnowledgeOperation}
    {state : KnowledgeOperationState} {providerOperationId : Option String}
    {resultReferences : List String}
    (h : frame.transition? = some (o, state, providerOperationId, resultReferences)) :
    s.Knows o := by
  cases frame with
  | begin request corpus operation =>
    cases hstate : operation.state <;> simp [Frame.transition?, hstate] at h <;>
      exact h.1 ▸ hstage.2.1
  | succeed attempt =>
    obtain ⟨rfl, -⟩ := Prod.mk.inj (Option.some.inj h)
    exact hstage.1.known
  | markUncertain mark outer =>
    obtain ⟨rfl, -⟩ := Prod.mk.inj (Option.some.inj h)
    exact hstage.1
  | cancelQueued operation | requestCancel operation =>
    obtain ⟨rfl, -⟩ := Prod.mk.inj (Option.some.inj h)
    exact hstage.1
  | settle operation settlement _ _ =>
    obtain ⟨_, -, heq⟩ := Option.map_eq_some_iff.mp h
    obtain ⟨rfl, -⟩ := Prod.mk.inj heq
    exact hstage.1
  | _ => cases h

/-- What a step made of an operation: it is as it was, it is new, or the frame has moved it. -/
inductive RowStep (s s' : KnowledgeStore) (frame : Frame) (row : KnowledgeOperation) : Prop
  | same (before : s.operation? row.operationId = some row)
  | created (new : s.operation? row.operationId = none) {request : KnowledgeRequest}
      {corpus : Option KnowledgeCorpus} {reference : String}
      (creates : frame = .createOperation row.operationId request corpus reference)
      (hrow : row = { request.candidate row.operationId reference with revision := 1 })
      (hcorpus : ∀ corpusId ∈ request.corpusId, s.corpus? corpusId ≠ none)
      (rest : s'.corpora = s.corpora ∧ s'.recorded = s.recorded ∧ s'.artifacts = s.artifacts)
  | moved {o : KnowledgeOperation} {state : KnowledgeOperationState}
      {providerOperationId : Option String} {resultReferences : List String}
      (moves : frame.transition? = some (o, state, providerOperationId, resultReferences))
      (before : s.operation? o.operationId = some o) (valid : o.Valid)
      (permitted : state ∈ transitions o.state)
      (available : ∀ reference ∈ resultReferences, s.Available reference)
      (hrow : row = o.moved state providerOperationId resultReferences)
      (after : s' = s.moveOperation o.operationId state providerOperationId resultReferences)

/-- **What a step does to a row.** -/
theorem Frame.Effect.rowStep (h : frame.Effect service s s') (hstage : frame.Stage service s)
    {id : Uuid} {row : KnowledgeOperation} (hrow : s'.operation? id = some row) :
    RowStep s s' frame row := by
  obtain ⟨-, hid⟩ := KnowledgeStore.operation?_eq_some.mp hrow
  subst hid
  cases h with
  | none same =>
    rw [KnowledgeStore.operation?, same.operations] at hrow
    exact .same hrow
  | start => exact .same hrow
  | @create operationId request corpus reference created operations hnew _ hcorpus hcreated
      hinsert =>
    rw [KnowledgeStore.operation?_insert hinsert] at hrow
    subst hcreated
    split at hrow
    · rename_i hid
      obtain rfl := Option.some.inj hrow
      exact .created hnew rfl rfl hcorpus ⟨rfl, rfl, rfl⟩
    · exact .same hrow
  | @move _ o moved state providerOperationId resultReferences _ hmove hwritten =>
    have hfound := found_of_transition (hstage.knows_transition hmove) hwritten
    obtain ⟨current, hcurrent, hvalid, -, hpermitted, havailable, -, rfl⟩ :=
      transitionOperation_eq_ok.mp hwritten
    obtain rfl := Option.some.inj (hfound.symm.trans hcurrent)
    rw [KnowledgeStore.operation?_moveOperation] at hrow
    split at hrow
    · rename_i hid
      rw [hid, hfound] at hrow
      exact .moved hmove hfound hvalid hpermitted havailable (Option.some.inj hrow).symm rfl
    · exact .same hrow
  | put _ hwritten =>
    obtain ⟨-, -, -, -, -, corpora, rfl⟩ := putCorpus_eq_ok hwritten
    exact .same hrow

end Rows

/-! ## The proof outline -/

section Outline

variable {service : KnowledgeMutationService} {s s' : KnowledgeStore} {frame f u : Frame}

/-- What the call may start next may be started. -/
theorem Frame.Stepped.startable (h : frame.Stepped service s (some f) s')
    (hinv : s.Invariant service) (hrelies : frame.Relies service s) :
    ∀ id ∈ f.ticket? service, s'.Startable id := by
  intro id hid
  obtain ⟨heffect, hnext⟩ := h
  rcases (hnext f rfl).2 id hid with ⟨hticket, hsend⟩ | ⟨⟨row, hrow, hqueued⟩, hafter⟩
  · obtain ⟨hfresh, hrow⟩ := hrelies.2 id hticket
    refine ⟨?_, Frame.Effect.not_queued heffect.later hrow⟩
    rcases heffect.started_cases with heq | ⟨⟨call, attempt, rfl⟩, -⟩
    · exact heq ▸ hfresh
    · exact absurd rfl (hsend call attempt)
  · refine ⟨fun hstarted => ?_, hafter⟩
    have hfresh : id ∉ s.started := by
      intro hmem
      obtain ⟨row', hrow', hstate⟩ := hinv.started hmem
      obtain rfl := Option.some.inj (hrow.symm.trans hrow')
      exact hstate hqueued
    rcases heffect.started_cases with heq | ⟨-, started, hticket, heq⟩
    · exact hfresh (heq ▸ hstarted)
    · rw [heq, mem_append, mem_singleton] at hstarted
      obtain rfl := hstarted.resolve_left hfresh
      obtain ⟨row', hrow', hstate⟩ := (hrelies.2 _ hticket).2
      obtain rfl := Option.some.inj (hrow.symm.trans hrow')
      exact hstate hqueued

/-- What the call may start next, no other call may start. -/
theorem Frame.Stepped.apart (h : frame.Stepped service s (some f) s')
    (hu : u.Relies service s) (hapart : frame.Apart service u) : f.Apart service u := by
  intro id hid hother
  rcases (h.2 f rfl).2 id hid with ⟨hticket, -⟩ | ⟨⟨row, hrow, hqueued⟩, -⟩
  · exact hapart id hticket hother
  · obtain ⟨row', hrow', hstate⟩ := (hu.2 id hother).2
    obtain rfl := Option.some.inj (hrow.symm.trans hrow')
    exact hstate hqueued

end Outline

/-- **The proof outline of the service**: what its calls rely on. -/
def outline (service : KnowledgeMutationService) : Pool.Outline service.program where
  inv s := s.Invariant service
  relies s frame := frame.Relies service s
  apart frame other := frame.Apart service other
  apart_symm h := fun id hid hother => h id hother hid
  start s entry others hinv _ := by
    refine ⟨hinv, fun _ _ h => h, ?_, ?_⟩
    · rintro _ ⟨⟩
      cases entry <;> exact ⟨trivial, by rintro _ ⟨⟩⟩
    · rintro _ ⟨⟩ u -
      cases entry <;> rintro _ ⟨⟩
  advance others s answer frame hinv hrelies hothers hapart := by
    have hstepped := stepped_advance answer hinv hrelies.1
    refine ⟨hstepped.1.invariant hinv hrelies, fun u hu hurelies => ?_, fun f hf => ?_,
      fun f hf u hu => ?_⟩
    · refine ⟨hstepped.1.later.stage hurelies.1, fun id hid => ?_⟩
      refine hstepped.1.startable (hurelies.2 id hid) ?_
      rintro _ hticket rfl
      exact hapart u hu _ hticket hid
    · have hnext : (frame.advance service s answer).1 = some f := hf
      rw [hnext] at hstepped
      exact ⟨(hstepped.2 f rfl).1, hstepped.startable hinv hrelies⟩
    · have hnext : (frame.advance service s answer).1 = some f := hf
      rw [hnext] at hstepped
      exact hstepped.apart (hothers u hu) (hapart u hu)
  outside _ c := nomatch c
  outside_stable _ c := nomatch c

end Mishkan.Knowledge
