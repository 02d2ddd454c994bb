import Mishkan.Knowledge.Settlements

/-!
# Knowledge/Dispatch — a mutation is dispatched once, and its settlement is honest

Over runs of `ingest`, `capture_memory` and `refresh` calls, repeated, side by side and crashing
between any two steps: the provider's mutation is started once, content that differs is refused,
and an operation whose mutation was started stays open until its provider has answered
(`mutations_settled`).  That no operation is uncertain before its mutation was started needs that a
call which has begun one gets as far as the first send (`dispatch_run`).
-/

namespace Mishkan.Knowledge

open Refusal Transition List Option Knowledge.Frame

variable {service : KnowledgeMutationService}

/-- The daemon's calls on the store. -/
abbrev Daemon := Pool KnowledgeStore Frame

abbrev DaemonStep := Pool.Operation Entry Answer Empty

/-- Where a run begins: corpora, and no operation. -/
structure KnowledgeStore.Initial (s : KnowledgeStore) : Prop where
  operations : s.operations = ∅
  recorded : s.recorded = s.corpora.rows
  started : s.started = []
  reported : s.reported = []
  graphs : s.graphs = []

/-- A call that is started is an `ingest`, a `capture_memory` or a `refresh`. -/
def IsMutation : DaemonStep → Prop
  | .start (.cancel _) | .start (.reconcile ..) => False
  | _ => True

/-! ## The property -/

/-- A mutation that has yet to find or make its operation. -/
def Frame.submission? : Frame → Option (Uuid × KnowledgeRequest)
  | .prepare operationId request _ | .requireCorpus operationId request _
  | .resumeExisting operationId request _ | .requestArtifact operationId request _
  | .createOperation operationId request _ _ => some (operationId, request)
  | _ => none

/-- A mutation that has its operation, up to the provider's answer. -/
def Frame.begun? : Frame → Option (KnowledgeOperation × KnowledgeRequest)
  | .begin request _ operation => some (operation, request)
  | .setIndexing attempt _ | .send _ attempt | .await _ attempt =>
    some (attempt.operation, attempt.request)
  | _ => none

/-- A call whose operation has other content gets no further than finding that out. -/
def RefusesOthers (service : KnowledgeMutationService) (p : Daemon) : DaemonStep → Prop
  | .advance i answer => ∀ frame ∈ p.calls[i]?, ∀ operationId request,
      frame.submission? = some (operationId, request) →
      ∀ row, p.shared.operation? operationId = some row →
        row.requestFingerprint ≠ request.fingerprint →
        p.shared.SameTables (frame.advance service p.shared answer).2 ∧
          ∀ f ∈ (frame.advance service p.shared answer).1,
            f.submission? = some (operationId, request)
  | _ => True

/-- Mutations are dispatched once, of the content of their operation, and an operation that was
dispatched is open or settled as its provider reported. -/
structure SettledDispatch (p : Daemon) : Prop where
  once : p.shared.started.Nodup
  content : ∀ frame ∈ p.calls, ∀ operation request, frame.begun? = some (operation, request) →
    ∃ row, p.shared.operation? operation.operationId = some row ∧
      row.requestFingerprint = request.fingerprint
  settled : ∀ id ∈ p.shared.started, ∃ row, p.shared.operation? id = some row ∧
    (row.state = .running ∨ row.state = .uncertain ∨ p.shared.Reported row row.state)

/-- And an operation that is uncertain was dispatched. -/
structure HonestDispatch (p : Daemon) : Prop extends SettledDispatch p where
  certain : ∀ id row, p.shared.operation? id = some row → row.state = .uncertain →
    id ∈ p.shared.started

/-- The property of a step: what it refuses, and what it leaves. -/
def DispatchHolds (service : KnowledgeMutationService) (p : Daemon) (op : DaemonStep) : Prop :=
  RefusesOthers service p op ∧ HonestDispatch (p.step service.program op)

/-! ## The way to the first send -/

/-- The source of a request takes its first provider call: it has a network profile, unless the
graph port takes the call, and what is refreshed without that port is semantic. -/
def KnowledgeMutationService.CanSend (service : KnowledgeMutationService)
    (request : KnowledgeRequest) : Prop :=
  ∃ source ∈ service.source? request.sourceId,
    request.kind = .refresh ∧ source.knowledgeClass = .structural ∨
      source.networkProfile ≠ none ∧ (request.kind = .refresh → source.knowledgeClass = .semantic)

instance (service : KnowledgeMutationService) (request : KnowledgeRequest) :
    Decidable (service.CanSend request) := inferInstanceAs (Decidable (∃ _ ∈ _, _))

/-- The corpus is as the call has read it, and its snapshot is there. -/
def KnowledgeStore.Unmoved (s : KnowledgeStore) (corpus : KnowledgeCorpus) : Prop :=
  s.corpus? corpus.corpusId = some corpus ∧
    ∀ reference ∈ corpus.snapshotReference, s.Available reference

instance (s : KnowledgeStore) (corpus : KnowledgeCorpus) : Decidable (s.Unmoved corpus) :=
  inferInstanceAs (Decidable (_ ∧ _))

/-- A step of a call that has begun its operation does not fail before the first send, and a retry
does not find the operation there. -/
def Frame.Carries (service : KnowledgeMutationService) (p : Daemon) (answer : Answer) :
    Frame → Prop
  | .begin _ _ operation => operation.state = .running → answer = .done →
      ∀ f ∈ p.calls, f.ticket? service ≠ some operation.operationId
  | .setIndexing _ corpus => answer = .done ∧ p.shared.Unmoved corpus
  | .send call attempt => call = service.firstCall attempt.request →
      answer = .done ∧ service.CanSend attempt.request
  | _ => True

instance (p : Daemon) (answer : Answer) (frame : Frame) :
    Decidable (frame.Carries service p answer) := by
  cases frame <;> dsimp only [Frame.Carries] <;> infer_instance

/-- **An operation that was begun is sent**: no call ends or fails between the transition to
`running` and the first send, and none is retried while it stands there. -/
def SendsBegun (service : KnowledgeMutationService) (p : Daemon) : DaemonStep → Prop
  | .advance i answer => ∀ frame ∈ p.calls[i]?, frame.Carries service p answer
  | .drop i => ∀ frame ∈ p.calls[i]?, frame.ticket? service = none
  | .crash => ∀ frame ∈ p.calls, frame.ticket? service = none
  | _ => True

instance (p : Daemon) (op : DaemonStep) : Decidable (SendsBegun service p op) := by
  cases op <;> dsimp only [SendsBegun] <;> infer_instance

/-! ## Content that differs -/

theorem sameTables_refl (s : KnowledgeStore) : s.SameTables s :=
  ⟨rfl, rfl, rfl, prefix_rfl, rfl, prefix_rfl, prefix_rfl⟩

/-- **A submission whose operation has other content writes nothing but its own artifact**, and goes
on as a submission or raises. -/
theorem refuses_next {s s' : KnowledgeStore} {frame : Frame} {answer : Answer}
    {next : Option Frame} {operationId : Uuid} {request : KnowledgeRequest}
    {row : KnowledgeOperation} (hframe : frame.submission? = some (operationId, request))
    (hrow : s.operation? operationId = some row)
    (hcontent : row.requestFingerprint ≠ request.fingerprint)
    (h : frame.next service s answer = .ok (next, s')) :
    s.SameTables s' ∧ ∀ f ∈ next, f.submission? = some (operationId, request) := by
  cases frame with
  | prepare id r policyFingerprint =>
    obtain ⟨rfl, rfl⟩ := Prod.mk.inj (Option.some.inj hframe)
    simp only [Frame.next, bind_eq_ok, refuseIf_eq_ok, return_eq_ok] at h
    obtain ⟨_, -, _, -, _, -, rfl, rfl⟩ := h
    refine ⟨sameTables_refl s, ?_⟩
    cases hcorpus : r.corpusId <;> rintro _ ⟨⟩ <;> rfl
  | requireCorpus id r corpusId =>
    obtain ⟨rfl, rfl⟩ := Prod.mk.inj (Option.some.inj hframe)
    simp only [Frame.next, bind_eq_ok, refuseIf_eq_ok, return_eq_ok] at h
    obtain ⟨_, -, _, -, _, -, _, -, rfl, rfl⟩ := h
    exact ⟨sameTables_refl s, by rintro _ ⟨⟩; rfl⟩
  | resumeExisting id r corpus =>
    obtain ⟨rfl, rfl⟩ := Prod.mk.inj (Option.some.inj hframe)
    simp only [Frame.next, hrow, bind_eq_ok, refuseIf_eq_ok, not_not] at h
    obtain ⟨_, -, _, -, _, heq, -⟩ := h
    exact absurd heq hcontent
  | requestArtifact id r corpus =>
    obtain ⟨rfl, rfl⟩ := Prod.mk.inj (Option.some.inj hframe)
    cases answer <;> simp only [Frame.next, bind_eq_ok, return_eq_ok, Prod.exists,
      KnowledgeStore.putBytes_eq_ok, throw, throwThe, MonadExceptOf.throw, reduceCtorEq] at h
    obtain ⟨stored, _, ⟨-, rfl, rfl⟩, rfl, rfl⟩ := h
    exact ⟨⟨rfl, rfl, rfl, prefix_append _ _, rfl, prefix_rfl, prefix_rfl⟩,
      by rintro _ ⟨⟩; rfl⟩
  | createOperation id r corpus reference =>
    obtain ⟨rfl, rfl⟩ := Prod.mk.inj (Option.some.inj hframe)
    simp only [Frame.next, bind_eq_ok, refuseIf_eq_ok, Prod.exists] at h
    obtain ⟨_, -, created, _, hcreated, -⟩ := h
    rcases KnowledgeStore.createOperation_cases hcreated with ⟨hfound, heq, -⟩ | ⟨hnew, -⟩
    · obtain rfl := Option.some.inj (hrow.symm.trans hfound)
      exact absurd heq hcontent
    · exact absurd (hrow.symm.trans hnew) (by simp)
  | _ => cases hframe

/-- **Content that differs is refused**, at every step of every call. -/
theorem refusesOthers (p : Daemon) (op : DaemonStep) : RefusesOthers service p op := by
  cases op with
  | advance i answer =>
    intro frame _ operationId request hframe row hrow hcontent
    have hmarks : frame.marks = [] := by cases frame <;> first | rfl | cases hframe
    unfold advance
    split
    · rename_i result hnext
      exact refuses_next hframe hrow hcontent hnext
    · rw [hmarks]
      exact ⟨sameTables_refl _, by simp⟩
  | _ => trivial

/-! ## Mutations alone -/

/-- The frames of a mutation. -/
def Frame.isMutation : Frame → Bool
  | .prepare .. | .requireCorpus .. | .resumeExisting .. | .requestArtifact .. | .createOperation ..
  | .begin .. | .setIndexing .. | .send .. | .await .. | .responseArtifact _ | .graphArtifact ..
  | .diffArtifact .. | .publish _ | .putReady _ | .succeed _ | .markUncertain .. => true
  | _ => false

/-- The operation whose mutation a call has sent, or which it is about to mark. -/
def Frame.sent? (service : KnowledgeMutationService) : Frame → Option Uuid
  | .send call attempt =>
    if call = service.firstCall attempt.request then none else some attempt.operation.operationId
  | .await _ attempt | .responseArtifact attempt | .graphArtifact _ attempt
  | .diffArtifact _ _ attempt | .publish attempt | .putReady attempt | .succeed attempt =>
    some attempt.operation.operationId
  | .markUncertain mark _ => some mark.operation.operationId
  | _ => none

/-- A mutation stays one, and what it has sent was sent before or is started by the step. -/
theorem mutation_next {s s' : KnowledgeStore} {frame f : Frame} {answer : Answer}
    (hframe : frame.isMutation = true) (h : frame.next service s answer = .ok (some f, s')) :
    f.isMutation = true ∧ ∀ id ∈ f.sent? service, frame.sent? service = some id ∨
      id ∈ s'.started := by
  cases frame with
  | prepare _ request _ =>
    simp only [Frame.next, bind_eq_ok, return_eq_ok, Option.some.injEq] at h
    obtain ⟨_, -, _, -, _, -, rfl, -⟩ := h
    cases request.corpusId <;> exact ⟨rfl, by rintro _ ⟨⟩⟩
  | requireCorpus =>
    simp only [Frame.next, bind_eq_ok, return_eq_ok, Option.some.injEq] at h
    obtain ⟨_, -, _, -, _, -, _, -, rfl, -⟩ := h
    exact ⟨rfl, by rintro _ ⟨⟩⟩
  | resumeExisting operationId =>
    simp only [Frame.next, bind_eq_ok] at h
    obtain ⟨_, -, h⟩ := h
    cases hrow : s.operation? operationId <;>
      simp only [hrow, bind_eq_ok, return_eq_ok, Option.some.injEq] at h
    · obtain ⟨rfl, -⟩ := h
      exact ⟨rfl, by rintro _ ⟨⟩⟩
    · obtain ⟨_, -, _, -, rfl, -⟩ := h
      exact ⟨rfl, by rintro _ ⟨⟩⟩
  | begin request corpus operation =>
    simp only [Frame.next, bind_eq_ok] at h
    obtain ⟨_, -, h⟩ := h
    cases hstate : operation.state <;>
      simp only [hstate, bind_eq_ok, return_eq_ok, Option.some.injEq, reduceCtorEq, false_and,
        and_false, exists_false] at h
    obtain ⟨_, -, rfl, -⟩ := h
    cases corpus <;> exact ⟨rfl, by simp [KnowledgeMutationService.dispatching, sent?,
      KnowledgeRequest.attempt]⟩
  | await call =>
    cases call <;> cases answer <;> simp only [Frame.next, return_eq_ok, Option.some.injEq, throw,
      throwThe, MonadExceptOf.throw, reduceCtorEq] at h <;>
      obtain ⟨rfl, -⟩ := h <;> refine ⟨rfl, fun id hid => .inl ?_⟩
    case await.add.answered =>
      obtain ⟨-, hid⟩ := ite_none_left_eq_some.mp hid
      simpa [sent?] using hid
    all_goals simpa [sent?] using hid
  | requestArtifact =>
    cases answer <;> simp only [Frame.next, bind_eq_ok, return_eq_ok, Option.some.injEq, throw,
      throwThe, MonadExceptOf.throw, reduceCtorEq] at h
    obtain ⟨_, -, rfl, -⟩ := h
    exact ⟨rfl, by rintro _ ⟨⟩⟩
  | responseArtifact | graphArtifact | diffArtifact =>
    cases answer <;> simp only [Frame.next, bind_eq_ok, return_eq_ok, Option.some.injEq, throw,
      throwThe, MonadExceptOf.throw, reduceCtorEq] at h
    obtain ⟨_, -, rfl, -⟩ := h
    first | exact ⟨rfl, fun id hid => .inl hid⟩ | (split <;> exact ⟨rfl, fun id hid => .inl hid⟩)
  | createOperation =>
    simp only [Frame.next, bind_eq_ok, return_eq_ok, Option.some.injEq] at h
    obtain ⟨_, -, _, -, rfl, -⟩ := h
    exact ⟨rfl, by rintro _ ⟨⟩⟩
  | setIndexing =>
    simp only [Frame.next, bind_eq_ok, return_eq_ok, Option.some.injEq] at h
    obtain ⟨_, -, _, -, rfl, -⟩ := h
    exact ⟨rfl, by simp [sent?, KnowledgeRequest.attempt]⟩
  | send call attempt =>
    simp only [Frame.next, bind_eq_ok, return_eq_ok, Option.some.injEq] at h
    obtain ⟨_, -, _, -, rfl, rfl⟩ := h
    refine ⟨rfl, fun id hid => ?_⟩
    obtain rfl := Option.some.inj hid
    by_cases hfirst : call = service.firstCall attempt.request
    · rw [if_pos hfirst]
      exact .inr (mem_append_right _ mem_cons_self)
    · exact .inl (if_neg hfirst)
  | publish =>
    simp only [Frame.next, bind_eq_ok, return_eq_ok, Option.some.injEq] at h
    obtain ⟨_, -, rfl, -⟩ := h
    split <;> exact ⟨rfl, fun id hid => .inl hid⟩
  | putReady =>
    simp only [Frame.next, bind_eq_ok, return_eq_ok, Option.some.injEq] at h
    obtain ⟨_, -, _, -, _, -, rfl, -⟩ := h
    exact ⟨rfl, fun id hid => .inl hid⟩
  | succeed | markUncertain =>
    simp only [Frame.next, bind_eq_ok, return_eq_ok, reduceCtorEq, false_and, and_false,
      exists_false] at h
  | _ => cases hframe

theorem isMutation_advance {s : KnowledgeStore} {frame f : Frame} {answer : Answer}
    (hframe : frame.isMutation = true) (h : (frame.advance service s answer).1 = some f) :
    f.isMutation = true := by
  unfold advance at h
  split at h
  · rename_i result hnext
    obtain ⟨next, s'⟩ := result
    obtain rfl : next = some f := h
    exact (mutation_next hframe hnext).1
  · split at h
    · cases h
    · obtain rfl := Option.some.inj h
      rfl

/-! ## The run -/

/-- What holds along every run of mutations. -/
structure Mutating (service : KnowledgeMutationService) (p : Daemon) : Prop where
  holds : (outline service).Holds p
  mutations : ∀ f ∈ p.calls, f.isMutation = true
  states : ∀ {id row}, p.shared.operation? id = some row → row.state = .queued ∨
    row.state = .running ∨ row.state = .uncertain ∨ p.shared.Reported row row.state

namespace Mutating

variable {p : Daemon} {op : DaemonStep}

/-- The content of a mutation that has its operation is the operation's. -/
theorem content (h : (outline service).Holds p) {frame : Frame} (hframe : frame ∈ p.calls)
    {operation : KnowledgeOperation} {request : KnowledgeRequest}
    (hbegun : frame.begun? = some (operation, request)) :
    ∃ row, p.shared.operation? operation.operationId = some row ∧
      row.requestFingerprint = request.fingerprint := by
  have hstage : frame.Stage service p.shared := (h.relied frame hframe).1
  have hknown : p.shared.Knows operation ∧ operation.requestFingerprint = request.fingerprint := by
    cases frame with
    | begin =>
      obtain ⟨rfl, rfl⟩ := Prod.mk.inj (Option.some.inj hbegun)
      exact hstage.2
    | setIndexing =>
      obtain ⟨rfl, rfl⟩ := Prod.mk.inj (Option.some.inj hbegun)
      exact hstage.2
    | send | await =>
      obtain ⟨rfl, rfl⟩ := Prod.mk.inj (Option.some.inj hbegun)
      exact ⟨hstage.1.known, hstage.2.1⟩
    | _ => cases hbegun
  obtain ⟨⟨row, hrow, hbefore⟩, hcontent⟩ := hknown
  exact ⟨row, hrow, hbefore.requestFingerprint.trans hcontent⟩

theorem settled (h : Mutating service p) : SettledDispatch p where
  once := h.holds.invariant.nodup
  content _ hframe _ _ hbegun := content h.holds hframe hbegun
  settled id hid := by
    obtain ⟨row, hrow, hstate⟩ := h.holds.invariant.started hid
    exact ⟨row, hrow, (h.states hrow).resolve_left hstate⟩

/-- The state a mutation moves its operation to. -/
theorem state_of_transition {s : KnowledgeStore} {frame : Frame} (hframe : frame.isMutation = true)
    (hstage : frame.Stage service s) {o : KnowledgeOperation} {state : KnowledgeOperationState}
    {providerOperationId : Option String} {resultReferences : List String}
    (h : frame.transition? = some (o, state, providerOperationId, resultReferences)) :
    state = .running ∨ state = .uncertain ∨ s.Reported o state := by
  cases frame with
  | begin request corpus operation =>
    cases hstate : operation.state <;> simp only [transition?, hstate, Option.some.injEq,
      Prod.mk.injEq, reduceCtorEq] at h
    · exact .inl h.2.1.symm
    · exact .inr (.inl h.2.1.symm)
  | succeed attempt =>
    obtain ⟨rfl, rfl, -⟩ := by simpa [transition?] using h
    exact .inr (.inr hstage.2.1)
  | markUncertain mark outer =>
    obtain ⟨-, rfl, -⟩ := by simpa [transition?] using h
    exact .inr (.inl rfl)
  | cancelQueued | requestCancel | settle => cases hframe
  | _ => cases h

/-- A step that moves an operation succeeds. -/
theorem next_of_moved {s : KnowledgeStore} {frame : Frame} {answer : Answer}
    {o row : KnowledgeOperation} (hbefore : s.operation? o.operationId = some o)
    (hrow : (frame.advance service s answer).2.operation? o.operationId = some row)
    (hne : row ≠ o) : ∃ result, frame.next service s answer = .ok result := by
  cases hnext : frame.next service s answer with
  | ok result => exact ⟨result, rfl⟩
  | error =>
    have hsame : (frame.advance service s answer).2 = s := by
      unfold advance
      rw [hnext]
      dsimp only
      split <;> rfl
    rw [hsame, hbefore] at hrow
    exact absurd (Option.some.inj hrow).symm hne

theorem moved_ne (o : KnowledgeOperation) (state : KnowledgeOperationState)
    (providerOperationId : Option String) (resultReferences : List String) :
    o.moved state providerOperationId resultReferences ≠ o :=
  fun h => Nat.succ_ne_self o.revision (congrArg KnowledgeOperation.revision h)

/-- **A step of a mutation leaves its operation open, or settled as reported.** -/
theorem states_advance (h : Mutating service p) {frame : Frame} {answer : Answer}
    (hmem : frame ∈ p.calls) {key : Uuid} {row : KnowledgeOperation}
    (hrow : (frame.advance service p.shared answer).2.operation? key = some row) :
    row.state = .queued ∨ row.state = .running ∨ row.state = .uncertain ∨
      (frame.advance service p.shared answer).2.Reported row row.state := by
  have hstage : frame.Stage service p.shared := (h.holds.relied frame hmem).1
  have heffect := (stepped_advance answer h.holds.invariant hstage).1
  cases heffect.rowStep hstage hrow with
  | same hbefore =>
    exact (h.states hbefore).imp id (Or.imp id (Or.imp id heffect.later.isReported))
  | created _ _ hcreated =>
    rw [hcreated]
    exact .inl rfl
  | moved hmoves _ _ _ _ hmoved =>
    subst hmoved
    have hstates := state_of_transition (h.mutations frame hmem) hstage hmoves
    exact .inr (hstates.imp id (Or.imp id fun hreported => heffect.later.isReported hreported))

/-- The pool after a step of one of its calls. -/
theorem step_advance {i : ℕ} {answer : Answer} {frame : Frame} (hcall : p.calls[i]? = some frame) :
    p.step service.program (.advance i answer) = ⟨(frame.advance service p.shared answer).2,
      (frame.advance service p.shared answer).1.toList ++ p.calls.eraseIdx i⟩ := by
  simp only [Pool.step, hcall]
  rfl

/-- A step of a call that is not there. -/
theorem step_idle {i : ℕ} {answer : Answer} (hcall : p.calls[i]? = none) :
    p.step service.program (.advance i answer) = p := by
  simp only [Pool.step, hcall]

/-- **Every step of a run of mutations keeps the invariant.** -/
theorem step (h : Mutating service p) (hop : IsMutation op) :
    Mutating service (p.step service.program op) := by
  have hholds := h.holds.step op
  have hsub : ∀ i, ∀ f ∈ p.calls.eraseIdx i, f.isMutation = true := fun i f hf =>
    h.mutations f ((eraseIdx_sublist _ _).subset hf)
  cases op with
  | start entry =>
    refine ⟨hholds, fun f hf => ?_, h.states⟩
    cases entry with
    | mutate =>
      rcases mem_cons.mp hf with rfl | hf
      · rfl
      · exact h.mutations f hf
    | cancel | reconcile => cases hop
  | advance i answer =>
    cases hcall : p.calls[i]? with
    | none => rwa [step_idle hcall]
    | some frame =>
      rw [step_advance hcall] at hholds ⊢
      have hmem := mem_of_getElem? hcall
      refine ⟨hholds, fun f hf => ?_, fun hrow => h.states_advance hmem hrow⟩
      rcases mem_append.mp hf with hf | hf
      · exact isMutation_advance (h.mutations frame hmem) (mem_toList.mp hf)
      · exact hsub i f hf
  | drop i => exact ⟨hholds, hsub i, h.states⟩
  | crash => exact ⟨hholds, by rintro _ ⟨⟩, h.states⟩
  | outside c => exact nomatch c

theorem initial {s : KnowledgeStore} (h : s.Initial) : Mutating service ⟨s, []⟩ where
  holds := by
    have hnone : ∀ key, s.operation? key = none := by
      intro key
      rw [KnowledgeStore.operation?, h.operations]
      rfl
    refine Pool.Outline.holds_idle ⟨?_, ?_, fun hc => ?_, ?_, ?_⟩
    · intro key row hrow
      exact absurd ((hnone key).symm.trans hrow) (by simp)
    · intro key row hrow
      exact absurd ((hnone key).symm.trans hrow) (by simp)
    · rw [h.recorded]
      exact (KnowledgeStore.corpus?_eq_some.mp hc).1
    · rw [h.started]
      exact nodup_nil
    · rw [h.started]
      rintro _ ⟨⟩
  mutations := by rintro _ ⟨⟩
  states {key row} hrow := by
    rw [KnowledgeStore.operation?, h.operations] at hrow
    cases hrow

end Mutating

/-- **Mutations are dispatched once, refuse content that differs and settle as reported**, along
every run. -/
theorem mutations_settled (service : KnowledgeMutationService) {s : KnowledgeStore}
    (h : s.Initial) {ops : List DaemonStep} (hops : ∀ op ∈ ops, IsMutation op) :
    Along (Pool.step service.program) (fun p op =>
      RefusesOthers service p op ∧ SettledDispatch (p.step service.program op)) ⟨s, []⟩ ops :=
  Along.of_guarded (I := Mutating service) (fun _ _ hp hop => hp.step hop)
    (fun p op hp hop => ⟨refusesOthers p op, (hp.step hop).settled⟩) (Mutating.initial h)
    (Along.of_forall (fun op hop _ => hops op hop) _)

/-! ## Operations that are sent -/

/-- Operations that are uncertain were dispatched, one that runs was dispatched or is on its way in
a call, and a call that is past its first send has started its mutation. -/
structure Sent (service : KnowledgeMutationService) (p : Daemon) : Prop where
  certain : ∀ id row, p.shared.operation? id = some row → row.state = .uncertain →
    id ∈ p.shared.started
  running : ∀ id row, p.shared.operation? id = some row → row.state = .running →
    id ∈ p.shared.started ∨ ∃ f ∈ p.calls, f.ticket? service = some id
  calls : ∀ f ∈ p.calls, ∀ id ∈ f.sent? service, id ∈ p.shared.started

section Sends

variable {p : Daemon} {s s' : KnowledgeStore} {frame f : Frame} {answer : Answer}

theorem sends_of_canSend {request : KnowledgeRequest} (h : service.CanSend request) :
    service.sends (service.firstCall request) request = .ok () := by
  obtain ⟨source, hsource, h⟩ := h
  rw [KnowledgeMutationService.sends, mem_def.mp hsource]
  cases request with
  | ingest | capture =>
    simp_all [KnowledgeRequest.kind, KnowledgeMutationService.firstCall, require, refuseIf]
  | refresh r =>
    have hstructural : service.isStructural r.sourceId = true ↔
        source.knowledgeClass = .structural := by
      simp [KnowledgeMutationService.isStructural, show service.source? r.sourceId = _ from hsource]
    by_cases hclass : source.knowledgeClass = .structural <;>
      simp_all [KnowledgeRequest.kind, KnowledgeMutationService.firstCall, require, refuseIf]

/-- A corpus that is as it was read can be written. -/
theorem putCorpus_of_unmoved {c : KnowledgeCorpus} (h : s.Unmoved c) :
    ∃ result, s.putCorpus { c with state := .indexing } c.revision = .ok result := by
  obtain ⟨hc, havailable⟩ := h
  obtain ⟨hmem, -⟩ := KnowledgeStore.corpus?_eq_some.mp hc
  have hfind : s.corpora.find (fun r => r.projectId = c.projectId && r.sourceId = c.sourceId) =
      some c := by
    cases hfound : s.corpora.find (fun r => r.projectId = c.projectId && r.sourceId = c.sourceId)
      with
    | none => simpa using Table.find_eq_none.mp hfound c hmem
    | some r =>
      have hscope : r.projectId = c.projectId ∧ r.sourceId = c.sourceId := by
        simpa using Table.of_find hfound
      rw [Table.eq_of_clash (Table.mem_of_find hfound) hmem
        (by simp [Keyed.clash, Keyed.key, hscope])]
  simp only [KnowledgeStore.putCorpus, hfind]
  simpa [refuseIf] using havailable

/-- **A call on the way to its first send gets there.** -/
theorem next_of_carries {id : Uuid} (hcarries : frame.Carries service p answer)
    (hticket : frame.ticket? service = some id) :
    ∃ f s', frame.next service p.shared answer = .ok (some f, s') ∧
      (f.ticket? service = some id ∨ id ∈ s'.started) := by
  cases frame with
  | setIndexing attempt c =>
    obtain ⟨rfl, hunmoved⟩ := hcarries
    obtain ⟨⟨durable, s'⟩, hput⟩ := putCorpus_of_unmoved hunmoved
    refine ⟨_, s', by simp only [Frame.next, hput]; rfl, .inl ?_⟩
    exact (if_pos rfl).trans hticket
  | send call attempt =>
    obtain ⟨hfirst, hid⟩ := ite_none_right_eq_some.mp hticket
    obtain ⟨rfl, hcan⟩ := hcarries hfirst
    refine ⟨_, _, by simp only [Frame.next, hfirst, sends_of_canSend hcan]; rfl, .inr ?_⟩
    rw [← Option.some.inj hid]
    exact mem_append_right _ mem_cons_self
  | _ => cases hticket

/-- The handler around a mutation marks the operation that was sent, or that is on its way. -/
theorem sent_of_marks (hframe : frame.isMutation = true) (hstage : frame.Stage service s)
    {mark : Mark} {outer : List Mark} (hmarks : frame.marks = mark :: outer) :
    frame.sent? service = some mark.operation.operationId ∨
      frame.ticket? service = some mark.operation.operationId := by
  have hsound : ∀ a : Attempt, a.Sound s → frame.marks = a.marks →
      a.operation.operationId = mark.operation.operationId := by
    intro a ha heq
    rw [ha.marks mark (by rw [← heq, hmarks]; exact mem_cons_self)]
  cases frame with
  | send call a =>
    have hid := hsound a hstage.1 rfl
    by_cases hfirst : call = service.firstCall a.request
    · exact .inr ((if_pos hfirst).trans (congrArg some hid))
    · exact .inl ((if_neg hfirst).trans (congrArg some hid))
  | await _ a | graphArtifact _ a | diffArtifact _ _ a | succeed a =>
    exact .inl (congrArg some (hsound a hstage.1 rfl))
  | responseArtifact a | publish a | putReady a =>
    exact .inl (congrArg some (hsound a hstage.1.sound rfl))
  | markUncertain m rest =>
    have hrest : rest = mark :: outer := hmarks
    rw [hstage.2 mark (hrest ▸ mem_cons_self)]
    exact .inl rfl
  | askCancel | settleResponse | settle => cases hframe
  | _ => cases hmarks

/-- **What a call has sent was started**, after each of its steps. -/
theorem sent_advance (hframe : frame.isMutation = true) (hstage : frame.Stage service p.shared)
    (hinv : p.shared.Invariant service) (hcarries : frame.Carries service p answer)
    (hsent : ∀ id ∈ frame.sent? service, id ∈ p.shared.started)
    (h : (frame.advance service p.shared answer).1 = some f) :
    ∀ id ∈ f.sent? service, id ∈ (frame.advance service p.shared answer).2.started := by
  intro id hid
  have hlater := (stepped_advance answer hinv hstage).1.later
  cases hnext : frame.next service p.shared answer with
  | ok result =>
    obtain ⟨next, s'⟩ := result
    have hadvance : frame.advance service p.shared answer = (next, s') := by
      rw [advance, hnext]
    rw [hadvance] at h hlater ⊢
    obtain rfl : next = some f := h
    rcases (mutation_next hframe hnext).2 id hid with hbefore | hnow
    · exact hlater.started (hsent id hbefore)
    · exact hnow
  | error e =>
    unfold advance at h
    rw [hnext] at h
    cases hmarks : frame.marks with
    | nil => simp [hmarks] at h
    | cons mark outer =>
      obtain rfl : markUncertain mark outer = f := by simpa [hmarks] using h
      obtain rfl : mark.operation.operationId = id := Option.some.inj hid
      rcases sent_of_marks hframe hstage hmarks with hbefore | hticket
      · exact hlater.started (hsent _ hbefore)
      · obtain ⟨_, _, hok, -⟩ := next_of_carries hcarries hticket
        exact absurd (hnext.symm.trans hok) (by simp)

/-- An operation that a call moves to `running` is on its way in that call. -/
theorem ticket_of_running {next : Option Frame} {o : KnowledgeOperation}
    {providerOperationId : Option String} {resultReferences : List String}
    (hframe : frame.isMutation = true)
    (hmove : frame.transition? = some (o, .running, providerOperationId, resultReferences))
    (h : frame.next service s answer = .ok (next, s')) :
    ∃ f ∈ next, f.ticket? service = some o.operationId := by
  cases frame with
  | begin request corpus operation =>
    simp only [Frame.next, bind_eq_ok] at h
    obtain ⟨_, -, h⟩ := h
    cases hstate : operation.state <;> simp only [Frame.transition?, hstate, Option.some.injEq,
      Prod.mk.injEq, reduceCtorEq, false_and, and_false] at hmove
    obtain ⟨rfl, -⟩ := hmove
    simp only [hstate, bind_eq_ok, return_eq_ok, Prod.exists] at h
    obtain ⟨row, _, hwritten, rfl, -⟩ := h
    obtain ⟨-, -, hid⟩ := knows_of_transition hwritten
    refine ⟨_, rfl, ?_⟩
    cases corpus with
    | some corpus => exact congrArg some hid
    | none => exact (if_pos rfl).trans (congrArg some hid)
  | cancelQueued | requestCancel | settle => cases hframe
  | _ => simp [Frame.transition?] at hmove

/-- **An operation that a call marks uncertain was dispatched.** -/
theorem started_of_uncertain (hframe : frame ∈ p.calls) (hmutation : frame.isMutation = true)
    (hcarries : frame.Carries service p answer) (hsent : Sent service p) {o : KnowledgeOperation}
    {providerOperationId : Option String} {resultReferences : List String}
    (hmove : frame.transition? = some (o, .uncertain, providerOperationId, resultReferences))
    (hbefore : p.shared.operation? o.operationId = some o)
    (hnext : ∃ result, frame.next service p.shared answer = .ok result) :
    o.operationId ∈ p.shared.started := by
  cases frame with
  | begin request corpus operation =>
    cases hstate : operation.state <;> simp only [transition?, hstate, Option.some.injEq,
      Prod.mk.injEq, reduceCtorEq, false_and, and_false] at hmove
    obtain ⟨rfl, -⟩ := hmove
    obtain ⟨_, hnext⟩ := hnext
    simp only [Frame.next, bind_eq_ok, refuseIf_eq_ok, not_not] at hnext
    obtain ⟨_, hdone, -⟩ := hnext
    rcases hsent.running _ _ hbefore hstate with hstarted | ⟨f, hf, hticket⟩
    · exact hstarted
    · exact absurd hticket (hcarries hstate hdone f hf)
  | markUncertain mark outer =>
    obtain ⟨rfl, -⟩ := Prod.mk.inj (Option.some.inj hmove)
    exact hsent.calls _ hframe _ rfl
  | cancelQueued | requestCancel | settle => cases hmutation
  | _ => simp [transition?] at hmove

/-- An element of a list stands at a position, or stays when that position is cleared. -/
theorem mem_eraseIdx_or {α : Type*} {l : List α} {a : α} (h : a ∈ l) (i : ℕ) :
    l[i]? = some a ∨ a ∈ l.eraseIdx i := by
  obtain ⟨j, hj⟩ := List.getElem?_of_mem h
  by_cases hij : j = i
  · exact .inl (hij ▸ hj)
  · exact .inr (mem_eraseIdx_iff_getElem?.mpr ⟨j, hij, hj⟩)

namespace Sent

/-- **A step of a call leaves every uncertain operation dispatched**, if it gets to its first
send. -/
theorem advance (h : Mutating service p) (hsent : Sent service p) {i : ℕ}
    (hcall : p.calls[i]? = some frame) (hcarries : frame.Carries service p answer) :
    Sent service ⟨(frame.advance service p.shared answer).2,
      (frame.advance service p.shared answer).1.toList ++ p.calls.eraseIdx i⟩ := by
  have hmem := mem_of_getElem? hcall
  have hmutation := h.mutations frame hmem
  have hstage : frame.Stage service p.shared := (h.holds.relied frame hmem).1
  have heffect := (stepped_advance answer h.holds.invariant hstage).1
  refine ⟨fun id row hrow hstate => ?_, fun id row hrow hstate => ?_, fun f hf => ?_⟩
  · obtain ⟨-, rfl⟩ := KnowledgeStore.operation?_eq_some.mp hrow
    refine heffect.later.started ?_
    cases heffect.rowStep hstage hrow with
    | same hbefore => exact hsent.certain _ _ hbefore hstate
    | created _ _ hcreated =>
      rw [hcreated] at hstate
      cases hstate
    | @moved o state _ _ hmoves hbefore _ _ _ hmoved =>
      subst hmoved
      obtain rfl : state = .uncertain := hstate
      exact started_of_uncertain (o := o) hmem hmutation hcarries hsent hmoves hbefore
        (Mutating.next_of_moved hbefore hrow (Mutating.moved_ne _ _ _ _))
  · obtain ⟨-, rfl⟩ := KnowledgeStore.operation?_eq_some.mp hrow
    cases heffect.rowStep hstage hrow with
    | same hbefore =>
      rcases hsent.running _ _ hbefore hstate with hstarted | ⟨f, hf, hticket⟩
      · exact .inl (heffect.later.started hstarted)
      rcases mem_eraseIdx_or hf i with hat | hrest
      · -- the call itself was on its way
        obtain rfl := Option.some.inj (hcall.symm.trans hat)
        obtain ⟨f, s', hnext, hcase⟩ := next_of_carries hcarries hticket
        have hadvance : frame.advance service p.shared answer = (some f, s') := by
          rw [Frame.advance, hnext]
        rw [hadvance]
        exact hcase.symm.imp id fun hf => ⟨f, mem_cons_self, hf⟩
      · exact .inr ⟨f, mem_append_right _ hrest, hticket⟩
    | created _ _ hcreated =>
      rw [hcreated] at hstate
      cases hstate
    | @moved o state _ _ hmoves hbefore _ _ _ hmoved =>
      subst hmoved
      obtain rfl : state = .running := hstate
      obtain ⟨⟨next, s'⟩, hnext⟩ :=
        Mutating.next_of_moved hbefore hrow (Mutating.moved_ne _ _ _ _)
      obtain ⟨f, hf, hticket⟩ := ticket_of_running hmutation hmoves hnext
      have hadvance : frame.advance service p.shared answer = (next, s') := by
        rw [Frame.advance, hnext]
      rw [hadvance]
      exact .inr ⟨f, mem_append_left _ (mem_toList.mpr hf), hticket⟩
  · rcases mem_append.mp hf with hf | hf
    · exact sent_advance hmutation hstage h.holds.invariant hcarries (hsent.calls frame hmem)
        (mem_toList.mp hf)
    · exact fun id hid =>
        heffect.later.started (hsent.calls f ((eraseIdx_sublist _ _).subset hf) id hid)

/-- **Every step of a run that sends what it has begun keeps the invariant.** -/
theorem step {op : DaemonStep} (h : Mutating service p) (hsent : Sent service p)
    (hop : IsMutation op) (hsends : SendsBegun service p op) :
    Sent service (p.step service.program op) := by
  cases op with
  | start entry =>
    refine ⟨hsent.certain, fun id row hrow hstate => ?_, fun f hf => ?_⟩
    · exact (hsent.running id row hrow hstate).imp_right fun ⟨f, hf, hticket⟩ =>
        ⟨f, mem_append_right _ hf, hticket⟩
    · rcases mem_cons.mp hf with rfl | hf
      · cases entry <;> rintro _ ⟨⟩
      · exact hsent.calls f hf
  | advance i answer =>
    cases hcall : p.calls[i]? with
    | none => rwa [Mutating.step_idle hcall]
    | some frame =>
      rw [Mutating.step_advance hcall]
      exact hsent.advance h hcall (hsends frame hcall)
  | drop i =>
    refine ⟨hsent.certain, fun id row hrow hstate => ?_, fun f hf =>
      hsent.calls f ((eraseIdx_sublist _ _).subset hf)⟩
    refine (hsent.running id row hrow hstate).imp_right fun ⟨f, hf, hticket⟩ => ?_
    rcases mem_eraseIdx_or hf i with hat | hrest
    · exact absurd ((hsends f hat).symm.trans hticket) (by simp)
    · exact ⟨f, hrest, hticket⟩
  | crash =>
    refine ⟨hsent.certain, fun id row hrow hstate => .inl ?_, by rintro _ ⟨⟩⟩
    refine (hsent.running id row hrow hstate).resolve_right fun ⟨f, hf, hticket⟩ => ?_
    exact absurd ((hsends f hf).symm.trans hticket) (by simp)
  | outside c => cases c

theorem initial {s : KnowledgeStore} (h : s.Initial) : Sent service ⟨s, []⟩ where
  certain id row hrow := by
    rw [KnowledgeStore.operation?, h.operations] at hrow
    cases hrow
  running id row hrow := by
    rw [KnowledgeStore.operation?, h.operations] at hrow
    cases hrow
  calls := by rintro _ ⟨⟩

end Sent

end Sends

/-- **Knowledge mutations are dispatched once and settled honestly** along every run in which what
was begun is sent. -/
theorem dispatch_run (service : KnowledgeMutationService) {s : KnowledgeStore} (h : s.Initial)
    {ops : List DaemonStep} (hops : ∀ op ∈ ops, IsMutation op)
    (hsends : Along (Pool.step service.program) (SendsBegun service) ⟨s, []⟩ ops) :
    Along (Pool.step service.program) (DispatchHolds service) ⟨s, []⟩ ops := by
  refine Along.of_guarded (G := fun p op => IsMutation op ∧ SendsBegun service p op)
    (I := fun p => Mutating service p ∧ Sent service p) ?_ ?_
    ⟨Mutating.initial h, Sent.initial h⟩ ?_
  · exact fun p op hp hop => ⟨hp.1.step hop.1, hp.2.step hp.1 hop.1 hop.2⟩
  · exact fun p op hp hop => ⟨refusesOthers p op, (hp.1.step hop.1).settled,
      (hp.2.step hp.1 hop.1 hop.2).certain⟩
  · exact (Along.of_forall (fun op hop _ => hops op hop) _).and hsends

/-! ## The history of an operation -/

/-- One transition of an operation. -/
def KnowledgeOperation.Moves (o o' : KnowledgeOperation) : Prop :=
  ∃ state ∈ transitions o.state, ∃ providerOperationId resultReferences,
    o' = o.moved state providerOperationId resultReferences

/-- The operations of a store go on along their transitions, and what was stored or started stays
so. -/
structure KnowledgeStore.GoesOn (s s' : KnowledgeStore) : Prop where
  operation : ∀ {id row}, s.operation? id = some row →
    ∃ row', s'.operation? id = some row' ∧ Relation.ReflTransGen KnowledgeOperation.Moves row row'
  started : s.started ⊆ s'.started
  artifacts : s.artifacts <+: s'.artifacts

namespace KnowledgeStore.GoesOn

variable {s s₁ s' : KnowledgeStore}

theorem refl (s : KnowledgeStore) : s.GoesOn s :=
  ⟨fun h => ⟨_, h, .refl⟩, fun _ => id, prefix_rfl⟩

theorem trans (h : s.GoesOn s₁) (h' : s₁.GoesOn s') : s.GoesOn s' where
  operation hrow := by
    obtain ⟨row₁, hrow₁, hmoves⟩ := h.operation hrow
    obtain ⟨row', hrow', hmoves'⟩ := h'.operation hrow₁
    exact ⟨row', hrow', hmoves.trans hmoves'⟩
  started := fun _ hid => h'.started (h.started hid)
  artifacts := h.artifacts.trans h'.artifacts

/-- What a frame writes moves operations on. -/
theorem of_effect {frame : Frame} (h : frame.Effect service s s')
    (hstage : frame.Stage service s) : s.GoesOn s' where
  operation {id row} hrow := by
    obtain ⟨row', hrow', -⟩ := h.later.operation hrow
    refine ⟨row', hrow', ?_⟩
    obtain ⟨-, rfl⟩ := operation?_eq_some.mp hrow'
    cases h.rowStep hstage hrow' with
    | same before =>
      obtain rfl := Option.some.inj (hrow.symm.trans before)
      exact .refl
    | created new => simp [new] at hrow
    | moved moves before _ permitted _ hmoved _ =>
      subst hmoved
      obtain rfl := Option.some.inj (before.symm.trans hrow)
      exact .single ⟨_, permitted, _, _, rfl⟩
  started := h.later.started
  artifacts := h.later.artifacts

/-- **Whatever a pool does next, its operations go on.** -/
theorem step {p : Daemon} (h : (outline service).Holds p) (op : DaemonStep) :
    p.shared.GoesOn (p.step service.program op).shared := by
  cases op with
  | advance i answer =>
    cases hcall : p.calls[i]? with
    | none =>
      rw [Mutating.step_idle hcall]
      exact refl _
    | some frame =>
      rw [Mutating.step_advance hcall]
      have hstage := (h.relied frame (mem_of_getElem? hcall)).1
      exact of_effect (stepped_advance answer h.invariant hstage).1 hstage
  | outside c => cases c
  | _ => exact refl _

end KnowledgeStore.GoesOn

/-- Moves keep what an operation is, and a settled operation has none. -/
theorem KnowledgeOperation.of_moves {o o' : KnowledgeOperation}
    (h : Relation.ReflTransGen Moves o o') :
    o'.identity = o.identity ∧ (transitions o.state = [] → o' = o) := by
  induction h with
  | refl => exact ⟨rfl, fun _ => rfl⟩
  | tail _ hmove ih =>
    obtain ⟨state, hstate, _, _, rfl⟩ := hmove
    refine ⟨ih.1, fun hsettled => ?_⟩
    rw [ih.2 hsettled, hsettled] at hstate
    cases hstate

/-- **The history of knowledge operations**, whatever calls run side by side, mutations,
cancellations and reconciliations, and wherever they are dropped or the process ends: the mutation
of an operation is started at most once and the start is never forgotten; the operation keeps what
it is and moves along the transitions only, so one that is settled stays as it is; and no artifact
is lost. -/
theorem operations_history (service : KnowledgeMutationService) (s : KnowledgeStore)
    (h : s.Initial) (before after : List DaemonStep) :
    let p := run (Pool.step service.program) ⟨s, []⟩ before
    let p' := run (Pool.step service.program) p after
    p'.shared.started.Nodup ∧ p.shared.GoesOn p'.shared ∧
      ∀ id row, p.shared.operation? id = some row → ∃ row', p'.shared.operation? id = some row' ∧
        row'.identity = row.identity ∧ (transitions row.state = [] → row' = row) := by
  intro p p'
  have hp : (outline service).Holds p :=
    Pool.Outline.holds_run (Mutating.initial h).holds.invariant before
  have hp' : (outline service).Holds p' := run_induction (fun _ op hp => hp.step op) hp after
  have hgoes : p.shared.GoesOn p'.shared :=
    run_rel (I := (outline service).Holds) (R := fun p p' : Daemon => p.shared.GoesOn p'.shared)
      (fun _ => .refl _) .trans (fun _ op hp => hp.step op) (fun _ op hp => .step hp op) hp after
  refine ⟨hp'.invariant.nodup, hgoes, fun id row hrow => ?_⟩
  obtain ⟨row', hrow', hmoves⟩ := hgoes.operation hrow
  exact ⟨row', hrow', KnowledgeOperation.of_moves hmoves⟩

/-! ## Runs -/

/-- Two HTTP sources, and no graph port. -/
def httpService : KnowledgeMutationService where
  sources := [
    ("docs", { enabled := true, knowledgeClass := .semantic, adapter := "cognee.oss",
               networkProfile := some "web" }),
    ("memory", { enabled := true, knowledgeClass := .episodic, adapter := "mem0.oss",
                 networkProfile := some "web" })]
  adapters := ["cognee.oss", "mem0.oss"]
  networkProfiles := ["web"]
  graphRefresh := false

def docsCorpus : KnowledgeCorpus where
  corpusId := 1
  projectId := "p"
  sourceId := "docs"
  knowledgeClass := .semantic
  revision := 1

def memoryCorpus : KnowledgeCorpus where
  corpusId := 2
  projectId := "p"
  sourceId := "memory"
  knowledgeClass := .episodic
  revision := 1

/-- A corpus of documents and one of memories, and an artifact to ingest. -/
def twoCorpora : KnowledgeStore where
  corpora := ⟨[docsCorpus, memoryCorpus], by decide⟩
  artifacts := [{ reference := "artifact:body" }]
  recorded := [docsCorpus, memoryCorpus]

theorem initial_twoCorpora : twoCorpora.Initial := ⟨rfl, rfl, rfl, rfl, rfl⟩

def ingestDocs : KnowledgeRequest :=
  .ingest ⟨"p", "docs", 1, "artifact:body", none, "ops"⟩

def refreshMemory : KnowledgeRequest :=
  .refresh ⟨"p", "memory", 2, none, "ops"⟩

/-- The steps of a call up to the operation it begins. -/
def beginning (operationId : Uuid) (request : KnowledgeRequest) : List DaemonStep :=
  [.start (.mutate operationId request none), .advance 0 .done, .advance 0 .done, .advance 0 .done,
    .advance 0 (.storedRequest ⟨"artifact:request", some request⟩), .advance 0 .done,
    .advance 0 .done]

/-- Another content for the same operation. -/
def ingestOther : KnowledgeRequest :=
  .ingest ⟨"p", "docs", 1, "artifact:body", none, "audit"⟩

/-- An ingestion waits for its answer when it is retried; a call with other content is refused, the
answer is lost, and the process ends. -/
def retried : List DaemonStep :=
  beginning 7 ingestDocs ++ [.advance 0 .done, .advance 0 .done] ++
    [.start (.mutate 7 ingestDocs none), .advance 0 .done, .advance 0 .done, .advance 0 .done,
      .advance 0 .done] ++
    [.start (.mutate 7 ingestOther none), .advance 0 .done, .advance 0 .done, .advance 0 .done] ++
    [.advance 0 .raised, .crash]

theorem dispatch_run_retried : twoCorpora.Initial ∧ (∀ op ∈ retried, IsMutation op) ∧
    Along (Pool.step httpService.program) (SendsBegun httpService) ⟨twoCorpora, []⟩ retried ∧
    Along (Pool.step httpService.program) (DispatchHolds httpService) ⟨twoCorpora, []⟩ retried ∧
    ((run (Pool.step httpService.program) ⟨twoCorpora, []⟩ retried).shared.operation? 7).map
      (·.state) = some .uncertain := by
  have hops : ∀ op ∈ retried, IsMutation op := by
    simp [retried, beginning, IsMutation]
  have hsends : Along (Pool.step httpService.program) (SendsBegun httpService) ⟨twoCorpora, []⟩
      retried := by decide +kernel
  exact ⟨initial_twoCorpora, hops, hsends, dispatch_run httpService initial_twoCorpora hops hsends,
    by decide +kernel⟩

/-- The provider says that the ingestion failed. -/
def reconciledFailed : List DaemonStep :=
  [.start (.reconcile 7 3), .advance 0 .done, .advance 0 .done,
    .advance 0 (.settled { settlement := .failed }), .advance 0 .done]

theorem operations_history_reconciled : twoCorpora.Initial ∧
    (let p := run (Pool.step httpService.program) ⟨twoCorpora, []⟩ retried
    let p' := run (Pool.step httpService.program) p reconciledFailed
    p'.shared.started.Nodup ∧ p.shared.GoesOn p'.shared ∧
      ∀ id row, p.shared.operation? id = some row → ∃ row', p'.shared.operation? id = some row' ∧
        row'.identity = row.identity ∧ (transitions row.state = [] → row' = row)) ∧
    ((run (Pool.step httpService.program) ⟨twoCorpora, []⟩
      (retried ++ reconciledFailed)).shared.operation? 7).map (·.state) = some .failed :=
  ⟨initial_twoCorpora, operations_history httpService _ initial_twoCorpora retried reconciledFailed,
    by decide +kernel⟩

/-- **A refresh of a corpus that cannot be refreshed ends uncertain**, though nothing was sent. -/
theorem uncertain_undispatched : ¬ ∀ (service : KnowledgeMutationService) (s : KnowledgeStore),
    s.Initial → ∀ ops : List DaemonStep, (∀ op ∈ ops, IsMutation op) →
      Along (Pool.step service.program) (DispatchHolds service) ⟨s, []⟩ ops := by
  intro h
  have hops : ∀ op ∈ beginning 8 refreshMemory ++ [.advance 0 .done, .advance 0 .done] ++
      [.advance 0 .done], IsMutation op := by
    simp [beginning, IsMutation]
  have hlast := (Along.append.mp (h httpService twoCorpora initial_twoCorpora _ hops)).2.1.2.certain
  obtain ⟨row, hrow, hstate⟩ := map_eq_some_iff.mp
    (show (((run (Pool.step httpService.program) ⟨twoCorpora, []⟩
      (beginning 8 refreshMemory ++ [.advance 0 .done, .advance 0 .done])).step httpService.program
        (.advance 0 .done)).shared.operation? 8).map (·.state) = some .uncertain by decide +kernel)
  exact absurd (hlast 8 row hrow hstate) (by decide +kernel)

end Mishkan.Knowledge
