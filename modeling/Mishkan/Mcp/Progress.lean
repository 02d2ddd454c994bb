import Mishkan.Mcp.Service

/-!
# Mcp/Progress — what retention does to the progress of a call

As long as retention leaves the last event of a call that still receives notifications, and every
elicitation of a call that is resumed with answers, the cursors of a call count its events, a reader
misses nothing that is kept, no notification is refused for what was removed, and every answer is
taken once.  Retention is not held to that: the next cursor is computed again from what it left.
-/

namespace Mishkan

open Refusal Transition Numbered List

/-! ## What is promised -/

variable (env : McpEnvironment)

/-- How many of the events are elicitations. -/
def elicitations (events : List McpProgressEvent) : Nat :=
  events.countP (·.kind = .elicitation)

/-- The cursors of every call count its events; the reader has seen what is kept up to its
position, and nothing else under a cursor it has seen; the answers of every call were taken one
after the other. -/
structure McpSystem.Consumed (s : McpSystem) : Prop where
  numbered : ∀ requestId, Consecutive (·.cursor) (s.logOf requestId)
  steady : ∀ event ∈ s.reader.seen, ∀ other ∈ s.logOf s.reader.requestId,
    other.cursor = event.cursor → other = event
  complete : ∀ event ∈ s.repository.progressOf s.reader.requestId,
    event.cursor < s.reader.position → event ∈ s.reader.seen
  answered : ∀ requestId, (s.usedBy requestId).Pairwise (· < ·)

/-- The system had nothing been removed. -/
def McpSystem.unpruned (s : McpSystem) : McpSystem :=
  { s with repository := { s.repository with progress := s.log } }

/-- A notification that would be recorded had nothing been removed is recorded. -/
def McpSystem.Unhindered (s : McpSystem) (action : McpAction) : Prop :=
  match action with
  | .progress .. | .elicitation .. =>
    (∃ s', s.unpruned.perform env action = .ok s') → ∃ s', s.perform env action = .ok s'
  | _ => True

/-- **The condition on retention**: at a notification the last event of the call is kept, and where
a call with answers is resumed all its elicitations are. -/
def McpSystem.Retained (s : McpSystem) : McpAction → Prop
  | .progress place .. | .elicitation place .. =>
    ∀ execution ∈ s.executions[place]?,
      ∀ event ∈ (s.logOf execution.request.id).getLast?, event ∈ s.repository.progress
  | .resumeRemoteTask requestId _ =>
    ∀ row ∈ s.repository.call? requestId,
      row.request.elicitationAnswers = [] ∨
        ∀ event ∈ s.logOf requestId, event.kind = .elicitation → event ∈ s.repository.progress
  | _ => True

/-- What holds at every action of a run: a notification is not hindered, and everything was consumed
once. -/
def McpSystem.Kept (s : McpSystem) (action : McpAction) : Prop :=
  s.Unhindered env action ∧ (s.step env action).Consumed

/-! ## What the operations of the repository leave -/

section Repository

variable {db db' : McpRepository} {requestId : Uuid} {event : McpProgressEvent} {maxEvents : Nat}

theorem appendProgress_eq_ok : db.appendProgress event maxEvents = .ok db' ↔
    1 ≤ maxEvents ∧ (∃ call, db.call? event.requestId = some call ∧ call.result = none ∧
        call.state ∉ finalCallStates) ∧
      event.cursor = next (·.cursor) (db.progressOf event.requestId) ∧
      next (·.cursor) (db.progressOf event.requestId) < maxEvents ∧
      db' = { db with progress := db.progress ++ [event] } := by
  simp only [McpRepository.appendProgress, bind_eq_ok, refuseIf_eq_ok, require_eq_ok, pure_eq_ok,
    not_or, not_not, not_lt, not_le, exists_and_left, exists_const]
  constructor
  · rintro ⟨hmax, call, hcall, hopen, hcursor, hbound, rfl⟩
    exact ⟨hmax, ⟨call, hcall, hopen⟩, hcursor, hbound, rfl⟩
  · rintro ⟨hmax, ⟨call, hcall, hopen⟩, hcursor, hbound, rfl⟩
    exact ⟨hmax, call, hcall, hopen, hcursor, hbound, rfl⟩

theorem of_call? {row : McpCallEntry} (h : db.call? requestId = some row) :
    row ∈ db.calls ∧ row.id = requestId := by
  unfold McpRepository.call? at h
  have hid := List.find?_some h
  exact ⟨mem_of_find?_eq_some h, of_decide_eq_true hid⟩

/-- The calls of the one repository are still there in the other, each under its identity. -/
structure McpRepository.Extends (db db' : McpRepository) : Prop where
  known : ∀ requestId, (db.call? requestId).isSome → (db'.call? requestId).isSome
  identified : (∀ row ∈ db.calls, row.request.id = row.id) →
    ∀ row ∈ db'.calls, row.request.id = row.id

theorem McpRepository.Extends.refl (db : McpRepository) : db.Extends db := ⟨fun _ => id, id⟩

theorem McpRepository.Extends.of_calls (h : db'.calls = db.calls) : db.Extends db' := by
  refine ⟨fun requestId => ?_, ?_⟩
  · rw [McpRepository.call?, McpRepository.call?, h]
    exact id
  · rw [h]
    exact id

theorem McpRepository.extends_updateCall {change : McpCallEntry → McpCallEntry}
    (hid : ∀ row, (change row).id = row.id) (hrequest : ∀ row, (change row).request = row.request) :
    db.Extends (db.updateCall requestId change) := by
  constructor
  · intro id hsome
    obtain ⟨row, hrow⟩ := Option.isSome_iff_exists.mp hsome
    obtain ⟨hmem, hrowId⟩ := of_call? hrow
    refine List.find?_isSome.mpr
      ⟨if row.id = requestId then change row else row, mem_map_of_mem hmem, ?_⟩
    split
    · exact decide_eq_true ((hid row).trans hrowId)
    · exact decide_eq_true hrowId
  · intro hidentified row hrow
    obtain ⟨old, hold, rfl⟩ := mem_map.mp hrow
    split
    · rw [hrequest, hid]
      exact hidentified old hold
    · exact hidentified old hold

/-- A reservation that is made adds the call, which was not there. -/
theorem reserveCall_created {bound : Bool} {request : McpCallRequest}
    {result : Option McpCallResult} (h : db.reserveCall bound request = .ok ((true, result), db')) :
    db.call? request.id = none ∧ db'.progress = db.progress ∧ db.Extends db' := by
  unfold McpRepository.reserveCall at h
  split at h
  · obtain ⟨_, -, h⟩ := bind_eq_ok.mp h
    cases h
  · obtain ⟨_, -, h⟩ := bind_eq_ok.mp h
    obtain ⟨_, hnew, h⟩ := bind_eq_ok.mp h
    cases h
    refine ⟨Option.not_isSome_iff_eq_none.mp (refuseIf_eq_ok.mp hnew), rfl, ?_, ?_⟩
    · intro id hsome
      obtain ⟨row, hrow⟩ := Option.isSome_iff_exists.mp hsome
      rw [McpRepository.call?, List.find?_append, show db.calls.find? _ = some row from hrow]
      rfl
    · intro hidentified row hrow
      rcases mem_append.mp hrow with hrow | hrow
      · exact hidentified row hrow
      · rw [mem_singleton.mp hrow]

theorem setCallState_extends {state : McpCallState}
    (h : db.setCallState requestId state = .ok db') :
    db'.progress = db.progress ∧ db.Extends db' := by
  iterate 2 obtain ⟨_, -, h⟩ := bind_eq_ok.mp h
  cases h
  exact ⟨rfl, McpRepository.extends_updateCall (fun _ => rfl) fun _ => rfl⟩

theorem attachRemoteTask_extends {remoteTaskId : String}
    (h : db.attachRemoteTask requestId remoteTaskId = .ok db') :
    db'.progress = db.progress ∧ db.Extends db' := by
  iterate 4 obtain ⟨_, -, h⟩ := bind_eq_ok.mp h
  cases h
  exact ⟨rfl, McpRepository.extends_updateCall (fun _ => rfl) fun _ => rfl⟩

theorem completeCall_extends {result recorded : McpCallResult}
    (h : db.completeCall result = .ok (recorded, db')) :
    db'.progress = db.progress ∧ db.Extends db' := by
  obtain ⟨row, -, h⟩ := bind_eq_ok.mp h
  split at h
  · obtain ⟨_, -, h⟩ := bind_eq_ok.mp h
    cases h
    exact ⟨rfl, .refl db⟩
  · iterate 4 obtain ⟨_, -, h⟩ := bind_eq_ok.mp h
    cases h
    exact ⟨rfl, McpRepository.extends_updateCall (fun _ => rfl) fun _ => rfl⟩

theorem pruneProgress_sublist {before : Instant} {batchSize : Int} {count : Nat}
    (h : db.pruneProgress before batchSize = .ok (count, db')) :
    db'.progress.Sublist db.progress ∧ db'.calls = db.calls := by
  obtain ⟨_, -, h⟩ := bind_eq_ok.mp h
  cases h
  exact ⟨filter_sublist, rfl⟩

end Repository

/-! ## The invariant -/

variable {env}

/-- An execution is not ahead of its call, and where it is not behind it has counted the
elicitations, unless it has no answers to give. -/
structure McpSystem.InStep (s : McpSystem) (execution : McpExecution) : Prop where
  cursor_le : execution.cursor ≤ (s.logOf execution.request.id).length
  counted : execution.request.elicitationAnswers ≠ [] →
    execution.cursor = (s.logOf execution.request.id).length →
      execution.elicitationSequence = elicitations (s.logOf execution.request.id)

variable (env) in
/-- **What every action keeps** while retention meets its condition. -/
structure McpSystem.Sound (s : McpSystem) : Prop where
  stored : s.repository.progress.Sublist s.log
  known : ∀ event ∈ s.log, (s.repository.call? event.requestId).isSome
  identified : ∀ row ∈ s.repository.calls, row.request.id = row.id
  numbered : ∀ requestId, Consecutive (·.cursor) (s.logOf requestId)
  bounded : ∀ requestId, (s.logOf requestId).length ≤ env.maxProgressEventsPerCall
  inStep : ∀ execution ∈ s.executions, s.InStep execution
  answered : ∀ requestId, (s.usedBy requestId).Pairwise (· < ·)
  used_lt : ∀ requestId, ∀ n ∈ s.usedBy requestId, n < elicitations (s.logOf requestId)
  seen : ∀ event ∈ s.reader.seen, event ∈ s.logOf s.reader.requestId
  position_le : s.reader.position ≤ (s.logOf s.reader.requestId).length
  complete : ∀ event ∈ s.repository.progressOf s.reader.requestId,
    event.cursor < s.reader.position → event ∈ s.reader.seen

namespace McpSystem

variable {s s' : McpSystem}

theorem Sound.consumed (h : s.Sound env) : s.Consumed where
  numbered := h.numbered
  steady event hevent _ hother hcursor :=
    (h.numbered _).eq_of_number hother (h.seen event hevent) hcursor
  complete := h.complete
  answered := h.answered

theorem Sound.initial (requestId : Uuid) :
    Sound env { reader := { requestId := requestId } } where
  stored := .refl _
  known := by rintro _ ⟨⟩
  identified := by rintro _ ⟨⟩
  numbered _ := rfl
  bounded _ := Nat.zero_le _
  inStep := by rintro _ ⟨⟩
  answered _ := .nil
  used_lt := by rintro _ _ ⟨⟩
  seen := by rintro _ ⟨⟩
  position_le := Nat.zero_le _
  complete := by rintro _ ⟨⟩

/-- What is kept of a call is a part of its history. -/
theorem Sound.progressOf_sublist (h : s.Sound env) (requestId : Uuid) :
    (s.repository.progressOf requestId).Sublist (s.logOf requestId) := h.stored.filter _

theorem Sound.ordered (h : s.Sound env) (requestId : Uuid) :
    (s.repository.progressOf requestId).Pairwise (·.cursor < ·.cursor) :=
  (h.numbered requestId).ordered.sublist (h.progressOf_sublist requestId)

variable {event : McpProgressEvent}

variable {requestId : Uuid}

theorem mem_logOf :
    event ∈ s.logOf requestId ↔ event ∈ s.log ∧ event.requestId = requestId := by
  rw [logOf, mem_filter, decide_eq_true_iff]

theorem mem_progressOf {db : McpRepository} :
    event ∈ db.progressOf requestId ↔ event ∈ db.progress ∧ event.requestId = requestId := by
  rw [McpRepository.progressOf, mem_filter, decide_eq_true_iff]

/-- Where the last event of a call is kept, the next cursor is that of its history. -/
theorem Sound.next_eq (h : s.Sound env)
    (hlast : ∀ event ∈ (s.logOf requestId).getLast?, event ∈ s.repository.progress) :
    next (·.cursor) (s.repository.progressOf requestId) = (s.logOf requestId).length :=
  (h.numbered requestId).next_of_getLast (h.progressOf_sublist requestId).subset
    fun event hevent => mem_progressOf.mpr
      ⟨hlast event hevent, (mem_logOf.mp (mem_of_getLast? hevent)).2⟩

variable {execution : McpExecution}

/-- An action that leaves the history alone keeps the invariant if what is kept shrinks at most, no
call is lost and the reader stays. -/
theorem Sound.frame (h : s.Sound env) {repository : McpRepository}
    (hprogress : repository.progress.Sublist s.repository.progress)
    (hcalls : s.repository.Extends repository) :
    Sound env { s with repository := repository } where
  stored := hprogress.trans h.stored
  known event hevent := hcalls.known _ (h.known event hevent)
  identified := hcalls.identified h.identified
  numbered := h.numbered
  bounded := h.bounded
  inStep execution hexecution := ⟨(h.inStep execution hexecution).1,
    (h.inStep execution hexecution).2⟩
  answered := h.answered
  used_lt := h.used_lt
  seen := h.seen
  position_le := h.position_le
  complete event hevent := h.complete event ((hprogress.filter _).subset hevent)

/-! ## Executions begin -/

theorem Sound.begins (h : s.Sound env) {request : McpCallRequest} {credentials : List String}
    (hbegin : beginExecution env s.repository request credentials = .ok execution)
    (hkept : request.elicitationAnswers = [] ∨
      ∀ event ∈ s.logOf request.id, event.kind = .elicitation → event ∈ s.repository.progress) :
    Sound env { s with executions := s.executions ++ [execution] } := by
  obtain ⟨existing, hexisting, hbegin⟩ := bind_eq_ok.mp hbegin
  cases hbegin
  obtain ⟨_, -, hexisting⟩ := bind_eq_ok.mp hexisting
  obtain rfl := pure_eq_ok.mp hexisting
  have hsub := h.progressOf_sublist request.id
  have hpage : page (·.cursor) (s.repository.progressOf request.id) (0 : Int).toNat
      (env.maxProgressEventsPerCall : Int).toNat = s.repository.progressOf request.id :=
    next_page (h.ordered request.id) (hsub.length_le.trans (h.bounded request.id))
  rw [hpage]
  refine { h with inStep := fun other hother => ?_ }
  rcases mem_append.mp hother with hother | hother
  · exact ⟨(h.inStep other hother).1, (h.inStep other hother).2⟩
  · obtain rfl := mem_singleton.mp hother
    constructor
    · change ((s.repository.progressOf request.id).getLast?.map (·.cursor + 1)).getD 0 ≤ _
      cases hlast : (s.repository.progressOf request.id).getLast? with
      | none => exact Nat.zero_le _
      | some last =>
        exact (h.numbered request.id).number_lt (hsub.subset (mem_of_getLast? hlast))
    · intro hanswers _
      have hall := hkept.resolve_left hanswers
      refine le_antisymm (hsub.countP_le) ?_
      -- Every elicitation of the history is kept, and the history has no record twice.
      have hnodup : (s.logOf request.id).Nodup :=
        (h.numbered request.id).ordered.imp fun hlt heq => by
          rw [heq] at hlt
          exact lt_irrefl _ hlt
      rw [elicitations, countP_eq_length_filter, countP_eq_length_filter]
      refine (subperm_of_subset (hnodup.filter _) fun event hevent => ?_).length_le
      obtain ⟨hmem, hkind⟩ := mem_filter.mp hevent
      exact mem_filter.mpr ⟨mem_progressOf.mpr
        ⟨hall event hmem (of_decide_eq_true hkind), (mem_logOf.mp hmem).2⟩, hkind⟩

/-! ## A notification is recorded -/

variable {place : Nat}

/-- An event that continues the history of its call, and the answer that was taken with it. -/
theorem Sound.recorded (h : s.Sound env)
    (execution' : McpExecution) (taken : Option Nat)
    (hplace : s.executions[place]? = some execution)
    (howner : event.requestId = execution.request.id)
    (hcursor : event.cursor = execution.cursor)
    (hnext : event.cursor = (s.logOf execution.request.id).length)
    (hbound : event.cursor < env.maxProgressEventsPerCall)
    (hknown : (s.repository.call? event.requestId).isSome)
    (hrequest : execution'.request = execution.request)
    (hmoved : execution'.cursor = execution.cursor + 1)
    (hcounted : execution'.elicitationSequence =
      execution.elicitationSequence + elicitations [event])
    (htaken : ∀ n ∈ taken, event.kind = .elicitation ∧
      n = elicitations (s.logOf execution.request.id)) :
    Sound env
      { s with
        repository := { s.repository with progress := s.repository.progress ++ [event] }
        executions := s.executions.set place execution'
        log := s.log ++ [event]
        used := s.used ++ taken.toList.map (execution.request.id, ·) } := by
  have hexecution := mem_of_getElem? hplace
  -- The history of the call grows by the event, the others stay.
  have hlog : ∀ requestId, (s.log ++ [event]).filter (·.requestId = requestId) =
      s.logOf requestId ++ if execution.request.id = requestId then [event] else [] := by
    intro requestId
    rw [filter_append, filter_singleton, howner]
    by_cases hid : execution.request.id = requestId <;> simp [hid, logOf]
  have hused : ∀ requestId,
      ((s.used ++ taken.toList.map (execution.request.id, ·)).filter (·.1 = requestId)).map
        Prod.snd = s.usedBy requestId ++
          if execution.request.id = requestId then taken.toList else [] := by
    intro requestId
    rw [filter_append, map_append, filter_map]
    by_cases hid : execution.request.id = requestId
    · cases taken <;> simp [hid, usedBy]
    · cases taken <;> simp [hid, usedBy]
  refine
    { stored := h.stored.append (.refl _)
      known := fun e he => ?_
      identified := h.identified
      numbered := fun requestId => ?_
      bounded := fun requestId => ?_
      inStep := fun other hother => ?_
      answered := fun requestId => ?_
      used_lt := fun requestId => ?_
      seen := fun e he => ?_
      position_le := ?_
      complete := fun e he hlt => ?_ }
  · rcases mem_append.mp he with he | he
    · exact h.known e he
    · rw [mem_singleton.mp he]
      exact hknown
  · rw [logOf, hlog]
    split
    · rename_i hid
      exact (h.numbered requestId).append (by rw [hnext, hid])
    · rw [append_nil]
      exact h.numbered requestId
  · rw [logOf, hlog]
    split
    · rename_i hid
      rw [length_append, ← hid, length_singleton, ← hnext]
      exact hbound
    · rw [append_nil]
      exact h.bounded requestId
  · rcases mem_or_eq_of_mem_set hother with hother | rfl
    · obtain ⟨hle, hcount⟩ := h.inStep other hother
      constructor
      · rw [logOf, hlog, length_append]
        exact hle.trans (Nat.le_add_right _ _)
      · rw [logOf, hlog]
        split
        · rename_i hid
          intro _ hlast
          rw [length_append, length_singleton] at hlast
          omega
        · rw [append_nil]
          exact hcount
    · rw [← hcursor] at hmoved
      constructor
      · rw [logOf, hlog, hrequest, if_pos rfl, hmoved, hnext, length_append]
        exact le_rfl
      · rw [logOf, hlog, hrequest, if_pos rfl]
        intro hanswers _
        rw [hcounted, (h.inStep execution hexecution).counted hanswers (hcursor ▸ hnext),
          elicitations, elicitations, elicitations, countP_append]
  · rw [usedBy, hused]
    split
    · rename_i hid
      refine pairwise_append.mpr ⟨h.answered requestId, ?_, fun m hm n hn => ?_⟩
      · cases taken <;> simp
      · rw [(htaken n (Option.mem_toList.mp hn)).2, hid]
        exact h.used_lt requestId m hm
    · rw [append_nil]
      exact h.answered requestId
  · intro n hn
    rw [usedBy, hused] at hn
    rw [logOf, hlog, elicitations, countP_append]
    rcases mem_append.mp hn with hn | hn
    · exact (h.used_lt requestId n hn).trans_le (Nat.le_add_right _ _)
    · split at hn
      · rename_i hid
        obtain ⟨hkind, rfl⟩ := htaken n (Option.mem_toList.mp hn)
        rw [if_pos hid, ← hid, countP_singleton, if_pos (decide_eq_true hkind)]
        exact Nat.lt_succ_self _
      · cases hn
  · rw [logOf, hlog]
    exact mem_append_left _ (h.seen e he)
  · rw [logOf, hlog, length_append]
    exact h.position_le.trans (Nat.le_add_right _ _)
  · obtain ⟨hmem, hid⟩ := mem_progressOf.mp he
    rcases mem_append.mp hmem with hmem | hmem
    · exact h.complete e (mem_progressOf.mpr ⟨hmem, hid⟩) hlt
    · -- The event is behind the position of the reader.
      rw [mem_singleton] at hmem
      have hle := h.position_le
      rw [← hid, hmem, howner, ← hnext, ← hmem] at hle
      exact absurd hlt hle.not_gt

/-- The event of a progress notification stands at the cursor of its execution. -/
theorem progressEvent_spec {id : Uuid} {now : Instant} {value : Rat}
    {total : Option Rat} {message : Option String}
    (h : execution.progressEvent env id now value total message = .ok event) :
    event.requestId = execution.request.id ∧ event.cursor = execution.cursor ∧
      event.kind = .progress := by
  iterate 2 obtain ⟨_, -, h⟩ := bind_eq_ok.mp h
  cases h
  exact ⟨rfl, rfl, rfl⟩

theorem elicitationEvent_spec {id : Uuid} {now : Instant}
    {params : ElicitRequestParams}
    (h : execution.elicitationEvent env id now params = .ok event) :
    event.requestId = execution.request.id ∧ event.cursor = execution.cursor ∧
      event.kind = .elicitation := by
  iterate 2 obtain ⟨_, -, h⟩ := bind_eq_ok.mp h
  cases h
  exact ⟨rfl, rfl, rfl⟩

/-- The answer that is next has the sequence the execution has counted to. -/
theorem nextAnswer_spec {params : ElicitRequestParams} {answer : McpElicitationAnswer}
    (h : execution.nextAnswer env params = some answer) :
    execution.request.elicitationAnswers ≠ [] ∧
      answer.sequence = execution.elicitationSequence := by
  have hspec := List.find?_some h
  exact ⟨ne_nil_of_mem (mem_of_find?_eq_some h), (of_decide_eq_true hspec).1⟩

variable {action : McpAction}

/-- What an appended event is, where the last one of its call is kept. -/
theorem Sound.append_spec (h : s.Sound env) {execution execution' : McpExecution}
    (howner : event.requestId = execution.request.id)
    (hlast : ∀ e ∈ (s.logOf execution.request.id).getLast?, e ∈ s.repository.progress)
    (happend : s.append env place execution' event = .ok s') :
    event.cursor = (s.logOf execution.request.id).length ∧
      event.cursor < env.maxProgressEventsPerCall ∧
      (s.repository.call? event.requestId).isSome ∧
      s' =
        { s with
          repository := { s.repository with progress := s.repository.progress ++ [event] }
          executions := s.executions.set place execution'
          log := s.log ++ [event] } := by
  obtain ⟨repository, hrepository, happend⟩ := bind_eq_ok.mp happend
  obtain ⟨-, ⟨call, hcall, -⟩, hcursor, hbound, rfl⟩ := appendProgress_eq_ok.mp hrepository
  rw [howner] at hcursor hbound
  refine ⟨hcursor.trans (h.next_eq hlast), hcursor ▸ hbound, ?_, (pure_eq_ok.mp happend).symm⟩
  rw [hcall]
  rfl

/-! ## The reader -/

theorem Sound.polled (h : s.Sound env) {limit : Int} {events : List McpProgressEvent}
    (hpage : s.repository.progressAfter s.reader.requestId s.reader.position limit = .ok events) :
    Sound env
      { s with
        reader :=
          { s.reader with
            position := (events.getLast?.map (·.cursor + 1)).getD s.reader.position
            seen := s.reader.seen ++ events } } := by
  obtain ⟨_, -, hpage⟩ := bind_eq_ok.mp hpage
  obtain rfl := pure_eq_ok.mp hpage
  rw [Int.toNat_natCast]
  have hmem : ∀ e ∈ page (·.cursor) (s.repository.progressOf s.reader.requestId)
      s.reader.position limit.toNat, e ∈ s.logOf s.reader.requestId :=
    fun e he => (h.progressOf_sublist _).subset (mem_of_mem_page he).1
  refine
    { h with
      inStep := fun other hother => ⟨(h.inStep other hother).1, (h.inStep other hother).2⟩
      seen := fun e he => ?_
      position_le := ?_
      complete := fun e he hlt => ?_ }
  · rcases mem_append.mp he with he | he
    · exact h.seen e he
    · exact hmem e he
  · cases hlast : (page (·.cursor) (s.repository.progressOf s.reader.requestId)
      s.reader.position limit.toNat).getLast? with
    | none => exact h.position_le
    | some last => exact (h.numbered _).number_lt (hmem last (mem_of_getLast? hlast))
  · by_cases hold : e.cursor < s.reader.position
    · exact mem_append_left _ (h.complete e he hold)
    · refine mem_append_right _ ?_
      cases hlast : (page (·.cursor) (s.repository.progressOf s.reader.requestId)
        s.reader.position limit.toNat).getLast? with
      | none =>
        rw [hlast] at hlt
        exact absurd hlt hold
      | some last =>
        rw [hlast] at hlt
        exact mem_page_of_le (h.ordered _) he (not_lt.mp hold) (mem_of_getLast? hlast)
          (Nat.lt_succ_iff.mp hlt)

/-! ## Every action keeps the invariant -/

theorem Sound.perform (h : s.Sound env) (hretained : s.Retained action)
    (hs' : s.perform env action = .ok s') : s'.Sound env := by
  cases action with
  | invoke bound request credentials =>
    obtain ⟨⟨⟨created, result⟩, repository⟩, hreserve, hs'⟩ := bind_eq_ok.mp hs'
    obtain ⟨_, hcreated, hs'⟩ := bind_eq_ok.mp hs'
    obtain ⟨execution, hbegin, hs'⟩ := bind_eq_ok.mp hs'
    cases hs'
    obtain rfl : created = true := by simpa using hcreated
    obtain ⟨hnone, hprogress, hcalls⟩ := reserveCall_created hreserve
    have hframe := h.frame (hprogress ▸ .refl _) hcalls
    refine hframe.begins hbegin (.inr fun event hevent => ?_)
    -- A call that is not known yet has no history.
    obtain ⟨hmem, hid⟩ := mem_logOf.mp hevent
    have hsome := h.known event hmem
    rw [hid, hnone] at hsome
    cases hsome
  | resumeRemoteTask requestId credentials =>
    obtain ⟨⟨request, task⟩, hremote, hs'⟩ := bind_eq_ok.mp hs'
    obtain ⟨execution, hbegin, hs'⟩ := bind_eq_ok.mp hs'
    cases hs'
    obtain ⟨row, hrow, hremote⟩ := bind_eq_ok.mp hremote
    obtain ⟨_, -, hremote⟩ := bind_eq_ok.mp hremote
    cases hremote
    have hcall := (Option.filter_eq_some_iff.mp (require_eq_ok.mp hrow)).1
    obtain ⟨hmem, hid⟩ := of_call? hcall
    have hrequest : row.request.id = requestId := (h.identified row hmem).trans hid
    exact h.begins hbegin (hrequest ▸ hretained row hcall)
  | progress place id now value total message =>
    obtain ⟨execution, hplace, hs'⟩ := bind_eq_ok.mp hs'
    obtain ⟨event, hevent, happend⟩ := bind_eq_ok.mp hs'
    have hplace := require_eq_ok.mp hplace
    obtain ⟨howner, hcursor, hkind⟩ := progressEvent_spec hevent
    obtain ⟨hnext, hbound, hknown, rfl⟩ := h.append_spec howner (hretained execution hplace) happend
    have hrecorded := h.recorded { execution with cursor := execution.cursor + 1 } none
      hplace howner hcursor hnext hbound hknown rfl rfl
      (by rw [elicitations, countP_singleton, hkind]; rfl) (by rintro _ ⟨⟩)
    rwa [Option.toList_none, map_nil, append_nil] at hrecorded
  | elicitation place id now params =>
    obtain ⟨execution, hplace, hs'⟩ := bind_eq_ok.mp hs'
    obtain ⟨event, hevent, hs'⟩ := bind_eq_ok.mp hs'
    obtain ⟨appended, happend, hs'⟩ := bind_eq_ok.mp hs'
    cases hs'
    have hplace := require_eq_ok.mp hplace
    obtain ⟨howner, hcursor, hkind⟩ := elicitationEvent_spec hevent
    obtain ⟨hnext, hbound, hknown, rfl⟩ := h.append_spec howner (hretained execution hplace) happend
    have hrecorded := h.recorded
      { execution with
        cursor := execution.cursor + 1
        elicitationSequence := execution.elicitationSequence + 1 }
      ((execution.nextAnswer env params).map (·.sequence))
      hplace howner hcursor hnext hbound hknown rfl rfl
      (by rw [elicitations, countP_singleton, hkind]; rfl) (fun n hn => ?_)
    · rw [Option.toList_map, map_map] at hrecorded
      exact hrecorded
    · obtain ⟨answer, hanswer, rfl⟩ := Option.mem_map.mp hn
      obtain ⟨hanswers, hsequence⟩ := nextAnswer_spec hanswer
      refine ⟨hkind, hsequence.trans ?_⟩
      exact (h.inStep execution (mem_of_getElem? hplace)).counted hanswers
        (hcursor.symm.trans hnext)
  | setCallState requestId state =>
    obtain ⟨repository, hset, hs'⟩ := bind_eq_ok.mp hs'
    cases hs'
    obtain ⟨hprogress, hcalls⟩ := setCallState_extends hset
    exact h.frame (hprogress ▸ .refl _) hcalls
  | attachRemoteTask requestId remoteTaskId =>
    obtain ⟨repository, hattach, hs'⟩ := bind_eq_ok.mp hs'
    cases hs'
    obtain ⟨hprogress, hcalls⟩ := attachRemoteTask_extends hattach
    exact h.frame (hprogress ▸ .refl _) hcalls
  | completeCall result =>
    obtain ⟨⟨recorded, repository⟩, hcomplete, hs'⟩ := bind_eq_ok.mp hs'
    cases hs'
    obtain ⟨hprogress, hcalls⟩ := completeCall_extends hcomplete
    exact h.frame (hprogress ▸ .refl _) hcalls
  | pruneProgress before batchSize =>
    obtain ⟨⟨count, repository⟩, hprune, hs'⟩ := bind_eq_ok.mp hs'
    cases hs'
    obtain ⟨hprogress, hcalls⟩ := pruneProgress_sublist hprune
    exact h.frame hprogress (.of_calls hcalls)
  | poll limit =>
    obtain ⟨events, hpage, hs'⟩ := bind_eq_ok.mp hs'
    cases hs'
    exact h.polled hpage

theorem Sound.step (h : s.Sound env) (hretained : s.Retained action) :
    (s.step env action).Sound env := by
  unfold McpSystem.step
  split
  · rename_i s' hs'
    exact h.perform hretained hs'
  · exact h

/-! ## Notifications are not hindered -/

/-- Where the last event of a call is kept, appending to what is kept succeeds if appending to the
whole history does. -/
theorem Sound.append_of_unpruned (h : s.Sound env)
    {execution execution' : McpExecution}
    (howner : event.requestId = execution.request.id)
    (hlast : ∀ e ∈ (s.logOf execution.request.id).getLast?, e ∈ s.repository.progress)
    (happend : ∃ s', s.unpruned.append env place execution' event = .ok s') :
    ∃ s', s.append env place execution' event = .ok s' := by
  obtain ⟨s', happend⟩ := happend
  obtain ⟨repository, hrepository, -⟩ := bind_eq_ok.mp happend
  obtain ⟨hmax, hcall, hcursor, hbound, -⟩ := appendProgress_eq_ok.mp hrepository
  -- Both stores lead to the end of the history.
  have hnext : next (·.cursor) (s.unpruned.repository.progressOf event.requestId) =
      next (·.cursor) (s.repository.progressOf event.requestId) := by
    rw [howner, h.next_eq hlast]
    exact (h.numbered execution.request.id).next_of_getLast (List.Subset.refl _)
      fun e he => mem_of_getLast? he
  rw [hnext] at hcursor hbound
  have hok : s.repository.appendProgress event env.maxProgressEventsPerCall =
      .ok { s.repository with progress := s.repository.progress ++ [event] } :=
    appendProgress_eq_ok.mpr ⟨hmax, hcall, hcursor, hbound, rfl⟩
  exact ⟨_, bind_eq_ok.mpr ⟨_, hok, rfl⟩⟩

theorem Sound.unhindered (h : s.Sound env) (hretained : s.Retained action) :
    s.Unhindered env action := by
  cases action with
  | progress place id now value total message =>
    rintro ⟨s', hs'⟩
    obtain ⟨execution, hplace, hs'⟩ := bind_eq_ok.mp hs'
    obtain ⟨event, hevent, hs'⟩ := bind_eq_ok.mp hs'
    obtain ⟨t, ht⟩ := h.append_of_unpruned (progressEvent_spec hevent).1
      (hretained execution (require_eq_ok.mp hplace)) ⟨s', hs'⟩
    exact ⟨t, bind_eq_ok.mpr ⟨execution, hplace, bind_eq_ok.mpr ⟨event, hevent, ht⟩⟩⟩
  | elicitation place id now params =>
    rintro ⟨s', hs'⟩
    obtain ⟨execution, hplace, hs'⟩ := bind_eq_ok.mp hs'
    obtain ⟨event, hevent, hs'⟩ := bind_eq_ok.mp hs'
    obtain ⟨appended, happend, -⟩ := bind_eq_ok.mp hs'
    obtain ⟨t, ht⟩ := h.append_of_unpruned (elicitationEvent_spec hevent).1
      (hretained execution (require_eq_ok.mp hplace)) ⟨appended, happend⟩
    exact ⟨_, bind_eq_ok.mpr ⟨execution, hplace,
      bind_eq_ok.mpr ⟨event, hevent, bind_eq_ok.mpr ⟨t, ht, rfl⟩⟩⟩⟩
  | _ => trivial

end McpSystem

/-! ## Runs -/

/-- **While retention meets its condition, every notification is recorded under the next cursor and
everything is consumed once**: at every action of every run. -/
theorem progress_consumed_once (env : McpEnvironment) (requestId : Uuid) (actions : List McpAction)
    (h : Along (McpSystem.step env) McpSystem.Retained { reader := { requestId := requestId } }
      actions) :
    Along (McpSystem.step env) (McpSystem.Kept env) { reader := { requestId := requestId } }
      actions :=
  Along.of_guarded (I := McpSystem.Sound env) (fun _ _ hs hretained => hs.step hretained)
    (fun _ _ hs hretained => ⟨hs.unhindered hretained, (hs.step hretained).consumed⟩)
    (.initial requestId) h

/-! ## Retention that does not meet it -/

namespace ProgressSample

def sampleRequest : McpCallRequest where
  id := 1
  idempotencyKey := 2
  connectionId := "issues"
  primitiveName := "search"
  expectedSchemaHash := "sha256:00"
  sequencesContiguous := rfl

def sampleEnvironment : McpEnvironment where
  sha256 := String.ofList
  inspect message _ := message
  validates _ _ := true
  maxProgressEventsPerCall := 100
  one_le_maxProgressEvents := by decide
  maxProgressMessageBytes := 1000

def sampleSystem : McpSystem := { reader := { requestId := 1 } }

/-- The call runs and reports progress. -/
def started : List McpAction :=
  [.invoke true sampleRequest [], .setCallState 1 .dispatching, .setCallState 1 .running,
    .progress 0 7 10 1 none none]

/-- The call reports progress again. -/
def furtherProgress : McpAction := .progress 0 8 30 2 none none

/-- While the call runs, another one is invoked and removes the old progress of all. -/
def pruned : McpSystem :=
  run (McpSystem.step sampleEnvironment) sampleSystem (started ++ [.pruneProgress 20 500])

/-- **The last progress of a call that runs is removed, and its next progress is refused.** -/
theorem pruned_progress_refused :
    ¬ Along (McpSystem.step sampleEnvironment) (McpSystem.Kept sampleEnvironment) sampleSystem
      (started ++ [.pruneProgress 20 500] ++ [furtherProgress]) := by
  intro h
  have hkept := (Along.append.mp h).2.1
  obtain ⟨s', hs'⟩ := hkept.1 ⟨_, rfl⟩
  have hrefused : pruned.perform sampleEnvironment furtherProgress =
      .error (fault .revisionMismatch "MCP progress cursor is not next") := rfl
  rw [pruned, hs'] at hrefused
  cases hrefused

/-- The condition is met where the last progress is kept. -/
theorem progress_consumed_sample :
    Along (McpSystem.step sampleEnvironment) (McpSystem.Kept sampleEnvironment) sampleSystem
      (started ++ [furtherProgress, .pruneProgress 20 500, .progress 0 9 40 3 none none,
        .poll 10]) := by
  refine progress_consumed_once sampleEnvironment 1 _
    ⟨trivial, trivial, trivial, ?_, ?_, trivial, ?_, trivial, trivial⟩
  · intro execution hexecution event hevent
    cases hexecution
    cases hevent
  · intro execution hexecution event hevent
    cases hexecution
    cases hevent
    exact .head _
  · intro execution hexecution event hevent
    cases hexecution
    cases hevent
    exact .head _

end ProgressSample

end Mishkan
