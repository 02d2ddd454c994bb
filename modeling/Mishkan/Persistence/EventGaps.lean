import Mishkan.Persistence.EventStream
import Mishkan.Persistence.Ledger

/-!
# Persistence/EventGaps — what a page of the event stream is silent about

A `StreamOp` is one transaction that touches the outbox or what protects it: the ledger's, another
repository's appends, the holds and the two transactions of retention.  Each is one `Log.Step`, so a
cursor is issued once and a deleted event never comes back.

Retention deletes around the events it has to keep, while the guard of `events` looks at the oldest
event only.  `no_undetected_gap_iff` says exactly which queries are told of everything they skip.
-/

namespace Mishkan

open Refusal Transition List ApplicationStore

/-! ## Transactions -/

inductive StreamOp where
  | ledger (op : LedgerOp)
  /-- Another repository appends events. -/
  | record (events : List OutboxRow)
  /-- Another repository changes the runs. -/
  | runs (rows : Table RunRow)
  | createEventHold (id : Uuid) (scope : EventHoldScope) (scopeId : Option String)
      (reason actorId : String) (now : Instant)
  | releaseEventHold (holdId : Uuid) (now : Instant)
  | planEventRetention (policy : EventRetentionPolicy) (planId : Uuid) (now : Instant)
  | applyEventRetention (planId : Uuid) (now : Instant)

/-- The store after one transaction. -/
def streamStep (s : ApplicationStore) : StreamOp → ApplicationStore
  | .ledger op => ledgerStep s op
  | .record events => commit s ((s.addEvents events).map fun s => ((), s))
  | .runs rows => { s with runs := rows }
  | .createEventHold id scope scopeId reason actorId now =>
    commit s (s.createEventHold id scope scopeId reason actorId now)
  | .releaseEventHold holdId now => commit s (s.releaseEventHold holdId now)
  | .planEventRetention policy planId now => commit s (s.planEventRetention policy planId now)
  | .applyEventRetention planId now => commit s (s.applyEventRetention planId now)

/-- The store after a history of transactions on a new database. -/
def streamRun (ops : List StreamOp) : ApplicationStore := run streamStep .empty ops

/-- An event some state of the history held. -/
def EverAppended (ops : List StreamOp) (e : Stamped OutboxRow) : Prop :=
  Log.Logged streamStep (·.outbox) .empty ops e

/-! ## One transaction is one step of the log -/

variable {s s' : ApplicationStore}

theorem LedgerChange.outbox_step {command : ApplicationCommand} {targetId : String}
    (h : LedgerChange s command targetId s') : Log.Step s.outbox s'.outbox := by
  cases h with
  | unchanged h =>
    rw [h]
    exact .refl _
  | refused _ _ _ _ _ outbox =>
    obtain ⟨vs, hvs⟩ := outbox
    rw [hvs]
    exact .appends vs
  | accepted _ _ _ _ _ _ outbox _ =>
    obtain ⟨vs, hvs⟩ := outbox
    rw [hvs]
    exact .appends vs

variable {now : Instant}

theorem createEventHold_outbox {id : Uuid} {scope : EventHoldScope} {scopeId : Option String}
    {reason actorId : String} {hold : EventHoldRow}
    (h : s.createEventHold id scope scopeId reason actorId now = .ok (hold, s')) :
    s'.outbox = s.outbox := by
  simp only [ApplicationStore.createEventHold, bind_eq_ok, return_eq_ok] at h
  obtain ⟨_, _, _, _, _, _, holds, _, _, rfl⟩ := h
  rfl

theorem releaseEventHold_outbox {holdId : Uuid} {hold : EventHoldRow}
    (h : s.releaseEventHold holdId now = .ok (hold, s')) : s'.outbox = s.outbox := by
  simp only [ApplicationStore.releaseEventHold, bind_eq_ok] at h
  obtain ⟨row, _, h⟩ := h
  split at h <;> cases h <;> rfl

theorem planEventRetention_outbox {policy : EventRetentionPolicy} {planId : Uuid}
    {plan : EventRetentionPlanRow} (h : s.planEventRetention policy planId now = .ok (plan, s')) :
    s'.outbox = s.outbox := by
  simp only [ApplicationStore.planEventRetention, bind_eq_ok, return_eq_ok] at h
  obtain ⟨_, _, plans, _, _, rfl⟩ := h
  rfl

/-- **Retention only deletes.** -/
theorem applyEventRetention_outbox {planId : Uuid} {plan : EventRetentionPlanRow}
    (h : s.applyEventRetention planId now = .ok (plan, s')) : Log.Step s.outbox s'.outbox := by
  simp only [ApplicationStore.applyEventRetention, bind_eq_ok] at h
  obtain ⟨row, _, h⟩ := h
  split at h
  · obtain ⟨_, rfl⟩ := return_eq_ok.mp h
    exact .refl _
  · simp only [bind_eq_ok, return_eq_ok] at h
    obtain ⟨_, _, _, rfl⟩ := h
    exact .keeps _

/-- The outbox takes one step. -/
abbrev OutboxStep (s s' : ApplicationStore) : Prop := Log.Step s.outbox s'.outbox

/-- **Every transaction is one step of the log.** -/
theorem streamStep_outbox (s : ApplicationStore) (op : StreamOp) :
    OutboxStep s (streamStep s op) := by
  have hsame : ∀ {s' : ApplicationStore}, s'.outbox = s.outbox → OutboxStep s s' :=
    fun h => by rw [OutboxStep, h]; exact .refl _
  cases op with
  | ledger op => exact (ledgerStep_change s op).outbox_step
  | record events =>
    refine commit_cases (R := OutboxStep) (.refl _) ?_
    intro _ s' h
    obtain ⟨s₁, h₁, ⟨⟩⟩ := map_eq_ok.mp h
    rw [OutboxStep, addEvents_spec h₁]
    exact .appends events
  | runs rows => exact .refl _
  | createEventHold =>
    exact commit_cases (R := OutboxStep) (.refl _) fun _ _ h => hsame (createEventHold_outbox h)
  | releaseEventHold =>
    exact commit_cases (R := OutboxStep) (.refl _) fun _ _ h => hsame (releaseEventHold_outbox h)
  | planEventRetention =>
    exact commit_cases (R := OutboxStep) (.refl _) fun _ _ h => hsame (planEventRetention_outbox h)
  | applyEventRetention =>
    exact commit_cases (R := OutboxStep) (.refl _) fun _ _ h => applyEventRetention_outbox h

/-! ## Queries -/

namespace ApplicationStore

/-- The query raises: its limit is out of bounds, its cursor lies behind the oldest event, or one
of the rows it would serve is no envelope. -/
def Refuses (s : ApplicationStore) (afterCursor : Nat) (limit : Int) : Prop :=
  (limit < 1 ∨ limit > 1000) ∨ s.isBehind afterCursor ∨
    ∃ e ∈ s.outbox.page afterCursor limit.toNat, ¬ e.value.isEnvelope

/-- The cursors right after the client's are still held: as many as the page has room for, or as
are left; and if none is left, none was issued. -/
def HoldsNext (s : ApplicationStore) (afterCursor : Nat) (limit : Int) : Prop :=
  if s.outbox.after afterCursor = [] then s.outbox.issued ≤ afterCursor
  else ∀ k, afterCursor < k →
    k ≤ afterCursor + min limit.toNat (s.outbox.after afterCursor).length →
      ∃ e ∈ s.outbox, e.cursor = k

theorem envelope_eq_ok {e : Stamped OutboxRow} {envelope' : EventEnvelope} :
    envelope e = .ok envelope' ↔ e.value.isEnvelope = true ∧ envelope' = ⟨e.cursor, e.value⟩ := by
  simp only [envelope, bind_eq_ok, refuseIf_eq_ok, pure_eq_ok, not_not, exists_const]
  exact and_congr_right fun _ => eq_comm

/-- Rows are read as envelopes one by one. -/
theorem mapM_envelope_eq_ok {rows : List (Stamped OutboxRow)} {events : List EventEnvelope} :
    rows.mapM envelope = .ok events ↔ (∀ e ∈ rows, e.value.isEnvelope = true) ∧
      events = rows.map fun e => ⟨e.cursor, e.value⟩ := by
  induction rows generalizing events with
  | nil =>
    rw [mapM_nil, pure_eq_ok, map_nil]
    exact ⟨fun h => ⟨by simp, h.symm⟩, fun h => h.2.symm⟩
  | cons e rows ih =>
    simp only [mapM_cons, bind_eq_ok, pure_eq_ok, envelope_eq_ok, ih, forall_mem_cons,
      map_cons]
    constructor
    · rintro ⟨_, ⟨he, rfl⟩, _, ⟨hrows, rfl⟩, rfl⟩
      exact ⟨⟨he, hrows⟩, rfl⟩
    · rintro ⟨⟨he, hrows⟩, rfl⟩
      exact ⟨_, ⟨he, rfl⟩, _, ⟨hrows, rfl⟩, rfl⟩

/-- The unfiltered page: the first `limit` events after the cursor. -/
def pageOf (s : ApplicationStore) (afterCursor : Nat) (limit : Int) : EventPage where
  afterCursor := afterCursor
  nextCursor := (((s.outbox.page afterCursor limit.toNat).getLast?).map (·.cursor)).getD afterCursor
  retainedFromCursor := s.retainedFrom
  events := (s.outbox.page afterCursor limit.toNat).map fun e => ⟨e.cursor, e.value⟩

/-- **An unfiltered query serves its page, or it raises.** -/
theorem events_eq_ok {afterCursor : Nat} {limit : Int} {page : EventPage} :
    s.events afterCursor limit = .ok page ↔
      ¬ s.Refuses afterCursor limit ∧ page = s.pageOf afterCursor limit := by
  have hfilter : (s.outbox.after afterCursor).filter (fun e => EventFilter.accepts {} e.value)
      = s.outbox.after afterCursor :=
    filter_eq_self.mpr fun e _ => EventFilter.accepts_default e.value
  have hlast : ∀ rows : List (Stamped OutboxRow),
      ((rows.map fun e => EventEnvelope.mk e.cursor e.value).getLast?).map (·.cursor)
        = (rows.getLast?).map (·.cursor) := fun rows => by
    rw [List.getLast?_map, Option.map_map]
    rfl
  simp only [events, bind_eq_ok, refuseIf_eq_ok, pure_eq_ok, hfilter, mapM_envelope_eq_ok]
  constructor
  · rintro ⟨_, hlimit, _, hbehind, _, ⟨hall, rfl⟩, rfl⟩
    refine ⟨?_, ?_⟩
    · rintro (h | h | ⟨e, he, hnot⟩)
      · exact hlimit h
      · exact hbehind h
      · exact hnot (hall e he)
    · rw [hlast]
      rfl
  · rintro ⟨hnot, rfl⟩
    have hall : ∀ e ∈ s.outbox.page afterCursor limit.toNat, e.value.isEnvelope = true := by
      intro e he
      by_contra h
      exact hnot (.inr (.inr ⟨e, he, h⟩))
    refine ⟨(), fun h => hnot (.inl h), (), fun h => hnot (.inr (.inl h)), _, ⟨hall, rfl⟩, ?_⟩
    rw [hlast]
    rfl

end ApplicationStore

/-! ## Gaps -/

/-- What a page speaks for: its next cursor, or everything issued when it is empty. -/
def ApplicationStore.horizon (s : ApplicationStore) (page : EventPage) : Nat :=
  if page.events = [] then s.outbox.issued else page.nextCursor

/-- The query after a history is told of every event it skips: if it returns a page, then no event
that was ever appended after the client's cursor, up to what the page speaks for, was deleted. -/
def NoUndetectedGap (ops : List StreamOp) (afterCursor : Nat) (limit : Int) : Prop :=
  ∀ page, (streamRun ops).events afterCursor limit = .ok page →
    ∀ e, EverAppended ops e → afterCursor < e.cursor → e.cursor ≤ (streamRun ops).horizon page →
      e ∈ (streamRun ops).outbox

/-- A page stays within the numbers that were issued. -/
theorem ApplicationStore.horizon_le (s : ApplicationStore) (afterCursor : Nat) (limit : Int) :
    s.horizon (s.pageOf afterCursor limit) ≤ s.outbox.issued := by
  unfold horizon
  split
  · exact le_rfl
  · rename_i hne
    cases hlast : (s.outbox.page afterCursor limit.toNat).getLast? with
    | none =>
      rw [List.getLast?_eq_none_iff] at hlast
      exact absurd (by rw [pageOf, hlast, map_nil]) hne
    | some last =>
      have hmem := Log.mem_of_mem_page (mem_of_getLast? hlast)
      rw [pageOf, hlast]
      exact (s.outbox.bounded last hmem.1).2

/-- **A query is told of every event it skips exactly when** it raises, or the cursors right after
its own are still held: as many as the page has room for, or as are left. -/
theorem no_undetected_gap_iff (ops : List StreamOp) (afterCursor : Nat) (limit : Int) :
    NoUndetectedGap ops afterCursor limit ↔
      (streamRun ops).Refuses afterCursor limit ∨ (streamRun ops).HoldsNext afterCursor limit := by
  set s := streamRun ops with hs
  by_cases hrefuses : s.Refuses afterCursor limit
  · refine ⟨fun _ => .inl hrefuses, fun _ page hpage => ?_⟩
    exact absurd hrefuses (events_eq_ok.mp hpage).1
  have hpage : s.events afterCursor limit = .ok (s.pageOf afterCursor limit) :=
    events_eq_ok.mpr ⟨hrefuses, rfl⟩
  -- the history below the horizon, read as numbers
  have hgap : NoUndetectedGap ops afterCursor limit ↔ ∀ k, afterCursor < k →
      k ≤ s.horizon (s.pageOf afterCursor limit) → ∃ e ∈ s.outbox, e.cursor = k := by
    refine Iff.trans ?_
      (Log.complete_iff_retained streamStep_outbox rfl (s.horizon_le afterCursor limit))
    constructor
    · exact fun h => h _ hpage
    · intro h page hpage'
      rw [(events_eq_ok.mp hpage').2]
      exact h
  rw [hgap, or_iff_right hrefuses]
  have hlimit : 1 ≤ limit.toNat := by
    have : ¬ (limit < 1 ∨ limit > 1000) := fun h => hrefuses (.inl h)
    omega
  cases hlast : (s.outbox.page afterCursor limit.toNat).getLast? with
  | none =>
    have hempty : s.outbox.after afterCursor = [] := by
      rw [List.getLast?_eq_none_iff, Log.page, take_eq_nil_iff] at hlast
      rcases hlast with h | h
      · omega
      · exact h
    have hhorizon : s.horizon (s.pageOf afterCursor limit) = s.outbox.issued := by
      rw [ApplicationStore.horizon, if_pos]
      rw [List.getLast?_eq_none_iff] at hlast
      rw [ApplicationStore.pageOf, hlast, map_nil]
    rw [hhorizon, ApplicationStore.HoldsNext, if_pos hempty]
    exact Log.empty_complete_iff hempty
  | some last =>
    have hmem := mem_of_getLast? hlast
    have hne : s.outbox.after afterCursor ≠ [] :=
      ne_nil_of_mem (Log.mem_after.mpr (Log.mem_of_mem_page hmem))
    have hhorizon : s.horizon (s.pageOf afterCursor limit) = last.cursor := by
      rw [ApplicationStore.horizon, if_neg]
      · rw [ApplicationStore.pageOf, hlast]
        rfl
      · rw [ApplicationStore.pageOf]
        exact fun h => ne_nil_of_mem hmem (map_eq_nil_iff.mp h)
    rw [hhorizon, ApplicationStore.HoldsNext, if_neg hne, Log.page_complete_iff hlast, Log.page,
      length_take]

/-! ## The gap a client is not told of -/

/-- An event of another repository. -/
def sampleEvent (id : Uuid) (occurredAt : Instant) : OutboxRow where
  id := id
  aggregateId := "a"
  entityType := "task"
  eventType := "task.changed"
  source := "mishkand"
  occurredAt := occurredAt

/-- Three events: the first is held, the second old enough to delete, the third recent. Retention is
planned and applied. -/
def sampleStream : List StreamOp :=
  let policy : EventRetentionPolicy := ⟨1, 10, by decide, by decide⟩
  [.record [sampleEvent 1 0, sampleEvent 2 0, sampleEvent 3 (2 * day)],
    .createEventHold 30 .event (some (Uuid.text 1)) "evidence" "operator" 0,
    .planEventRetention policy 20 (2 * day), .applyEventRetention 20 (2 * day)]

/-- A client that read the first event is served the third, and not told of the second. -/
theorem event_gap_undetected : ¬ NoUndetectedGap sampleStream 1 100 := by
  intro h
  have hpage : (streamRun sampleStream).events 1 100
      = .ok ⟨1, 3, 1, [⟨3, sampleEvent 3 (2 * day)⟩]⟩ := by rfl
  have hlogged : EverAppended sampleStream ⟨2, sampleEvent 2 0⟩ :=
    ⟨sampleStream.take 1, take_prefix _ _, by
      change _ ∈ (_ : List _)
      decide⟩
  have hmem := h _ hpage _ hlogged (by decide) (by decide)
  revert hmem
  change ¬ _ ∈ (_ : List _)
  decide

end Mishkan
