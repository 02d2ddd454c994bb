import Mishkan.Tools.Dispatch
import Mishkan.Persistence.Invariants

/-!
# Tools/AtMostOnce — state-changing calls are dispatched at most once

The journal is read as a map from calls to rows (`callAt`), so that each of its operations changes
it at one call. `CallPhase` relates the row of a call to the invocations of it in flight and to its
dispatches so far: at any time at most one invocation of a state-changing call is in flight, and
once the row lets the call be dispatched every dispatch before was completed as absent. -/

namespace Mishkan

open Refusal Transition List Table

variable {s s' : Store}

/-! ## The journal as a map -/

/-- The row of a call. -/
def Store.callAt (s : Store) (call : CallKey) : Option PlannedToolCallRow :=
  s.plannedCall? call.1 call.2.1 call.2.2

theorem callAt_eq_some {call : CallKey} {c : PlannedToolCallRow} :
    s.callAt call = some c ↔ c ∈ s.calls ∧ c.call = call := by
  obtain ⟨run, attempt, id⟩ := call
  simp [Store.callAt, PlannedToolCallRow.call]

/-- The map that differs at one call. -/
def SetsCall (s s' : Store) (call : CallKey) (c : PlannedToolCallRow) : Prop :=
  ∀ key, s'.callAt key = if key = call then some c else s.callAt key

/-- Inserting a row sets its call. -/
theorem setsCall_insert {c : PlannedToolCallRow} {calls : Table PlannedToolCallRow}
    (h : s.calls.insert c = some calls) (hs' : s'.calls = calls) : SetsCall s s' c.call c := by
  intro key
  split
  · rename_i hkey
    exact callAt_eq_some.mpr ⟨by rw [hs']; exact (mem_of_insert h).mpr (.inr rfl), hkey.symm⟩
  · rename_i hkey
    refine Option.ext fun a => ?_
    rw [callAt_eq_some, callAt_eq_some, hs', mem_of_insert h]
    constructor
    · rintro ⟨ha | rfl, hcall⟩
      · exact ⟨ha, hcall⟩
      · exact absurd hcall.symm hkey
    · exact fun ⟨ha, hcall⟩ => ⟨.inl ha, hcall⟩

/-- Updating a row by its identifier sets its call. -/
theorem setsCall_update {c : PlannedToolCallRow} (hc : c ∈ s.calls)
    {f : PlannedToolCallRow → PlannedToolCallRow} (hf : ∀ c, Keyed.key (f c) = Keyed.key c)
    (hs' : s'.calls = s.calls.update (·.id = c.id) f hf) : SetsCall s s' c.call (f c) := by
  have hcall : ∀ c, (f c).call = c.call := fun c => by
    have hkey := congrArg (fun k : Uuid × Uuid × String × String => k.2) (hf c)
    simpa [PlannedToolCallRow.call, Keyed.key] using hkey
  have hid : ∀ a ∈ s.calls, a.id = c.id → a = c := fun a ha hid =>
    eq_of_clash ha hc (by simp [Keyed.clash, Keyed.key, hid])
  intro key
  split
  · rename_i hkey
    refine callAt_eq_some.mpr ⟨?_, (hcall c).trans hkey.symm⟩
    rw [hs', mem_update]
    exact ⟨c, hc, if_pos (by simp)⟩
  · rename_i hkey
    refine Option.ext fun a => ?_
    simp only [callAt_eq_some, hs', mem_update, decide_eq_true_eq]
    constructor
    · rintro ⟨⟨a₀, ha₀, rfl⟩, ha⟩
      split at ha
      · rename_i hsame
        rw [hid a₀ ha₀ hsame, hcall] at ha
        exact absurd ha.symm hkey
      · rename_i hother
        rw [if_neg hother]
        exact ⟨ha₀, ha⟩
    · rintro ⟨ha, hakey⟩
      refine ⟨⟨a, ha, if_neg fun hsame => hkey ?_⟩, hakey⟩
      rw [← hakey, hid a ha hsame]

/-! ## What the journal's operations do -/

/-- The row reserved once more. -/
def PlannedToolCallRow.retried (c : PlannedToolCallRow) : PlannedToolCallRow :=
  { c with state := .reserved, effectSettlement := none, result := none }

/-- The row settled with a result. -/
def PlannedToolCallRow.settledAs (result : ToolResultEnvelope) (settlement : EffectSettlement)
    (c : PlannedToolCallRow) : PlannedToolCallRow :=
  { c with
    state := .settled result.status, effectSettlement := some settlement, result := some result }

/-- A row that lets its call be dispatched, once reserved if need be. -/
def PlannedToolCallRow.isFree (c : PlannedToolCallRow) : Prop :=
  c.state = .reserved ∨ (c.state.isRetryable = true ∧ c.effectSettlement = some .absent)

/-- A completed row has its result. -/
def PlannedToolCallRow.IsComplete (c : PlannedToolCallRow) : Prop :=
  c.state = .settled .completed → c.result ≠ none

/-- **A reservation that takes off** inserts its row, or reserves a free row of the same content
once more, or finds it reserved. -/
theorem of_reservePlannedCall {r : Reservation} (h : s.reservePlannedCall r = .ok (none, s')) :
    (s.callAt r.call = none ∧ SetsCall s s' r.call r.row) ∨
      ∃ c, s.callAt r.call = some c ∧ r.isOf c ∧ (c.isFree ∧ SetsCall s s' r.call c.retried
          ∨ s' = s ∧ (c.IsComplete → c.state = .reserved)) := by
  simp only [Store.reservePlannedCall, bind_eq_ok] at h
  obtain ⟨_, -, h⟩ := h
  split at h
  · rename_i hnone
    simp only [bind_eq_ok, require_eq_ok, return_eq_ok, true_and] at h
    obtain ⟨calls, hinsert, rfl⟩ := h
    exact .inl ⟨hnone, setsCall_insert hinsert rfl⟩
  · rename_i c hsome
    simp only [bind_eq_ok, refuseIf_eq_ok, not_not] at h
    obtain ⟨_, hof, h⟩ := h
    refine .inr ⟨c, hsome, hof, ?_⟩
    have hc : c ∈ s.calls ∧ c.call = r.call := callAt_eq_some.mp hsome
    split at h
    · -- a replay returns the result of the row
      rename_i hreplay
      simp only [return_eq_ok] at h
      exact absurd h.1 hreplay.2
    · rename_i hreplay
      simp only [bind_eq_ok, refuseIf_eq_ok, not_or] at h
      obtain ⟨_, ⟨hdispatching, huncertain, -⟩, h⟩ := h
      split at h
      · rename_i hretryable
        simp only [bind_eq_ok, refuseIf_eq_ok, not_not, return_eq_ok, true_and] at h
        obtain ⟨_, habsent, rfl⟩ := h
        refine .inl ⟨.inr ⟨hretryable, habsent⟩, ?_⟩
        rw [← hc.2]
        exact setsCall_update (f := PlannedToolCallRow.retried) hc.1 (fun _ => rfl) rfl
      · rename_i hretryable
        simp only [return_eq_ok, true_and] at h
        refine .inr ⟨h.symm, fun hcomplete => ?_⟩
        -- no other state is left
        cases hstate : c.state with
        | reserved => rfl
        | dispatching => exact absurd hstate hdispatching
        | settled status =>
          cases status with
          | completed => exact absurd ⟨hstate, hcomplete hstate⟩ hreplay
          | uncertain => exact absurd hstate huncertain
          | failed | cancelled | refused =>
            simp [hstate, PlannedCallState.isRetryable] at hretryable

/-- A replay leaves the store as it is. -/
theorem replayed_store {r : Reservation} {a : ToolResultEnvelope}
    (h : s.reservePlannedCall r = .ok (some a, s')) : s' = s := by
  simp only [Store.reservePlannedCall, bind_eq_ok] at h
  obtain ⟨_, -, h⟩ := h
  split at h
  · simp only [bind_eq_ok, return_eq_ok, reduceCtorEq, false_and, and_false, exists_false] at h
  · simp only [bind_eq_ok] at h
    obtain ⟨_, -, h⟩ := h
    split at h
    · simp only [return_eq_ok] at h
      exact h.2.symm
    · simp only [bind_eq_ok] at h
      obtain ⟨_, -, h⟩ := h
      split at h <;> simp only [bind_eq_ok, return_eq_ok, reduceCtorEq, false_and, and_false,
        exists_false] at h

/-- **A call marked dispatching** was reserved. -/
theorem of_markPlannedCallDispatching {id : Uuid} {fingerprint : Digest PlannedRequest} {a : Unit}
    (h : s.markPlannedCallDispatching id fingerprint = .ok (a, s')) :
    ∃ c ∈ s.calls, c.id = id ∧ c.state = .reserved ∧
      SetsCall s s' c.call { c with state := .dispatching } := by
  simp only [Store.markPlannedCallDispatching, bind_eq_ok, require_eq_ok, refuseIf_eq_ok, not_not,
    return_eq_ok, Option.filter_eq_some_iff, Store.call?_eq_some] at h
  obtain ⟨c, ⟨⟨hc, hid⟩, -⟩, -, hstate, -, rfl⟩ := h
  exact ⟨c, hc, hid, hstate,
    setsCall_update (f := fun c => { c with state := .dispatching }) hc (fun _ => rfl) rfl⟩

/-- **A completed call** is settled with its result, unless it had been completed before. -/
theorem of_completePlannedCall {safe : ContentInspector} {id : Uuid}
    {fingerprint : Digest PlannedRequest} {result a : ToolResultEnvelope}
    {settlement : EffectSettlement}
    (h : s.completePlannedCall safe id fingerprint result settlement = .ok (a, s')) :
    ∃ c ∈ s.calls, c.id = id ∧ (s' = s ∨ SetsCall s s' c.call (c.settledAs result settlement)) := by
  simp only [Store.completePlannedCall, bind_eq_ok, require_eq_ok, Option.filter_eq_some_iff,
    Store.call?_eq_some] at h
  obtain ⟨_, -, c, ⟨⟨hc, hid⟩, -⟩, h⟩ := h
  split at h <;> simp only [bind_eq_ok, return_eq_ok] at h <;> obtain ⟨_, -, -, rfl⟩ := h
  · exact ⟨c, hc, hid, .inl rfl⟩
  · exact ⟨c, hc, hid, .inr (setsCall_update (f := .settledAs result settlement) hc
      (fun _ => rfl) rfl)⟩

/-! ## What the other transactions do -/

/-- What a transaction outside the journal does to a row: a recovery settles that of a read, or
nothing. -/
def CallStep (c c' : PlannedToolCallRow) : Prop :=
  c' = c ∨ (c.effectClass = .read ∧ c' = Store.settleRetrySafe c)

/-- The calls are kept, up to the settlements of recoveries. -/
def CallsKept (s s' : Store) : Prop :=
  ∀ key, (s.callAt key = none → s'.callAt key = none) ∧
    ∀ c, s.callAt key = some c → ∃ c', s'.callAt key = some c' ∧ CallStep c c'

theorem CallsKept.of_eq (h : s'.calls = s.calls) : CallsKept s s' := by
  have hsame : s'.callAt = s.callAt := by
    funext key
    simp [Store.callAt, Store.plannedCall?, h]
  exact fun key => ⟨fun hnone => by rw [hsame, hnone],
    fun c hc => ⟨c, by rw [hsame, hc], .inl rfl⟩⟩

theorem CallsKept.trans {s₁ s₂ s₃ : Store} (h : CallsKept s₁ s₂) (h' : CallsKept s₂ s₃) :
    CallsKept s₁ s₃ := by
  refine fun key => ⟨fun hnone => (h' key).1 ((h key).1 hnone), fun c₁ hc₁ => ?_⟩
  obtain ⟨c₂, hc₂, hstep⟩ := (h key).2 c₁ hc₁
  obtain ⟨c₃, hc₃, hstep'⟩ := (h' key).2 c₂ hc₂
  refine ⟨c₃, hc₃, ?_⟩
  obtain rfl | ⟨hread, rfl⟩ := hstep
  · exact hstep'
  · obtain rfl | ⟨-, rfl⟩ := hstep' <;> exact .inr ⟨hread, rfl⟩

/-- The journal is left to its own operations, and recoveries settle reads. -/
def unjournalled : Permits
  | _, .journal => False
  | s, .retried runId => ∀ c ∈ s.calls, Store.isRetrySafe runId c = true → c.effectClass = .read
  | _, _ => True

theorem Move.callsKept (h : Move unjournalled s s') : CallsKept s s' := by
  cases h with
  | aside h => exact .of_eq h.calls
  | callsJournalled hG => exact hG.elim
  | @callsReconciled runId hG =>
    intro key
    have hcall : ∀ c : PlannedToolCallRow, (Store.settleRetrySafe c).call = c.call := fun _ => rfl
    refine ⟨fun hnone => ?_, fun c hc => ?_⟩
    · rw [Option.eq_none_iff_forall_ne_some] at hnone ⊢
      intro a ha
      simp only [callAt_eq_some, mem_update] at ha
      obtain ⟨⟨c, hc, rfl⟩, hkey⟩ := ha
      refine hnone c (callAt_eq_some.mpr ⟨hc, ?_⟩)
      rw [← hkey]
      split
      · exact (hcall c).symm
      · rfl
    · obtain ⟨hc, hkey⟩ := callAt_eq_some.mp hc
      by_cases hsafe : Store.isRetrySafe runId c = true
      · refine ⟨Store.settleRetrySafe c, callAt_eq_some.mpr ⟨?_, (hcall c).trans hkey⟩, .inr ?_⟩
        · simp only [mem_update]
          exact ⟨c, hc, if_pos hsafe⟩
        · exact ⟨hG c hc hsafe, rfl⟩
      · refine ⟨c, callAt_eq_some.mpr ⟨?_, hkey⟩, .inl rfl⟩
        simp only [mem_update]
        exact ⟨c, hc, if_neg hsafe⟩
  | _ => exact .of_eq rfl

/-- **A transaction outside the journal keeps the calls.** -/
theorem callsKept_step (deployment : Deployment) (haddressed : Addressed s) {op : Op}
    (hop : op.isPlannedCall = false)
    (hread : ∀ runId, op = .reconcileInterrupted runId → unjournalled s (.retried runId)) :
    CallsKept s (step deployment s op) := by
  have hpermits : PermitsOp unjournalled s op := by
    cases op with
    | reconcileInterrupted runId => exact hread runId rfl
    | reservePlannedCall | markPlannedCallDispatching | completePlannedCall =>
      simp [Op.isPlannedCall] at hop
    | _ => simp [PermitsOp, PermitsExpiry, PermitsLease, unjournalled]
  exact (step_moves deployment haddressed hpermits).rel (I := fun _ => True) (R := CallsKept)
    (fun _ => .of_eq rfl) CallsKept.trans (fun _ _ _ _ => trivial) (fun _ _ _ hm => hm.callsKept)
    trivial

/-! ## The phases of a call -/

/-- The row is of a state-changing call. -/
structure PlannedToolCallRow.Changing (c : PlannedToolCallRow) : Prop where
  class_ne : c.effectClass ≠ .read
  complete : c.IsComplete

/-- **How the row, the flights and the dispatches of one call fit together.** -/
inductive CallPhase : Option PlannedToolCallRow → List Flight → List Dispatch → Prop
  | unknown : CallPhase none [] []
  | read {c : PlannedToolCallRow} {fs : List Flight} {ds : List Dispatch}
      (hclass : c.effectClass = .read) (hof : ∀ f ∈ fs, f.reservation.isOf c)
      (hds : ∀ d ∈ ds, d.effectClass = .read) : CallPhase (some c) fs ds
  | idle {c : PlannedToolCallRow} {ds : List Dispatch} (hc : c.Changing)
      (hfree : c.isFree → ∀ d ∈ ds, d.outcome = some .absent)
      (honce : ∀ d ∈ ds.dropLast, d.outcome = some .absent) : CallPhase (some c) [] ds
  | reserved {c : PlannedToolCallRow} {f : Flight} {ds : List Dispatch} (hc : c.Changing)
      (hof : f.reservation.isOf c) (hstate : c.state = .reserved)
      (hstarted : f.dispatchStarted = false) (habsent : ∀ d ∈ ds, d.outcome = some .absent) :
      CallPhase (some c) [f] ds
  | dispatching {c : PlannedToolCallRow} {f : Flight} {ds : List Dispatch} {d : Dispatch}
      (hc : c.Changing) (hof : f.reservation.isOf c) (hstate : c.state = .dispatching)
      (hstarted : f.dispatchStarted = true) (habsent : ∀ d ∈ ds, d.outcome = some .absent)
      (htoken : d.token = f.token) (hnone : d.outcome = none) :
      CallPhase (some c) [f] (ds ++ [d])

namespace CallPhase

variable {row : Option PlannedToolCallRow} {c c' : PlannedToolCallRow} {fs : List Flight}
  {ds : List Dispatch} {f : Flight}

/-- Every dispatch of a state-changing call but the last was completed as absent. -/
theorem once (h : CallPhase row fs ds) {d : Dispatch} (hd : d ∈ ds)
    (hclass : d.effectClass ≠ .read) :
    ∀ earlier ∈ ds.dropLast, earlier.outcome = some .absent := by
  cases h with
  | unknown => simp at hd
  | read _ _ hds => exact absurd (hds d hd) hclass
  | idle _ _ honce => exact honce
  | reserved _ _ _ _ habsent => exact fun e he => habsent e (dropLast_subset ds he)
  | dispatching _ _ _ _ habsent => simpa using habsent

/-- A flight has the row of its call. -/
theorem row_of_mem (h : CallPhase row fs ds) (hf : f ∈ fs) :
    ∃ c, row = some c ∧ f.reservation.isOf c := by
  cases h with
  | unknown => simp at hf
  | idle => simp at hf
  | read _ hof => exact ⟨_, rfl, hof f hf⟩
  | reserved _ hof | dispatching _ hof =>
    obtain rfl := mem_singleton.mp hf
    exact ⟨_, rfl, hof⟩

@[simp] theorem filter_self (f : Flight) : ([f].filter fun g => ! f.same g) = [] := by
  simp [Flight.same]

/-- **A transaction outside the journal** leaves a call in its phase. -/
theorem transaction (h : CallPhase (some c) fs ds) (hstep : CallStep c c') :
    CallPhase (some c') fs ds := by
  obtain rfl | ⟨hread, rfl⟩ := hstep
  · exact h
  · cases h with
    | read hclass hof hds => exact .read hclass hof hds
    | idle hc | reserved hc | dispatching hc => exact absurd hread hc.class_ne

/-- **An invocation that ends without a completion** leaves its call as it is. -/
theorem land (h : CallPhase row fs ds) (hf : f ∈ fs) :
    CallPhase row (fs.filter fun g => ! f.same g) ds := by
  cases h with
  | unknown => simp at hf
  | idle => simp at hf
  | read hclass hof hds =>
    exact .read hclass (fun g hg => hof g (mem_filter.mp hg).1) hds
  | reserved hc _ _ _ habsent =>
    obtain rfl := mem_singleton.mp hf
    rw [filter_self]
    exact .idle hc (fun _ => habsent) fun e he => habsent e (dropLast_subset ds he)
  | dispatching hc _ hstate _ habsent =>
    obtain rfl := mem_singleton.mp hf
    rw [filter_self]
    refine .idle hc (fun hfree => ?_) (by simpa using habsent)
    simp [PlannedToolCallRow.isFree, hstate, PlannedCallState.isRetryable] at hfree

/-- **A crash** leaves a call as it is, without its invocations. -/
theorem crash (h : CallPhase row fs ds) : CallPhase row [] ds := by
  cases h with
  | unknown => exact .unknown
  | read hclass _ hds => exact .read hclass (by simp) hds
  | idle hc hfree honce => exact .idle hc hfree honce
  | @reserved _ f _ hc hof hstate hstarted habsent =>
    simpa using (CallPhase.reserved hc hof hstate hstarted habsent).land mem_cons_self
  | @dispatching _ f _ _ hc hof hstate hstarted habsent htoken hnone =>
    simpa using (CallPhase.dispatching hc hof hstate hstarted habsent htoken hnone).land
      mem_cons_self

/-- Recording a settlement leaves dispatches alone that have one. -/
theorem map_settle (habsent : ∀ d ∈ ds, d.outcome = some .absent) (settlement : EffectSettlement) :
    ds.map (Dispatch.settle f settlement) = ds := by
  refine (map_congr_left fun d hd => ?_).trans (map_id ds)
  simp [Dispatch.settle, habsent d hd]

theorem settle_effectClass (settlement : EffectSettlement) (d : Dispatch) :
    (d.settle f settlement).effectClass = d.effectClass := by
  unfold Dispatch.settle
  split <;> rfl

/-- A settled row of a state-changing call is one. -/
theorem changing_settledAs (hc : c.Changing) (result : ToolResultEnvelope)
    (settlement : EffectSettlement) : (c.settledAs result settlement).Changing :=
  ⟨hc.class_ne, fun _ => by simp [PlannedToolCallRow.settledAs]⟩

/-- **An invocation that completes its call**: an absent effect frees it, any other closes it. -/
theorem complete (h : CallPhase (some c) fs ds) (hf : f ∈ fs) (hcall : ∀ d ∈ ds, d.call = f.call)
    {result : ToolResultEnvelope} {settlement : EffectSettlement}
    (hc' : c' = c ∨ c' = c.settledAs result settlement) :
    CallPhase (some c') (fs.filter fun g => ! f.same g)
        (ds.map (Dispatch.settle f settlement)) := by
  cases h with
  | idle => simp at hf
  | read hclass hof hds =>
    refine .read ?_ (fun g hg => ?_) fun d hd => ?_
    · obtain rfl | rfl := hc' <;> exact hclass
    · obtain rfl | rfl := hc' <;> exact hof g (mem_filter.mp hg).1
    · obtain ⟨d₀, hd₀, rfl⟩ := mem_map.mp hd
      rw [settle_effectClass, hds d₀ hd₀]
  | reserved hc _ _ _ habsent =>
    obtain rfl := mem_singleton.mp hf
    rw [filter_self]
    rw [map_settle habsent]
    have hc'' : c'.Changing := by
      obtain rfl | rfl := hc'
      · exact hc
      · exact changing_settledAs hc result settlement
    exact .idle hc'' (fun _ => habsent) fun e he => habsent e (dropLast_subset ds he)
  | @dispatching _ _ ds d hc _ hstate _ habsent htoken hnone =>
    obtain rfl := mem_singleton.mp hf
    rw [filter_self]
    rw [map_append, map_settle habsent, map_singleton]
    have houtcome : (d.settle f settlement).outcome = some settlement := by
      simp [Dispatch.settle, hcall d (by simp), htoken, hnone]
    obtain rfl | rfl := hc'
    · refine .idle hc (fun hfree => ?_) (by simpa using habsent)
      simp [PlannedToolCallRow.isFree, hstate, PlannedCallState.isRetryable] at hfree
    · refine .idle (changing_settledAs hc result settlement) (fun hfree e he => ?_)
        (by simpa using habsent)
      obtain he | he := mem_append.mp he
      · exact habsent e he
      · obtain rfl := mem_singleton.mp he
        obtain hreserved | ⟨-, habsent'⟩ := hfree
        · simp [PlannedToolCallRow.settledAs] at hreserved
        · exact houtcome.trans habsent'

/-- **An invocation whose adapter begins to run.** -/
theorem dispatch (h : CallPhase (some c) fs ds) (hf : f ∈ fs) (hstate : c.state = .reserved) :
    CallPhase (some { c with state := .dispatching }) (fs.map f.start)
      (ds ++ [⟨f.token, f.call, f.reservation.effectClass, none⟩]) := by
  have hof_start : ∀ g, (f.start g).reservation = g.reservation := fun g => by
    unfold Flight.start
    split <;> rfl
  cases h with
  | idle => simp at hf
  | read hclass hof hds =>
    refine .read hclass (fun g hg => ?_) fun d hd => ?_
    · obtain ⟨g₀, hg₀, rfl⟩ := mem_map.mp hg
      rw [hof_start]
      exact hof g₀ hg₀
    · obtain hd | hd := mem_append.mp hd
      · exact hds d hd
      · obtain rfl := mem_singleton.mp hd
        exact (hof f hf).2.2.2.2.1.symm.trans hclass
  | reserved hc hof _ _ habsent =>
    obtain rfl := mem_singleton.mp hf
    rw [map_singleton, Flight.start, if_pos (by simp [Flight.same])]
    refine .dispatching ⟨hc.class_ne, ?_⟩ hof rfl rfl habsent rfl rfl
    exact fun h => by simp at h
  | dispatching _ _ hdispatching => simp [hstate] at hdispatching

/-- **A first reservation.** -/
theorem take_off {r : Reservation} (h : CallPhase none fs ds) (token : Nat) :
    CallPhase (some r.row) (fs ++ [⟨token, r, false⟩]) ds := by
  cases h
  have hof : r.isOf r.row := ⟨rfl, rfl, rfl, rfl, rfl, rfl⟩
  by_cases hclass : r.effectClass = .read
  · refine .read hclass (fun f hf => ?_) (by simp)
    obtain rfl := mem_singleton.mp hf
    exact hof
  · exact .reserved ⟨hclass, fun h => by simp [Reservation.row] at h⟩ hof rfl rfl
      (by simp)

/-- **A reservation of a call that is known**: no other invocation of it is in flight. -/
theorem take_off_again {r : Reservation} (h : CallPhase (some c) fs ds) (token : Nat)
    (hof : r.isOf c) (hguard : r.effectClass ≠ .read → ∀ f ∈ fs, f.dispatchStarted = true)
    (hc' : c.isFree ∧ c' = c.retried ∨ c' = c ∧ (c.IsComplete → c.state = .reserved)) :
    CallPhase (some c') (fs ++ [⟨token, r, false⟩]) ds := by
  have hof' : ∀ r : Reservation, r.isOf c → r.isOf c' := by
    obtain ⟨-, rfl⟩ | ⟨rfl, -⟩ := hc' <;> exact fun _ h => h
  have hclass : c.effectClass = r.effectClass := hof.2.2.2.2.1
  have hfree : c.Changing → c.isFree ∧ c'.Changing ∧ c'.state = .reserved := by
    intro hc
    obtain ⟨hfree, rfl⟩ | ⟨rfl, hreserved⟩ := hc'
    · exact ⟨hfree, ⟨hc.class_ne, fun h => by simp [PlannedToolCallRow.retried] at h⟩, rfl⟩
    · exact ⟨.inl (hreserved hc.complete), hc, hreserved hc.complete⟩
  cases h with
  | read hread hofs hds =>
    refine .read ?_ (fun f hf => ?_) hds
    · obtain ⟨-, rfl⟩ | ⟨rfl, -⟩ := hc' <;> exact hread
    · obtain hf | hf := mem_append.mp hf
      · exact hof' _ (hofs f hf)
      · obtain rfl := mem_singleton.mp hf
        exact hof' r hof
  | idle hc habsent =>
    obtain ⟨hfree, hc', hstate⟩ := hfree hc
    exact .reserved hc' (hof' r hof) hstate rfl (habsent hfree)
  | @reserved _ f _ hc _ _ hstarted =>
    have hstarted' := hguard (hclass ▸ hc.class_ne) f (by simp)
    simp [hstarted] at hstarted'
  | dispatching hc _ hstate =>
    have hnot := (hfree hc).1
    simp [PlannedToolCallRow.isFree, hstate, PlannedCallState.isRetryable] at hnot

end CallPhase

/-! ## The system -/

namespace Invocations

variable {j : Invocations} {f : Flight} {safe : ContentInspector}

/-- The invocations of one call in flight. -/
def flightsOf (j : Invocations) (call : CallKey) : List Flight := j.flights.filter (·.call = call)

/-- **Every call is in a phase.** -/
def Phased (j : Invocations) : Prop :=
  ∀ call, CallPhase (j.store.callAt call) (j.flightsOf call) (j.dispatchesOf call)

theorem mem_flightsOf {call : CallKey} : f ∈ j.flightsOf call ↔ f ∈ j.flights ∧ f.call = call := by
  simp [flightsOf]

theorem of_flight? {call : CallKey} {token : Nat} (h : j.flight? call token = some f) :
    f ∈ j.flightsOf f.call :=
  mem_flightsOf.mpr ⟨mem_of_find?_eq_some h, rfl⟩

theorem call_of_dispatchesOf {call : CallKey} {d : Dispatch} (hd : d ∈ j.dispatchesOf call) :
    d.call = call := by
  simpa using (mem_filter.mp hd).2

/-- The row of a flight is found by the identifier of its invocation. -/
theorem Phased.row (h : j.Phased) (hf : f ∈ j.flightsOf f.call) {c : PlannedToolCallRow}
    (hc : c ∈ j.store.calls) (hid : c.id = f.reservation.invocationId) :
    j.store.callAt f.call = some c ∧ c.call = f.call := by
  obtain ⟨c₀, hrow, hof⟩ := (h f.call).row_of_mem hf
  obtain ⟨hc₀, hcall⟩ := callAt_eq_some.mp hrow
  have hsame : c₀ = c := eq_of_clash hc₀ hc (by simp [Keyed.clash, Keyed.key, hof.1, hid])
  exact ⟨hsame ▸ hrow, hsame ▸ hcall⟩

/-- Landing a flight changes the flights of its call only. -/
theorem flightsOf_land (j : Invocations) (f : Flight) (call : CallKey) : (j.land f).flightsOf call =
    if call = f.call then (j.flightsOf f.call).filter (fun g => ! f.same g)
    else j.flightsOf call := by
  have hcomm : (j.land f).flightsOf call = (j.flightsOf call).filter fun g => ! f.same g := by
    simp only [land, flightsOf, filter_filter]
    exact filter_congr fun g _ => Bool.and_comm _ _
  split
  · rename_i hcall
    rw [hcomm, hcall]
  · rename_i hcall
    rw [hcomm, filter_eq_self]
    intro g hg
    have hgcall := (mem_flightsOf.mp hg).2
    simp [Flight.same, hgcall, hcall]

/-- **Landing a flight keeps every call in a phase.** -/
theorem Phased.land (h : j.Phased) (hf : f ∈ j.flightsOf f.call) : (j.land f).Phased := by
  intro call
  rw [flightsOf_land]
  split
  · rename_i hcall
    rw [hcall]
    exact (h f.call).land hf
  · exact h call

/-- Completing a call changes its dispatches only. -/
theorem dispatchesOf_complete (j : Invocations) (f : Flight) (settlement : EffectSettlement)
    (call : CallKey) : (j.dispatches.map (Dispatch.settle f settlement)).filter (·.call = call) =
      if call = f.call then (j.dispatchesOf f.call).map (Dispatch.settle f settlement)
      else j.dispatchesOf call := by
  have hcall : ∀ d : Dispatch, (d.settle f settlement).call = d.call := fun d => by
    unfold Dispatch.settle
    split <;> rfl
  have hcomm : (j.dispatches.map (Dispatch.settle f settlement)).filter (·.call = call)
      = (j.dispatchesOf call).map (Dispatch.settle f settlement) := by
    rw [filter_map, dispatchesOf]
    simp [Function.comp_def, hcall]
  rw [hcomm]
  split
  · rename_i hsame
    rw [hsame]
  · rename_i hother
    refine (map_congr_left fun d hd => ?_).trans (map_id _)
    have hd := call_of_dispatchesOf hd
    simp [Dispatch.settle, hd, hother]

/-- **Completing a call keeps every call in a phase.** -/
theorem Phased.complete (h : j.Phased) (hf : f ∈ j.flightsOf f.call) {result : ToolResultEnvelope}
    {settlement : EffectSettlement} {j' : Invocations}
    (hok : j.complete safe f result settlement = .ok j') : j'.Phased := by
  simp only [Invocations.complete, bind_eq_ok, pure_eq_ok] at hok
  obtain ⟨⟨a, s⟩, hs, rfl⟩ := hok
  obtain ⟨c, hc, hid, hset⟩ := of_completePlannedCall hs
  obtain ⟨hrow, hcall⟩ := h.row hf hc hid
  have hrow' : ∃ c', (c' = c ∨ c' = c.settledAs result settlement) ∧
      SetsCall j.store s f.call c' := by
    obtain rfl | hset := hset
    · refine ⟨c, .inl rfl, fun key => ?_⟩
      split
      · rename_i hkey
        rw [hkey, hrow]
      · rfl
    · exact ⟨_, .inr rfl, hcall ▸ hset⟩
  obtain ⟨c', hc', hset⟩ := hrow'
  intro call
  show CallPhase (s.callAt call) ((j.land f).flightsOf call)
    ((j.dispatches.map (Dispatch.settle f settlement)).filter (·.call = call))
  rw [flightsOf_land, dispatchesOf_complete, hset call]
  split
  · have hphase := h f.call
    rw [hrow] at hphase
    exact hphase.complete hf (fun d hd => call_of_dispatchesOf hd) hc'
  · exact h call

/-- **An invocation that ends keeps every call in a phase.** -/
theorem Phased.conclude (h : j.Phased) (hf : f ∈ j.flightsOf f.call) (resultId : Uuid)
    (ending : Ending) : (j.conclude safe f resultId ending).Phased := by
  unfold Invocations.conclude
  dsimp only
  split
  · rename_i hok
    exact h.complete hf hok
  · split
    · exact h.land hf
    · split
      · rename_i hok
        exact h.complete hf hok
      · exact h.land hf
  · exact h.land hf

/-- The flights of a call when the adapter of one begins to run. -/
theorem flightsOf_dispatched (j : Invocations) (f : Flight) (s : Store) (call : CallKey) :
    (j.dispatched f s).flightsOf call =
      if call = f.call then (j.flightsOf f.call).map f.start else j.flightsOf call := by
  have hcall : ∀ g, (f.start g).call = g.call := fun g => by
    unfold Flight.start
    split <;> rfl
  have hcomm : (j.dispatched f s).flightsOf call = (j.flightsOf call).map f.start := by
    simp only [dispatched, flightsOf, filter_map]
    simp [Function.comp_def, hcall]
  rw [hcomm]
  split
  · rename_i hsame
    rw [hsame]
  · rename_i hother
    refine (map_congr_left fun g hg => ?_).trans (map_id _)
    have hg := (mem_flightsOf.mp hg).2
    simp [Flight.start, Flight.same, hg, hother]

theorem dispatchesOf_dispatched (j : Invocations) (f : Flight) (s : Store) (call : CallKey) :
    (j.dispatched f s).dispatchesOf call = if call = f.call then
      j.dispatchesOf f.call ++ [⟨f.token, f.call, f.reservation.effectClass, none⟩]
      else j.dispatchesOf call := by
  simp only [dispatched, dispatchesOf, filter_append]
  split
  · rename_i hsame
    simp [hsame]
  · rename_i hother
    simp [Ne.symm hother]

/-- **An adapter that begins to run keeps every call in a phase.** -/
theorem Phased.dispatch (h : j.Phased) (hf : f ∈ j.flightsOf f.call) (resultId : Uuid) :
    (j.dispatch safe f resultId).Phased := by
  unfold Invocations.dispatch
  split
  · rename_i s hmark
    obtain ⟨c, hc, hid, hstate, hset⟩ := of_markPlannedCallDispatching hmark
    obtain ⟨hrow, hcall⟩ := h.row hf hc hid
    intro call
    rw [flightsOf_dispatched, dispatchesOf_dispatched]
    show CallPhase (s.callAt call) _ _
    rw [hset call, hcall]
    split
    · have hphase := h f.call
      rw [hrow] at hphase
      exact hphase.dispatch hf hstate
    · exact h call
  · split
    · exact h.conclude hf resultId _
    · exact h.land hf

/-- **A reservation keeps every call in a phase.** -/
theorem Phased.reserve (h : j.Phased) {r : Reservation} (hguard : KeepsDispatches j (.reserve r)) :
    (j.reserve r).Phased := by
  unfold Invocations.reserve
  split
  · rename_i s hreserve
    have hflights : ∀ call, (j.flights ++ [(⟨j.drawn, r, false⟩ : Flight)]).filter (·.call = call) =
        if call = r.call then j.flightsOf r.call ++ [⟨j.drawn, r, false⟩]
        else j.flightsOf call := by
      intro call
      rw [filter_append]
      split
      · rename_i hsame
        subst hsame
        simp [flightsOf, Flight.call]
      · rename_i hother
        simp [flightsOf, Flight.call, Ne.symm hother]
    have hphase := h r.call
    -- the row of the call after the reservation, and its phase
    have hkey : ∃ c', SetsCall j.store s r.call c' ∧
        CallPhase (some c') (j.flightsOf r.call ++ [⟨j.drawn, r, false⟩])
        (j.dispatchesOf r.call) := by
      obtain ⟨hnone, hset⟩ | ⟨c, hrow, hof, hcase⟩ := of_reservePlannedCall hreserve
      · rw [hnone] at hphase
        exact ⟨_, hset, hphase.take_off _⟩
      · rw [hrow] at hphase
        have hstarted : r.effectClass ≠ .read →
            ∀ f ∈ j.flightsOf r.call, f.dispatchStarted = true := fun hclass f hf =>
          hguard hclass f (mem_flightsOf.mp hf).1 (mem_flightsOf.mp hf).2
        obtain ⟨hfree, hset⟩ | ⟨rfl, hreserved⟩ := hcase
        · exact ⟨_, hset, hphase.take_off_again _ hof hstarted (.inl ⟨hfree, rfl⟩)⟩
        · refine ⟨c, fun key => ?_, hphase.take_off_again _ hof hstarted (.inr ⟨rfl, hreserved⟩)⟩
          split
          · rename_i hsame
            rw [hsame, hrow]
          · rfl
    obtain ⟨c', hset, hphase'⟩ := hkey
    intro call
    show CallPhase (s.callAt call) ((j.flights ++ [(⟨j.drawn, r, false⟩ : Flight)]).filter
      (·.call = call))
      (j.dispatchesOf call)
    rw [hflights, hset call]
    split
    · rename_i hsame
      rw [hsame]
      exact hphase'
    · exact h call
  · rename_i a s hreplay
    have hsame : s = j.store := replayed_store hreplay
    rw [hsame]
    exact h
  · exact h

/-- **A transaction outside the journal keeps every call in a phase.** -/
theorem Phased.transaction (h : j.Phased) (deployment : Deployment)
    (haddressed : Addressed j.store) {op : Op} (hop : op.isPlannedCall = false)
    (hguard : KeepsDispatches j (.transaction op hop)) :
    Phased { j with store := Mishkan.step deployment j.store op } := by
  have hkept := callsKept_step deployment haddressed hop fun runId h => by
    subst h
    exact hguard
  intro call
  have hphase := h call
  show CallPhase ((Mishkan.step deployment j.store op).callAt call) (j.flightsOf call)
    (j.dispatchesOf call)
  cases hrow : j.store.callAt call with
  | none =>
    rw [(hkept call).1 hrow]
    rwa [hrow] at hphase
  | some c =>
    obtain ⟨c', hrow', hstep⟩ := (hkept call).2 c hrow
    rw [hrow']
    rw [hrow] at hphase
    exact hphase.transaction hstep

/-- A crash keeps every call in a phase. -/
theorem Phased.crash (h : j.Phased) : Phased { j with flights := [] } := by
  intro call
  show CallPhase (j.store.callAt call) [] (j.dispatchesOf call)
  exact (h call).crash

/-- **Every event that keeps dispatches apart keeps every call in a phase.** -/
theorem Phased.step (h : j.Phased) (deployment : Deployment) (haddressed : Addressed j.store)
    {op : InvocationOp} (hop : KeepsDispatches j op) : (j.step deployment op).Phased := by
  cases op with
  | transaction op hnot => exact h.transaction deployment haddressed hnot hop
  | reserve r => exact h.reserve hop
  | dispatch call token resultId =>
    unfold Invocations.step
    dsimp only
    split
    · exact h
    · rename_i f hf
      split
      · exact h
      · exact h.dispatch (of_flight? hf) resultId
  | conclude call token resultId ending =>
    unfold Invocations.step
    dsimp only
    split
    · exact h
    · rename_i f hf
      split
      · exact h.conclude (of_flight? hf) resultId _
      · exact h
    · rename_i hf _
      exact h.conclude (of_flight? hf) resultId _
  | abandon call token =>
    unfold Invocations.step
    dsimp only
    split
    · exact h
    · rename_i f hf
      exact h.land (of_flight? hf)
  | crash => exact h.crash

/-- Calls in a phase are dispatched at most once. -/
theorem Phased.atMostOnce (h : j.Phased) : AtMostOnce j := by
  intro d hd hclass
  exact (h d.call).once (mem_filter.mpr ⟨hd, by simp⟩) hclass

end Invocations

/-! ## Runs -/

/-- A transaction that commits keeps the store sound. -/
theorem sound_of_step (deployment : Deployment) (hs : Sound s) (op : Op)
    (h : step deployment s op = s') : Sound s' := h ▸ hs.step op

theorem sound_complete {deployment : Deployment} {j j' : Invocations} {f : Flight}
    {result : ToolResultEnvelope} {settlement : EffectSettlement} (hs : Sound j.store)
    (hok : j.complete deployment.safe f result settlement = .ok j') : Sound j'.store := by
  simp only [Invocations.complete, bind_eq_ok, pure_eq_ok] at hok
  obtain ⟨⟨a, s⟩, hcomplete, rfl⟩ := hok
  refine sound_of_step deployment hs (.completePlannedCall f.reservation.invocationId
    f.reservation.requestFingerprint result settlement) ?_
  simp only [step, hcomplete, commit_ok]

theorem sound_conclude {deployment : Deployment} {j : Invocations} {f : Flight} {resultId : Uuid}
    {ending : Ending} (hs : Sound j.store) :
    Sound (j.conclude deployment.safe f resultId ending).store := by
  unfold Invocations.conclude
  dsimp only
  split
  · rename_i hok
    exact sound_complete hs hok
  · split
    · exact hs
    · split
      · rename_i hok
        exact sound_complete hs hok
      · exact hs
  · exact hs

/-- **Every event keeps the store sound**: it commits transactions of the store, or none. -/
theorem sound_step (deployment : Deployment) {j : Invocations} (hs : Sound j.store)
    (op : InvocationOp) : Sound (j.step deployment op).store := by
  cases op with
  | transaction op => exact hs.step op
  | reserve r =>
    have hreserve : Sound (Mishkan.step deployment j.store (.reservePlannedCall r)) := hs.step _
    simp only [step] at hreserve
    unfold Invocations.step Invocations.reserve
    dsimp only
    split <;> rename_i h <;> simpa [h] using hreserve
  | dispatch call token resultId =>
    unfold Invocations.step
    dsimp only
    split
    · exact hs
    · rename_i f hf
      split
      · exact hs
      · unfold Invocations.dispatch
        split
        · rename_i s h
          refine sound_of_step deployment hs (.markPlannedCallDispatching f.reservation.invocationId
            f.reservation.requestFingerprint) ?_
          simp only [step, h, commit_ok]
          rfl
        · split
          · exact sound_conclude hs
          · exact hs
  | conclude call token resultId ending =>
    unfold Invocations.step
    dsimp only
    split
    · exact hs
    · split
      · exact sound_conclude hs
      · exact hs
    · exact sound_conclude hs
  | abandon call token =>
    unfold Invocations.step
    dsimp only
    split <;> exact hs
  | crash => exact hs

/-- **State-changing calls are dispatched at most once** in every run whose recoveries find none
dispatching that declared no effects, and whose reservations of one call do not overlap. -/
theorem at_most_once (deployment : Deployment) (ops : List InvocationOp)
    (hkeeps : Along (Invocations.step deployment) KeepsDispatches {} ops) :
    AtMostOnce (run (Invocations.step deployment) {} ops) := by
  have hempty : ({} : Invocations).Phased := fun call => .unknown
  have hboth : Sound (run (Invocations.step deployment) {} ops).store ∧
      (run (Invocations.step deployment) {} ops).Phased :=
    run_of_guarded (I := fun j : Invocations => Sound j.store ∧ j.Phased)
      (fun j op h hop => ⟨sound_step deployment h.1 op, h.2.step deployment h.1.addressed hop⟩)
      ⟨sound_empty, hempty⟩ hkeeps
  exact hboth.2.atMostOnce

/-- A push whose first dispatch reported its effect absent is retried once, and not again after a
crash. -/
theorem push_at_most_once :
    AtMostOnce (run (Invocations.step sampleDeployment) {} (pushStart ++
      [.reserve (pushReservation ["remote"]), .dispatch pushCall 0 70,
        .conclude pushCall 0 71 (.returned {
          id := 71, callId := 90, runId := 1, taskAttemptId := "build:1", toolId := "git.push"
          toolVersion := "1.0.0", status := .failed, reason := "rejected by the remote"
          output := some [("settlement", .str "absent")] }),
        .reserve (pushReservation ["remote"]), .dispatch pushCall 1 72, .crash,
        .transaction (.reconcileInterrupted 1) rfl, .reserve (pushReservation ["remote"])])) :=
  at_most_once _ _ (by decide)

end Mishkan
