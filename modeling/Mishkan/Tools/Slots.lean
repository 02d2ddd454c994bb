import Mishkan.Tools.Invocation

/-!
# Tools/Slots — the concurrency slots of the gateway

Any number of invocations run side by side over one `ConcurrencyController`.  Between the slot it
acquires and the `try` whose `finally` releases it, an invocation asks up to three questions
(`Call.beforeTry`); one that is answered with an exception there keeps its slot for ever
(`slots_free_iff`).

`Running.slot` is what the properties are stated with: nothing reads it.
-/

namespace Mishkan

open Dialogue Transition List Transition

/-! ## The controller -/

/-- Non-blocking in-process leases: the number of active calls, by key. -/
structure ConcurrencyController where
  counts : List (String × Nat) := []
deriving DecidableEq

namespace ConcurrencyController

variable (c : ConcurrencyController) (key : String)

def active : Nat := (c.counts.lookup key).getD 0

def put (n : Nat) : ConcurrencyController := ⟨(key, n) :: c.counts.filter (·.1 ≠ key)⟩

def pop : ConcurrencyController := ⟨c.counts.filter (·.1 ≠ key)⟩

def acquire (limit : Nat) : Bool × ConcurrencyController :=
  if limit ≤ c.active key then (false, c) else (true, c.put key (c.active key + 1))

def release : ConcurrencyController :=
  let remaining := c.active key - 1
  if 0 < remaining then c.put key remaining else c.pop key

variable {c key}

theorem lookup_filter (counts : List (String × Nat)) (k : String) :
    (counts.filter (·.1 ≠ key)).lookup k = if k = key then none else counts.lookup k := by
  induction counts with
  | nil => simp
  | cons entry counts ih =>
    obtain ⟨name, n⟩ := entry
    by_cases hname : name = key
    · rw [filter_cons_of_neg (by simpa using hname), ih, lookup_cons]
      by_cases hk : k = key
      · rw [if_pos hk, if_pos hk]
      · rw [if_neg hk, if_neg hk, beq_eq_false_iff_ne.mpr (hname ▸ hk)]
    · rw [filter_cons_of_pos (by simpa using hname), lookup_cons, lookup_cons, ih]
      by_cases hk : k = key
      · rw [if_pos hk, if_pos hk, beq_eq_false_iff_ne.mpr (hk ▸ Ne.symm hname)]
      · rw [if_neg hk, if_neg hk]

theorem active_put (n : Nat) (k : String) :
    (c.put key n).active k = if k = key then n else c.active k := by
  by_cases hk : k = key
  · simp [active, put, hk]
  · rw [active, put, lookup_cons, lookup_filter, beq_eq_false_iff_ne.mpr hk, if_neg hk,
      if_neg hk]
    rfl

theorem active_pop (k : String) : (c.pop key).active k = if k = key then 0 else c.active k := by
  rw [active, pop, lookup_filter]
  split <;> rfl

/-- A slot is acquired below the limit, and then there is one more. -/
theorem active_acquire {limit : Nat} {acquired : Bool} {c' : ConcurrencyController}
    (h : c.acquire key limit = (acquired, c')) (k : String) :
    c'.active k = if acquired ∧ k = key then c.active k + 1 else c.active k := by
  unfold acquire at h
  split at h
  · obtain ⟨rfl, rfl⟩ := Prod.mk.inj h
    simp
  · obtain ⟨rfl, rfl⟩ := Prod.mk.inj h
    rw [active_put]
    by_cases hk : k = key
    · simp [hk]
    · simp [hk]

theorem active_release (k : String) :
    (c.release key).active k = if k = key then c.active k - 1 else c.active k := by
  unfold release
  by_cases hremaining : 0 < c.active key - 1
  · rw [if_pos hremaining, active_put]
    by_cases hk : k = key
    · rw [if_pos hk, if_pos hk, hk]
    · rw [if_neg hk, if_neg hk]
  · rw [if_neg hremaining, active_pop]
    by_cases hk : k = key
    · rw [if_pos hk, if_pos hk, hk]
      omega
    · rw [if_neg hk, if_neg hk]

end ConcurrencyController

/-! ## Invocations side by side -/

/-- The call stands between the acquired slot and the `try` that releases it. -/
def Call.beforeTry : Call → Bool
  | .snapshotWorkspace | .markPlannedCallDispatching | .audit .started _ _ => true
  | _ => false

/-- What is left of an invocation. -/
structure Running where
  program : Dialogue Question Question.Reply Failure Returned
  /-- The slot it has acquired and not released. -/
  slot : Option String := none

namespace Running

/-- It has returned or raised. -/
def isOver (r : Running) : Bool :=
  match r.program with
  | .ended _ => true
  | .ask .. => false

/-- The invocation asks its next question: the controller answers, or a collaborator. -/
def advance (r : Running) (c : ConcurrencyController)
    (answers : (call : Call) → Except Failure call.Answer) : Running × ConcurrencyController :=
  match r.program with
  | .ended _ => (r, c)
  | .ask (.acquire key limit) next =>
    let (acquired, c) := c.acquire key limit
    (⟨next acquired, if acquired then some key else r.slot⟩, c)
  | .ask (.release key) next => (⟨next (), none⟩, c.release key)
  | .ask (.of call) next => (⟨next (answers call), r.slot⟩, c)

/-- No question before the `try` is answered with an exception. -/
def Answered (r : Running) (answers : (call : Call) → Except Failure call.Answer) : Prop :=
  ∀ call next, r.program = .ask (.of call) next → call.beforeTry = true →
    ∃ answer, answers call = .ok answer

end Running

structure Gateway where
  concurrency : ConcurrencyController := {}
  invocations : List Running := []

inductive GatewayOp where
  | invoke (i : Invocation)
  /-- The n-th invocation goes on by one question. -/
  | advance (n : Nat) (answers : (call : Call) → Except Failure call.Answer)

namespace Gateway

def step (g : Gateway) : GatewayOp → Gateway
  | .invoke i => { g with invocations := g.invocations ++ [⟨i.invoke, none⟩] }
  | .advance n answers =>
    match g.invocations[n]? with
    | none => g
    | some r =>
      let (r, concurrency) := r.advance g.concurrency answers
      ⟨concurrency, g.invocations.set n r⟩

/-- **The slots of a key are those of the invocations between their acquire and their release.** -/
def SlotsKept (g : Gateway) : Prop :=
  ∀ key, g.concurrency.active key = g.invocations.countP fun r => !r.isOver && r.slot = some key

/-- Every invocation has returned or raised. -/
def Quiet (g : Gateway) : Prop := ∀ r ∈ g.invocations, r.isOver = true

/-- The step answers no question before a `try` with an exception. -/
def Answered (g : Gateway) : GatewayOp → Prop
  | .invoke _ => True
  | .advance n answers => ∀ r ∈ g.invocations[n]?, r.Answered answers

end Gateway

/-! ## What one invocation does with its slot -/

/-- A question that has nothing to do with slots. -/
def Question.Plain : Question → Prop
  | .of call => call.beforeTry = false
  | _ => False

/-- Where an invocation stands with its slot. -/
inductive Grip where
  | free
  /-- It has a slot and is going to release it. -/
  | held (key : String)
  /-- It has a slot that it is not going to release. -/
  | lost (key : String)

namespace Grip

def slot : Grip → Option String
  | .free => none
  | .held key | .lost key => some key

/-- A question before the `try` was answered with an exception. -/
def lose : Grip → Grip
  | .held key => .lost key
  | grip => grip

/-- After the answer to a collaborator's question. -/
def after (grip : Grip) (call : Call) : Except Failure call.Answer → Grip
  | .ok _ => grip
  | .error _ => if call.beforeTry then grip.lose else grip

/-- The discipline of slots: one at a time, released by who has it. -/
def monitor : Monitor Question Question.Reply Grip where
  allows grip
    | .acquire .. => grip = .free
    | .release key => grip = .held key
    | .of call => call.beforeTry = true → ∃ key, grip = .held key
  next
    | grip, .acquire key _, acquired => bif acquired then .held key else grip
    | _, .release _, _ => .free
    | grip, .of call, reply => grip.after call reply

/-- What has nothing to do with slots leaves the grip as it is. -/
theorem of_plain {ε α : Type} {x : Dialogue Question Question.Reply ε α} {grip : Grip}
    {Q : Except ε α → Grip → Prop} (h : x.Asks Question.Plain) (hQ : ∀ r, Q r grip) :
    Obeys monitor grip x Q := by
  refine h.obeys (fun q hq => ?_) (fun q answer hq => ?_) hQ
  · cases q with
    | acquire | release => cases hq
    | of call => exact fun hbefore => by rw [hq] at hbefore; cases hbefore
  · cases q with
    | acquire | release => cases hq
    | of call =>
      cases answer with
      | ok _ => rfl
      | error _ => exact if_neg (by rw [show call.beforeTry = false from hq]; decide)

/-- A program is over: it is not going to release a slot. -/
def Ended {ε α : Type} (_ : Except ε α) (grip : Grip) : Prop := ∀ key, grip ≠ .held key

theorem ended_free {ε α : Type} (r : Except ε α) : Ended r .free := fun _ h => nomatch h

/-- Past a step that has nothing to do with slots. -/
theorem bind_plain {ε α β : Type} {x : Dialogue Question Question.Reply ε α}
    {f : α → Dialogue Question Question.Reply ε β} (hx : x.Asks Question.Plain)
    (hf : ∀ a, Obeys monitor .free (f a) Ended) : Obeys monitor .free (x >>= f) Ended := by
  refine .bind (of_plain hx fun r => ?_)
  rcases r with e | a
  · exact ended_free _
  · exact hf a

/-- Before the `try` a program returns with the slot and raises without hope of releasing it. -/
def AtRisk (key : String) {ε α : Type} : Except ε α → Grip → Prop
  | .ok _, grip => grip = .held key
  | .error _, grip => grip = .lost key

theorem atRisk_ask {l : Locals} {call : Call} {key : String} (h : call.beforeTry = true) :
    Obeys monitor (.held key) (l.ask call) (AtRisk key) := by
  refine ⟨fun _ => ⟨key, rfl⟩, fun reply _ => ?_⟩
  cases reply with
  | ok a => rfl
  | error f => exact if_pos h

/-- Past a step before the `try`. -/
theorem bind_atRisk {ε α β : Type} {x : Dialogue Question Question.Reply ε α}
    {f : α → Dialogue Question Question.Reply ε β} {key : String} {Q : Except ε β → Grip → Prop}
    (hx : Obeys monitor (.held key) x (AtRisk key))
    (hf : ∀ a, Obeys monitor (.held key) (f a) Q) (herror : ∀ e, Q (.error e) (.lost key)) :
    Obeys monitor (.held key) (x >>= f) Q := by
  refine .bind (hx.mono fun r grip hgrip => ?_)
  rcases r with e | a
  · obtain rfl : grip = .lost key := hgrip
    exact herror e
  · obtain rfl : grip = .held key := hgrip
    exact hf a

end Grip

namespace Invocation

variable {i : Invocation} {l : Locals}

/-- From the acquired slot on: it is free where the adapter ran, and lost where it did not. -/
theorem grip_withSlot : Obeys Grip.monitor (.held i.concurrencyKey) (i.withSlot l) fun r grip =>
    grip = .free ∨ (∃ t, r = .error t) ∧ grip = .lost i.concurrencyKey := by
  unfold withSlot
  have hlost : ∀ {α : Type} (t : Thrown), Grip.lost i.concurrencyKey = .free ∨
      (∃ t', (.error t : Except Thrown α) = .error t') ∧
        Grip.lost i.concurrencyKey = .lost i.concurrencyKey := fun t => .inr ⟨⟨t, rfl⟩, rfl⟩
  refine Grip.bind_atRisk (.onlyIf (fun _ => Grip.atRisk_ask rfl) fun _ => rfl) (fun _ => ?_) hlost
  refine Grip.bind_atRisk (.onlyIf (fun _ => Grip.atRisk_ask rfl) fun _ => rfl) (fun _ => ?_) hlost
  refine Grip.bind_atRisk (Grip.atRisk_ask rfl) (fun _ => ?_) hlost
  -- inside the `try` nothing costs the slot, and the `finally` releases it
  refine .finally_ (Grip.of_plain (asks_runAdapter rfl rfl rfl rfl) fun r => ?_)
  exact ⟨rfl, fun _ _ => .inl rfl⟩

theorem grip_dispatch : Obeys Grip.monitor .free (i.dispatch l) Grip.Ended := by
  unfold dispatch
  refine Grip.bind_plain (asks_ask rfl) fun _ => Grip.bind_plain (asks_ask rfl) fun _ => ?_
  refine Grip.bind_plain (.onlyIf trivial) fun _ => Grip.bind_plain (asks_ask rfl) fun _ => ?_
  refine Grip.bind_plain (.onlyIf (asks_refuse _ _)) fun _ => .bind ⟨rfl, fun acquired _ => ?_⟩
  cases acquired with
  | false => exact fun _ h => nomatch h
  | true =>
    refine .bind (grip_withSlot.mono ?_)
    rintro (t | ⟨l, result⟩) grip (rfl | ⟨⟨t', ht⟩, rfl⟩)
    · exact fun _ h => nomatch h
    · exact fun _ h => nomatch h
    · exact Grip.of_plain (asks_settle rfl (fun _ _ => rfl) fun _ _ => rfl) Grip.ended_free
    · cases ht

theorem grip_attempt : Obeys Grip.monitor .free i.attempt Grip.Ended := by
  unfold attempt
  refine Grip.bind_plain (asks_authorize (fun _ => rfl) rfl) fun _ => ?_
  dsimp only
  split
  · refine Grip.bind_plain (asks_ask rfl) fun _ => Grip.bind_plain (asks_ask rfl) fun replayed => ?_
    cases replayed with
    | none => exact grip_dispatch
    | some replayed => exact Grip.bind_plain (asks_ask rfl) fun _ => fun _ h => nomatch h
  · exact grip_dispatch

/-- **An invocation ends with its slot released or lost.** -/
theorem grip_invoke : Obeys Grip.monitor .free i.invoke Grip.Ended := by
  refine .handle (grip_attempt.mono fun r grip hgrip => ?_)
  cases r with
  | ok _ => exact hgrip
  | error t => exact Grip.of_plain (asks_handler (fun _ _ => rfl) fun _ _ => rfl) fun _ => hgrip

end Invocation

/-! ## Runs of the gateway -/

/-- What a step of one invocation makes of its grip and of the controller. -/
inductive Grip.Moves (c : ConcurrencyController) : Grip → ConcurrencyController → Grip → Prop
  | stay {grip : Grip} : Moves c grip c grip
  | acquire {key : String} {limit : Nat} {c' : ConcurrencyController}
      (h : c.acquire key limit = (true, c')) : Moves c .free c' (.held key)
  | release {key : String} : Moves c (.held key) (c.release key) .free
  | lose {key : String} : Moves c (.held key) c (.lost key)

/-- The invocation stands with its slot as the grip says. -/
structure Running.Gripped (r : Running) (grip : Grip) : Prop where
  slot : r.slot = grip.slot
  obeys : Obeys Grip.monitor grip r.program Grip.Ended

/-- The grip is one that was lost. -/
def Grip.IsLost (grip : Grip) : Prop := ∃ key, grip = .lost key

/-- **A step of an invocation** moves its grip, and loses it when it is not answered. -/
theorem Running.Gripped.advance {r : Running} {grip : Grip} (h : r.Gripped grip)
    (c : ConcurrencyController) (answers : (call : Call) → Except Failure call.Answer) :
    ∃ grip', (r.advance c answers).1.Gripped grip' ∧
      Grip.Moves c grip (r.advance c answers).2 grip' ∧
      (grip'.IsLost ↔ grip.IsLost ∨ ¬ r.Answered answers) := by
  obtain ⟨program, slot⟩ := r
  obtain ⟨rfl, hobeys⟩ := h
  have hplain : ∀ {q : Question} {next}, program = .ask q next → (∀ call, q = .of call →
      call.beforeTry = false) → Running.Answered ⟨program, grip.slot⟩ answers := by
    rintro q next rfl hq call next' heq hbefore
    cases heq
    rw [hq call rfl] at hbefore
    cases hbefore
  cases program with
  | ended result =>
    refine ⟨grip, ⟨rfl, hobeys⟩, .stay, (or_iff_left (not_not_intro ?_)).symm⟩
    intro call next heq
    cases heq
  | ask q next =>
    cases q with
    | acquire key limit =>
      obtain ⟨hfree, hnext⟩ := hobeys
      obtain rfl : grip = .free := hfree
      have hanswered := (not_not_intro (hplain rfl fun call h => nomatch h))
      rcases hacquire : c.acquire key limit with ⟨_ | _, c'⟩
      all_goals simp only [Running.advance, hacquire]
      · obtain rfl : c' = c := by
          unfold ConcurrencyController.acquire at hacquire
          split at hacquire
          · exact (Prod.mk.inj hacquire).2.symm
          · cases hacquire
        exact ⟨.free, ⟨rfl, hnext false trivial⟩, .stay, (or_iff_left hanswered).symm⟩
      · refine ⟨.held key, ⟨rfl, hnext true trivial⟩, .acquire hacquire, ?_⟩
        rw [or_iff_left hanswered]
        exact iff_of_false (fun ⟨_, h⟩ => nomatch h) fun ⟨_, h⟩ => nomatch h
    | release key =>
      obtain ⟨hheld, hnext⟩ := hobeys
      obtain rfl : grip = .held key := hheld
      refine ⟨.free, ⟨rfl, hnext () trivial⟩, .release, ?_⟩
      rw [or_iff_left (not_not_intro (hplain rfl fun call h => nomatch h))]
      exact iff_of_false (fun ⟨_, h⟩ => nomatch h) fun ⟨_, h⟩ => nomatch h
    | of call =>
      obtain ⟨hbefore, hnext⟩ := hobeys
      have hnext := hnext (answers call) trivial
      by_cases hlose : call.beforeTry = true ∧ ∃ f, answers call = .error f
      · obtain ⟨hcall, f, hf⟩ := hlose
        obtain ⟨key, hkey⟩ := hbefore hcall
        obtain rfl : grip = .held key := hkey
        refine ⟨.lost key, ⟨rfl, ?_⟩, .lose, iff_of_true ⟨key, rfl⟩ (.inr fun h => ?_)⟩
        · have hafter : Grip.monitor.next (.held key) (.of call) (answers call) = .lost key := by
            change Grip.after _ call (answers call) = _
            rw [hf]
            exact if_pos hcall
          rwa [hafter] at hnext
        · obtain ⟨a, ha⟩ := h call next rfl hcall
          rw [hf] at ha
          cases ha
      · have hafter : Grip.monitor.next grip (.of call) (answers call) = grip := by
          change Grip.after _ call (answers call) = _
          cases hanswer : answers call with
          | ok a => rfl
          | error f => exact if_neg fun hcall => hlose ⟨hcall, f, hanswer⟩
        rw [hafter] at hnext
        refine ⟨grip, ⟨rfl, hnext⟩, .stay, (or_iff_left (not_not_intro ?_)).symm⟩
        intro call' next' heq hcall
        cases heq
        cases hanswer : answers call with
        | ok a => exact ⟨a, rfl⟩
        | error f => exact absurd ⟨hcall, f, hanswer⟩ hlose

/-! ### What holds of the gateway -/

/-- The invocations stand as the grips say, and the controller counts the slots they have. -/
structure Gateway.Gripped (g : Gateway) (grips : List (Running × Grip)) : Prop where
  invocations : g.invocations = grips.map Prod.fst
  gripped : ∀ p ∈ grips, p.1.Gripped p.2
  counted : ∀ key, g.concurrency.active key = grips.countP (·.2.slot = some key)

/-- Some invocation lost its slot. -/
def AnyLost (grips : List (Running × Grip)) : Prop := ∃ p ∈ grips, p.2.IsLost

/-- A move keeps the count of slots. -/
theorem Grip.Moves.counted {c c' : ConcurrencyController} {grip grip' : Grip}
    (h : Grip.Moves c grip c' grip') {others : String → Nat}
    (hcount : ∀ key, c.active key = others key + if grip.slot = some key then 1 else 0)
    (key : String) : c'.active key = others key + if grip'.slot = some key then 1 else 0 := by
  have hkey := hcount key
  cases h with
  | stay => exact hkey
  | lose => exact hkey
  | @acquire key' limit _ hacquire =>
    rw [ConcurrencyController.active_acquire hacquire]
    by_cases h : key = key'
    · simp [h, Grip.slot] at hkey ⊢
      exact hkey
    · simp [h, Ne.symm h, Grip.slot] at hkey ⊢
      exact hkey
  | @release key' =>
    rw [ConcurrencyController.active_release]
    by_cases h : key = key'
    · simp [h, Grip.slot] at hkey ⊢
      omega
    · simp [h, Ne.symm h, Grip.slot] at hkey ⊢
      exact hkey

namespace Gateway.Gripped

variable {g : Gateway} {grips : List (Running × Grip)}

/-- One invocation moves: the controller counts the slots as before. -/
theorem replace {before after : List (Running × Grip)} {r r' : Running} {grip grip' : Grip}
    {c : ConcurrencyController} (h : g.Gripped (before ++ (r, grip) :: after))
    (hgripped : r'.Gripped grip') (hmoves : Grip.Moves g.concurrency grip c grip') :
    Gateway.Gripped ⟨c, (before ++ (r', grip') :: after).map Prod.fst⟩
      (before ++ (r', grip') :: after) := by
  refine ⟨rfl, fun p hp => ?_, fun key => ?_⟩
  · rcases mem_append.mp hp with hp | hp
    · exact h.gripped p (mem_append_left _ hp)
    · rcases mem_cons.mp hp with rfl | hp
      · exact hgripped
      · exact h.gripped p (mem_append_right _ (mem_cons_of_mem _ hp))
  · have hcount : ∀ key, g.concurrency.active key = (before.countP (·.2.slot = some key) +
        after.countP (·.2.slot = some key)) + if grip.slot = some key then 1 else 0 := by
      intro key
      rw [h.counted key, countP_append, countP_cons]
      simp only [decide_eq_true_eq]
      omega
    rw [hmoves.counted hcount, countP_append, countP_cons]
    simp only [decide_eq_true_eq]
    omega

/-- **A step keeps the count**, and a slot is lost exactly where it is not answered. -/
theorem step (h : g.Gripped grips) (op : GatewayOp) : ∃ grips', (g.step op).Gripped grips' ∧
    (AnyLost grips' ↔ AnyLost grips ∨ ¬ g.Answered op) := by
  cases op with
  | invoke i =>
    refine ⟨grips ++ [(⟨i.invoke, none⟩, .free)], ⟨?_, ?_, ?_⟩, ?_⟩
    · simp [Gateway.step, h.invocations]
    · intro p hp
      rcases mem_append.mp hp with hp | hp
      · exact h.gripped p hp
      · obtain rfl := mem_singleton.mp hp
        exact ⟨rfl, Invocation.grip_invoke⟩
    · intro key
      simp [Gateway.step, h.counted key, Grip.slot]
    · rw [or_iff_left (not_not_intro (show g.Answered (.invoke i) from trivial))]
      simp [AnyLost, Grip.IsLost]
  | advance n answers =>
    by_cases hn : n < grips.length
    swap
    · have hnone : g.invocations[n]? = none := by
        rw [h.invocations, List.getElem?_eq_none_iff, length_map]
        omega
      refine ⟨grips, ?_, (or_iff_left (not_not_intro ?_)).symm⟩
      · simpa only [Gateway.step, hnone] using h
      · intro r hr
        rw [hnone] at hr
        cases hr
    have hr : g.invocations[n]? = some grips[n].1 := by
      rw [h.invocations, List.getElem?_map, List.getElem?_eq_getElem hn, Option.map_some]
    obtain ⟨before, after, hgrips, hlength, -⟩ := @exists_of_set _ n grips[n] grips hn
    obtain ⟨⟨r, grip⟩, hp⟩ : ∃ p, grips[n] = p := ⟨_, rfl⟩
    rw [hp] at hr hgrips
    rw [hgrips] at h ⊢
    obtain ⟨grip', hgripped, hmoves, hlost⟩ :=
      (h.gripped (r, grip) (by simp)).advance g.concurrency answers
    refine ⟨before ++ ((r.advance g.concurrency answers).1, grip') :: after, ?_, ?_⟩
    · have hstep : g.step (.advance n answers) = ⟨(r.advance g.concurrency answers).2,
          (before ++ ((r.advance g.concurrency answers).1, grip') :: after).map Prod.fst⟩ := by
        simp only [Gateway.step, hr]
        rw [h.invocations, map_append, map_cons,
          set_append_right (h := by simp [hlength]), length_map, hlength, Nat.sub_self,
          set_cons_zero, map_append, map_cons]
      rw [hstep]
      exact h.replace hgripped hmoves
    · have hanswered : g.Answered (.advance n answers) ↔ r.Answered answers := by
        simp [Gateway.Answered, hr]
      simp only [AnyLost, mem_append, mem_cons, or_and_right, exists_or, exists_eq_left,
        hlost, hanswered]
      simp only [or_assoc, or_comm, or_left_comm]

/-- **A run keeps the count**, and a slot is lost exactly where some step is not answered. -/
theorem run (h : g.Gripped grips) (ops : List GatewayOp) :
    ∃ grips', (run Gateway.step g ops).Gripped grips' ∧
      (AnyLost grips' ↔ AnyLost grips ∨ ¬ Along Gateway.step Gateway.Answered g ops) := by
  induction ops generalizing g grips with
  | nil => exact ⟨grips, h, by simp [Along]⟩
  | cons op ops ih =>
    obtain ⟨grips₁, h₁, hlost₁⟩ := h.step op
    obtain ⟨grips', h', hlost'⟩ := ih h₁
    refine ⟨grips', h', ?_⟩
    rw [hlost', hlost₁, Along, not_and_or, or_assoc]

/-- Where no slot is lost, the slots are kept. -/
theorem slotsKept (h : g.Gripped grips) (hlost : ¬ AnyLost grips) : g.SlotsKept := by
  intro key
  rw [h.counted key, h.invocations, countP_map]
  refine countP_congr fun p hp => ?_
  obtain ⟨hslot, hobeys⟩ := h.gripped p hp
  simp only [Function.comp_apply, Bool.and_eq_true, decide_eq_true_eq, hslot, iff_and_self]
  intro hkey
  cases hprogram : p.1.program with
  | ask q next => simp [Running.isOver, hprogram]
  | ended result =>
    rw [hprogram] at hobeys
    rcases hgrip : p.2 with _ | key' | key' <;> rw [hgrip] at hkey hobeys
    · cases hkey
    · exact absurd rfl (hobeys key')
    · exact absurd ⟨p, hp, key', hgrip⟩ hlost

/-- When all invocations are over, the slots are free unless one was lost. -/
theorem free_iff (h : g.Gripped grips) (hquiet : g.Quiet) :
    (∀ key, g.concurrency.active key = 0) ↔ ¬ AnyLost grips := by
  constructor
  · rintro hfree ⟨p, hp, key, hgrip⟩
    have hzero := hfree key
    rw [h.counted key, countP_eq_zero] at hzero
    exact hzero p hp (by simp [hgrip, Grip.slot])
  · intro hlost key
    rw [h.slotsKept hlost key, countP_eq_zero]
    intro r hr
    simp [hquiet r hr]

end Gateway.Gripped

/-- **No slot leaks but before the `try`.**  In a run none of whose steps answers a question before
a `try` with an exception, the slots of a key are at any moment those of the invocations between
their acquire and their release; and when all invocations are over, no slot is held if and only if
the run was such a one. -/
theorem slots_free_iff (ops : List GatewayOp) :
    (Along Gateway.step Gateway.Answered {} ops →
      (run Gateway.step {} ops).SlotsKept) ∧
    ((run Gateway.step {} ops).Quiet →
      ((∀ key, (run Gateway.step {} ops).concurrency.active key = 0) ↔
        Along Gateway.step Gateway.Answered {} ops)) := by
  have hstart : Gateway.Gripped {} [] := ⟨rfl, by simp, by simp [ConcurrencyController.active]⟩
  obtain ⟨grips, h, hlost⟩ := hstart.run ops
  have hlost : ¬ AnyLost grips ↔ Along Gateway.step Gateway.Answered {} ops := by
    rw [hlost, or_iff_right (by simp [AnyLost]), not_not]
  exact ⟨fun halong => h.slotsKept (hlost.mpr halong),
    fun hquiet => (h.free_iff hquiet).trans hlost⟩

/-! ### A push with one slot -/

/-- One push, and then as many questions as it asks. -/
def pushRun (audited : AuditPoint → Except Failure Unit) : List GatewayOp :=
  .invoke pushInvocation ::
    List.replicate 20 (.advance 0 (pushAnswers audited (.error (.raised .osError))))

/-- A push that is audited leaves no slot behind. -/
theorem slots_free_of_audited :
    (run Gateway.step {} (pushRun fun _ => .ok ())).concurrency.active
      "repository:git.push" = 0 := by
  refine ((slots_free_iff (pushRun fun _ => .ok ())).2 (by unfold Gateway.Quiet; decide)).mpr ?_ _
  refine Along.of_forall (fun op hop g => ?_) _
  rcases mem_cons.mp hop with rfl | hop
  · trivial
  · obtain rfl := eq_of_mem_replicate hop
    rintro r - call next - hbefore
    cases call <;> first | exact ⟨_, rfl⟩ | cases hbefore

/-- **An event that is not recorded costs a slot**: the push whose start is not audited has failed,
and its slot is taken for ever. -/
theorem slot_leaks : ∃ ops, (run Gateway.step {} ops).Quiet ∧
    ¬ (run Gateway.step {} ops).SlotsKept ∧
    (run Gateway.step {} ops).concurrency.active "repository:git.push" = 1 := by
  have hactive : (run Gateway.step {} (pushRun fun point =>
      if point = .started then .error (.raised .osError) else .ok ())).concurrency.active
        "repository:git.push" = 1 := by decide
  have hquiet : (run Gateway.step {} (pushRun fun point =>
      if point = .started then .error (.raised .osError) else .ok ())).Quiet := by
    unfold Gateway.Quiet
    decide
  refine ⟨_, hquiet, fun hkept => ?_, hactive⟩
  rw [hkept, countP_eq_length_filter, length_eq_one_iff] at hactive
  obtain ⟨r, hr⟩ := hactive
  have hmem := mem_filter.mp (hr ▸ mem_singleton_self r)
  simp [hquiet r hmem.1] at hmem

end Mishkan
