import Mishkan.Workers.CustodyEffects

/-!
# Workers/LeaseBounds — how long a lease lasts, how many there are, and what comes too late

`Bounded` is the invariant, relative to the latest clock that has been read: it ties the leases to
the deadlines of their envelopes and the completions to the expiry of their leases.  A change of
custody at a later clock keeps it (`Bounded.move`); `lease_bounds` reads it off after any run whose
clock does not go back.
-/

namespace Mishkan

open Refusal Transition

variable {bounds : WorkerBounds} {now : Instant} {G : Prop} {k k' : Custody}

/-- A completion that waits for acceptance or has it. -/
def WorkerCompletionState.isHeld : WorkerCompletionState → Bool
  | .delivered | .accepted => true
  | _ => false

/-- **The bounds of leases**, as a store shows them. -/
structure LeaseBounds (bounds : WorkerBounds) (s : Store) : Prop where
  /-- A lease is renewed after it was issued, and expires by the deadline of its envelope. -/
  lasting : ∀ l ∈ s.leases, l.issuedAt ≤ l.lastRenewedAt ∧
    ∃ e ∈ s.envelopes, e.id = l.envelopeId ∧ l.expiresAt ≤ e.deadline
  /-- No worker has more active leases than are configured. -/
  capacity : ∀ workerId, s.activeLeaseCount workerId ≤ bounds.maxWorkerConcurrency
  /-- A completion that is delivered or accepted came before its lease expired. -/
  inTime : ∀ c ∈ s.completions, c.state.isHeld →
    ∃ l ∈ s.leases, l.id = c.leaseId ∧ c.receivedAt < l.expiresAt

/-- What time does to the leases: each stays, its revision grows, and once it is not active it is
never changed again. -/
def LeasesGrow (leases leases' : Table WorkerLeaseRow) : Prop :=
  ∀ l ∈ leases, ∃ l' ∈ leases', l'.id = l.id ∧ l.revision ≤ l'.revision
    ∧ (l.state ≠ .active → l' = l)

/-! ## The invariant -/

/-- The bounds of custody, at the latest clock that has been read. -/
structure Bounded (bounds : WorkerBounds) (now : Instant) (k : Custody) : Prop where
  timed : ∀ l ∈ k.leases, l.issuedAt ≤ l.lastRenewedAt ∧ l.lastRenewedAt ≤ now
  within : ∀ l ∈ k.leases, ∃ e ∈ k.envelopes, e.id = l.envelopeId ∧ l.expiresAt ≤ e.deadline
  capacity : ∀ workerId, k.activeCount workerId ≤ bounds.maxWorkerConcurrency
  /-- The lease of a held completion has ended, so its expiry does not move. -/
  inTime : ∀ c ∈ k.completions, c.state.isHeld →
    ∃ l ∈ k.leases, l.id = c.leaseId ∧ l.state ≠ .active ∧ c.receivedAt < l.expiresAt

theorem bounded_empty (now : Instant) : Bounded bounds now Store.empty.custody where
  timed _ hl := absurd hl Table.not_mem_empty
  within _ hl := absurd hl Table.not_mem_empty
  capacity _ := Nat.zero_le _
  inTime _ hc := absurd hc Table.not_mem_empty

theorem Bounded.mono {later : Instant} (h : Bounded bounds now k) (hle : now ≤ later) :
    Bounded bounds later k where
  timed l hl := ⟨(h.timed l hl).1, (h.timed l hl).2.trans hle⟩
  within := h.within
  capacity := h.capacity
  inTime := h.inTime

theorem Bounded.timed_move (h : Bounded bounds now k) (hmove : CustodyMove bounds now G k k') :
    ∀ l ∈ k'.leases, l.issuedAt ≤ l.lastRenewedAt ∧ l.lastRenewedAt ≤ now := by
  intro l' hl'
  obtain ⟨l, hl, hstep⟩ | ⟨_, _, _, _, rfl, -⟩ := hmove.lease_backward hl'
  · obtain ⟨hissued, hrenewed⟩ := h.timed l hl
    cases hstep with
    | same | completed | expired => exact ⟨hissued, hrenewed⟩
    | renewed => exact ⟨hissued.trans hrenewed, le_rfl⟩
  · exact ⟨le_rfl, le_rfl⟩

theorem Bounded.within_move (h : Bounded bounds now k) (hmove : CustodyMove bounds now G k k') :
    ∀ l ∈ k'.leases, ∃ e ∈ k'.envelopes, e.id = l.envelopeId ∧ l.expiresAt ≤ e.deadline := by
  intro l' hl'
  obtain ⟨l, hl, hstep⟩ | ⟨envelope, _, _, _, rfl, he⟩ := hmove.lease_backward hl'
  · have hkept : ∀ {e : RemoteTaskEnvelopeRow}, e ∈ k.envelopes → e.id = l'.envelopeId →
        l'.expiresAt ≤ e.deadline →
        ∃ e' ∈ k'.envelopes, e'.id = l'.envelopeId ∧ l'.expiresAt ≤ e'.deadline := by
      intro e he hid hdeadline
      obtain ⟨state, he'⟩ := hmove.envelope_forward he
      exact ⟨_, he', hid, hdeadline⟩
    obtain ⟨e, he, hid, hdeadline⟩ := h.within l hl
    cases hstep with
    | same | completed | expired => exact hkept he hid hdeadline
    | renewed _ _ he' hle => exact hkept he' hle.symm (min_le_left _ _)
  · exact ⟨_, he, rfl, min_le_left _ _⟩

/-- A step does not make a lease of a worker active. -/
theorem LeaseStep.active {l l' : WorkerLeaseRow} (h : LeaseStep bounds now k k' l l')
    {workerId : Uuid}
    (hactive : l'.workerId = workerId ∧ l'.state = .active) :
    l.workerId = workerId ∧ l.state = .active := by
  cases h with
  | same | renewed => exact hactive
  | completed | expired => simp at hactive

theorem Bounded.capacity_move (h : Bounded bounds now k) (hmove : CustodyMove bounds now G k k')
    (workerId : Uuid) : k'.activeCount workerId ≤ bounds.maxWorkerConcurrency := by
  obtain ⟨g, hrows, hg⟩ | ⟨envelope, _, _, _, hinsert, -, hspare⟩ := hmove.leases
  · refine (Table.length_select_le_of_map hrows fun l hl hactive => ?_).trans (h.capacity workerId)
    rw [decide_eq_true_eq] at hactive ⊢
    exact (hg l hl).active hactive
  · by_cases hworker : envelope.workerId = workerId
    · subst hworker
      unfold Custody.activeCount at hspare ⊢
      rw [Table.select_insert hinsert, List.length_append]
      split
      · exact hspare
      · exact hspare.le
    · rw [Custody.activeCount, Table.select_insert_of_not hinsert]
      · exact h.capacity workerId
      · simp [Store.leaseRow, hworker]

theorem Bounded.inTime_move (h : Bounded bounds now k) (hmove : CustodyMove bounds now G k k') :
    ∀ c ∈ k'.completions, c.state.isHeld →
      ∃ l ∈ k'.leases, l.id = c.leaseId ∧ l.state ≠ .active ∧ c.receivedAt < l.expiresAt := by
  intro c' hc' hheld
  have hheld' : c'.state = .delivered ∨ c'.state = .accepted := by
    unfold WorkerCompletionState.isHeld at hheld
    grind
  obtain ⟨c, hc, hstep⟩ | ⟨-, hnew⟩ := hmove.completion_backward hc'
  · -- a held completion was held before, and its lease has ended
    have hbefore : c.state.isHeld = true := by
      unfold WorkerCompletionState.isHeld
      grind [hstep.held hheld']
    obtain ⟨l, hl, hid, hended, hlive⟩ := h.inTime c hc hbefore
    obtain ⟨l', hl', hlstep⟩ := hmove.lease_forward hl
    obtain rfl := hlstep.identity.2.2.2.2 hended
    obtain ⟨-, -, hlease, hreceived⟩ := hstep.identity
    exact ⟨l', hl', hid.trans hlease.symm, hended, hreceived ▸ hlive⟩
  · obtain hdup | ⟨-, ⟨hstale, -⟩ | ⟨-, -, l, hl, hid, -, hcompleted, hlive⟩⟩ := hnew
    · simp [hdup] at hheld'
    · simp [hstale] at hheld'
    · exact ⟨l, hl, hid, by simp [hcompleted], hlive⟩

/-- **Every change of custody keeps the bounds.** -/
theorem Bounded.move (h : Bounded bounds now k) (hmove : CustodyMove bounds now G k k') :
    Bounded bounds now k' where
  timed := h.timed_move hmove
  within := h.within_move hmove
  capacity := h.capacity_move hmove
  inTime := h.inTime_move hmove

/-! ## Runs -/

/-- The clocks a run reads do not go back. -/
def ClockMonotone (ops : List Op) : Prop := (ops.filterMap Op.clock).Pairwise (· ≤ ·)

instance (ops : List Op) : Decidable (ClockMonotone ops) :=
  inferInstanceAs (Decidable (List.Pairwise _ _))

/-- One transaction, at a clock that is not before those that were read. -/
theorem Bounded.step {deployment : Deployment} {s : Store} {op : Op}
    (h : Bounded deployment.bounds now s.custody) (hclock : ∀ t ∈ op.clock, now ≤ t) :
    Bounded deployment.bounds (op.clock.getD now) (step deployment s op).custody := by
  have hlater : Bounded deployment.bounds (op.clock.getD now) s.custody := by
    refine h.mono ?_
    cases hop : op.clock with
    | none => exact le_rfl
    | some t => exact hclock t hop
  refine Chain.lift (fun _ _ hk hmove => hk.move hmove) (step_custody deployment s op ?_) hlater
  intro t ht
  rw [ht, Option.getD_some]

/-- A run whose clock does not go back keeps the bounds. -/
theorem Bounded.run {deployment : Deployment} {s : Store} {ops : List Op}
    (h : Bounded deployment.bounds now s.custody) (hclock : ClockMonotone ops)
    (hnow : ∀ t ∈ ops.filterMap Op.clock, now ≤ t) :
    ∃ later, Bounded deployment.bounds later (runFrom deployment s ops).custody := by
  induction ops generalizing s now with
  | nil => exact ⟨now, h⟩
  | cons op ops ih =>
    have hstep : Bounded deployment.bounds (op.clock.getD now)
        (Mishkan.step deployment s op).custody :=
      h.step fun t ht => hnow t (List.mem_filterMap.mpr ⟨op, by simp, ht⟩)
    unfold ClockMonotone at hclock ih
    cases hop : op.clock with
    | none =>
      rw [hop, Option.getD_none] at hstep
      rw [List.filterMap_cons_none hop] at hclock hnow
      exact ih hstep hclock hnow
    | some t =>
      rw [hop, Option.getD_some] at hstep
      rw [List.filterMap_cons_some hop, List.pairwise_cons] at hclock
      exact ih hstep hclock.2 hclock.1

theorem LeasesGrow.refl (leases : Table WorkerLeaseRow) : LeasesGrow leases leases :=
  fun l hl => ⟨l, hl, rfl, le_rfl, fun _ => rfl⟩

theorem LeasesGrow.trans {leases leases₁ leases' : Table WorkerLeaseRow}
    (h : LeasesGrow leases leases₁) (h' : LeasesGrow leases₁ leases') :
    LeasesGrow leases leases' := by
  intro l hl
  obtain ⟨l₁, hl₁, hid₁, hle₁, hsame₁⟩ := h l hl
  obtain ⟨l', hl', hid', hle', hsame'⟩ := h' l₁ hl₁
  refine ⟨l', hl', hid'.trans hid₁, hle₁.trans hle', fun hended => ?_⟩
  obtain rfl := hsame₁ hended
  exact hsame' hended

theorem CustodyMove.leases_grow (h : CustodyMove bounds now G k k') :
    LeasesGrow k.leases k'.leases := by
  intro l hl
  obtain ⟨l', hl', hstep⟩ := h.lease_forward hl
  obtain ⟨hid, -, -, hle, hsame⟩ := hstep.identity
  exact ⟨l', hl', hid, hle, hsame⟩

theorem leasesGrow_step (deployment : Deployment) (s : Store) (op : Op) :
    LeasesGrow s.leases (step deployment s op).leases := by
  have hchain : Chain (CustodyMove deployment.bounds (op.clock.getD 0) op.IsDelivery) s.custody _ :=
    step_custody deployment s op fun t ht => by rw [ht, Option.getD_some]
  exact Chain.rel (R := fun k k' => LeasesGrow k.leases k'.leases) (I := fun _ => True)
    (fun k => .refl k.leases) .trans (fun _ _ _ _ => trivial) (fun _ _ _ h => h.leases_grow)
    hchain trivial

/-- **Leases are bounded and grow**: after any run whose clock does not go back, every lease was
renewed no earlier than it was issued and expires by the deadline of its envelope, no worker has
more active leases than are configured, and what is delivered or accepted came before its lease
expired; and whatever runs on, each lease stays, its revision does not decrease, and once it has
left the active state it is not changed again. -/
theorem lease_bounds (deployment : Deployment) (ops : List Op) (hclock : ClockMonotone ops) :
    LeaseBounds deployment.bounds (runFrom deployment .empty ops) ∧
      ∀ later, LeasesGrow (runFrom deployment .empty ops).leases
        (runFrom deployment (runFrom deployment .empty ops) later).leases := by
  constructor
  · obtain ⟨now, h⟩ := (bounded_empty 0).run hclock fun t _ => Nat.zero_le t
    exact {
      lasting := fun l hl => ⟨(h.timed l hl).1, h.within l hl⟩
      capacity := h.capacity
      inTime := fun c hc hheld => by
        obtain ⟨l, hl, hid, -, hlive⟩ := h.inTime c hc hheld
        exact ⟨l, hl, hid, hlive⟩ }
  · intro later
    exact run_rel (R := fun s s' => LeasesGrow s.leases s'.leases) (I := fun _ => True)
      (fun s => .refl s.leases) .trans (fun _ _ _ => trivial)
      (fun s op _ => leasesGrow_step deployment s op) trivial later

/-- The bounds hold of a run with a lease and its renewal. -/
theorem lease_bounds_of_renewal :
    LeaseBounds sampleDeployment.bounds (runFrom sampleDeployment .empty (sampleStart ++
      [.issueLease (sampleEnvelope 20 1 false) 30 sampleToken 0,
        .renewLease 7 30 sampleToken 1 (30 * second)])) ∧
      ∀ later, LeasesGrow (runFrom sampleDeployment .empty (sampleStart ++
          [.issueLease (sampleEnvelope 20 1 false) 30 sampleToken 0,
            .renewLease 7 30 sampleToken 1 (30 * second)])).leases
        (runFrom sampleDeployment (runFrom sampleDeployment .empty (sampleStart ++
          [.issueLease (sampleEnvelope 20 1 false) 30 sampleToken 0,
            .renewLease 7 30 sampleToken 1 (30 * second)])) later).leases :=
  lease_bounds sampleDeployment _ (by decide)

end Mishkan
