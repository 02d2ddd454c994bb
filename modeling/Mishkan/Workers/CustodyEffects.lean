import Mishkan.Workers.Custody

/-!
# Workers/CustodyEffects — what a change of custody does to one row

`LeaseStep` and `CompletionStep` say everything that can happen to a lease and to a completion that
are there; a new row comes from the one change that inserts it.  The invariants of remote work are
proved from these, row by row.
-/

namespace Mishkan

open Refusal Transition Table

variable {bounds : WorkerBounds} {now : Instant} {G : Prop} {k k' : Custody}

/-! ## Leases -/

/-- What a change does to one lease.  It completes with the first submission of its envelope. -/
inductive LeaseStep (bounds : WorkerBounds) (now : Instant) (k k' : Custody) (l : WorkerLeaseRow) :
    WorkerLeaseRow → Prop
  | same : LeaseStep bounds now k k' l l
  | renewed (hactive : l.state = .active) (hlive : now < l.expiresAt) {e : RemoteTaskEnvelopeRow}
      (he : e ∈ k.envelopes) (hle : l.envelopeId = e.id) :
      LeaseStep bounds now k k' l { l with
        revision := l.revision + 1, expiresAt := min e.deadline (now + bounds.leaseSpan),
        lastRenewedAt := now }
  | completed (hactive : l.state = .active)
      (hfirst : ∀ c ∈ k.completions, c.envelopeId ≠ l.envelopeId)
      (hnew : ∃ c ∈ k'.completions, c.envelopeId = l.envelopeId) :
      LeaseStep bounds now k k' l { l with state := .completed, completedAt := some now }
  | expired (hactive : l.state = .active) :
      LeaseStep bounds now k k' l { l with state := .expired, revision := l.revision + 1 }

/-- The leases are rewritten row by row. -/
def LeasesRewritten (bounds : WorkerBounds) (now : Instant) (k k' : Custody) : Prop :=
  ∃ g : WorkerLeaseRow → WorkerLeaseRow, k'.leases.rows = k.leases.rows.map g ∧
    ∀ l ∈ k.leases, LeaseStep bounds now k k' l (g l)

/-- A lease is appended with its envelope, to a worker with spare capacity. -/
def LeaseIssued (bounds : WorkerBounds) (now : Instant) (k k' : Custody) : Prop :=
  ∃ envelope id claimId token,
    k.leases.insert (Store.leaseRow bounds envelope id claimId token now) = some k'.leases ∧
    Store.leasedRow envelope ∈ k'.envelopes ∧
    k.activeCount envelope.workerId < bounds.maxWorkerConcurrency

theorem LeasesRewritten.of_eq (h : k'.leases = k.leases) : LeasesRewritten bounds now k k' :=
  ⟨id, by simp [h], fun _ _ => .same⟩

/-- An update of one lease. -/
theorem LeasesRewritten.updateOne {l : WorkerLeaseRow} (hl : l ∈ k.leases)
    {f : WorkerLeaseRow → WorkerLeaseRow}
    (h : k'.leases.rows = k.leases.rows.map fun r => if decide (r.id = l.id) then f r else r)
    (hstep : LeaseStep bounds now k k' l (f l)) : LeasesRewritten bounds now k k' := by
  refine ⟨_, h, fun r hr => ?_⟩
  split
  · rename_i hid
    rw [decide_eq_true_eq] at hid
    rwa [eq_of_clash hr hl (by simp [Keyed.clash, Keyed.key, hid])]
  · exact .same

/-- **What a change does to the leases.** -/
theorem CustodyMove.leases (h : CustodyMove bounds now G k k') :
    LeasesRewritten bounds now k k' ∨ LeaseIssued bounds now k k' := by
  cases h with
  | leased hspare henvelopes hleases =>
    exact .inr ⟨_, _, _, _, hleases, (mem_of_insert henvelopes).mpr (.inr rfl), hspare⟩
  | renewed hl hactive hlive he hle =>
    exact .inl (.updateOne hl rfl (.renewed hactive hlive he hle))
  | @delivered _ c _ hinsert _ _ hfirst l hl _ hle hactive _ =>
    refine .inl (.updateOne hl rfl (.completed hactive (hle ▸ hfirst) ⟨c, ?_, hle⟩))
    exact (mem_of_insert hinsert).mpr (.inr rfl)
  | expired hl hactive => exact .inl (.updateOne hl rfl (.expired hactive))
  | envelopeMoved | refused | accepted | duplicated => exact .inl (.of_eq rfl)

/-- A lease that was there is still there, one step on. -/
theorem CustodyMove.lease_forward (h : CustodyMove bounds now G k k') {l : WorkerLeaseRow}
    (hl : l ∈ k.leases) : ∃ l' ∈ k'.leases, LeaseStep bounds now k k' l l' := by
  obtain ⟨g, hrows, hg⟩ | ⟨_, _, _, _, hinsert, -⟩ := h.leases
  · exact ⟨g l, by rw [mem_def, hrows]; exact List.mem_map_of_mem hl, hg l hl⟩
  · exact ⟨l, (mem_of_insert hinsert).mpr (.inl hl), .same⟩

/-- A lease was there one step before, or it is the one that was issued. -/
theorem CustodyMove.lease_backward (h : CustodyMove bounds now G k k') {l' : WorkerLeaseRow}
    (hl' : l' ∈ k'.leases) : (∃ l ∈ k.leases, LeaseStep bounds now k k' l l') ∨
      ∃ envelope id claimId token, l' = Store.leaseRow bounds envelope id claimId token now ∧
        Store.leasedRow envelope ∈ k'.envelopes := by
  obtain ⟨g, hrows, hg⟩ | ⟨envelope, id, claimId, token, hinsert, henvelope, -⟩ := h.leases
  · rw [mem_def, hrows, List.mem_map] at hl'
    obtain ⟨l, hl, rfl⟩ := hl'
    exact .inl ⟨l, hl, hg l hl⟩
  · obtain hl | rfl := (mem_of_insert hinsert).mp hl'
    · exact .inl ⟨l', hl, .same⟩
    · exact .inr ⟨envelope, id, claimId, token, rfl, henvelope⟩

/-- A step keeps what a lease is on, its revision grows, and only an active lease changes. -/
theorem LeaseStep.identity {l l' : WorkerLeaseRow} (h : LeaseStep bounds now k k' l l') :
    l'.id = l.id ∧ l'.envelopeId = l.envelopeId ∧ l'.workerId = l.workerId
      ∧ l.revision ≤ l'.revision ∧ (l.state ≠ .active → l' = l) := by
  cases h with
  | same => exact ⟨rfl, rfl, rfl, le_rfl, fun _ => rfl⟩
  | renewed hactive | expired hactive =>
    exact ⟨rfl, rfl, rfl, Nat.le_succ _, fun hne => absurd hactive hne⟩
  | completed hactive _ _ => exact ⟨rfl, rfl, rfl, le_rfl, fun hne => absurd hactive hne⟩

/-! ## Envelopes -/

/-- An envelope stays, in whatever state. -/
theorem CustodyMove.envelope_forward (h : CustodyMove bounds now G k k')
    {e : RemoteTaskEnvelopeRow} (he : e ∈ k.envelopes) :
    ∃ state, { e with state := state } ∈ k'.envelopes := by
  cases h with
  | envelopeMoved id state =>
    simp only [Custody.moveEnvelope, mem_update]
    by_cases hid : e.id = id
    · exact ⟨state, e, he, by simp [hid]⟩
    · exact ⟨e.state, e, he, by simp [hid]⟩
  | leased _ henvelopes => exact ⟨e.state, (mem_of_insert henvelopes).mpr (.inl he)⟩
  | _ => exact ⟨e.state, he⟩

/-- An envelope was there in some state, or it is the one that was leased. -/
theorem CustodyMove.envelope_backward (h : CustodyMove bounds now G k k')
    {e' : RemoteTaskEnvelopeRow} (he' : e' ∈ k'.envelopes) :
    (∃ e ∈ k.envelopes, e' = { e with state := e'.state }) ∨
      ∃ envelope, e' = Store.leasedRow envelope := by
  cases h with
  | envelopeMoved id state =>
    simp only [Custody.moveEnvelope, mem_update] at he'
    obtain ⟨e, he, rfl⟩ := he'
    refine .inl ⟨e, he, ?_⟩
    split <;> rfl
  | leased _ henvelopes =>
    obtain he | rfl := (mem_of_insert henvelopes).mp he'
    · exact .inl ⟨e', he, rfl⟩
    · exact .inr ⟨_, rfl⟩
  | _ => exact .inl ⟨e', he', rfl⟩

/-! ## Completions -/

/-- What a change does to one completion. -/
inductive CompletionStep (now : Instant) (c : WorkerCompletionRow) : WorkerCompletionRow → Prop
  | same : CompletionStep now c c
  | accepted (hstate : c.state = .delivered) : CompletionStep now c (Store.accepted now c)
  | duplicated : CompletionStep now c (Store.duplicated now c)

/-- How a new completion comes in: as a duplicate of an earlier one of its envelope, or as the first
of its envelope, stale or delivered, and delivered on a lease that ends with it. -/
def CompletionReceived (k k' : Custody) (c : WorkerCompletionRow) : Prop :=
  c.state = .duplicate ∨ (∀ c₀ ∈ k.completions, c₀.envelopeId ≠ c.envelopeId) ∧
    (c.state = .stale ∧ k'.leases = k.leases ∨ c.state = .delivered ∧ c.decisionReason = none ∧
      ∃ l ∈ k'.leases, l.id = c.leaseId ∧ l.envelopeId = c.envelopeId ∧ l.state = .completed
        ∧ c.receivedAt < l.expiresAt)

/-- The completions are rewritten row by row. -/
def CompletionsRewritten (now : Instant) (k k' : Custody) : Prop :=
  ∃ g : WorkerCompletionRow → WorkerCompletionRow,
    k'.completions.rows = k.completions.rows.map g ∧
    ∀ c ∈ k.completions, CompletionStep now c (g c)

theorem CompletionsRewritten.of_eq (h : k'.completions = k.completions) :
    CompletionsRewritten now k k' := ⟨id, by simp [h], fun _ _ => .same⟩

/-- **What a change does to the completions.** -/
theorem CustodyMove.completions (h : CustodyMove bounds now G k k') :
    CompletionsRewritten now k k' ∨ G ∧ ∃ c,
      k.completions.insert c = some k'.completions ∧ CompletionReceived k k' c := by
  cases h with
  | refused hG hinsert hstate =>
    refine .inr ⟨hG, _, hinsert, ?_⟩
    exact hstate.imp_right fun ⟨hstale, hfirst⟩ => ⟨hfirst, .inl ⟨hstale, rfl⟩⟩
  | @delivered hG c _ hinsert hstate hreason hfirst l hl hcl hle _ hlive =>
    refine .inr ⟨hG, c, hinsert, .inr ⟨hfirst, .inr ⟨hstate, hreason, ?_⟩⟩⟩
    refine ⟨{ l with state := .completed, completedAt := some now }, ?_, hcl.symm, hle.symm, rfl,
      hlive⟩
    simp only [Custody.updateLease, mem_update]
    exact ⟨l, hl, by simp⟩
  | @accepted c hc hstate =>
    refine .inl ⟨_, rfl, fun c' hc' => ?_⟩
    split
    · rename_i hid
      rw [eq_of_clash hc' hc (by simpa [Keyed.clash, Keyed.key] using hid)]
      exact .accepted hstate
    · exact .same
  | duplicated id =>
    refine .inl ⟨_, rfl, fun c' _ => ?_⟩
    split
    · exact .duplicated
    · exact .same
  | envelopeMoved | leased | renewed | expired => exact .inl (.of_eq rfl)

/-- A completion that was there is still there, one step on. -/
theorem CustodyMove.completion_forward (h : CustodyMove bounds now G k k') {c : WorkerCompletionRow}
    (hc : c ∈ k.completions) : ∃ c' ∈ k'.completions, CompletionStep now c c' := by
  obtain ⟨g, hrows, hg⟩ | ⟨-, _, hinsert, -⟩ := h.completions
  · exact ⟨g c, by rw [mem_def, hrows]; exact List.mem_map_of_mem hc, hg c hc⟩
  · exact ⟨c, (mem_of_insert hinsert).mpr (.inl hc), .same⟩

/-- A completion was there one step before, or it is the one that was received. -/
theorem CustodyMove.completion_backward (h : CustodyMove bounds now G k k')
    {c' : WorkerCompletionRow} (hc' : c' ∈ k'.completions) :
    (∃ c ∈ k.completions, CompletionStep now c c') ∨ G ∧ CompletionReceived k k' c' := by
  obtain ⟨g, hrows, hg⟩ | ⟨hG, c, hinsert, hreceived⟩ := h.completions
  · rw [mem_def, hrows, List.mem_map] at hc'
    obtain ⟨c, hc, rfl⟩ := hc'
    exact .inl ⟨c, hc, hg c hc⟩
  · obtain hc | rfl := (mem_of_insert hinsert).mp hc'
    · exact .inl ⟨c', hc, .same⟩
    · exact .inr ⟨hG, hreceived⟩

/-- A step keeps what a completion is of. -/
theorem CompletionStep.identity {c c' : WorkerCompletionRow} (h : CompletionStep now c c') :
    c'.id = c.id ∧ c'.envelopeId = c.envelopeId ∧ c'.leaseId = c.leaseId
      ∧ c'.receivedAt = c.receivedAt := by
  cases h <;> exact ⟨rfl, rfl, rfl, rfl⟩

/-- **A completion that is held was held before**: none but a delivered one is accepted. -/
theorem CompletionStep.held {c c' : WorkerCompletionRow} (h : CompletionStep now c c')
    (hheld : c'.state = .delivered ∨ c'.state = .accepted) :
    (c.state = .delivered ∨ c.state = .accepted) ∧ c'.decisionReason = c.decisionReason := by
  cases h with
  | same => exact ⟨hheld, rfl⟩
  | accepted hstate => exact ⟨.inl hstate, rfl⟩
  | duplicated => simp [Store.duplicated] at hheld

end Mishkan
