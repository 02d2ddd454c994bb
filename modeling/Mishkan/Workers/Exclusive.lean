import Mishkan.Persistence.Invariants

/-!
# Workers/Exclusive — one live executor per task

A task is under the hand of at most one worker as long as no recovery releases a task whose envelope
is still open: `Exclusive` is then an invariant.  From it follow that a task whose stateful work was
lost stays where it is until its effects are reconciled (`lost_task_held`), and that an active lease
keeps every other executor away (`single_executor`).
-/

namespace Mishkan

open Refusal Transition

variable {G : Permits} {s s' : Store}

/-! ## The invariant -/

/-- A worker may still be working on the task. -/
def OpenEnvelope (s : Store) (t : TaskRow) : Prop :=
  ∃ e ∈ s.envelopes, e.taskRowId = t.id ∧ e.state.isOpen = true

instance (s : Store) (t : TaskRow) : Decidable (OpenEnvelope s t) :=
  inferInstanceAs (Decidable (∃ e ∈ s.envelopes, _))

/-- **Open envelopes hold their tasks exclusively.** -/
structure Exclusive (s : Store) : Prop where
  /-- The task of an open envelope does not wait for work. -/
  held : ∀ e ∈ s.envelopes, e.state.isOpen = true →
    ∀ t ∈ s.tasks, t.id = e.taskRowId → t.status.isWaiting = false
  /-- A task has one open envelope. -/
  single : ∀ e ∈ s.envelopes, ∀ e' ∈ s.envelopes, e.state.isOpen = true →
    e'.state.isOpen = true → e.taskRowId = e'.taskRowId → e = e'
  /-- An active lease is on an envelope under work. -/
  leased : ∀ l ∈ s.leases, l.state = .active →
    ∃ e ∈ s.envelopes, e.id = l.envelopeId ∧ (e.state = .leased ∨ e.state = .executing)
  /-- A delivered completion is of an envelope whose work is done. -/
  delivered : ∀ c ∈ s.completions, c.state = .delivered →
    ∃ e ∈ s.envelopes, e.id = c.envelopeId ∧ (e.state = .validating ∨ e.state = .completed)

/-- The permits under which open envelopes keep their tasks. -/
def Spares (G : Permits) : Prop := ∀ s t, G s (.interrupted t) → ¬ OpenEnvelope s t

namespace Exclusive

variable {e e' : RemoteTaskEnvelopeRow}

/-- An envelope whose lease ends is under work. -/
theorem under_work (h : Exclusive s) (he : e ∈ s.envelopes) (hends : LeaseEnds s s' e) :
    e.state = .leased ∨ e.state = .executing := by
  obtain ⟨⟨l, hl, hactive, hle⟩, -⟩ := hends
  obtain ⟨e₀, he₀, hid, hstate⟩ := h.leased l hl hactive
  rwa [Store.envelope_eq he he₀ (hle.symm.trans hid.symm)]

/-- An envelope with a delivered completion is done. -/
theorem done (h : Exclusive s) (he : e ∈ s.envelopes)
    (hc : ∃ c ∈ s.completions, c.state = .delivered ∧ c.envelopeId = e.id) :
    e.state = .validating ∨ e.state = .completed := by
  obtain ⟨c, hc, hdelivered, hce⟩ := hc
  obtain ⟨e₀, he₀, hid, hstate⟩ := h.delivered c hc hdelivered
  rwa [Store.envelope_eq he he₀ (hce.symm.trans hid.symm)]

/-- No move opens an envelope. -/
theorem open_backward (h : Exclusive s) (he : e ∈ s.envelopes) (hstep : EnvelopeStep G s s' e e')
    (hopen : e'.state.isOpen = true) : e.state.isOpen = true := by
  cases hstep with
  | same => exact hopen
  | begun hleased => rw [hleased]; rfl
  | lost hends => obtain hstate | hstate := h.under_work he hends <;> rw [hstate] <;> rfl
  | delivered | completed | returned | reconciled => simp [RemoteEnvelopeState.isOpen] at hopen

/-- No step of a task under an open envelope makes it wait. -/
theorem task_step (h : Exclusive s) (hG : Spares G) (he : e ∈ s.envelopes)
    (hopen : e.state.isOpen = true) (he' : e' ∈ s'.envelopes) (hid : e'.id = e.id)
    (hopen' : e'.state.isOpen = true) {t t' : TaskRow} (ht : t ∈ s.tasks)
    (htask : t.id = e.taskRowId) (hstep : TaskStep G s s' t t') : t'.status.isWaiting = false := by
  have hwaiting := h.held e he hopen t ht htask
  -- the envelope that gives the task back is this one, and it would be expired
  have hother : ∀ e₀ ∈ s.envelopes, e₀.taskRowId = t.id → e₀.state.isOpen = true →
      ¬ ∀ e₁ ∈ s'.envelopes, e₁.id = e₀.id → e₁.state = .expired := by
    intro e₀ he₀ htask₀ hopen₀ hexpired
    have hsame := h.single e₀ he₀ e he hopen₀ hopen (htask₀.trans htask)
    simp [hexpired e' he' (by rw [hid, hsame]), RemoteEnvelopeState.isOpen] at hopen'
  cases hstep with
  | same => exact hwaiting
  | moved hmove =>
    cases hmove with
    | released hpending => simp [hpending, TaskState.isWaiting] at hwaiting
    | recovered _ _ _ hpermit => exact absurd ⟨e, he, htask.symm, hopen⟩ (hG _ _ hpermit)
    | cancelled | rejected | failed | validating => rfl
  | returned _ he₀ htask₀ hl hactive hle _ hexpired =>
    refine absurd hexpired (hother _ he₀ htask₀ ?_)
    obtain ⟨e₁, he₁, hid₁, hstate⟩ := h.leased _ hl hactive
    rw [Store.envelope_eq he₀ he₁ (hle.symm.trans hid₁.symm)]
    obtain hstate | hstate := hstate <;> rw [hstate] <;> rfl
  | reconciled _ he₀ htask₀ hstate _ hexpired =>
    exact absurd hexpired (hother _ he₀ htask₀ (by rw [hstate]; rfl))
  | _ => rfl

theorem held_move (hs : Sound s) (h : Exclusive s) (hG : Spares G) (hmove : Move G s s') :
    ∀ e ∈ s'.envelopes, e.state.isOpen = true →
      ∀ t ∈ s'.tasks, t.id = e.taskRowId → t.status.isWaiting = false := by
  intro e' he' hopen' t' ht' htask'
  obtain ⟨e, he, hstep⟩ | ⟨-, -, t, -, -, -, htask, -, -, hleased⟩ := hmove.envelope_backward he'
  · obtain ⟨hid, htask, -⟩ := hstep.identity
    obtain ⟨t, ht, hte, -⟩ := hs.addressed e he
    obtain ⟨t₁, ht₁, htstep⟩ := hmove.task_forward ht
    have hsame : t' = t₁ := by
      refine Store.task_eq ht' ht₁ ?_
      rw [htask', htask, ← hte, htstep.identity.1]
    rw [hsame]
    exact h.task_step hG he (h.open_backward he hstep hopen') he' hid hopen' ht hte htstep
  · rw [hleased t' ht' (htask'.trans htask)]
    rfl

/-- An envelope is issued only for a task without an open one. -/
theorem not_open_of_issued (h : Exclusive s) {t : TaskRow} (ht : t ∈ s.tasks)
    (heligible : t.status = .eligible) (he : e ∈ s.envelopes) (hopen : e.state.isOpen = true) :
    t.id ≠ e.taskRowId := by
  intro htask
  have hwaiting := h.held e he hopen t ht htask
  simp [heligible, TaskState.isWaiting] at hwaiting

theorem single_move (h : Exclusive s) (hmove : Move G s s') :
    ∀ e ∈ s'.envelopes, ∀ e' ∈ s'.envelopes, e.state.isOpen = true →
      e'.state.isOpen = true → e.taskRowId = e'.taskRowId → e = e' := by
  intro e₁ he₁ e₂ he₂ hopen₁ hopen₂ htask
  obtain ⟨e, he, hstep⟩ | ⟨hrows, -, t, ht, heligible, -, hid, -⟩ := hmove.envelope_backward he₁
  · have hopen := h.open_backward he hstep hopen₁
    obtain ⟨hid₁, htask₁, -⟩ := hstep.identity
    obtain ⟨e', he', hstep'⟩ | ⟨-, -, t', ht', heligible', -, hid', -⟩ :=
      hmove.envelope_backward he₂
    · obtain ⟨hid₂, htask₂, -⟩ := hstep'.identity
      have hsame := h.single e he e' he' hopen (h.open_backward he' hstep' hopen₂)
        (by rw [← htask₁, htask, htask₂])
      exact Store.envelope_eq he₁ he₂ (by rw [hid₁, hid₂, hsame])
    · refine absurd ?_ (h.not_open_of_issued ht' heligible' he hopen)
      rw [← hid', ← htask, htask₁]
  · obtain ⟨e', he', hstep'⟩ | ⟨hrows', -⟩ := hmove.envelope_backward he₂
    · refine absurd ?_ (h.not_open_of_issued ht heligible he' (h.open_backward he' hstep' hopen₂))
      rw [← hid, htask, hstep'.identity.2.1]
    · rw [hrows, List.append_cancel_left_eq, List.cons.injEq] at hrows'
      exact hrows'.1

theorem leased_move (h : Exclusive s) (hmove : Move G s s') : ∀ l ∈ s'.leases, l.state = .active →
      ∃ e ∈ s'.envelopes, e.id = l.envelopeId ∧ (e.state = .leased ∨ e.state = .executing) := by
  intro l' hl' hactive'
  obtain ⟨l, hl, hactive, hle⟩ | ⟨e', he', hid', hstate'⟩ := hmove.lease_backward hl' hactive'
  · obtain ⟨e, he, hid, hstate⟩ := h.leased l hl hactive
    obtain ⟨e', he', hstep⟩ := hmove.envelope_forward he
    have hle' : l'.envelopeId = e.id := hle.symm.trans hid.symm
    refine ⟨e', he', hstep.identity.1.trans hle'.symm, ?_⟩
    cases hstep with
    | same => exact hstate
    | begun => exact .inr rfl
    | delivered hends | lost hends | returned hends =>
      exact absurd hactive' (hends.2 l' hl' hle')
    | completed hc => obtain hdone | hdone := h.done he hc <;> simp [hdone] at hstate
    | reconciled hlost => simp [hlost] at hstate
  · exact ⟨e', he', hid', .inl hstate'⟩

theorem delivered_move (h : Exclusive s) (hmove : Move G s s') :
    ∀ c ∈ s'.completions, c.state = .delivered →
      ∃ e ∈ s'.envelopes, e.id = c.envelopeId ∧ (e.state = .validating ∨ e.state = .completed) := by
  intro c' hc' hdelivered'
  obtain ⟨c, hc, hdelivered, hce⟩ | hnew := hmove.completion_backward hc' hdelivered'
  · obtain ⟨e, he, hid, hstate⟩ := h.delivered c hc hdelivered
    obtain ⟨e', he', hstep⟩ := hmove.envelope_forward he
    refine ⟨e', he', hstep.identity.1.trans (hid.trans hce), ?_⟩
    cases hstep with
    | same => exact hstate
    | delivered => exact .inl rfl
    | completed => exact .inr rfl
    | begun hleased => simp [hleased] at hstate
    | lost hends | returned hends =>
      obtain hwork | hwork := h.under_work he hends <;> simp [hwork] at hstate
    | reconciled hlost => simp [hlost] at hstate
  · exact hnew

/-- **A move that spares open envelopes keeps them exclusive.** -/
theorem move (hs : Sound s) (h : Exclusive s) (hG : Spares G) (hmove : Move G s s') :
    Exclusive s' where
  held := held_move hs h hG hmove
  single := h.single_move hmove
  leased := h.leased_move hmove
  delivered := h.delivered_move hmove

end Exclusive

theorem exclusive_empty : Exclusive .empty := by
  constructor <;> intro x hx <;> exact absurd hx Table.not_mem_empty

/-! ## The condition -/

/-- **A recovery releases no task that a worker may still be working on.** -/
def SparesOpenEnvelopes (s : Store) : Op → Prop
  | .releaseInterrupted runId =>
    RunOpen s runId → ∀ t ∈ s.tasks, s.isReleasable runId t = true → ¬ OpenEnvelope s t
  | _ => True

instance (s : Store) (runId : Uuid) : Decidable (RunOpen s runId) :=
  inferInstanceAs (Decidable (∃ run ∈ s.runs, _))

instance (s : Store) (op : Op) : Decidable (SparesOpenEnvelopes s op) := by
  apply op.casesOn (motive := (Decidable <| SparesOpenEnvelopes s ·)) <;> intros <;>
    dsimp only [SparesOpenEnvelopes] <;> infer_instance

/-- The releases that spare open envelopes and reconcile only the lost ones allowed. -/
def sparing (allowed : RemoteTaskEnvelopeRow → Prop) : Permits
  | s, .interrupted t => ¬ OpenEnvelope s t
  | _, .reconciled e => allowed e
  | _, _ => True

theorem spares_sparing (allowed : RemoteTaskEnvelopeRow → Prop) : Spares (sparing allowed) :=
  fun _ _ h => h

/-- The operation does not reconcile the envelope. -/
def Op.Leaves (id : Uuid) : Op → Prop
  | .reconcileExpiredEnvelope envelopeId report => ¬ (envelopeId = id ∧ report = .proven)
  | _ => True

theorem permitsOp_sparing {op : Op} (h : SparesOpenEnvelopes s op) :
    PermitsOp (sparing fun _ => True) s op := by
  cases op with
  | releaseInterrupted => exact h
  | _ => simp [PermitsOp, PermitsExpiry, PermitsLease, sparing]

theorem permitsOp_leaving {op : Op} {id : Uuid} (h : SparesOpenEnvelopes s op)
    (hleaves : op.Leaves id) : PermitsOp (sparing fun e => e.id ≠ id) s op := by
  cases op with
  | releaseInterrupted => exact h
  | reconcileExpiredEnvelope envelopeId report =>
    rintro e - rfl - hproven rfl
    exact hleaves ⟨rfl, hproven⟩
  | _ => simp [PermitsOp, PermitsExpiry, PermitsLease, sparing]

/-- **An operation that spares open envelopes keeps them exclusive.** -/
theorem exclusive_step (hs : Sound s) (h : Exclusive s) (deployment : Deployment) {op : Op}
    (hop : SparesOpenEnvelopes s op) : Exclusive (step deployment s op) := by
  have hmoves := step_moves deployment hs.addressed (permitsOp_sparing hop)
  have hboth : Sound (step deployment s op) ∧ Exclusive (step deployment s op) :=
    hmoves.lift (I := fun s => Sound s ∧ Exclusive s)
      (fun _ _ h hm => ⟨h.1.move hm, h.2.move h.1 (spares_sparing _) hm⟩) ⟨hs, h⟩
  exact hboth.2

end Mishkan
