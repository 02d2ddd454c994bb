import Mishkan.Persistence.Effects

/-!
# Workers/Effects — what a move does to the envelopes, the leases and the completions

The counterpart of `Persistence/Effects` for the tables of the worker repository.  `EnvelopeStep`
says everything that can happen to one envelope, with the lease or completion it happens through.
-/

namespace Mishkan

open Refusal Transition Table

variable {G : Permits} {s s' : Store}

/-- An envelope whose task may still be under execution by its worker. -/
def RemoteEnvelopeState.isOpen : RemoteEnvelopeState → Bool
  | .leased | .executing | .reconciliationRequired => true
  | _ => false

/-- An active lease holds the envelope, and no lease does after the move. -/
def LeaseEnds (s s' : Store) (e : RemoteTaskEnvelopeRow) : Prop :=
  (∃ l ∈ s.leases, l.state = .active ∧ l.envelopeId = e.id) ∧
    ∀ l ∈ s'.leases, l.envelopeId = e.id → l.state ≠ .active

/-- What a move does to one envelope. -/
inductive EnvelopeStep (G : Permits) (s s' : Store) (e : RemoteTaskEnvelopeRow) :
    RemoteTaskEnvelopeRow → Prop
  | same : EnvelopeStep G s s' e e
  | begun (h : e.state = .leased) : EnvelopeStep G s s' e { e with state := .executing }
  | delivered (h : LeaseEnds s s' e) : EnvelopeStep G s s' e { e with state := .validating }
  | completed (h : ∃ c ∈ s.completions, c.state = .delivered ∧ c.envelopeId = e.id) :
      EnvelopeStep G s s' e { e with state := .completed }
  | lost (h : LeaseEnds s s' e) :
      EnvelopeStep G s s' e { e with state := .reconciliationRequired }
  | returned (h : LeaseEnds s s' e) (hstateless : e.statefulEffects = false)
      (hG : G s (.expired e)) : EnvelopeStep G s s' e { e with state := .expired }
  | reconciled (h : e.state = .reconciliationRequired) (hG : G s (.reconciled e)) :
      EnvelopeStep G s s' e { e with state := .expired }

/-- A step keeps what an envelope is. -/
theorem EnvelopeStep.identity {e e' : RemoteTaskEnvelopeRow} (h : EnvelopeStep G s s' e e') :
    e'.id = e.id ∧ e'.taskRowId = e.taskRowId ∧ e'.runId = e.runId ∧ e'.taskKey = e.taskKey
      ∧ e'.statefulEffects = e.statefulEffects := by
  cases h <;> exact ⟨rfl, rfl, rfl, rfl, rfl⟩

/-- The envelopes are rewritten row by row. -/
def EnvelopesRewritten (G : Permits) (s s' : Store) : Prop :=
  ∃ g : RemoteTaskEnvelopeRow → RemoteTaskEnvelopeRow, s'.envelopes.rows = s.envelopes.rows.map g ∧
    ∀ e ∈ s.envelopes, EnvelopeStep G s s' e (g e)

/-- A leased envelope of an eligible task is appended. -/
def EnvelopeIssued (G : Permits) (s s' : Store) : Prop :=
  ∃ e, s'.envelopes.rows = s.envelopes.rows ++ [e] ∧ e.state = .leased ∧
    ∃ t ∈ s.tasks, t.status = .eligible ∧ G s (.leased t) ∧ e.taskRowId = t.id ∧ e.runId = t.runId
      ∧ e.taskKey = t.taskKey ∧ ∀ t' ∈ s'.tasks, t'.id = t.id → t'.status = .leased

theorem EnvelopesRewritten.of_eq (h : s'.envelopes = s.envelopes) : EnvelopesRewritten G s s' :=
  ⟨id, by simp [h], fun _ _ => .same⟩

variable {e : RemoteTaskEnvelopeRow}

/-- An update of one envelope. -/
theorem EnvelopesRewritten.updateOne (he : e ∈ s.envelopes)
    {f : RemoteTaskEnvelopeRow → RemoteTaskEnvelopeRow}
    (h : s'.envelopes.rows = s.envelopes.rows.map fun r => if decide (r.id = e.id) then f r else r)
    (hstep : EnvelopeStep G s s' e (f e)) : EnvelopesRewritten G s s' := by
  refine ⟨_, h, fun r hr => ?_⟩
  split
  · rename_i hid
    rwa [Store.envelope_eq hr he (by simpa using hid)]
  · exact .same

/-- A lease of the envelope that was updated is in the state it was updated to. -/
theorem leaseEnds_of_update {l : WorkerLeaseRow} (hl : l ∈ s.leases) (hactive : l.state = .active)
    (hle : l.envelopeId = e.id) {f : WorkerLeaseRow → WorkerLeaseRow}
    (hdone : ∀ l, (f l).state ≠ .active)
    (h : s'.leases.rows = s.leases.rows.map fun r => if decide (r.id = l.id) then f r else r) :
    LeaseEnds s s' e := by
  refine ⟨⟨l, hl, hactive, hle⟩, fun l' hl' hle' => ?_⟩
  rw [mem_def, h, List.mem_map] at hl'
  obtain ⟨l₀, hl₀, rfl⟩ := hl'
  split
  · exact hdone l₀
  · rename_i hid
    rw [if_neg hid] at hle'
    have hsame : l₀ = l := Store.lease_eq_of_envelope hl₀ hl (hle'.trans hle.symm)
    simp [hsame] at hid

/-- **What a move does to the envelopes.** -/
theorem Move.envelopes (h : Move G s s') : EnvelopesRewritten G s s' ∨ EnvelopeIssued G s s' := by
  cases h with
  | aside h => exact .inl (.of_eq h.envelopes)
  | leaseIssued ht heligible hinsert hlinsert hstate htask hlease hG =>
    refine .inr ⟨_, (insert_eq_some.mp hinsert).1, hstate, _, ht, heligible, hG, htask.1,
      htask.2.1, htask.2.2, fun t' ht' hid => ?_⟩
    simp only [Store.beginAttempt, mem_update] at ht'
    obtain ⟨t₀, ht₀, rfl⟩ := ht'
    split
    · rfl
    · rename_i hne
      rw [if_neg hne] at hid
      simp [hid] at hne
  | executionBegun he hstate => exact .inl (.updateOne he rfl (.begun hstate))
  | completionDelivered hinsert he hc hl hle hactive ht htask h f hf hdone =>
    exact .inl (.updateOne he rfl (.delivered
      (leaseEnds_of_update hl hactive hle (fun l => by simp [hdone l]) rfl)))
  | completionAccepted hc hstate he hce =>
    exact .inl (.updateOne he rfl (.completed ⟨_, hc, hstate, hce⟩))
  | leaseLost hl hactive he hle f hf hdone =>
    exact .inl (.updateOne he rfl (.lost
      (leaseEnds_of_update hl hactive hle (fun l => by simp [hdone l]) rfl)))
  | leaseReturned hl hactive he hle hstateless hG f hf hdone =>
    exact .inl (.updateOne he rfl (.returned
      (leaseEnds_of_update hl hactive hle (fun l => by simp [hdone l]) rfl) hstateless hG))
  | envelopeReconciled he hstate ht htask h hG =>
    exact .inl (.updateOne he rfl (.reconciled hstate hG))
  | _ => exact .inl (.of_eq rfl)

/-- An envelope that was there is still there, one step on. -/
theorem Move.envelope_forward (h : Move G s s')
    (he : e ∈ s.envelopes) : ∃ e' ∈ s'.envelopes, EnvelopeStep G s s' e e' := by
  obtain ⟨g, hrows, hg⟩ | ⟨_, hrows, -⟩ := h.envelopes
  · exact ⟨g e, by rw [mem_def, hrows]; exact List.mem_map_of_mem he, hg e he⟩
  · exact ⟨e, by rw [mem_def, hrows]; exact List.mem_append_left _ he, .same⟩

/-- An envelope was there one step before, or it is the one that was issued. -/
theorem Move.envelope_backward (h : Move G s s') {e' : RemoteTaskEnvelopeRow}
    (he' : e' ∈ s'.envelopes) : (∃ e ∈ s.envelopes, EnvelopeStep G s s' e e') ∨
      (s'.envelopes.rows = s.envelopes.rows ++ [e'] ∧ e'.state = .leased ∧
        ∃ t ∈ s.tasks, t.status = .eligible ∧ G s (.leased t) ∧ e'.taskRowId = t.id
          ∧ e'.runId = t.runId ∧ e'.taskKey = t.taskKey
          ∧ ∀ t' ∈ s'.tasks, t'.id = t.id → t'.status = .leased) := by
  obtain ⟨g, hrows, hg⟩ | ⟨e, hrows, hstate, htask⟩ := h.envelopes
  · rw [mem_def, hrows, List.mem_map] at he'
    obtain ⟨e, he, rfl⟩ := he'
    exact .inl ⟨e, he, hg e he⟩
  · rw [mem_def, hrows, List.mem_append, List.mem_singleton] at he'
    obtain he' | rfl := he'
    · exact .inl ⟨e', he', .same⟩
    · exact .inr ⟨hrows, hstate, htask⟩

/-- An updated row keeps the envelope its lease is on. -/
theorem envelopeId_of_key {l l' : WorkerLeaseRow} (h : Keyed.key l = Keyed.key l') :
    l.envelopeId = l'.envelopeId := congrArg (fun k => k.2.1) h

variable {l' : WorkerLeaseRow}

/-- Leases that were updated so that none of them became active. -/
theorem active_of_update (hl' : l' ∈ s'.leases) (hactive : l'.state = .active)
    {f : WorkerLeaseRow → WorkerLeaseRow} (hf : ∀ l, Keyed.key (f l) = Keyed.key l)
    (hstate : ∀ l, (f l).state = .active → l.state = .active) {p : WorkerLeaseRow → Bool}
    (h : s'.leases.rows = s.leases.rows.map fun r => if p r then f r else r) :
    ∃ l ∈ s.leases, l.state = .active ∧ l.envelopeId = l'.envelopeId := by
  rw [mem_def, h, List.mem_map] at hl'
  obtain ⟨l, hl, rfl⟩ := hl'
  refine ⟨l, hl, ?_⟩
  split at hactive
  · rename_i hp
    rw [if_pos hp]
    exact ⟨hstate l hactive, (envelopeId_of_key (hf l)).symm⟩
  · rename_i hp
    rw [if_neg hp]
    exact ⟨hactive, rfl⟩

/-- **An active lease was active before, or was issued with its envelope.** -/
theorem Move.lease_backward (h : Move G s s') (hl' : l' ∈ s'.leases)
    (hactive : l'.state = .active) :
    (∃ l ∈ s.leases, l.state = .active ∧ l.envelopeId = l'.envelopeId) ∨
      ∃ e ∈ s'.envelopes, e.id = l'.envelopeId ∧ e.state = .leased := by
  cases h with
  | aside h => exact .inl ⟨l', by rwa [h.leases] at hl', hactive, rfl⟩
  | leaseIssued ht heligible hinsert hlinsert hstate htask hlease =>
    obtain hl | rfl := (mem_of_insert hlinsert).mp hl'
    · exact .inl ⟨l', hl, hactive, rfl⟩
    · exact .inr ⟨_, (mem_of_insert hinsert).mpr (.inr rfl), hlease.symm, hstate⟩
  | leaseRenewed f hf hstate =>
    exact .inl (active_of_update hl' hactive hf (fun l h => (hstate l).symm.trans h) rfl)
  | completionDelivered hinsert he hc hl hle hactive' ht htask h f hf hdone =>
    exact .inl (active_of_update hl' hactive hf (fun l h => by simp [hdone l] at h) rfl)
  | leaseLost hl hactive' he hle f hf hdone =>
    exact .inl (active_of_update hl' hactive hf (fun l h => by simp [hdone l] at h) rfl)
  | leaseReturned hl hactive' he hle hstateless hG f hf hdone =>
    exact .inl (active_of_update hl' hactive hf (fun l h => by simp [hdone l] at h) rfl)
  | _ => exact .inl ⟨l', hl', hactive, rfl⟩

/-- **A lease was there before, or was issued with its envelope.** -/
theorem Move.lease_origin (h : Move G s s') (hl' : l' ∈ s'.leases) :
    (∃ l ∈ s.leases, l.id = l'.id ∧ l.envelopeId = l'.envelopeId) ∨
      ∃ e ∈ s'.envelopes, e.id = l'.envelopeId ∧
        ∃ t ∈ s.tasks, G s (.leased t) ∧ e.taskRowId = t.id := by
  have hupdate : ∀ {p : WorkerLeaseRow → Bool} {f : WorkerLeaseRow → WorkerLeaseRow},
      (∀ l, Keyed.key (f l) = Keyed.key l) →
      s'.leases.rows = (s.leases.rows.map fun r => if p r then f r else r) →
      ∃ l ∈ s.leases, l.id = l'.id ∧ l.envelopeId = l'.envelopeId := by
    intro p f hf hrows
    rw [mem_def, hrows, List.mem_map] at hl'
    obtain ⟨l, hl, rfl⟩ := hl'
    refine ⟨l, hl, ?_⟩
    split
    · exact ⟨congrArg (fun k => k.1) (hf l).symm, (envelopeId_of_key (hf l)).symm⟩
    · exact ⟨rfl, rfl⟩
  cases h with
  | aside h => exact .inl ⟨l', by rwa [h.leases] at hl', rfl, rfl⟩
  | leaseIssued ht heligible hinsert hlinsert hstate htask hlease hG =>
    obtain hl | rfl := (mem_of_insert hlinsert).mp hl'
    · exact .inl ⟨l', hl, rfl, rfl⟩
    · exact .inr ⟨_, (mem_of_insert hinsert).mpr (.inr rfl), hlease.symm, _, ht, hG, htask.1⟩
  | leaseRenewed f hf | completionDelivered _ _ _ _ _ _ _ _ _ f hf | leaseLost _ _ _ _ f hf
  | leaseReturned _ _ _ _ _ _ f hf => exact .inl (hupdate hf rfl)
  | _ => exact .inl ⟨l', hl', rfl, rfl⟩

/-- **A delivered completion was delivered before, or is delivered with its envelope validating.**
-/
theorem Move.completion_backward (h : Move G s s') {c' : WorkerCompletionRow}
    (hc' : c' ∈ s'.completions) (hdelivered : c'.state = .delivered) :
    (∃ c ∈ s.completions, c.state = .delivered ∧ c.envelopeId = c'.envelopeId) ∨
      ∃ e ∈ s'.envelopes, e.id = c'.envelopeId
        ∧ (e.state = .validating ∨ e.state = .completed) := by
  cases h with
  | aside h => exact .inl ⟨c', by rwa [h.completions] at hc', hdelivered, rfl⟩
  | completionRecorded hinsert hstate =>
    obtain hc | rfl := (mem_of_insert hinsert).mp hc'
    · exact .inl ⟨c', hc, hdelivered, rfl⟩
    · exact absurd hdelivered hstate.1
  | @completionDelivered c completions hinsert e he hc l hl hle hactive t ht htask h f hf hdone =>
    obtain hold | rfl := (mem_of_insert hinsert).mp hc'
    · exact .inl ⟨c', hold, hdelivered, rfl⟩
    · refine .inr ⟨{ e with state := .validating }, ?_, hc.symm, .inl rfl⟩
      simp only [Store.moveTask, Store.moveTasks, Store.moveEnvelope, Store.updateLease,
        mem_update]
      exact ⟨e, he, by simp⟩
  | completionDuplicated f hf hstate =>
    simp only [Store.updateCompletion, mem_update] at hc'
    obtain ⟨c, hc, rfl⟩ := hc'
    split at hdelivered
    · simp [hstate c] at hdelivered
    · rename_i hp
      exact .inl ⟨c, hc, hdelivered, by rw [if_neg hp]⟩
  | @completionAccepted c hc hstate e he hce f hf henv =>
    simp only [Store.updateCompletion, Store.moveEnvelope, mem_update] at hc'
    obtain ⟨c₀, hc₀, rfl⟩ := hc'
    split
    · rename_i hp
      rw [eq_of_clash hc₀ hc (by simpa [Keyed.clash, Keyed.key] using hp), henv]
      exact .inl ⟨c, hc, hstate, rfl⟩
    · rename_i hp
      rw [if_neg hp] at hdelivered
      exact .inl ⟨c₀, hc₀, hdelivered, rfl⟩
  | _ => exact .inl ⟨c', hc', hdelivered, rfl⟩

end Mishkan
