import Mishkan.Persistence.Chains

/-!
# Persistence/Recovery — a recovery of an interrupted run settles it

What the two transactions of `recover_interrupted` leave is what they find in order
(`recoverInterrupted_settles`): a recovery that is cut, refused or repeated can be repeated.
-/

namespace Mishkan.Store

open Refusal

variable {s s' : Store} {runId : Uuid}

/-! ## What is found in order is left alone -/

/-- Nothing is safe to retry, and what is unresolved keeps the run blocked. -/
structure Reconciled (s : Store) (runId : Uuid) : Prop where
  retried : s.calls.select (isRetrySafe runId) = []
  blocked : s.unresolvedDurableEffects runId ≠ [] →
    ∀ run ∈ s.runs, run.id = runId → run.status = .blocked

/-- A run that is not being cancelled is not held up, and none of its tasks waits for a release. -/
def Released (s : Store) (runId : Uuid) : Prop :=
  ∀ run ∈ s.runs, run.id = runId → run.cancellationRequested = false →
    run.status ≠ .blocked ∧ run.status ≠ .failed ∧ s.tasks.select (s.isReleasable runId) = []

/-- An update that matches no row changes nothing. -/
theorem update_of_select {ρ : Type*} [Keyed ρ] {t : Table ρ} {p : ρ → Bool} {f : ρ → ρ}
    {hf : ∀ r, Keyed.key (f r) = Keyed.key r} (h : t.select p = []) : t.update p f hf = t := by
  have hnone := List.filter_eq_nil_iff.mp h
  refine Table.ext ((List.map_congr_left fun r hr => if_neg (hnone r hr)).trans (List.map_id _))

variable {run : RunRow}

theorem Reconciled.reconcileInterrupted (h : s.Reconciled runId)
    (hrun : run ∈ s.runs) (hid : run.id = runId) :
    s.reconcileInterrupted runId = .ok (s.unresolvedDurableEffects runId, s) := by
  have hstatus : ¬ (s.unresolvedDurableEffects runId ≠ [] ∧ run.status ≠ .blocked) :=
    fun ⟨hunresolved, hne⟩ => hne (h.blocked hunresolved run hrun hid)
  rw [Store.reconcileInterrupted, requireRun_eq_ok.mpr ⟨hrun, hid⟩]
  simp only [ok_bind, update_of_select h.retried, h.retried, List.length_nil, List.replicate_zero,
    List.append_nil, if_true]
  exact if_neg hstatus

theorem Released.releaseInterrupted (h : s.Released runId) (hrun : run ∈ s.runs)
    (hid : run.id = runId) : s.releaseInterrupted runId = .ok ([], s) := by
  rw [Store.releaseInterrupted, requireRun_eq_ok.mpr ⟨hrun, hid⟩]
  cases hcancel : run.cancellationRequested with
  | true => simp [hcancel, ok_bind]
  | false =>
    obtain ⟨hblocked, hfailed, hnone⟩ := h run hrun hid hcancel
    simp [hcancel, ok_bind, hblocked, hfailed, hnone, moveTasks, update_of_select hnone]

/-! ## What the two transactions leave -/

theorem status_of_moveRun {status : RunState} {r : RunRow}
    (hr : r ∈ (s.moveRun runId status).runs) (hid : r.id = runId) : r.status = status := by
  simp only [moveRun, Table.mem_update] at hr
  obtain ⟨r₀, -, rfl⟩ := hr
  by_cases heq : r₀.id = runId
  · simp [heq]
  · simp [heq] at hid

theorem exists_moveRun {status : RunState} (hrun : run ∈ s.runs) :
    ∃ r ∈ (s.moveRun run.id status).runs, r.id = run.id := by
  refine Table.exists_mem_update ?_ ⟨run, hrun, rfl⟩ ?_
  · exact fun _ => rfl
  · exact fun _ h => h

theorem reconcileInterrupted_spec {unresolved : List String}
    (h : s.reconcileInterrupted runId = .ok (unresolved, s')) :
    s'.Reconciled runId ∧ unresolved = s'.unresolvedDurableEffects runId ∧ s'.tasks = s.tasks ∧
      ∃ run ∈ s'.runs, run.id = runId := by
  simp only [Store.reconcileInterrupted, bind_eq_ok, requireRun_eq_ok] at h
  obtain ⟨run, ⟨hrun, rfl⟩, h⟩ := h
  have hretried : (s.calls.update (isRetrySafe run.id) settleRetrySafe settleRetrySafe_key).select
      (isRetrySafe run.id) = [] := by
    refine List.filter_eq_nil_iff.mpr fun c hc => ?_
    obtain ⟨c₀, -, rfl⟩ := Table.mem_update.mp (Table.mem_def.mpr hc)
    split
    · simp [isRetrySafe, settleRetrySafe]
    · assumption
  have hkept : ∀ {unresolved : List String}, ¬ (unresolved ≠ [] ∧ run.status ≠ .blocked) →
      unresolved ≠ [] → ∀ r ∈ s.runs, r.id = run.id → r.status = .blocked := by
    intro unresolved hcond hunresolved r hr hid
    rw [run_eq hr hrun hid]
    exact not_not.mp fun hne => hcond ⟨hunresolved, hne⟩
  -- with or without settled calls, the run is blocked or was
  split at h <;> split at h <;> cases h
  iterate 2
    · exact ⟨⟨hretried, fun _ _ => status_of_moveRun⟩, rfl, rfl, exists_moveRun hrun⟩
    · rename_i hcond
      exact ⟨⟨hretried, hkept hcond⟩, rfl, rfl, run, hrun, rfl⟩

theorem releaseInterrupted_spec {released : List String}
    (h : s.releaseInterrupted runId = .ok (released, s')) :
    s'.Released runId ∧ s'.calls = s.calls ∧ s'.others = s.others ∧
      ∃ run ∈ s'.runs, run.id = runId := by
  simp only [Store.releaseInterrupted, bind_eq_ok, requireRun_eq_ok] at h
  obtain ⟨run, ⟨hrun, rfl⟩, h⟩ := h
  split at h
  · rename_i hcancel
    obtain ⟨-, rfl⟩ := return_eq_ok.mp h
    refine ⟨fun r hr hid hopen => ?_, rfl, rfl, run, hrun, rfl⟩
    rw [run_eq hr hrun hid, hcancel] at hopen
    cases hopen
  -- no task that was moved, or left, is releasable: dependencies are accepted as they were
  have hdeps : ∀ contract, (s.moveTasks (s.isReleasable run.id) .eligible).dependenciesAccepted
      run.id contract = true → s.dependenciesAccepted run.id contract = true := by
    intro contract hdeps
    refine dependenciesAccepted_iff.mpr fun key hkey => ?_
    obtain ⟨t, ht, hid, hname, hstatus⟩ := dependenciesAccepted_iff.mp hdeps key hkey
    obtain ⟨t₀, ht₀, ⟨-, rfl⟩ | ⟨-, rfl⟩⟩ := mem_moveTasks ht
    · exact ⟨t, ht₀, hid, hname, hstatus⟩
    · cases hstatus
  have hnone : (s.moveTasks (s.isReleasable run.id) .eligible).tasks.select
      ((s.moveTasks (s.isReleasable run.id) .eligible).isReleasable run.id) = [] := by
    refine List.filter_eq_nil_iff.mpr fun t ht hreleasable => ?_
    simp only [isReleasable, decide_eq_true_eq] at hreleasable
    obtain ⟨t₀, -, ⟨hp, rfl⟩ | ⟨-, rfl⟩⟩ := mem_moveTasks (Table.mem_def.mpr ht)
    · simp [isReleasable, hreleasable.1, hreleasable.2.1, hdeps _ hreleasable.2.2] at hp
    · simp at hreleasable
  have hmoved : ∀ {outbox}, run.status = .blocked ∨ run.status = .failed →
      Released { (s.moveTasks (s.isReleasable run.id) .eligible).moveRun run.id .running with
        outbox := outbox } run.id := by
    intro outbox _ r hr hid _
    rw [status_of_moveRun hr hid]
    exact ⟨nofun, nofun, hnone⟩
  have hkept : ∀ {outbox}, ¬ (run.status = .blocked ∨ run.status = .failed) →
      Released { s.moveTasks (s.isReleasable run.id) .eligible with outbox := outbox } run.id := by
    intro outbox hstatus r hr hid _
    rw [run_eq hr hrun hid]
    exact ⟨fun h => hstatus (.inl h), fun h => hstatus (.inr h), hnone⟩
  split at h <;> split at h <;> cases h
  iterate 2
    · rename_i hstatus
      exact ⟨hmoved hstatus, rfl, rfl, exists_moveRun hrun⟩
    · rename_i hstatus
      exact ⟨hkept hstatus, rfl, rfl, run, hrun, rfl⟩

/-- The release raises only where there is no run. -/
theorem exists_releaseInterrupted (hrun : run ∈ s.runs) :
    ∃ released s', s.releaseInterrupted run.id = .ok (released, s') := by
  rw [Store.releaseInterrupted, requireRun_eq_ok.mpr ⟨hrun, rfl⟩, ok_bind]
  split
  · exact ⟨_, _, rfl⟩
  · exact ⟨_, _, rfl⟩

theorem unresolvedDurableEffects_congr (hcalls : s'.calls = s.calls)
    (hothers : s'.others = s.others) :
    s'.unresolvedDurableEffects runId = s.unresolvedDurableEffects runId := by
  simp only [unresolvedDurableEffects, unresolvedPlannedEffects, hcalls, hothers]

/-! ## The recovery -/

/-- **A recovery settles what it can.**  Once more it changes nothing and ends the same way, with no
further task to release; no task is released while an effect is unresolved; and where it returns, no
effect is, and the run is not held up unless it is being cancelled. -/
theorem recoverInterrupted_settles (s : Store) (runId : Uuid) :
    let outcome := (s.recoverInterrupted runId).1
    let s' := (s.recoverInterrupted runId).2
    s'.recoverInterrupted runId = (outcome.map fun _ => [], s') ∧
      (s'.unresolvedDurableEffects runId ≠ [] → s'.tasks = s.tasks) ∧
      ((∃ released, outcome = .ok released) →
        s'.unresolvedDurableEffects runId = [] ∧ s'.Released runId) := by
  cases hreconcile : s.reconcileInterrupted runId with
  | error e =>
    have hsame : s.recoverInterrupted runId = (.error e, s) := by
      rw [recoverInterrupted, hreconcile]
    rw [hsame]
    exact ⟨hsame, fun _ => rfl, nofun⟩
  | ok answer =>
    obtain ⟨unresolved, s₁⟩ := answer
    obtain ⟨hreconciled, rfl, htasks, run, hrun, hid⟩ := reconcileInterrupted_spec hreconcile
    by_cases hunresolved : s₁.unresolvedDurableEffects runId = []
    · subst hid
      obtain ⟨released, s₂, hrelease⟩ := exists_releaseInterrupted hrun
      obtain ⟨hreleased, hcalls, hothers, run₂, hrun₂, hid₂⟩ := releaseInterrupted_spec hrelease
      have hsettled : s₂.unresolvedDurableEffects run.id = [] :=
        (unresolvedDurableEffects_congr hcalls hothers).trans hunresolved
      have hreconciled₂ : s₂.Reconciled run.id :=
        ⟨hcalls ▸ hreconciled.retried, fun hne => absurd hsettled hne⟩
      have hfirst : s.recoverInterrupted run.id = (.ok released, s₂) := by
        simp [recoverInterrupted, hreconcile, hunresolved, hrelease]
      rw [hfirst]
      refine ⟨?_, fun hne => absurd hsettled hne, fun _ => ⟨hsettled, hreleased⟩⟩
      simp [recoverInterrupted, hreconciled₂.reconcileInterrupted hrun₂ hid₂, hsettled,
        hreleased.releaseInterrupted hrun₂ hid₂, Except.map]
    · have hfirst : s.recoverInterrupted runId = (.error (fault .runInterrupted
          "run contains unreconciled stateful effects"
          [("effects", .strings (s₁.unresolvedDurableEffects runId)),
            ("automatic_retry", .bool false)]), s₁) := by
        simp [recoverInterrupted, hreconcile, hunresolved]
      rw [hfirst]
      refine ⟨?_, fun _ => htasks, nofun⟩
      simp [recoverInterrupted, hreconciled.reconcileInterrupted hrun hid, hunresolved, Except.map]

end Mishkan.Store
