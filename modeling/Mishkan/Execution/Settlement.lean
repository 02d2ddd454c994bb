import Mishkan.Execution.Outline

/-!
# Execution/Settlement — when the settlement of a session is final and truthful

A session that is finished keeps its state, its exit code, its settlement and its artifacts
(`Final`); it is finished only once the process that was recorded is gone (`Truthful`); and after a
crash the reconciliation of the next start finishes it, once its process is gone (`Recovers`).  Four
things break this, and nothing else does (`settlement_iff`): a state that is written to a finished
session by the launch, the wait for readiness or the loss of its process; a settlement without a
process handle while the process runs; and a crash between the loss of a process, or the failure of
a launch, and the settlement.
-/

namespace Mishkan.Execution

open Transition Option Execution.Frame Supervisor

/-! ## The property -/

/-- What the settlement of a session fixes. -/
structure Ending where
  state : SessionState
  exitCode : Option Int
  effectSettlement : Option EffectSettlement
  stdoutReference : Option String
  stderrReference : Option String
  producedArtifacts : List String
  effectEvidence : Option (WorkspaceEffectEvidence × Option String)
deriving DecidableEq

def SessionRow.ending (row : SessionRow) : Ending :=
  ⟨row.state, row.exitCode, row.effectSettlement, row.stdoutReference, row.stderrReference,
    row.producedArtifacts, row.effectEvidence⟩

namespace Supervisor

/-- The session is finished. -/
def finished (s : Supervisor) : Bool := s.row.any (·.finishedAt ≠ none)

/-- The process of the recorded identity runs. -/
def recordedAlive (s : Supervisor) : Bool := s.row.any s.identityMatches

theorem finished_iff {s : Supervisor} :
    s.finished = true ↔ ∃ row, s.row = some row ∧ row.finishedAt ≠ none := by
  simp [finished, any_eq_true]

end Supervisor

/-- A finished session stays finished, with the same ending. -/
def Final (s s' : Supervisor) : Prop :=
  ∀ row ∈ s.row, row.finishedAt ≠ none →
    ∃ row' ∈ s'.row, row'.finishedAt ≠ none ∧ row'.ending = row.ending

/-- A session is finished when its recorded process is gone. -/
def Truthful (s s' : Supervisor) : Prop :=
  s.finished = false → s'.finished = true → s'.recordedAlive = false

/-- The calls of a start of the daemon, which reconciles before it serves. -/
def reconciled (signals : Nat) (s : Supervisor) (arounds : List Surroundings) : Sessions :=
  run (Sessions.step signals) ⟨s, []⟩ (.start .reconcileAll :: arounds.map (.advance 0 ·))

/-- The session is there, finished, with the settlement of its effects. -/
def Supervisor.Concluded (s : Supervisor) : Prop :=
  ∃ row ∈ s.row, row.finishedAt ≠ none ∧ row.effectSettlement ≠ none

/-- A start of the daemon concludes the session, if its process is gone by then; ten steps are
enough. -/
def Recovers (signals : Nat) (s : Supervisor) : Prop :=
  ∀ t, (t = s ∨ ∃ code, t = s.exit code) → t.row ≠ none → t.recordedAlive = false →
    ∀ arounds : List Surroundings, 10 ≤ arounds.length →
      (reconciled signals t arounds).calls = [] ∧ (reconciled signals t arounds).shared.Concluded

/-- **Settlement is final and truthful** at one step. -/
def SettlementHolds (signals : Nat) (p : Sessions) (op : Operation) : Prop :=
  Final p.shared (p.step signals op).shared ∧ Truthful p.shared (p.step signals op).shared ∧
    (op = .crash → Recovers signals (p.step signals op).shared)

instance (s s' : Supervisor) : Decidable (Final s s') :=
  inferInstanceAs (Decidable (∀ row ∈ s.row, row.finishedAt ≠ none →
    ∃ row' ∈ s'.row, row'.finishedAt ≠ none ∧ row'.ending = row.ending))

instance (s s' : Supervisor) : Decidable (Truthful s s') :=
  inferInstanceAs (Decidable (_ → _ → _))

instance (s : Supervisor) : Decidable s.Concluded :=
  inferInstanceAs (Decidable (∃ row ∈ s.row, _))

/-! ## The condition -/

/-- The state the step writes is not written to a finished session, and a settlement without a
process handle does not commit while the process runs. -/
def Frame.Permitted (s : Supervisor) (around : Surroundings) : Frame → Prop
  | .record => around.launchFails = true ∨ s.finished = false
  | .updateState state => ∀ row ∈ s.row, row.finishedAt ≠ none → row.state = state
  | .settleCommit _ _ false => s.recordedAlive = false
  | _ => True

/-- **The condition on an operation**: its step is permitted, and the daemon does not crash while an
unfinished session is failed, lost or uncertain. -/
def Permitted (p : Sessions) : Operation → Prop
  | .advance i around =>
    ∀ frame frames, p.calls[i]? = some (frame :: frames) → frame.Permitted p.shared around
  | .crash => ∀ row ∈ p.shared.row, row.finishedAt = none → row.state.isLive = true
  | _ => True

/-! ## One step -/

/-- A finished session is in a final state. -/
def Ended (s : Supervisor) : Prop :=
  ∀ row ∈ s.row, row.finishedAt ≠ none → row.state.isLive = false

variable {signals : Nat} {others : List Call} {s s' : Supervisor} {around : Surroundings}
  {frame : Frame} {next : Option (List Frame)}

theorem Final.of_row (h : s'.row = s.row) : Final s s' :=
  fun row hrow hfinished => ⟨row, h ▸ hrow, hfinished, rfl⟩

theorem Truthful.of_row (h : s'.row = s.row) : Truthful s s' := by
  intro hbefore hafter
  rw [finished, h] at hafter
  rw [finished, hafter] at hbefore
  cases hbefore

/-- The step writes no state and no settlement. -/
def Frame.isInert : Frame → Bool
  | .insertRow _ | .record | .updateState _ | .settleCommit .. => false
  | _ => true

/-- An inert step leaves a finished row, and finishes none. -/
theorem RowChange.inert {row row' : Option SessionRow} (h : RowChange frame row row')
    (hframe : frame.isInert = true) : (∀ r, row = some r → r.finishedAt ≠ none → row' = some r) ∧
      ∀ r', row' = some r' → r'.finishedAt ≠ none → ∃ r, row = some r ∧ r.finishedAt ≠ none := by
  cases h with
  | same => exact ⟨fun r hr _ => hr, fun r hr hfinished => ⟨r, hr, hfinished⟩⟩
  | prepared | recorded | updated | settled => cases hframe
  | interrupted =>
    have hsame : ∀ r : SessionRow, r.finishedAt ≠ none → r.interrupted = r := by
      intro r hfinished
      simp [SessionRow.interrupted, hfinished]
    refine ⟨fun r hr hfinished => ?_, fun r' hr' hfinished => ?_⟩
    · rw [hr, map_some, hsame r hfinished]
    · obtain ⟨r, hr, rfl⟩ := map_eq_some_iff.mp hr'
      refine ⟨r, hr, fun hopen => hfinished ?_⟩
      simp [SessionRow.interrupted, hopen]
  | cancelling hopen =>
    refine ⟨fun r hr hfinished => ?_, fun r' hr' hfinished => ?_⟩
    · obtain rfl := Option.some.inj hr
      exact absurd hopen hfinished
    · obtain rfl := Option.some.inj hr'
      exact absurd hopen hfinished

theorem holds_of_inert (h : frame.step signals others s around = (next, s'))
    (hframe : frame.isInert = true) : Final s s' ∧ Truthful s s' := by
  obtain ⟨hkept, hnew⟩ := (step_effect h).row.inert hframe
  refine ⟨fun row hrow hfinished => ⟨row, hkept row hrow hfinished, hfinished, rfl⟩, ?_⟩
  intro hbefore hafter
  obtain ⟨row', hrow', hfinished⟩ := finished_iff.mp hafter
  rw [finished_iff.mpr (hnew row' hrow' hfinished)] at hbefore
  cases hbefore

theorem ended_of_inert (hended : Ended s) (h : frame.step signals others s around = (next, s'))
    (hframe : frame.isInert = true) : Ended s' := by
  obtain ⟨hkept, hnew⟩ := (step_effect h).row.inert hframe
  intro row' hrow' hfinished
  obtain ⟨row, hrow, hbefore⟩ := hnew row' hrow' hfinished
  rw [Option.some.inj (hrow'.symm.trans (hkept row hrow hbefore))]
  exact hended row hrow hbefore

/-- **A step is final and truthful exactly when it is permitted.** -/
theorem Frame.holds_iff (hended : Ended s) (hrelies : frame.Relies s)
    (h : frame.step signals others s around = (next, s')) :
    Final s s' ∧ Truthful s s' ↔ frame.Permitted s around := by
  cases frame with
  | insertRow request =>
    cases h
    simp only [Frame.Permitted, iff_true]
    refine ⟨fun row hrow => ?_, fun _ hafter => ?_⟩
    · simp [hrelies.2.1] at hrow
    · simp [finished, SessionRow.prepared] at hafter
  | record =>
    obtain ⟨row, hrow⟩ := ne_none_iff_exists'.mp hrelies.2.1
    obtain ⟨process, hprocess⟩ := ne_none_iff_exists'.mp hrelies.2.2
    simp only [step, hrow, hprocess] at h
    split at h <;> cases h
    · rename_i hfails
      simp only [Frame.Permitted, hfails, true_or, iff_true]
      exact ⟨.of_row rfl, .of_row rfl⟩
    · rename_i hfails
      have hfinished : s.finished = false ↔ row.finishedAt = none := by
        simp [finished, hrow]
      simp only [Frame.Permitted, hfails, Bool.false_eq_true, false_or, hfinished]
      constructor
      · rintro ⟨hfinal, -⟩
        by_contra hdone
        obtain ⟨row', hrow', -, hending⟩ := hfinal row hrow hdone
        have hlive := hended row hrow hdone
        simp only [rewrite, hrow, map_some, mem_def,
          Option.some.injEq] at hrow'
        subst hrow'
        have hstate : row.state = .running := (congrArg Ending.state hending).symm
        simp [hstate, SessionState.isLive] at hlive
      · intro hopen
        refine ⟨fun row' hrow' hdone => ?_, fun _ hafter => ?_⟩
        · obtain rfl := Option.some.inj (hrow.symm.trans hrow')
          exact absurd hopen hdone
        · simp [finished, rewrite, hrow, SessionRow.recorded, hopen] at hafter
  | updateState state =>
    cases h
    constructor
    · rintro ⟨hfinal, -⟩ row hrow hdone
      obtain ⟨row', hrow', -, hending⟩ := hfinal row hrow hdone
      rw [mem_def] at hrow
      simp only [rewrite, hrow, map_some, mem_def,
        Option.some.injEq] at hrow'
      subst hrow'
      exact (congrArg Ending.state hending).symm
    · intro hsame
      refine ⟨fun row hrow hdone => ⟨{ row with state := state }, ?_, hdone, ?_⟩, ?_⟩
      · rw [mem_def] at hrow
        simp [rewrite, hrow]
      · simp [SessionRow.ending, hsame row hrow hdone]
      · intro hbefore hafter
        have hrows : (s.rewrite fun row => { row with state := state }).finished = s.finished := by
          cases hrow : s.row <;> simp [finished, rewrite, hrow]
        rw [hrows, hbefore] at hafter
        cases hafter
  | settleCommit row exitCode handled =>
    obtain ⟨⟨current, hcurrent, hopen⟩, hhandled⟩ := hrelies
    cases h
    have hfinal : Final s
        (s.rewrite fun current => row.settled current exitCode around.observation) := by
      intro row' hrow' hdone
      obtain rfl := Option.some.inj (hcurrent.symm.trans hrow')
      exact absurd hopen hdone
    have halive : (s.rewrite fun current =>
        row.settled current exitCode around.observation).recordedAlive = s.recordedAlive := by
      change (s.row.map _).any s.identityMatches = s.row.any s.identityMatches
      rw [hcurrent]
      rfl
    have hbefore : s.finished = false := by simp [finished, hcurrent, hopen]
    have hafter : (s.rewrite fun current =>
        row.settled current exitCode around.observation).finished = true := by
      simp [finished, rewrite, hcurrent, SessionRow.settled]
    have htruthful : Truthful s (s.rewrite fun current =>
        row.settled current exitCode around.observation) ↔ s.recordedAlive = false := by
      rw [← halive]
      exact ⟨fun h => h hbefore hafter, fun h _ _ => h⟩
    rw [htruthful]
    cases handled with
    | false => exact ⟨fun h => h.2, fun h => ⟨hfinal, h⟩⟩
    | true =>
      have hgone : s.recordedAlive = false := by
        simp [recordedAlive, hcurrent, identityMatches, (hhandled rfl).2]
      exact ⟨fun _ => trivial, fun _ => ⟨hfinal, hgone⟩⟩
  | _ => exact ⟨fun _ => trivial, fun _ => holds_of_inert h rfl⟩

/-- A permitted step leaves a finished session in a final state. -/
theorem Frame.step_ended (hended : Ended s) (hpermitted : frame.Permitted s around)
    (h : frame.step signals others s around = (next, s')) : Ended s' := by
  cases frame with
  | insertRow request =>
    cases h
    intro row hrow hdone
    obtain rfl := Option.some.inj hrow
    simp [SessionRow.prepared] at hdone
  | record =>
    simp only [step] at h
    split at h
    · rename_i row process hrow _
      split at h <;> cases h
      · exact hended
      · rename_i hfails
        intro row' hrow' hdone
        have hopen := hpermitted.resolve_left hfails
        simp only [rewrite, hrow, map_some, mem_def,
          Option.some.injEq] at hrow'
        subst hrow'
        simp only [finished, hrow, any_some, decide_eq_false_iff_not,
          not_not] at hopen
        exact absurd hopen hdone
    · cases h
      exact hended
  | updateState state =>
    cases h
    intro row' hrow' hdone
    obtain ⟨row, hrow, rfl⟩ := map_eq_some_iff.mp hrow'
    have hlive := hended row hrow hdone
    rw [hpermitted row hrow hdone] at hlive
    exact hlive
  | settleCommit row exitCode handled =>
    cases h
    intro row' hrow' _
    obtain ⟨current, -, rfl⟩ := map_eq_some_iff.mp hrow'
    exact (SessionRow.settled_finished _ _ _ _).2.2
  | _ => exact ended_of_inert hended h rfl

/-! ## The reconciliation of a restart -/

/-- So many steps of a call that runs alone conclude the session. -/
def Concludes (signals k : Nat) (s : Supervisor) (call : Call) : Prop :=
  ∀ arounds : List Surroundings, k ≤ arounds.length →
    (run (Sessions.step signals) ⟨s, (Call.rest call).toList⟩
      (arounds.map (.advance 0 ·))).calls = [] ∧
    (run (Sessions.step signals) ⟨s, (Call.rest call).toList⟩
      (arounds.map (.advance 0 ·))).shared.Concluded

/-- A session that is left after a crash: no handle, no recorded process that runs. -/
structure Abandoned (s : Supervisor) : Prop where
  handle : s.handle = false
  gone : s.recordedAlive = false
  row : ∃ row, s.row = some row ∧ (row.finishedAt ≠ none → row.effectSettlement ≠ none)

theorem Abandoned.rewrite (h : Abandoned s) {f : SessionRow → SessionRow}
    (hidentity : ∀ row, (f row).identity = row.identity)
    (hsettled : ∀ row, (row.finishedAt ≠ none → row.effectSettlement ≠ none) →
      (f row).finishedAt ≠ none → (f row).effectSettlement ≠ none) : Abandoned (s.rewrite f) := by
  obtain ⟨row, hrow, hdone⟩ := h.row
  refine ⟨h.handle, ?_, f row, by simp [Supervisor.rewrite, hrow], hsettled row hdone⟩
  have hgone := h.gone
  simp only [Supervisor.recordedAlive, hrow, any_some] at hgone
  change (s.row.map f).any s.identityMatches = false
  simpa only [hrow, map_some, any_some, Supervisor.identityMatches, hidentity] using
    hgone

/-- A call that has ended leaves the state alone. -/
theorem Concludes.nil {k : Nat} (h : s.Concluded) : Concludes signals k s [] := by
  have hstays : ∀ arounds : List Surroundings,
      run (Sessions.step signals) ⟨s, []⟩ (arounds.map (.advance 0 ·)) = ⟨s, []⟩ := by
    intro arounds
    induction arounds with
    | nil => rfl
    | cons around arounds ih => exact ih
  intro arounds _
  rw [Call.rest, toList_none, hstays]
  exact ⟨rfl, h⟩

/-- **A call concludes the session when what follows its next step does.** -/
theorem Concludes.cons {k : Nat} {frames : List Frame}
    (h : ∀ around, ∃ next s', frame.step signals [] s around = (some next, s') ∧
      Concludes signals k s' (next ++ frames)) : Concludes signals (k + 1) s (frame :: frames) := by
  intro arounds hlength
  cases arounds with
  | nil => simp at hlength
  | cons around arounds =>
    obtain ⟨next, s', hstep, hrest⟩ := h around
    have hpool : Sessions.step signals ⟨s, (Call.rest (frame :: frames)).toList⟩
        (.advance 0 around) = ⟨s', (Call.rest (next ++ frames)).toList⟩ := by
      simp [Sessions.step, Pool.step, Call.rest, supervisorProgram, Call.step, hstep]
    rw [List.map_cons, run_cons, hpool]
    exact hrest arounds (by simpa using hlength)

theorem concludes_settleRead (h : Abandoned s) : Concludes signals 3 s [.settleRead] := by
  obtain ⟨row, hrow, hdone⟩ := h.row
  refine .cons fun around => ?_
  by_cases hopen : row.finishedAt = none
  · refine ⟨[.settlePoll row], s, by simp [step, hrow, hopen], ?_⟩
    refine .cons fun around => ⟨[.settleCommit row row.exitCode false], s, ?_, ?_⟩
    · simp [step, h.handle]
    · refine .cons fun around => ⟨[], _, rfl, .nil ?_⟩
      obtain ⟨hfinished, hsettled, -⟩ :=
        SessionRow.settled_finished row row row.exitCode around.observation
      refine ⟨row.settled row row.exitCode around.observation, ?_, by simp [hfinished], hsettled⟩
      simp [rewrite, hrow]
  · refine ⟨[], s, by simp [step, hrow, hopen], .nil ⟨row, hrow, hopen, hdone hopen⟩⟩

theorem concludes_settle (h : Abandoned s) : Concludes signals 4 s [.settle] :=
  .cons fun _ => ⟨[.settleRead], s, by simp [step, LockFree], concludes_settleRead h⟩

theorem concludes_cancel (h : Abandoned s) (cause : String) :
    Concludes signals 6 s [.cancel cause] := by
  obtain ⟨row, hrow, hdone⟩ := h.row
  refine .cons fun around => ⟨[.cancelMark cause], s, by simp [step, LockFree], ?_⟩
  refine .cons fun around => ?_
  by_cases hopen : row.finishedAt = none
  · have hcancelling : Abandoned (s.rewrite (·.cancelling cause)) :=
      h.rewrite (fun _ => rfl) fun _ h => h
    refine ⟨[.cancelSignal signals], _, by simp [step, hrow, hopen]; rfl, ?_⟩
    refine .cons fun around => ⟨[.settleRead], _, ?_, concludes_settleRead hcancelling⟩
    cases signals with
    | zero => rfl
    | succ left =>
      have hgone := hcancelling.gone
      rw [recordedAlive] at hgone
      simp only [step, hgone, Bool.false_eq_true, if_false]
  · refine ⟨[], s, by simp [step, hrow, hopen], .nil ⟨row, hrow, hopen, hdone hopen⟩⟩

theorem concludes_then_settle (h : Abandoned s) {f : SessionRow → SessionRow}
    (hidentity : ∀ row, (f row).identity = row.identity)
    (hsettled : ∀ row, (row.finishedAt ≠ none → row.effectSettlement ≠ none) →
      (f row).finishedAt ≠ none → (f row).effectSettlement ≠ none)
    (hstep : ∀ around, frame.step signals [] s around = (some [], s.rewrite f)) :
    Concludes signals 5 s [frame, .settle] :=
  .cons fun around => ⟨[], _, hstep around, concludes_settle (h.rewrite hidentity hsettled)⟩

/-- More steps do no harm. -/
theorem Concludes.mono {k k' : Nat} {call : Call} (h : Concludes signals k s call) (hk : k ≤ k') :
    Concludes signals k' s call := fun arounds hlength => h arounds (hk.trans hlength)

theorem concludes_probe (h : Abandoned s) {row : SessionRow} (hrow : s.row = some row)
    (hlive : row.state.isLive = true) : Concludes signals 7 s [.probe row] := by
  have hgone : s.identityMatches row = false := by
    have := h.gone
    simpa [recordedAlive, hrow] using this
  refine .cons fun around => ⟨probeStep s around row, s, rfl, ?_⟩
  rw [List.append_nil]
  unfold probeStep
  rw [if_pos hlive]
  split
  · refine (concludes_then_settle h (f := SessionRow.interrupted) ?_ ?_ fun _ => rfl).mono
      (by omega)
    · intro row
      unfold SessionRow.interrupted
      split <;> rfl
    · intro row hsettled
      unfold SessionRow.interrupted
      split <;> exact hsettled
  split
  · exact (concludes_cancel h _).mono (by omega)
  split
  · exact (concludes_cancel h _).mono (by omega)
  split
  · exact (concludes_cancel h _).mono (by omega)
  · exact (concludes_cancel h _).mono (by omega)
  · exact (concludes_cancel h _).mono (by omega)
  -- neither cancelled nor over a limit: what is left is that the process is gone
  rw [hgone]
  split
  · exact (concludes_then_settle h (f := fun row => { row with state := .lost })
      (fun _ => rfl) (fun _ h => h) fun _ => rfl).mono (by omega)
  · exact (concludes_then_settle h (f := fun row => { row with state := .uncertain })
      (fun _ => rfl) (fun _ h => h) fun _ => rfl).mono (by omega)

/-- **The reconciliation concludes a session that is live in the database.** -/
theorem concludes_reconcile (h : Abandoned s) {row : SessionRow} (hrow : s.row = some row)
    (hlive : row.state.isLive = true) : Concludes signals 10 s [.reconcile] := by
  refine .cons fun around => ⟨[.status], s, by simp [step, hrow, hlive], ?_⟩
  refine .cons fun around => ⟨[.poll row], s, by simp [step, hrow], ?_⟩
  refine .cons fun around => ⟨[.probe row], s, by simp [step, h.handle], ?_⟩
  exact concludes_probe h hrow hlive

/-! ## Runs -/

theorem exit_row (s : Supervisor) (code : Int) : (s.exit code).row = s.row := rfl

/-- A process that has exited does not run. -/
theorem exit_gone (s : Supervisor) (code : Int) : (s.exit code).recordedAlive = false := by
  have hdead : (s.exit code).alive = false := by
    unfold exit alive
    cases hp : s.process with
    | none => simp
    | some p => cases hcode : p.exitCode <;> simp [hcode]
  cases hrow : (s.exit code).row with
  | none => simp [recordedAlive, hrow]
  | some row => simp [recordedAlive, hrow, identityMatches, hdead]

theorem reconciled_eq (signals : Nat) (s : Supervisor) (arounds : List Surroundings) :
    reconciled signals s arounds = run (Sessions.step signals)
      ⟨s, (Call.rest [.reconcile]).toList⟩ (arounds.map (.advance 0 ·)) := rfl

/-- **A crash leaves a session that is recovered** exactly when it is finished or live. -/
theorem recovers_iff (hinv : s.Invariant) (hended : Ended s) (hhandle : s.handle = false) :
    Recovers signals s ↔ ∀ row ∈ s.row, row.finishedAt = none → row.state.isLive = true := by
  constructor
  · intro hrecovers row hrow hopen
    by_contra hlive
    rw [Bool.not_eq_true] at hlive
    rw [mem_def] at hrow
    let around : Surroundings :=
      { now := 0, identity := ⟨0, 0, 0⟩, observation := ⟨none, "", "", none, none, none, 0⟩ }
    obtain ⟨-, row', hrow', hfinished, -⟩ := hrecovers (s.exit 0) (.inr ⟨0, rfl⟩)
      (by simp [exit_row, hrow]) (exit_gone s 0) (List.replicate 10 around) (by simp)
    have hnothing : Sessions.step signals ⟨s.exit 0, (Call.rest [.reconcile]).toList⟩
        (.advance 0 around) = ⟨s.exit 0, []⟩ := by
      simp [Sessions.step, Pool.step, Call.rest, supervisorProgram, Call.step, step, exit_row,
        hrow, hlive]
    have hstays : reconciled signals (s.exit 0) (List.replicate 10 around) = ⟨s.exit 0, []⟩ := by
      rw [reconciled_eq, List.replicate_succ, List.map_cons, run_cons, hnothing]
      rfl
    rw [hstays] at hrow'
    obtain rfl := Option.some.inj (hrow.symm.trans hrow')
    exact hfinished hopen
  · rintro hcond t ht hsome hgone arounds hlength
    have hrow : t.row = s.row ∧ t.handle = false := by
      rcases ht with rfl | ⟨code, rfl⟩
      · exact ⟨rfl, hhandle⟩
      · exact ⟨rfl, hhandle⟩
    obtain ⟨row, hrow'⟩ := ne_none_iff_exists'.mp hsome
    have hs := hrow.1.symm.trans hrow'
    rw [reconciled_eq]
    by_cases hopen : row.finishedAt = none
    · exact concludes_reconcile ⟨hrow.2, hgone, row, hrow', hinv.settled row hs⟩ hrow'
        (hcond row hs hopen) arounds hlength
    · have hdone : t.Concluded := ⟨row, hrow', hopen, hinv.settled row hs hopen⟩
      have hends : Concludes signals 1 t [.reconcile] := by
        refine .cons fun around => ⟨[], t, ?_, .nil hdone⟩
        simp [step, hrow', hended row hs hopen]
      exact hends arounds (by omega)

/-- The assertions hold, and finished sessions are in final states. -/
structure Governed (signals : Nat) (p : Sessions) : Prop where
  holds : (sessionOutline signals).Holds p
  ended : Ended p.shared

theorem governed_none (signals : Nat) : Governed signals Sessions.none where
  holds := Pool.Outline.holds_idle ⟨fun _ => ⟨rfl, rfl⟩, fun row hrow => by cases hrow⟩
  ended row hrow := by cases hrow

/-- The state a call leaves, and the frame it begins with. -/
theorem advance_cases (signals : Nat) (p : Sessions) (i : Nat) (around : Surroundings) :
    (p.step signals (.advance i around)).shared = p.shared ∧
      (∀ frame frames, p.calls[i]? ≠ some (frame :: frames)) ∨
    ∃ frame frames next s', p.calls[i]? = some (frame :: frames) ∧
      frame.step signals (p.calls.eraseIdx i) p.shared around = (next, s') ∧
      (p.step signals (.advance i around)).shared = s' := by
  cases hcall : p.calls[i]? with
  | none => exact .inl ⟨by simp [Sessions.step, Pool.step, hcall], by simp⟩
  | some call =>
    cases call with
    | nil =>
      refine .inl ⟨?_, by simp⟩
      simp [Sessions.step, Pool.step, hcall, supervisorProgram, Call.step]
    | cons frame frames =>
      rcases hstep : frame.step signals (p.calls.eraseIdx i) p.shared around with ⟨next, s'⟩
      refine .inr ⟨frame, frames, next, s', rfl, hstep, ?_⟩
      simp only [Sessions.step, Pool.step, hcall, supervisorProgram, Call.step, hstep]
      cases next <;> rfl

variable {p : Sessions}

theorem Governed.relies (h : Governed signals p) {i : Nat} {frame : Frame}
    {frames : List Frame} (hcall : p.calls[i]? = some (frame :: frames)) :
    frame.Relies p.shared := (h.holds.relied _ (List.mem_of_getElem? hcall)).1

theorem Governed.step (h : Governed signals p) {op : Operation}
    (hpermitted : Permitted p op) : Governed signals (p.step signals op) where
  holds := h.holds.step op
  ended := by
    cases op with
    | start | drop | outside | crash => exact h.ended
    | advance i around =>
      obtain ⟨hsame, -⟩ | ⟨frame, frames, next, s', hcall, hstep, hs'⟩ :=
        advance_cases signals p i around
      · rw [hsame]
        exact h.ended
      · rw [hs']
        exact step_ended h.ended (hpermitted frame frames hcall) hstep

/-- **An operation is final and truthful exactly when it is permitted.** -/
theorem Governed.holds_iff (h : Governed signals p) (op : Operation) :
    SettlementHolds signals p op ↔ Permitted p op := by
  cases op with
  | start | drop | outside =>
    simp only [Permitted, iff_true]
    exact ⟨.of_row rfl, .of_row rfl, by simp⟩
  | crash =>
    have hinv : Invariant { p.shared with handle := false } :=
      ⟨h.holds.invariant.spooled, h.holds.invariant.settled⟩
    have hiff : Recovers signals { p.shared with handle := false } ↔ _ :=
      recovers_iff hinv h.ended rfl
    constructor
    · rintro ⟨-, -, hrecovers⟩
      exact hiff.mp (hrecovers rfl)
    · intro hpermitted
      exact ⟨.of_row rfl, .of_row rfl, fun _ => hiff.mpr hpermitted⟩
  | advance i around =>
    obtain ⟨hsame, hnone⟩ | ⟨frame, frames, next, s', hcall, hstep, hs'⟩ :=
      advance_cases signals p i around
    · rw [SettlementHolds, hsame]
      exact ⟨fun _ frame frames hcall => absurd hcall (hnone frame frames),
        fun _ => ⟨.of_row rfl, .of_row rfl, by simp⟩⟩
    · rw [SettlementHolds, hs']
      have hiff := Frame.holds_iff h.ended (h.relies hcall) hstep
      constructor
      · rintro ⟨hfinal, htruthful, -⟩ frame' frames' hcall'
        rw [hcall] at hcall'
        obtain ⟨rfl, -⟩ := List.cons.inj (Option.some.inj hcall')
        exact hiff.mp ⟨hfinal, htruthful⟩
      · intro hpermitted
        obtain ⟨hfinal, htruthful⟩ := hiff.mpr (hpermitted frame frames hcall)
        exact ⟨hfinal, htruthful, by simp⟩

/-- **Settlement is final and truthful along a run of the calls on a session** exactly when every
operation of it is permitted. -/
theorem settlement_iff (signals : Nat) (ops : List Operation) :
    Along (Sessions.step signals) (SettlementHolds signals) Sessions.none ops ↔
      Along (Sessions.step signals) Permitted Sessions.none ops :=
  Along.congr_of_guarded (I := Governed signals) (F := fun _ _ => True)
    (fun _ _ h _ hpermitted => h.step hpermitted) (fun _ op h _ => h.holds_iff op)
    (governed_none signals) (Along.of_forall (fun _ _ _ => trivial) _)

/-! ## Runs that are not permitted -/

/-- Surroundings in which nothing goes wrong. -/
def sampleSurroundings : Surroundings where
  now := 0
  identity := ⟨7, 7, 1⟩
  outputReady := true
  observation :=
    { spools := some (0, 0), stdoutReference := "stdout", stderrReference := "stderr"
      evidence := some ⟨"before", "before", [], [], true, []⟩, effectDiff := none
      produced := some [], now := 1 }

/-- A job that tells by its output that it is ready. -/
def sampleRequest : SessionRequest where
  mode := .job
  readiness := some (.outputContains "ready")
  deadline := 1000 * second

/-- So many steps of the first call. -/
def steps (n : Nat) : List Operation := List.replicate n (.advance 0 sampleSurroundings)

/-- A cancellation settles the session between the probe for readiness and the update it makes. -/
def cancelledBeforeReady : List Operation :=
  [.start (.start sampleRequest)] ++ steps 6 ++ [.start (.cancel "cancelled")] ++ steps 3 ++
    [.outside (-15)] ++ steps 5

/-- A caller asks for the status of a session while it is launched. -/
def statusDuringLaunch : List Operation :=
  [.start (.start sampleRequest)] ++ steps 3 ++ [.start .status] ++ steps 8 ++ steps 2

/-- A restarted daemon settles a session whose process still runs. -/
def settledAfterRestart : List Operation :=
  [.start (.start sampleRequest)] ++ steps 5 ++ [.crash, .start .settle] ++ steps 4

/-- The daemon crashes after it has found the process lost, and before the settlement. -/
def crashBeforeSettlement : List Operation :=
  [.start (.start sampleRequest)] ++ steps 5 ++ [.crash, .outside 0, .start .status] ++ steps 4 ++
    [.crash]

/-- The first two runs write a state to a finished session, the third finishes a session whose
process runs, and the fourth leaves one that no start of the daemon finishes. -/
theorem settlement_broken :
    ¬ Along (Sessions.step 1) (SettlementHolds 1) Sessions.none cancelledBeforeReady ∧
    ¬ Along (Sessions.step 1) (SettlementHolds 1) Sessions.none statusDuringLaunch ∧
    ¬ Along (Sessions.step 1) (SettlementHolds 1) Sessions.none settledAfterRestart ∧
    ¬ Along (Sessions.step 1) (SettlementHolds 1) Sessions.none crashBeforeSettlement := by
  refine ⟨fun h => ?_, fun h => ?_, fun h => ?_, fun h => ?_⟩
  · have hfinal := h.imp (Q := fun p op => Final p.shared (p.step 1 op).shared) fun _ _ h => h.1
    revert hfinal
    decide +kernel
  · have hfinal := h.imp (Q := fun p op => Final p.shared (p.step 1 op).shared) fun _ _ h => h.1
    revert hfinal
    decide +kernel
  · have htruthful := h.imp (Q := fun p op => Truthful p.shared (p.step 1 op).shared)
      fun _ _ h => h.2.1
    revert htruthful
    decide +kernel
  · obtain ⟨-, ⟨-, -, hrecovers⟩, -⟩ := Along.append.mp h
    have hconcluded := (hrecovers rfl _ (.inl rfl) (by decide +kernel) (by decide +kernel)
      (List.replicate 10 sampleSurroundings) (by simp)).2
    revert hconcluded
    decide +kernel

end Mishkan.Execution
