import Mishkan.Execution.Supervisor

/-!
# Execution/Outline — what the calls on a session rely on

One call at a time holds the lock of the session, one launches its process, and a settlement that is
about to commit finds the session unfinished; if it has seen the process handle, the process has
exited.  `sessionOutline` proves these assertions of the program, so they hold at every point of
every interleaving.
-/

namespace Mishkan.Execution

open List Execution.Frame

/-! ## Assertions -/

namespace Supervisor

/-- The session was prepared and is not finished. -/
def Unfinished (s : Supervisor) : Prop := ∃ row, s.row = some row ∧ row.finishedAt = none

/-- What is left of a session that was started once. -/
structure Invariant (s : Supervisor) : Prop where
  spooled : s.spooled = false → s.row = none ∧ s.process = none
  /-- A finished session has the settlement of its effects. -/
  settled : ∀ row, s.row = some row → row.finishedAt ≠ none → row.effectSettlement ≠ none

end Supervisor

/-- What a call relies on before its next step. -/
def Frame.Relies (s : Supervisor) : Frame → Prop
  | .insertRow _ => s.spooled = true ∧ s.row = none ∧ s.process = none
  | .spawn => s.spooled = true ∧ s.row ≠ none ∧ s.process = none
  | .register | .record => s.spooled = true ∧ s.row ≠ none ∧ s.process ≠ none
  | .abort => s.spooled = true
  | .settlePoll _ => s.Unfinished
  | .settleCommit _ _ handled =>
    s.Unfinished ∧ (handled = true → s.process ≠ none ∧ s.alive = false)
  | _ => True

/-- The frames that wait behind another one. -/
def Frame.isPlain : Frame → Bool
  | .settle | .status | .cancelWait _ => true
  | _ => false

/-- A call relies on what its next step does. -/
def Call.Relies (s : Supervisor) : Call → Prop
  | [] => True
  | frame :: frames => frame.Relies s ∧ ∀ g ∈ frames, g.isPlain = true

/-- The calls neither hold the lock both, nor launch the process both. -/
def Call.Apart (call other : Call) : Prop :=
  ¬ (call.isLocked = true ∧ other.isLocked = true) ∧
    ¬ (call.isLaunching = true ∧ other.isLaunching = true)

variable {g : Frame}

theorem Frame.relies_of_isPlain (h : g.isPlain = true) (s : Supervisor) :
    g.Relies s := by
  cases g <;> simp_all [isPlain, Frame.Relies]

/-! ## One step -/

variable {signals : Nat} {others : List Call} {s s' : Supervisor} {around : Surroundings}
  {frame : Frame} {next : Option (List Frame)}

theorem exit_process (s : Supervisor) (code : Int) :
    ((s.exit code).process = none ↔ s.process = none) ∧
      (s.alive = false → (s.exit code).alive = false) := by
  unfold Supervisor.exit Supervisor.alive
  cases hp : s.process with
  | none => simp
  | some p => cases hcode : p.exitCode <;> simp [hcode]

/-- What a step does to the row of the session. -/
inductive RowChange : Frame → Option SessionRow → Option SessionRow → Prop
  | same {frame : Frame} {row : Option SessionRow} : RowChange frame row row
  | prepared {request : SessionRequest} {row : Option SessionRow} :
      RowChange (.insertRow request) row (some (.prepared request))
  | recorded {row : SessionRow} {identity : ProcessIdentity} :
      RowChange .record (some row) (some (row.recorded identity))
  | interrupted {row : Option SessionRow} :
      RowChange .markInterrupted row (row.map SessionRow.interrupted)
  | updated {state : SessionState} {row : Option SessionRow} :
      RowChange (.updateState state) row (row.map fun r => { r with state := state })
  | settled {row : SessionRow} {exitCode : Option Int} {handled : Bool} {o : Observation}
      {current : Option SessionRow} : RowChange (.settleCommit row exitCode handled) current
        (current.map fun r => row.settled r exitCode o)
  | cancelling {cause : String} {row : SessionRow} (h : row.finishedAt = none) :
      RowChange (.cancelMark cause) (some row) (some (row.cancelling cause))

namespace RowChange

variable {frame : Frame} {row row' : Option SessionRow}

theorem none_iff (h : RowChange frame row row') (hframe : ∀ request, frame ≠ .insertRow request) :
    row' = none ↔ row = none := by
  cases h with
  | prepared => exact absurd rfl (hframe _)
  | _ => simp

/-- A step without the lock leaves a session unfinished. -/
theorem unfinished (h : RowChange frame row row') {r : SessionRow} (hr : row = some r)
    (hopen : r.finishedAt = none) (hlocked : ¬ frame.isLocked = true)
    (hframe : ∀ request, frame ≠ .insertRow request) :
    ∃ r', row' = some r' ∧ r'.finishedAt = none := by
  cases h with
  | same => exact ⟨r, hr, hopen⟩
  | prepared => exact absurd rfl (hframe _)
  | recorded =>
    obtain rfl := Option.some.inj hr
    exact ⟨_, rfl, hopen⟩
  | interrupted =>
    subst hr
    exact ⟨_, rfl, by simp [SessionRow.interrupted, hopen]⟩
  | updated =>
    subst hr
    exact ⟨_, rfl, hopen⟩
  | settled | cancelling => exact absurd rfl hlocked

/-- A step leaves a finished session the settlement of its effects, or gives it one. -/
theorem effectSettlement (h : RowChange frame row row')
    (hrow : ∀ r, row = some r → r.finishedAt ≠ none → r.effectSettlement ≠ none) :
    ∀ r, row' = some r → r.finishedAt ≠ none → r.effectSettlement ≠ none := by
  intro r' hr' hfinished
  cases h with
  | same => exact hrow r' hr' hfinished
  | prepared =>
    obtain rfl := Option.some.inj hr'
    simp [SessionRow.prepared] at hfinished
  | recorded | cancelling =>
    obtain rfl := Option.some.inj hr'
    have hbefore := hrow _ rfl
    exact hbefore hfinished
  | interrupted =>
    obtain ⟨r, hr, rfl⟩ := Option.map_eq_some_iff.mp hr'
    by_cases hopen : r.finishedAt = none
    · simp [SessionRow.interrupted, hopen] at hfinished
    · simpa [SessionRow.interrupted, hopen] using hrow r hr hopen
  | updated =>
    obtain ⟨r, hr, rfl⟩ := Option.map_eq_some_iff.mp hr'
    exact hrow r hr hfinished
  | settled =>
    obtain ⟨r, -, rfl⟩ := Option.map_eq_some_iff.mp hr'
    exact (SessionRow.settled_finished _ _ _ _).2.1

end RowChange

/-- What a step may do to the state. -/
structure Effect (frame : Frame) (s s' : Supervisor) : Prop where
  spooled : s.spooled = true → s'.spooled = true
  row : RowChange frame s.row s'.row
  process : ((s'.process = none ↔ s.process = none) ∧ (s.alive = false → s'.alive = false)) ∨
    frame = .spawn

/-- A step that leaves the state alone. -/
theorem Effect.refl (frame : Frame) (s : Supervisor) : Effect frame s s :=
  ⟨fun h => h, .same, .inl ⟨Iff.rfl, fun h => h⟩⟩

variable {frame : Frame}

/-- A step that writes the row. -/
theorem Effect.rewrite {s : Supervisor} {row : Option SessionRow}
    (h : RowChange frame s.row row) : Effect frame s { s with row := row } :=
  ⟨fun h => h, h, .inl ⟨Iff.rfl, fun h => h⟩⟩

/-- **What each step may do.** -/
theorem Frame.step_effect (h : frame.step signals others s around = (next, s')) :
    Effect frame s s' := by
  cases frame with
  | prepare request =>
    simp only [step] at h
    split at h <;> cases h
    · exact .refl _ _
    · exact ⟨fun _ => rfl, .same, .inl ⟨Iff.rfl, fun h => h⟩⟩
  | insertRow request =>
    cases h
    exact .rewrite .prepared
  | spawn =>
    simp only [step] at h
    split at h <;> cases h
    · exact .refl _ _
    · exact ⟨fun h => h, .same, .inr rfl⟩
  | register =>
    cases h
    exact ⟨fun h => h, .same, .inl ⟨Iff.rfl, fun h => h⟩⟩
  | record =>
    simp only [step] at h
    split at h
    · rename_i hrow _
      split at h <;> cases h
      · exact .refl _ _
      · refine .rewrite ?_
        rw [hrow]
        exact .recorded
    · cases h
      exact .refl _ _
  | abort =>
    cases h
    exact ⟨fun h => h, .same, .inl (exit_process s _)⟩
  | markInterrupted =>
    cases h
    exact .rewrite .interrupted
  | updateState state =>
    cases h
    exact .rewrite .updated
  | settleCommit row exitCode handled =>
    cases h
    exact .rewrite .settled
  | cancelMark cause =>
    simp only [step] at h
    split at h
    · cases h
      exact .refl _ _
    · rename_i row hrow
      split at h <;> cases h
      · exact .refl _ _
      · rename_i hopen
        refine .rewrite ?_
        rw [hrow]
        exact .cancelling (by simpa using hopen)
  | cancelSignal left =>
    cases left with
    | zero =>
      cases h
      exact .refl _ _
    | succ left =>
      simp only [step] at h
      split at h
      · split at h <;> cases h <;> exact .refl _ _
      · cases h
        exact .refl _ _
  | awaitReadiness readiness =>
    simp only [step] at h
    split at h
    · cases h
      exact .refl _ _
    · split at h
      · cases h
        exact .refl _ _
      · split at h <;> cases h <;> exact .refl _ _
  | status | poll | settle | cancel | reconcile =>
    simp only [step] at h
    split at h <;> cases h <;> exact .refl _ _
  | probe row =>
    cases h
    exact .refl _ _
  | settleRead | settlePoll | cancelWait =>
    simp only [step] at h
    split at h
    · first
      | (cases h; exact .refl _ _)
      | (split at h <;> cases h <;> exact .refl _ _)
    · first
      | (cases h; exact .refl _ _)
      | (split at h <;> cases h <;> exact .refl _ _)

/-- What a step has to leave for the frames it puts in its place. -/
structure Follows (frame : Frame) (others : List Call) (s s' : Supervisor) (next : List Frame) :
    Prop where
  relies : Call.Relies s' next
  locked : Call.isLocked next = true → frame.isLocked = true ∨ LockFree others
  launching : Call.isLaunching next = true → frame.isLaunching = true ∨ s.spooled = false

theorem pollStep_cases (s : Supervisor) (around : Surroundings) (row : SessionRow) :
    pollStep s around row = [] ∨ pollStep s around row = [.settle] ∨
      ∃ cause, pollStep s around row = [.cancel cause] := by
  unfold pollStep
  split_ifs <;> first | simp | (split <;> simp)

theorem probeStep_cases (s : Supervisor) (around : Surroundings) (row : SessionRow) :
    probeStep s around row = [] ∨ (∃ cause, probeStep s around row = [.cancel cause]) ∨
      ∃ frame, probeStep s around row = [frame, .settle] ∧
        (frame = .markInterrupted ∨ ∃ state, frame = .updateState state) := by
  unfold probeStep
  split_ifs <;> first | simp | (split <;> simp)

/-- Frames that need nothing, hold no lock and launch nothing. -/
def Frame.isFree (g : Frame) : Prop :=
  (∀ s, g.Relies s) ∧ g.isLocked = false ∧ g.isLaunching = false

theorem Follows.free (frame : Frame) (others : List Call) (s s' : Supervisor)
    {gs : List Frame} (hg : g.isFree) (hgs : ∀ g' ∈ gs, g'.isPlain = true ∧ g'.isFree) :
    Follows frame others s s' (g :: gs) := by
  have hfree : ∀ g' ∈ g :: gs, g'.isFree := by
    intro g' hg'
    rcases mem_cons.mp hg' with rfl | hg'
    · exact hg
    · exact (hgs g' hg').2
  refine ⟨⟨hg.1 s', fun g' hg' => (hgs g' hg').1⟩, fun h => ?_, fun h => ?_⟩
  · obtain ⟨g', hg', hlocked⟩ := any_eq_true.mp h
    simp [(hfree g' hg').2.1] at hlocked
  · obtain ⟨g', hg', hlaunching⟩ := any_eq_true.mp h
    simp [(hfree g' hg').2.2] at hlaunching

theorem Follows.nil (frame : Frame) (others : List Call) (s s' : Supervisor) :
    Follows frame others s s' [] :=
  ⟨trivial, fun h => by simp [Call.isLocked] at h, fun h => by simp [Call.isLaunching] at h⟩

/-- A locked step that goes on under the lock. -/
theorem Follows.underLock (others : List Call) (s s' : Supervisor)
    {gs : List Frame} (hlocked : frame.isLocked = true) (hg : g.Relies s')
    (hgs : ∀ g' ∈ gs, g'.isPlain = true) (hlaunching : Call.isLaunching (g :: gs) = false) :
    Follows frame others s s' (g :: gs) :=
  ⟨⟨hg, hgs⟩, fun _ => .inl hlocked, fun h => by simp [hlaunching] at h⟩

/-- A step that launches goes on launching. -/
theorem Follows.launch (others : List Call) (s s' : Supervisor)
    (hlaunching : frame.isLaunching = true ∨ s.spooled = false) (hg : g.Relies s')
    (hlocked : g.isLocked = false) : Follows frame others s s' [g] :=
  ⟨⟨hg, by simp⟩, fun h => by simp [Call.isLocked, hlocked] at h, fun _ => hlaunching⟩

/-- **What each step puts in its place.** -/
theorem Frame.step_follows {next : List Frame} (hinv : s.Invariant) (hrelies : frame.Relies s)
    (h : frame.step signals others s around = (some next, s')) :
    Follows frame others s s' next := by
  have hsettle : isFree .settle := ⟨fun _ => trivial, rfl, rfl⟩
  have hstatus : isFree .status := ⟨fun _ => trivial, rfl, rfl⟩
  have hcancel : ∀ cause, isFree (.cancel cause) := fun _ => ⟨fun _ => trivial, rfl, rfl⟩
  have hmark : isFree .markInterrupted := ⟨fun _ => trivial, rfl, rfl⟩
  have hupdate : ∀ state, isFree (.updateState state) := fun _ => ⟨fun _ => trivial, rfl, rfl⟩
  have hthen : ∀ g' ∈ [settle], g'.isPlain = true ∧ g'.isFree := by
    simpa using ⟨rfl, hsettle⟩
  cases frame with
  | prepare request =>
    simp only [step] at h
    split at h <;> simp only [Prod.mk.injEq, Option.some.injEq, reduceCtorEq, false_and] at h
    rename_i hfresh
    obtain ⟨rfl, rfl⟩ := h
    rw [Bool.not_eq_true] at hfresh
    exact .launch _ _ _ (.inr hfresh) ⟨rfl, hinv.spooled hfresh⟩ rfl
  | insertRow request =>
    cases h
    exact .launch _ _ _ (.inl rfl) ⟨hrelies.1, by simp, hrelies.2.2⟩ rfl
  | spawn =>
    simp only [step] at h
    split at h <;> cases h
    · exact .free _ _ _ _ hmark hthen
    · exact .launch _ _ _ (.inl rfl) ⟨hrelies.1, hrelies.2.1, by simp⟩ rfl
  | register =>
    cases h
    exact .launch _ _ _ (.inl rfl) hrelies rfl
  | record =>
    simp only [step] at h
    split at h
    · split at h <;> cases h
      · exact .launch _ _ _ (.inl rfl) hrelies.1 rfl
      · split
        · refine .free _ _ _ _ ⟨fun _ => trivial, rfl, rfl⟩ ?_
          simpa using ⟨rfl, hstatus⟩
        · exact .free _ _ _ _ hstatus (by simp)
    · cases h
      exact .launch _ _ _ (.inl rfl) hrelies.1 rfl
  | abort =>
    cases h
    exact .free _ _ _ _ hmark hthen
  | markInterrupted | updateState | settleCommit =>
    cases h
    exact .nil _ _ _ _
  | awaitReadiness readiness =>
    simp only [step] at h
    split_ifs at h <;> cases h
    · exact .free _ _ _ _ (hcancel _) (by simp)
    · exact .free _ _ _ _ hsettle (by simp)
    · exact .free _ _ _ _ (hupdate _) (by simp)
    · exact .free _ _ _ _ ⟨fun _ => trivial, rfl, rfl⟩ (by simp)
  | status =>
    simp only [step] at h
    split at h <;> simp only [Prod.mk.injEq, Option.some.injEq, reduceCtorEq, false_and] at h
    obtain ⟨rfl, rfl⟩ := h
    exact .free _ _ _ _ ⟨fun _ => trivial, rfl, rfl⟩ (by simp)
  | poll row =>
    simp only [step] at h
    split at h <;> cases h
    · obtain hnext | hnext | ⟨cause, hnext⟩ := pollStep_cases s around row <;> rw [hnext]
      · exact .nil _ _ _ _
      · exact .free _ _ _ _ hsettle (by simp)
      · exact .free _ _ _ _ (hcancel _) (by simp)
    · exact .free _ _ _ _ ⟨fun _ => trivial, rfl, rfl⟩ (by simp)
  | probe row =>
    cases h
    obtain hnext | ⟨cause, hnext⟩ | ⟨frame, hnext, rfl | ⟨state, rfl⟩⟩ :=
      probeStep_cases s around row <;> rw [hnext]
    · exact .nil _ _ _ _
    · exact .free _ _ _ _ (hcancel _) (by simp)
    · exact .free _ _ _ _ hmark hthen
    · exact .free _ _ _ _ (hupdate _) hthen
  | settle =>
    simp only [step] at h
    split at h <;> cases h
    · rename_i hfree
      exact ⟨⟨trivial, by simp⟩, fun _ => .inr hfree, fun h => by
        simp [Call.isLaunching, isLaunching] at h⟩
    · exact .free _ _ _ _ hsettle (by simp)
  | settleRead =>
    simp only [step] at h
    split at h
    · simp at h
    · rename_i row hrow
      split at h <;> cases h
      · exact .nil _ _ _ _
      · rename_i hopen
        exact .underLock _ _ _ rfl ⟨row, hrow, by simpa using hopen⟩ (by simp) rfl
  | settlePoll row =>
    simp only [step] at h
    split_ifs at h <;> cases h
    · exact .nil _ _ _ _
    · rename_i hexited
      refine .underLock _ _ _ rfl ⟨hrelies, fun _ => ?_⟩ (by simp) rfl
      unfold Supervisor.returncode at hexited
      unfold Supervisor.alive
      cases hp : s.process with
      | none => simp [hp] at hexited
      | some p => simpa [hp] using hexited
    · exact .underLock _ _ _ rfl ⟨hrelies, by simp⟩ (by simp) rfl
  | cancel cause =>
    simp only [step] at h
    split at h <;> cases h
    · rename_i hfree
      exact ⟨⟨trivial, by simp⟩, fun _ => .inr hfree, fun h => by
        simp [Call.isLaunching, isLaunching] at h⟩
    · exact .free _ _ _ _ (hcancel _) (by simp)
  | cancelMark cause =>
    simp only [step] at h
    split at h
    · simp at h
    · split at h <;> cases h
      · exact .nil _ _ _ _
      · exact .underLock _ _ _ rfl trivial (by simp) rfl
  | cancelSignal left =>
    cases left with
    | zero =>
      cases h
      exact .underLock _ _ _ rfl trivial (by simp) rfl
    | succ left =>
      simp only [step] at h
      split_ifs at h <;> cases h
      · exact .underLock _ _ _ rfl trivial (by simp [isPlain]) rfl
      · exact .underLock _ _ _ rfl trivial (by simp) rfl
      · exact .underLock _ _ _ rfl trivial (by simp) rfl
  | cancelWait left =>
    simp only [step] at h
    split_ifs at h <;> cases h
    · exact .underLock _ _ _ rfl trivial (by simp) rfl
    · exact .underLock _ _ _ rfl trivial (by simp) rfl
    · exact .underLock _ _ _ rfl trivial (by simp) rfl
  | reconcile =>
    simp only [step] at h
    split at h <;> cases h
    · exact .free _ _ _ _ hstatus (by simp)
    · exact .nil _ _ _ _

/-! ## The outline -/

/-- A step of one call leaves what the others rely on. -/
theorem Frame.step_stable (hrelies : frame.Relies s)
    (h : frame.step signals others s around = (next, s'))
    (hlocked : ¬ (frame.isLocked = true ∧ g.isLocked = true))
    (hlaunching : ¬ (frame.isLaunching = true ∧ g.isLaunching = true)) (hg : g.Relies s) :
    g.Relies s' := by
  have he := step_effect h
  have hunfinished : g.isLocked = true → s.Unfinished → s'.Unfinished := by
    rintro hlock ⟨row, hrow, hopen⟩
    refine he.row.unfinished hrow hopen (fun hframe => hlocked ⟨hframe, hlock⟩) ?_
    rintro request rfl
    simp [hrelies.2.1] at hrow
  have hrow : g.isLaunching = true → (s'.row = none ↔ s.row = none) := fun hlaunch =>
    he.row.none_iff fun request hframe => hlaunching ⟨by rw [hframe]; rfl, hlaunch⟩
  have hprocess : g.isLaunching = true → (s'.process = none ↔ s.process = none) := by
    intro hlaunch
    rcases he.process with hkept | rfl
    · exact hkept.1
    · exact absurd ⟨rfl, hlaunch⟩ hlaunching
  cases g with
  | insertRow request =>
    exact ⟨he.spooled hg.1, (hrow rfl).mpr hg.2.1, (hprocess rfl).mpr hg.2.2⟩
  | spawn => exact ⟨he.spooled hg.1, mt (hrow rfl).mp hg.2.1, (hprocess rfl).mpr hg.2.2⟩
  | register | record =>
    exact ⟨he.spooled hg.1, mt (hrow rfl).mp hg.2.1, mt (hprocess rfl).mp hg.2.2⟩
  | abort => exact he.spooled hg
  | settlePoll row => exact hunfinished rfl hg
  | settleCommit row exitCode handled =>
    refine ⟨hunfinished rfl hg.1, fun hhandled => ?_⟩
    obtain ⟨hsome, hexited⟩ := hg.2 hhandled
    rcases he.process with ⟨hkept, hdead⟩ | rfl
    · exact ⟨mt hkept.mp hsome, hdead hexited⟩
    · exact absurd hrelies.2.2 hsome
  | _ => trivial

/-- **Every step keeps the invariant.** -/
theorem Frame.step_invariant (hinv : s.Invariant) (hrelies : frame.Relies s)
    (h : frame.step signals others s around = (next, s')) : s'.Invariant := by
  have he := step_effect h
  refine ⟨fun hspooled => ?_, he.row.effectSettlement hinv.settled⟩
  have hbefore : s.spooled = false := by
    rw [Bool.eq_false_iff]
    intro hs
    rw [he.spooled hs] at hspooled
    cases hspooled
  obtain ⟨hrow, hprocess⟩ := hinv.spooled hbefore
  constructor
  · refine (he.row.none_iff ?_).mpr hrow
    rintro request rfl
    simp [hbefore, Frame.Relies] at hrelies
  · rcases he.process with hkept | rfl
    · exact hkept.1.mpr hprocess
    · simp [hbefore, Frame.Relies] at hrelies

theorem Supervisor.Invariant.exit (hinv : s.Invariant) (code : Int) : (s.exit code).Invariant where
  spooled h := ⟨(hinv.spooled h).1, (exit_process s code).1.mpr (hinv.spooled h).2⟩
  settled := hinv.settled

theorem Frame.relies_exit (hg : g.Relies s) (code : Int) : g.Relies (s.exit code) := by
  obtain ⟨hprocess, halive⟩ := exit_process s code
  cases g with
  | insertRow | spawn => exact ⟨hg.1, hg.2.1, hprocess.mpr hg.2.2⟩
  | register | record => exact ⟨hg.1, hg.2.1, mt hprocess.mp hg.2.2⟩
  | settleCommit =>
    exact ⟨hg.1, fun hhandled => ⟨mt hprocess.mp (hg.2 hhandled).1, halive (hg.2 hhandled).2⟩⟩
  | abort | settlePoll => exact hg
  | _ => trivial

/-- What a call relies on stands while every frame of it may rely on it. -/
theorem Call.relies_of {call : Call} (h : call.Relies s)
    (hframe : ∀ g ∈ call, g.Relies s → g.Relies s') : call.Relies s' := by
  cases call with
  | nil => trivial
  | cons g gs => exact ⟨hframe g mem_cons_self h.1, h.2⟩

theorem Call.of_rest {call t : Call} (h : t ∈ Call.rest call) : call = t := by
  cases call with
  | nil => simp [Call.rest] at h
  | cons frame frames => exact Option.some.inj (Option.mem_def.mp h)

theorem Call.Relies.append {next frames : Call} (h : next.Relies s)
    (hframes : ∀ g ∈ frames, g.isPlain = true) : Call.Relies s (next ++ frames) := by
  cases next with
  | nil =>
    cases frames with
    | nil => trivial
    | cons g gs =>
      exact ⟨relies_of_isPlain (hframes g mem_cons_self) s,
        fun g' hg' => hframes g' (mem_cons_of_mem g hg')⟩
  | cons g gs =>
    refine ⟨h.1, fun g' hg' => ?_⟩
    rcases mem_append.mp hg' with hg' | hg'
    · exact h.2 g' hg'
    · exact hframes g' hg'

/-- A launching call has its spool directory. -/
theorem Call.Relies.spooled {call : Call} (h : call.Relies s)
    (hlaunching : call.isLaunching = true) : s.spooled = true := by
  cases call with
  | nil => simp [Call.isLaunching] at hlaunching
  | cons g gs =>
    obtain ⟨f, hf, hlaunch⟩ := any_eq_true.mp hlaunching
    rcases mem_cons.mp hf with rfl | hf
    · cases f <;> simp [Frame.isLaunching] at hlaunch
      · exact h.1.1
      · exact h.1.1
      · exact h.1.1
      · exact h.1.1
      · exact h.1
    · have hplain := h.2 f hf
      cases f <;> simp [Frame.isPlain, Frame.isLaunching] at hplain hlaunch

/-- What goes on in the place of a step is apart from what the step's call was apart from. -/
theorem Follows.apart {others : List Call} {next frames : List Frame} {other : Call}
    (h : Follows frame others s s' next) (hframes : ∀ g ∈ frames, g.isPlain = true)
    (hapart : Call.Apart (frame :: frames) other)
    (hfree : LockFree others → other.isLocked = false) (hother : other.Relies s) :
    Call.Apart (next ++ frames) other := by
  have hmem : ∀ {p : Frame → Bool}, (next ++ frames).any p = true →
      List.any next p = true ∨ List.any frames p = true := by
    intro p hany
    rwa [any_append, Bool.or_eq_true] at hany
  constructor
  · rintro ⟨hlock, hotherlock⟩
    have hcall : Call.isLocked (frame :: frames) = true := by
      rcases hmem hlock with hnext | hrest
      · rcases h.locked hnext with hframe | hlockfree
        · exact any_eq_true.mpr ⟨frame, mem_cons_self, hframe⟩
        · simp [hfree hlockfree] at hotherlock
      · obtain ⟨g, hg, hglock⟩ := any_eq_true.mp hrest
        exact any_eq_true.mpr ⟨g, mem_cons_of_mem _ hg, hglock⟩
    exact hapart.1 ⟨hcall, hotherlock⟩
  · rintro ⟨hlaunch, hotherlaunch⟩
    have hcall : Call.isLaunching (frame :: frames) = true := by
      rcases hmem hlaunch with hnext | hrest
      · rcases h.launching hnext with hframe | hfresh
        · exact any_eq_true.mpr ⟨frame, mem_cons_self, hframe⟩
        · simp [hother.spooled hotherlaunch] at hfresh
      · obtain ⟨g, hg, hglaunch⟩ := any_eq_true.mp hrest
        have hplain := hframes g hg
        cases g <;> simp [isPlain, isLaunching] at hplain hglaunch
    exact hapart.2 ⟨hcall, hotherlaunch⟩

/-- **The assertions are a proof of the program.** -/
def sessionOutline (signals : Nat) : Pool.Outline (supervisorProgram signals) where
  inv := Supervisor.Invariant
  relies := Call.Relies
  apart := Call.Apart
  apart_symm h := ⟨fun h' => h.1 h'.symm, fun h' => h.2 h'.symm⟩
  start s request others hinv hrelies := by
    have hframes : Call.Relies s request.frames ∧ Call.isLocked request.frames = false ∧
        Call.isLaunching request.frames = false := by
      cases request <;>
        simp [Request.frames, Call.Relies, Frame.Relies, Call.isLocked, Call.isLaunching,
          isLocked, isLaunching]
    refine ⟨hinv, fun _ _ h => h, ?_, ?_⟩
    · rintro call ⟨⟩
      exact hframes.1
    · rintro call ⟨⟩ other -
      exact ⟨fun h => by simp [hframes.2.1] at h, fun h => by simp [hframes.2.2] at h⟩
  advance others s around call hinv hrelies hothers hapart := by
    cases call with
    | nil => exact ⟨hinv, fun _ _ h => h, fun t ht => by simp [supervisorProgram, Call.step] at ht,
        fun t ht => by simp [supervisorProgram, Call.step] at ht⟩
    | cons frame frames =>
      simp only [supervisorProgram, Call.step]
      cases hstep : frame.step signals others s around with
      | mk next s' =>
        have hinv' := step_invariant hinv hrelies.1 hstep
        have hstable : ∀ u ∈ others, u.Relies s → u.Relies s' := by
          intro u hu hrelied
          refine Call.relies_of hrelied fun g hg => step_stable hrelies.1 hstep ?_ ?_
          · rintro ⟨hframe, hlock⟩
            exact (hapart u hu).1 ⟨any_eq_true.mpr ⟨frame, mem_cons_self, hframe⟩,
              any_eq_true.mpr ⟨g, hg, hlock⟩⟩
          · rintro ⟨hframe, hlaunch⟩
            exact (hapart u hu).2 ⟨any_eq_true.mpr ⟨frame, mem_cons_self, hframe⟩,
              any_eq_true.mpr ⟨g, hg, hlaunch⟩⟩
        cases next with
        | none => exact ⟨hinv', hstable, by simp, by simp⟩
        | some next =>
          have hfollows := step_follows hinv hrelies.1 hstep
          refine ⟨hinv', hstable, fun t ht => ?_, fun t ht u hu => ?_⟩
          · rw [← Call.of_rest ht]
            exact hfollows.relies.append hrelies.2
          · rw [← Call.of_rest ht]
            exact hfollows.apart hrelies.2 (hapart u hu) (fun hfree => hfree u hu) (hothers u hu)
  outside _ code hinv := hinv.exit code
  outside_stable _ code _ h := Call.relies_of h fun _ _ hg => relies_exit hg code
  restart _ hinv := ⟨hinv.spooled, hinv.settled⟩

end Mishkan.Execution
