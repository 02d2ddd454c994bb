import Mishkan.Persistence.Rows

/-!
# Persistence/Standing — what a run looks like from outside, and how it turns

A `Standing` is all that the life of a run depends on: its status, whether its cancellation was
requested, whether it has a plan, whether some of its tasks is not accepted yet, and whether someone
is working on one.  A `Turn` is one change of it.  `Standing.Orderly` is the invariant under which a
completed or cancelled run has no turn left that changes its status (`Turn.status_kept`), and a
running run can be run (`Standing.Orderly.runnable`).
-/

namespace Mishkan

/-- A status no operation is to leave. -/
def RunState.isTerminal : RunState → Bool
  | .completed | .cancelled => true
  | _ => false

/-- How a run stands. -/
structure Standing where
  status : RunState
  /-- The cancellation of the run was requested. -/
  requested : Bool
  /-- The run has an accepted plan. -/
  planned : Bool
  /-- Some task of the run is not accepted. -/
  unaccepted : Bool
  /-- Some task of the run is leased, executing or validating. -/
  active : Bool
deriving DecidableEq

/-- **The changes of a standing**, when no plan is accepted for a cancelled run, no completed or
cancelled run is blocked, and no run without a plan is resumed. -/
inductive Turn (a : Standing) : Standing → Prop
  | worked {active : Bool} (h : active = true → a.active = true) : Turn a { a with active }
  | awaiting (h : a.status = .planning) : Turn a { a with status := .awaitingApproval }
  | planned (h : a.planned = false) (hlive : a.status ≠ .cancelled) :
      Turn a { a with status := .queued, planned := true, unaccepted := true }
  | started (h : a.status = .queued) : Turn a { a with status := .running }
  | claimed (h : a.status = .running) (hopen : a.unaccepted = true) :
      Turn a { a with active := true }
  | failed {active : Bool} (h : a.active = true) : Turn a { a with status := .failed, active }
  | cancelling (hlive : a.status.isTerminal = false) :
      Turn a { a with requested := true, status := .cancelling }
  | cancelled (hlive : a.status.isTerminal = false) (h : a.active = false) :
      Turn a { a with requested := true, status := .cancelled }
  | settled (h : a.requested = true) :
      Turn a { a with status := .cancelled, active := false }
  | blocked (hlive : a.status.isTerminal = false) : Turn a { a with status := .blocked }
  | resumed {active : Bool} (hopen : a.requested = false)
      (h : a.status = .failed ∨ a.status = .blocked ∧ a.planned = true)
      (hactive : active = true → a.active = true) :
      Turn a { a with status := .running, active }
  | completed (hopen : a.requested = false) (h : a.planned = true) :
      Turn a { a with status := .completed, unaccepted := false, active := false }

/-- **The invariant of a standing.** -/
structure Standing.Orderly (a : Standing) : Prop where
  active : a.active = true → a.unaccepted = true
  unaccepted : a.unaccepted = true → a.planned = true
  completed : a.status = .completed →
    a.planned = true ∧ a.requested = false ∧ a.unaccepted = false
  cancelled : a.status = .cancelled → a.requested = true ∧ a.active = false
  /-- Work on a run begins with its plan. -/
  begun : a.status = .queued ∨ a.status = .running ∨ a.status = .failed → a.planned = true
  /-- A planned run that is not completed has something left to accept. -/
  unfinished : a.status ≠ .completed → a.planned = true → a.unaccepted = true

namespace Standing.Orderly

variable {a b : Standing}

/-- A running run has a plan, and a task left to accept. -/
theorem runnable (h : a.Orderly) (hrunning : a.status = .running) :
    a.planned = true ∧ a.unaccepted = true := by
  have hplanned := h.begun (.inr (.inl hrunning))
  exact ⟨hplanned, h.unfinished (by simp [hrunning]) hplanned⟩

/-- Nobody works on a run that is over. -/
theorem not_active (h : a.Orderly) (hterminal : a.status.isTerminal = true) : a.active = false := by
  cases hstatus : a.status with
  | completed =>
    have hunaccepted := (h.completed hstatus).2.2
    rw [Bool.eq_false_iff]
    intro hactive
    rw [h.active hactive] at hunaccepted
    cases hunaccepted
  | cancelled => exact (h.cancelled hstatus).2
  | _ => simp [hstatus, RunState.isTerminal] at hterminal

end Standing.Orderly

/-- **Every turn keeps the invariant.** -/
theorem Turn.orderly {a b : Standing} (h : Turn a b) (ha : a.Orderly) : b.Orderly := by
  obtain ⟨hactive, hunaccepted, hcompleted, hcancelled, hbegun, hunfinished⟩ := ha
  cases h with
  | worked h => constructor <;> grind
  | awaiting | started | claimed => constructor <;> grind
  | planned | failed | completed => constructor <;> grind
  | cancelling hlive =>
    have hopen : a.status ≠ .completed := fun heq => by simp [heq, RunState.isTerminal] at hlive
    exact ⟨hactive, hunaccepted, by simp, by simp, by simp, fun _ => hunfinished hopen⟩
  | cancelled hlive hidle =>
    have hopen : a.status ≠ .completed := fun heq => by simp [heq, RunState.isTerminal] at hlive
    exact ⟨hactive, hunaccepted, by simp, fun _ => ⟨rfl, hidle⟩, by simp,
      fun _ => hunfinished hopen⟩
  | settled h =>
    have hopen : a.status ≠ .completed := fun heq => by simp [(hcompleted heq).2.1] at h
    exact ⟨by simp, hunaccepted, by simp, fun _ => ⟨h, rfl⟩, by simp, fun _ => hunfinished hopen⟩
  | blocked hlive =>
    have hopen : a.status ≠ .completed := fun heq => by simp [heq, RunState.isTerminal] at hlive
    exact ⟨hactive, hunaccepted, by simp, by simp, by simp, fun _ => hunfinished hopen⟩
  | resumed hopen h hkept =>
    have hplanned : a.planned = true := by
      rcases h with hfailed | ⟨-, hplanned⟩
      · exact hbegun (.inr (.inr hfailed))
      · exact hplanned
    have hopen : a.status ≠ .completed := by
      rcases h with hstatus | ⟨hstatus, -⟩ <;> simp [hstatus]
    exact ⟨fun h => hactive (hkept h), hunaccepted, by simp, by simp, fun _ => hplanned,
      fun _ => hunfinished hopen⟩

/-- **A run that is over keeps its status.** -/
theorem Turn.status_kept {a b : Standing} (h : Turn a b) (ha : a.Orderly)
    (hterminal : a.status.isTerminal = true) : b.status = a.status := by
  have hidle := ha.not_active hterminal
  have hover : a.status = .completed ∨ a.status = .cancelled := by
    cases hstatus : a.status <;> simp_all [RunState.isTerminal]
  cases h with
  | worked | claimed => rfl
  | awaiting h | started h => simp [h] at hover
  | planned h hlive =>
    rcases hover with hc | hc
    · simp [(ha.completed hc).1] at h
    · exact absurd hc hlive
  | failed h => simp [hidle] at h
  | cancelling hlive | cancelled hlive | blocked hlive => simp [hlive] at hterminal
  | settled h =>
    rcases hover with hc | hc
    · simp [(ha.completed hc).2.1] at h
    · exact hc.symm
  | resumed hopen h =>
    rcases h with h | ⟨h, -⟩ <;> simp [h] at hover
  | completed hopen =>
    rcases hover with hc | hc
    · exact hc.symm
    · simp [(ha.cancelled hc).1] at hopen

end Mishkan
