import Mathlib.Algebra.GroupWithZero.Nat
import Mishkan.Foundations.DepthFirst
import Mishkan.Foundations.Latest
import Mishkan.Missions.Models

/-!
# Missions/AssignmentGraph — structural validation of the assignments of a mission

The dependencies of the latest assignments are searched depth first for a cycle, and backwards for
the ancestors of a task.  Both loops are bounded by what they have not visited yet;
`visit_dependencies_fuel` and `ancestorsLoop_fuel` say that the bounds are never reached.
-/

namespace Mishkan

open Refusal List

namespace MissionAssignmentGraphValidator

/-- The latest assignment of every task. -/
def latest (assignments : List MissionTaskAssignment) : List MissionTaskAssignment :=
  Latest.latest (·.taskId) (·.assignmentRevision) assignments

/-- The assignment of a task. -/
def find (assignments : List MissionTaskAssignment) (taskId : String) :
    Option MissionTaskAssignment :=
  assignments.find? (·.taskId = taskId)

/-- The dependencies of a task; none if it is not assigned. -/
def dependenciesOf (assignments : List MissionTaskAssignment) (taskId : String) : List String :=
  match find assignments taskId with
  | some a => a.dependencies
  | none => []

/-! ## Cycles -/

/-- The dependencies of a task that must be assigned. -/
def dependencies (assignments : List MissionTaskAssignment) (taskId : String) :
    Except Raised (List String) :=
  match find assignments taskId with
  | some a => .ok a.dependencies
  | none => .error (.keyError taskId)

def requireAcyclic (assignments : List MissionTaskAssignment) : Except Raised Unit :=
  DepthFirst.requireAcyclic (dependencies assignments)
    (fault .plan "mission assignment dependencies contain a cycle") (assignments.map (·.taskId))

/-- **The search of the dependencies never runs out of fuel.** -/
theorem visit_dependencies_fuel (assignments : List MissionTaskAssignment) (cycle : Raised)
    {n : ℕ} (hn : assignments.length < n) : DepthFirst.visit (dependencies assignments) cycle n [] =
      DepthFirst.visit (dependencies assignments) cycle (assignments.length + 1) [] := by
  have hleaf : ∀ taskId next, taskId ∉ assignments.map (·.taskId) →
      dependencies assignments taskId = .ok next → next = [] := by
    intro taskId next hmem hnext
    unfold dependencies at hnext
    cases hfind : find assignments taskId with
    | none => simp [hfind] at hnext
    | some a =>
      refine absurd (mem_map.mpr ⟨a, mem_of_find?_eq_some hfind, ?_⟩) hmem
      simpa using List.find?_some hfind
  have hremaining : DepthFirst.remaining (assignments.map (·.taskId)) [] = assignments.length := by
    simp [DepthFirst.remaining]
  exact DepthFirst.visit_fuel hleaf (by omega) (by omega)

/-! ## Ancestors -/

/-- Collect ancestors from the pending tasks, the last one first. -/
def ancestorsLoop (assignments : List MissionTaskAssignment) :
    ℕ → List String → List String → List String
  | 0, _, ancestors => ancestors
  | fuel + 1, pending, ancestors =>
    match pending.getLast? with
    | none => ancestors
    | some dependency =>
      if dependency ∈ ancestors then ancestorsLoop assignments fuel pending.dropLast ancestors
      else ancestorsLoop assignments fuel
        (pending.dropLast ++ dependenciesOf assignments dependency) (dependency :: ancestors)

/-- What is pending, and what the tasks that are no ancestors yet can still add. -/
def outstanding (assignments : List MissionTaskAssignment) (pending ancestors : List String) : ℕ :=
  pending.length +
    ((assignments.filter (·.taskId ∉ ancestors)).map (·.dependencies.length)).sum

/-- A new ancestor adds no more than it takes away. -/
theorem added_le (assignments : List MissionTaskAssignment) {ancestors : List String}
    {taskId : String} (hnew : taskId ∉ ancestors) : (dependenciesOf assignments taskId).length +
        ((assignments.filter (·.taskId ∉ taskId :: ancestors)).map (·.dependencies.length)).sum ≤
      ((assignments.filter (·.taskId ∉ ancestors)).map (·.dependencies.length)).sum := by
  have hmono : ∀ l : List MissionTaskAssignment,
      ((l.filter (·.taskId ∉ taskId :: ancestors)).map (·.dependencies.length)).sum ≤
        ((l.filter (·.taskId ∉ ancestors)).map (·.dependencies.length)).sum := by
    intro l
    induction l with
    | nil => simp
    | cons b l ih =>
      simp only [filter_cons, mem_cons, not_or, decide_eq_true_eq] at ih ⊢
      split <;> split <;> (simp_all; try omega)
  induction assignments with
  | nil => simp [dependenciesOf, find]
  | cons b l ih =>
    by_cases hb : b.taskId = taskId
    · have hdeps : dependenciesOf (b :: l) taskId = b.dependencies := by
        simp [dependenciesOf, find, hb]
      rw [hdeps, filter_cons_of_neg (by simp [hb]),
        filter_cons_of_pos (by simpa [hb] using hnew), map_cons, sum_cons]
      exact Nat.add_le_add_left (hmono l) _
    · have hdeps : dependenciesOf (b :: l) taskId = dependenciesOf l taskId := by
        simp [dependenciesOf, find, hb]
      rw [hdeps]
      by_cases hbanc : b.taskId ∈ ancestors
      · rw [filter_cons_of_neg (by simp [hbanc]), filter_cons_of_neg (by simp [hbanc])]
        exact ih
      · rw [filter_cons_of_pos (by simp [hbanc, hb]),
          filter_cons_of_pos (by simp [hbanc])]
        simp only [map_cons, sum_cons]
        omega

/-- **A loop with fuel for what is outstanding never runs out.** -/
theorem ancestorsLoop_fuel (assignments : List MissionTaskAssignment) {n m : ℕ}
    {pending ancestors : List String} (hn : outstanding assignments pending ancestors ≤ n)
    (hm : outstanding assignments pending ancestors ≤ m) :
    ancestorsLoop assignments n pending ancestors =
      ancestorsLoop assignments m pending ancestors := by
  induction n generalizing m pending ancestors with
  | zero =>
    have hpending : pending = [] := length_eq_zero_iff.mp (by unfold outstanding at hn; omega)
    subst hpending
    cases m <;> rfl
  | succ n ih =>
    rcases pending.eq_nil_or_concat with rfl | ⟨front, dependency, rfl⟩
    · cases m <;> rfl
    obtain ⟨m, rfl⟩ : ∃ k, m = k + 1 := by
      unfold outstanding at hm
      exact ⟨m - 1, by simp at hm; omega⟩
    rw [ancestorsLoop, ancestorsLoop, concat_eq_append, List.getLast?_concat,
      dropLast_concat]
    rw [concat_eq_append] at hn hm
    dsimp only
    unfold outstanding at hn hm ih
    simp only [length_append, length_singleton] at hn hm
    by_cases hmem : dependency ∈ ancestors
    · rw [if_pos hmem, if_pos hmem]
      exact ih (by omega) (by omega)
    · rw [if_neg hmem, if_neg hmem]
      have hadd := added_le assignments hmem
      refine ih ?_ ?_ <;> rw [length_append] <;> omega

def ancestors (assignments : List MissionTaskAssignment) (taskId : String) : List String :=
  let pending := dependenciesOf assignments taskId
  ancestorsLoop assignments (outstanding assignments pending []) pending []

/-! ## Validation -/

/-- The tasks of a kind. -/
def tasksOf (assignments : List MissionTaskAssignment) (kind : CrewAssignmentKind) : List String :=
  (assignments.filter (·.assignmentKind = kind)).map (·.taskId)

def requireKnown (assignments : List MissionTaskAssignment) : Except Raised Unit :=
  assignments.forM fun a =>
    let unknown := a.dependencies.filter (· ∉ assignments.map (·.taskId))
    refuseIf (unknown ≠ []) <|
      fault .plan "mission assignment references unknown dependencies"
        [("task_id", .str a.taskId),
          ("unknown_task_ids", .strings (unknown.insertionSort (· ≤ ·)))]

/-- An evaluation has something to evaluate. -/
def requireEvaluations (assignments : List MissionTaskAssignment) : Except Raised Unit :=
  (tasksOf assignments .evaluation).forM fun taskId =>
    refuseIf (∀ ancestor ∈ ancestors assignments taskId,
        ancestor ∉ tasksOf assignments .production) <|
      fault .roleConflict "independent evaluation has no upstream production result"
        [("task_id", .str taskId)]

/-- What requires independent evaluation is evaluated, and the evaluation is reported. -/
def requireIndependence (assignments : List MissionTaskAssignment) : Except Raised Unit :=
  (assignments.filter (·.requiresIndependentEvaluation)).forM fun a => do
    let downstream := (tasksOf assignments .evaluation).filter fun evaluator =>
      a.taskId ∈ ancestors assignments evaluator
    refuseIf (downstream = []) <|
      fault .roleConflict "production work lacks a downstream independent evaluation"
        [("task_id", .str a.taskId)]
    refuseIf (∀ reporter ∈ tasksOf assignments .reporting, ∀ evaluator ∈ downstream,
        evaluator ∉ ancestors assignments reporter) <|
      fault .roleConflict "independently evaluated production lacks downstream reporting"
        [("task_id", .str a.taskId)]

/-- The run tasks the assignments are bound to. -/
def bindings (assignments : List MissionTaskAssignment) : List (String × String) :=
  assignments.filterMap fun a =>
    match a.executionRunId, a.executionTaskId with
    | some runId, some taskId => some (runId, taskId)
    | _, _ => none

def validate (assignments : List MissionTaskAssignment) : Except Raised Unit := do
  let latest := latest assignments
  refuseIf (latest = []) <| fault .mission "mission has no accountable task assignments"
  requireKnown latest
  requireAcyclic latest
  requireEvaluations latest
  refuseIf (1 < latest.length ∧ tasksOf latest .reporting = []) <|
    fault .roleConflict "multi-task mission has no separately attributable reporting task"
  requireIndependence latest
  refuseIf (¬ (bindings latest).Nodup) <|
    fault .plan "mission assignments cannot share one durable run-task binding"

end MissionAssignmentGraphValidator
end Mishkan
