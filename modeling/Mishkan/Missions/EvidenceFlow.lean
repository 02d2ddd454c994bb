import Mathlib.Data.List.Pairwise
import Mishkan.Missions.AssignmentGraph

/-!
# Missions/EvidenceFlow — what an accepted assignment graph is

`EvidenceFlow` says of the latest assignments of a mission, without a search, what
`MissionAssignmentGraphValidator.validate` decides by one: the tasks depend on tasks, on none in a
circle, and what is produced flows to its evaluation and from there to a report.  The two searches
are tied to the dependency relation first, `requireAcyclic` by `requireAcyclic_eq_ok` and the
ancestors by `mem_ancestors`.
-/

namespace Mishkan

open Refusal List

namespace MissionAssignmentGraphValidator

variable {assignments : List MissionTaskAssignment}

/-- A task directly depends on another. -/
def DependsOn (assignments : List MissionTaskAssignment) (taskId dependency : String) : Prop :=
  ∃ a ∈ assignments, a.taskId = taskId ∧ dependency ∈ a.dependencies

/-- A task has another as a proper ancestor. -/
def Ancestor (assignments : List MissionTaskAssignment) : String → String → Prop :=
  Relation.TransGen (DependsOn assignments)

/-! ## Lookups -/

/-- No task is assigned twice. -/
def Unambiguous (assignments : List MissionTaskAssignment) : Prop :=
  (assignments.map (·.taskId)).Nodup

theorem find_of_mem (hkeys : Unambiguous assignments) {a : MissionTaskAssignment}
    (ha : a ∈ assignments) : find assignments a.taskId = some a := by
  have hsome : (find assignments a.taskId).isSome := by
    rw [find, List.find?_isSome]
    exact ⟨a, ha, by simp⟩
  obtain ⟨b, hb⟩ := Option.isSome_iff_exists.mp hsome
  have hid : b.taskId = a.taskId := by simpa using List.find?_some hb
  rw [hb, inj_on_of_nodup_map hkeys (mem_of_find?_eq_some hb) ha hid]

theorem mem_dependenciesOf (hkeys : Unambiguous assignments) {taskId dependency : String} :
    dependency ∈ dependenciesOf assignments taskId ↔ DependsOn assignments taskId dependency := by
  unfold dependenciesOf DependsOn
  constructor
  · intro h
    cases hfind : find assignments taskId with
    | none => simp [hfind] at h
    | some a =>
      rw [hfind] at h
      exact ⟨a, mem_of_find?_eq_some hfind, by simpa using List.find?_some hfind, h⟩
  · rintro ⟨a, ha, rfl, hmem⟩
    rwa [find_of_mem hkeys ha]

theorem edge_dependencies (hkeys : Unambiguous assignments) {taskId dependency : String} :
    DepthFirst.Edge (dependencies assignments) taskId dependency ↔
      DependsOn assignments taskId dependency := by
  unfold DepthFirst.Edge dependencies DependsOn
  constructor
  · rintro ⟨next, hnext, hmem⟩
    cases hfind : find assignments taskId with
    | none => simp [hfind] at hnext
    | some a =>
      rw [hfind, Except.ok.injEq] at hnext
      exact ⟨a, mem_of_find?_eq_some hfind, by simpa using List.find?_some hfind,
        hnext ▸ hmem⟩
  · rintro ⟨a, ha, rfl, hmem⟩
    exact ⟨a.dependencies, by rw [find_of_mem hkeys ha], hmem⟩

/-! ## The searches -/

/-- Every dependency is assigned. -/
def Known (assignments : List MissionTaskAssignment) : Prop :=
  ∀ a ∈ assignments, ∀ dependency ∈ a.dependencies, ∃ b ∈ assignments, b.taskId = dependency

theorem requireKnown_eq_ok : requireKnown assignments = .ok () ↔ Known assignments := by
  unfold requireKnown Known
  rw [forM_eq_ok]
  refine forall₂_congr fun a _ => ?_
  rw [refuseIf_eq_ok, not_not, filter_eq_nil_iff]
  simp

/-- **The search for a cycle fails exactly when there is one.** -/
theorem requireAcyclic_eq_ok (hkeys : Unambiguous assignments) (hknown : Known assignments) :
    requireAcyclic assignments = .ok () ↔ ∀ taskId, ¬ Ancestor assignments taskId taskId := by
  have hedge : DepthFirst.Edge (dependencies assignments) = DependsOn assignments := by
    funext a b
    exact propext (edge_dependencies hkeys)
  rw [requireAcyclic, DepthFirst.requireAcyclic_eq_ok, hedge]
  · rfl
  · intro taskId hmem
    obtain ⟨a, ha, rfl⟩ := mem_map.mp hmem
    refine ⟨a.dependencies, by rw [dependencies, find_of_mem hkeys ha], fun dependency hd => ?_⟩
    exact mem_map.mpr (hknown a ha dependency hd)
  · intro taskId dependency h
    obtain ⟨a, ha, hid, -⟩ := (edge_dependencies hkeys).mp h
    exact mem_map.mpr ⟨a, ha, hid⟩

/-- What the loop keeps: what is collected or pending is an ancestor, and the dependencies of what
is collected are collected or pending. -/
private theorem ancestorsLoop_spec {P : String → Prop}
    (hP : ∀ taskId, P taskId → ∀ d ∈ dependenciesOf assignments taskId, P d) {fuel : ℕ}
    {pending ancestors : List String} (hfuel : outstanding assignments pending ancestors ≤ fuel)
    (hpending : ∀ c ∈ pending, P c) (hancestors : ∀ c ∈ ancestors, P c)
    (hclosed : ∀ c ∈ ancestors, ∀ d ∈ dependenciesOf assignments c, d ∈ ancestors ∨ d ∈ pending) :
    (∀ c ∈ ancestorsLoop assignments fuel pending ancestors, P c) ∧
      (∀ c, c ∈ ancestors ∨ c ∈ pending → c ∈ ancestorsLoop assignments fuel pending ancestors) ∧
      ∀ c ∈ ancestorsLoop assignments fuel pending ancestors, ∀ d ∈ dependenciesOf assignments c,
          d ∈ ancestorsLoop assignments fuel pending ancestors := by
  induction fuel generalizing pending ancestors with
  | zero =>
    have hnil : pending = [] := length_eq_zero_iff.mp (by unfold outstanding at hfuel; omega)
    subst hnil
    refine ⟨hancestors, fun c hc => hc.resolve_right not_mem_nil, fun c hc d hd => ?_⟩
    exact (hclosed c hc d hd).resolve_right not_mem_nil
  | succ fuel ih =>
    rcases pending.eq_nil_or_concat with rfl | ⟨front, dependency, rfl⟩
    · refine ⟨hancestors, fun c hc => hc.resolve_right not_mem_nil, fun c hc d hd => ?_⟩
      exact (hclosed c hc d hd).resolve_right not_mem_nil
    rw [concat_eq_append] at *
    rw [ancestorsLoop, List.getLast?_concat, dropLast_concat]
    dsimp only
    unfold outstanding at hfuel ih
    rw [length_append, length_singleton] at hfuel
    have hfront : ∀ c ∈ front, P c := fun c hc => hpending c (mem_append_left _ hc)
    have hlast : P dependency := hpending dependency (by simp)
    by_cases hmem : dependency ∈ ancestors
    · rw [if_pos hmem]
      obtain ⟨hsound, hkept, hclosed'⟩ := ih (by omega) hfront hancestors fun c hc d hd => by
        rcases hclosed c hc d hd with h | h
        · exact .inl h
        · rcases mem_append.mp h with h | h
          · exact .inr h
          · exact .inl (mem_singleton.mp h ▸ hmem)
      refine ⟨hsound, fun c hc => hkept c ?_, hclosed'⟩
      rcases hc with hc | hc
      · exact .inl hc
      · rcases mem_append.mp hc with hc | hc
        · exact .inr hc
        · exact .inl (mem_singleton.mp hc ▸ hmem)
    · rw [if_neg hmem]
      have hadd := added_le assignments hmem
      obtain ⟨hsound, hkept, hclosed'⟩ := @ih (front ++ dependenciesOf assignments dependency)
        (dependency :: ancestors) (by rw [length_append]; omega)
        (fun c hc => by
          rcases mem_append.mp hc with hc | hc
          · exact hfront c hc
          · exact hP dependency hlast c hc)
        (fun c hc => by
          rcases mem_cons.mp hc with rfl | hc
          · exact hlast
          · exact hancestors c hc)
        fun c hc d hd => by
          rcases mem_cons.mp hc with rfl | hc
          · exact .inr (mem_append_right _ hd)
          · rcases hclosed c hc d hd with h | h
            · exact .inl (mem_cons_of_mem _ h)
            · rcases mem_append.mp h with h | h
              · exact .inr (mem_append_left _ h)
              · exact .inl (mem_singleton.mp h ▸ mem_cons_self)
      refine ⟨hsound, fun c hc => hkept c ?_, hclosed'⟩
      rcases hc with hc | hc
      · exact .inl (mem_cons_of_mem _ hc)
      · rcases mem_append.mp hc with hc | hc
        · exact .inr (mem_append_left _ hc)
        · exact .inl (mem_singleton.mp hc ▸ mem_cons_self)

/-- **The ancestors that are collected are the tasks a task transitively depends on.** -/
theorem mem_ancestors (hkeys : Unambiguous assignments) {taskId other : String} :
    other ∈ ancestors assignments taskId ↔ Ancestor assignments taskId other := by
  obtain ⟨hsound, hkept, hclosed⟩ := @ancestorsLoop_spec assignments (Ancestor assignments taskId)
    (fun c hc d hd => hc.tail ((mem_dependenciesOf hkeys).mp hd)) _
    (dependenciesOf assignments taskId) [] le_rfl
    (fun c hc => .single ((mem_dependenciesOf hkeys).mp hc))
    (fun c hc => absurd hc not_mem_nil) (fun c hc => absurd hc not_mem_nil)
  refine ⟨hsound other, fun h => ?_⟩
  induction h with
  | single hd => exact hkept _ (.inr ((mem_dependenciesOf hkeys).mpr hd))
  | tail _ hd ih => exact hclosed _ ih _ ((mem_dependenciesOf hkeys).mpr hd)

/-! ## The specification -/

/-- What the latest assignments of a mission have to be. -/
structure EvidenceFlow (assignments : List MissionTaskAssignment) : Prop where
  /-- There is something to do. -/
  accountable : assignments ≠ []
  /-- Every dependency is a task. -/
  known : Known assignments
  /-- No task depends on itself, however indirectly. -/
  acyclic : ∀ taskId, ¬ Ancestor assignments taskId taskId
  /-- An evaluation has a production to evaluate. -/
  evaluations : ∀ e ∈ assignments, e.assignmentKind = .evaluation →
    ∃ p ∈ assignments, p.assignmentKind = .production ∧ Ancestor assignments e.taskId p.taskId
  /-- Among several tasks one reports. -/
  reporting : 1 < assignments.length → ∃ r ∈ assignments, r.assignmentKind = .reporting
  /-- What requires independent evaluation is evaluated, and that is reported. -/
  independence : ∀ a ∈ assignments, a.requiresIndependentEvaluation = true →
    ∃ e ∈ assignments, e.assignmentKind = .evaluation ∧ Ancestor assignments e.taskId a.taskId ∧
      ∃ r ∈ assignments, r.assignmentKind = .reporting ∧ Ancestor assignments r.taskId e.taskId
  /-- No two tasks are bound to the same run task. -/
  bindings : ∀ a ∈ assignments, ∀ b ∈ assignments, ∀ runId taskId,
    a.executionRunId = some runId → a.executionTaskId = some taskId →
    b.executionRunId = some runId → b.executionTaskId = some taskId → a = b

theorem mem_tasksOf {kind : CrewAssignmentKind} {taskId : String} :
    taskId ∈ tasksOf assignments kind ↔
      ∃ a ∈ assignments, a.assignmentKind = kind ∧ a.taskId = taskId := by
  simp [tasksOf, and_assoc]

theorem requireEvaluations_eq_ok (hkeys : Unambiguous assignments) :
    requireEvaluations assignments = .ok () ↔ ∀ e ∈ assignments, e.assignmentKind = .evaluation →
        ∃ p ∈ assignments, p.assignmentKind = .production ∧
          Ancestor assignments e.taskId p.taskId := by
  unfold requireEvaluations
  simp only [forM_eq_ok, refuseIf_eq_ok, mem_ancestors hkeys, mem_tasksOf]
  constructor
  · intro h e he hkind
    have hsome := h e.taskId ⟨e, he, hkind, rfl⟩
    push Not at hsome
    obtain ⟨_, hanc, p, hp, hprod, rfl⟩ := hsome
    exact ⟨p, hp, hprod, hanc⟩
  · rintro h _ ⟨e, he, hkind, rfl⟩ hall
    obtain ⟨p, hp, hprod, hanc⟩ := h e he hkind
    exact hall p.taskId hanc ⟨p, hp, hprod, rfl⟩

theorem requireIndependence_eq_ok (hkeys : Unambiguous assignments) :
    requireIndependence assignments = .ok () ↔
      ∀ a ∈ assignments, a.requiresIndependentEvaluation = true →
        ∃ e ∈ assignments, e.assignmentKind = .evaluation ∧ Ancestor assignments e.taskId a.taskId ∧
          ∃ r ∈ assignments, r.assignmentKind = .reporting ∧
            Ancestor assignments r.taskId e.taskId := by
  unfold requireIndependence
  rw [forM_eq_ok]
  simp only [mem_filter, and_imp]
  refine forall₃_congr fun a _ _ => ?_
  simp only [bind_eq_ok, refuseIf_eq_ok]
  constructor
  · rintro ⟨_, -, hreported⟩
    simp only [mem_ancestors hkeys, mem_tasksOf, decide_eq_true_eq] at hreported
    push Not at hreported
    obtain ⟨_, ⟨r, hr, hrep, rfl⟩, _, ⟨e, he, heval, rfl⟩, hanc, hflow⟩ := hreported
    exact ⟨e, he, heval, hanc, r, hr, hrep, hflow⟩
  · rintro ⟨e, he, heval, hanc, r, hr, hrep, hflow⟩
    have hmem : e.taskId ∈ (tasksOf assignments .evaluation).filter fun evaluator =>
        a.taskId ∈ ancestors assignments evaluator := by
      simpa [mem_tasksOf, mem_ancestors hkeys] using ⟨⟨e, he, heval, rfl⟩, hanc⟩
    refine ⟨(), ne_nil_of_mem hmem, fun hall => ?_⟩
    obtain ⟨htask, hdown⟩ := mem_filter.mp hmem
    exact hall r.taskId (mem_tasksOf.mpr ⟨r, hr, hrep, rfl⟩) e.taskId htask hdown
      ((mem_ancestors hkeys).mpr hflow)

/-- The bindings are those of the assignments that are bound. -/
theorem exists_bindings : ∃ f : MissionTaskAssignment → Option (String × String),
    (∀ l, bindings l = l.filterMap f) ∧
      ∀ a p, f a = some p ↔ a.executionRunId = some p.1 ∧ a.executionTaskId = some p.2 := by
  refine ⟨_, fun _ => rfl, ?_⟩
  rintro a ⟨runId, taskId⟩
  cases a.executionRunId <;> cases a.executionTaskId <;> simp

theorem nodup_bindings (hkeys : Unambiguous assignments) : (bindings assignments).Nodup ↔
    ∀ a ∈ assignments, ∀ b ∈ assignments, ∀ runId taskId,
      a.executionRunId = some runId → a.executionTaskId = some taskId →
      b.executionRunId = some runId → b.executionTaskId = some taskId → a = b := by
  have hnodup : assignments.Nodup := List.Nodup.of_map _ hkeys
  obtain ⟨f, hf, hbinding⟩ := exists_bindings
  rw [hf, List.Nodup, pairwise_filterMap]
  constructor
  · intro h a ha b hb runId taskId har hat hbr hbt
    by_contra hne
    have hsymm : Std.Symm fun a a' : MissionTaskAssignment =>
        ∀ p, f a = some p → ∀ q, f a' = some q → p ≠ q :=
      ⟨fun _ _ hab q hq p hp hpq => hab p hp q hq hpq.symm⟩
    exact h.forall ha hb hne _ ((hbinding a (runId, taskId)).mpr ⟨har, hat⟩) _
      ((hbinding b (runId, taskId)).mpr ⟨hbr, hbt⟩) rfl
  · intro h
    refine hnodup.imp_of_mem fun {a b} ha hb hne p hp q hq hpq => ?_
    subst hpq
    obtain ⟨har, hat⟩ := (hbinding a p).mp hp
    obtain ⟨hbr, hbt⟩ := (hbinding b p).mp hq
    exact hne (h a ha b hb p.1 p.2 har hat hbr hbt)

/-- **The latest assignments are the ones of highest revision**, one for every task; among several
of one revision it is the one recorded first. -/
theorem latest_spec (assignments : List MissionTaskAssignment) : Unambiguous (latest assignments) ∧
      (∀ a ∈ latest assignments, Latest.IsLatest (·.taskId) (·.assignmentRevision) assignments a) ∧
      ∀ a ∈ assignments, ∃ b ∈ latest assignments, b.taskId = a.taskId :=
  ⟨Latest.nodup_keys, fun _ => Latest.isLatest_of_mem, fun _ => Latest.exists_mem_latest⟩

/-- Both searches end by themselves: with more fuel they do the same. -/
def Terminates (assignments : List MissionTaskAssignment) : Prop :=
  (∀ cycle n, assignments.length < n →
    DepthFirst.visit (dependencies assignments) cycle n [] =
      DepthFirst.visit (dependencies assignments) cycle (assignments.length + 1) []) ∧
  ∀ taskId n, outstanding assignments (dependenciesOf assignments taskId) [] ≤ n →
    ancestorsLoop assignments n (dependenciesOf assignments taskId) [] =
      ancestors assignments taskId

theorem terminates (assignments : List MissionTaskAssignment) : Terminates assignments :=
  ⟨fun cycle _ hn => visit_dependencies_fuel assignments cycle hn,
    fun _ _ hn => ancestorsLoop_fuel assignments hn le_rfl⟩

/-- **Validation ends, and accepts exactly the assignments whose evidence flows**: for every list
of assignments, of the latest one of each task. -/
theorem validate_eq_ok (assignments : List MissionTaskAssignment) :
    (∀ a ∈ latest assignments,
        Latest.IsLatest (·.taskId) (·.assignmentRevision) assignments a) ∧
      (∀ a ∈ assignments, ∃ b ∈ latest assignments, b.taskId = a.taskId) ∧
      ((latest assignments).map (·.taskId)).Nodup ∧
      Terminates (latest assignments) ∧
      (validate assignments = .ok () ↔ EvidenceFlow (latest assignments)) := by
  obtain ⟨hkeys, hlatest, hexists⟩ := latest_spec assignments
  refine ⟨hlatest, hexists, hkeys, terminates _, ?_⟩
  unfold validate
  simp only [bind_eq_ok, refuseIf_eq_ok]
  constructor
  · rintro ⟨_, hsome, _, hknown, _, hacyclic, _, heval, _, hreport, _, hindep, hbind⟩
    have hknown := requireKnown_eq_ok.mp hknown
    exact {
      accountable := hsome
      known := hknown
      acyclic := (requireAcyclic_eq_ok hkeys hknown).mp hacyclic
      evaluations := (requireEvaluations_eq_ok hkeys).mp heval
      reporting := fun hmany => by
        have hne : tasksOf (latest assignments) .reporting ≠ [] := fun h => hreport ⟨hmany, h⟩
        obtain ⟨taskId, hmem⟩ := exists_mem_of_ne_nil _ hne
        obtain ⟨r, hr, hkind, -⟩ := mem_tasksOf.mp hmem
        exact ⟨r, hr, hkind⟩
      independence := (requireIndependence_eq_ok hkeys).mp hindep
      bindings := (nodup_bindings hkeys).mp (not_not.mp hbind) }
  · intro h
    refine ⟨(), h.accountable, (), requireKnown_eq_ok.mpr h.known, (),
      (requireAcyclic_eq_ok hkeys h.known).mpr h.acyclic, (),
      (requireEvaluations_eq_ok hkeys).mpr h.evaluations, (), ?_, (),
      (requireIndependence_eq_ok hkeys).mpr h.independence,
      not_not.mpr ((nodup_bindings hkeys).mpr h.bindings)⟩
    rintro ⟨hmany, hnone⟩
    obtain ⟨r, hr, hkind⟩ := h.reporting hmany
    have hmem := mem_tasksOf.mpr ⟨r, hr, hkind, rfl⟩
    rw [hnone] at hmem
    exact absurd hmem not_mem_nil

end MissionAssignmentGraphValidator
end Mishkan
