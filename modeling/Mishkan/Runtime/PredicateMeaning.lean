import Mishkan.Runtime.Predicates

/-!
# Runtime/PredicateMeaning — what a predicate means, and when its evaluation ends as declared

`Holds` is the meaning of a predicate, composed of the meanings of its operators; an evaluation that
returns returns it (`evaluate_sound`), within the bounds (`Bounded`).

An evaluation makes its tests one after another and ends at the first that fails (`nodeTests`).
What fails is a planning error, with one exception: a segment of digits of no decimal system, or of
too many digits, is taken for the index of a list (`Misindexes`).
-/

namespace Mishkan.PredicateEvaluator

open Refusal List

variable {limits : PredicateLimits} {results : JsonObject}

/-! ## Meaning -/

/-- A segment names a member of an object, or by its position an item of a list. -/
inductive Child : Json → String → Json → Prop where
  | member {members : JsonObject} {part : String} {value : Json} :
    Json.lookup members part = some value → Child (.obj members) part value
  | item {items : List Json} {part : String} {index : ℕ} {value : Json} :
    Digits.isdigit part = true → Digits.int? part = some index → items[index]? = some value →
      Child (.arr items) part value

/-- The segments lead from a value to another. -/
inductive Leads : Json → List String → Json → Prop where
  | here (value : Json) : Leads value [] value
  | step {current next value : Json} {part : String} {parts : List String} :
    Child current part next → Leads next parts value → Leads current (part :: parts) value

variable {found : Option Json}

/-- An operator that has no predicates below it holds; a comparison does not hold of a path that
leads nowhere. -/
def LeafHolds (results : JsonObject) (operator : String) : Json → Prop
  | .str path => operator = "exists" ∧ ∃ value, Leads (.obj results) (segments path) value
  | .arr [.str path, expected] => operator ≠ "exists" ∧
    ∃ actual, Leads (.obj results) (segments path) actual ∧
      compareValues operator actual expected = some true
  | _ => False

mutual

def Holds (results : JsonObject) : JsonObject → Prop
  | [(operator, operand)] => OperatorHolds results operator operand
  | _ => False

def OperatorHolds (results : JsonObject) (operator : String) (operand : Json) : Prop :=
  if operator = "all" then
    match operand with
    | .arr items => AllHold results items
    | _ => False
  else if operator = "any" then
    match operand with
    | .arr items => AnyHolds results items
    | _ => False
  else if operator = "not" then
    match operand with
    | .obj predicate => ¬ Holds results predicate
    | _ => False
  else LeafHolds results operator operand

def AllHold (results : JsonObject) : List Json → Prop
  | [] => True
  | .obj predicate :: items => Holds results predicate ∧ AllHold results items
  | _ :: _ => False

def AnyHolds (results : JsonObject) : List Json → Prop
  | [] => False
  | .obj predicate :: items => Holds results predicate ∨ AnyHolds results items
  | _ :: items => AnyHolds results items

end

/-! ## Paths -/

theorem child_eq_ok {current : Json} {part : String}
    (h : child current part = .ok found) (value : Json) :
    found = some value ↔ Child current part value := by
  match current, h with
  | .obj members, h =>
    obtain rfl := Except.ok.inj h
    exact ⟨.member, fun hchild => by cases hchild; assumption⟩
  | .arr items, h =>
    simp only [child] at h
    by_cases hdigit : Digits.isdigit part = true
    · rw [if_pos hdigit] at h
      obtain ⟨index, hindex, hitem⟩ := bind_eq_ok.mp h
      rw [require_eq_ok] at hindex
      obtain rfl := pure_eq_ok.mp hitem
      refine ⟨.item hdigit hindex, fun hchild => ?_⟩
      obtain _ | ⟨-, hindex', hget⟩ := hchild
      rw [hindex, Option.some.injEq] at hindex'
      exact hindex' ▸ hget
    · rw [if_neg hdigit] at h
      obtain rfl := Except.ok.inj h
      exact ⟨nofun, fun hchild => by cases hchild; contradiction⟩
  | .null, h | .bool _, h | .int _, h | .decimal _ _, h | .str _, h =>
    obtain rfl := Except.ok.inj h
    exact ⟨nofun, nofun⟩

/-- Following a path finds what it leads to. -/
theorem descend_eq_ok {current : Json} {parts : List String}
    (h : descend current parts = .ok found) (value : Json) :
    found = some value ↔ Leads current parts value := by
  induction parts generalizing current with
  | nil =>
    obtain rfl := Except.ok.inj h
    constructor
    · rintro ⟨⟩
      exact .here _
    · rintro ⟨⟩
      rfl
  | cons part parts ih =>
    obtain ⟨next, hnext, hrest⟩ := bind_eq_ok.mp h
    have hchild := child_eq_ok hnext
    cases next with
    | none =>
      obtain rfl := pure_eq_ok.mp hrest
      refine ⟨nofun, fun hleads => ?_⟩
      obtain _ | ⟨hstep, -⟩ := hleads
      exact absurd ((hchild _).mpr hstep) nofun
    | some next =>
      rw [ih hrest]
      refine ⟨.step ((hchild next).mp rfl), fun hleads => ?_⟩
      obtain _ | ⟨hstep, hrest'⟩ := hleads
      rwa [Option.some.inj ((hchild _).mpr hstep)]

variable {path : String}

theorem resolve_eq_ok (h : resolve results path = .ok found) (value : Json) :
    found = some value ↔ Leads (.obj results) (segments path) value := by
  replace h := of_bind h
  exact descend_eq_ok h value

variable {operator : String} {operand : Json}

/-- What an operator without predicates below it returns. -/
theorem evaluateLeaf_eq_ok {b : Bool}
    (h : evaluateLeaf results operator operand = .ok b) :
    b = true ↔ LeafHolds results operator operand := by
  unfold evaluateLeaf at h
  by_cases hexists : operator = "exists"
  · rw [if_pos hexists] at h
    subst hexists
    cases operand with
    | str path =>
      obtain ⟨found, hfound, h⟩ := bind_eq_ok.mp h
      obtain rfl := pure_eq_ok.mp h
      rw [Option.isSome_iff_exists]
      simp only [LeafHolds, true_and, resolve_eq_ok hfound]
    | _ => cases h
  · rw [if_neg hexists] at h
    by_cases hcomparison : operator ∉ comparisons
    · rw [if_pos hcomparison] at h
      cases h
    rw [if_neg hcomparison] at h
    match operand, h with
    | .arr [.str path, expected], h =>
      obtain ⟨found, hfound, h⟩ := bind_eq_ok.mp h
      simp only [LeafHolds, ne_eq, hexists, not_false_eq_true, true_and, ← resolve_eq_ok hfound]
      cases found with
      | none =>
        obtain rfl := pure_eq_ok.mp h
        simp
      | some actual =>
        have hvalue := require_eq_ok.mp h
        simp [hvalue]

/-! ## The tests of an evaluation -/

/-- What an evaluation can fail at: an operator without predicates below it, or a node that is
ill-formed or out of bounds. -/
inductive Test where
  | leaf (operator : String) (operand : Json)
  | stop (message : String)

/-- The error of a test that fails. -/
def Test.failure (results : JsonObject) : Test → Option Raised
  | .leaf operator operand =>
    match evaluateLeaf results operator operand with
    | .ok _ => none
    | .error e => some e
  | .stop message => some (fault .plan message)

/-- The error of the first test that fails. -/
def firstFailure (results : JsonObject) (tests : List Test) : Option Raised :=
  tests.findSome? (·.failure results)

/-- A list has an operand that is no predicate. -/
def isPredicate : Json → Bool
  | .obj _ => true
  | _ => false

mutual

/-- The tests of a node in their order, and how many nodes are visited when all of them pass. -/
def nodeTests (limits : PredicateLimits) (predicate : JsonObject) (depth nodes : ℕ) :
    List Test × ℕ :=
  if limits.maxDepth < depth ∨ limits.maxNodes < nodes + 1 then
    ([.stop "workflow predicate exceeds configured bounds"], nodes)
  else
    match predicate with
    | [(operator, operand)] => operatorTests limits operator operand depth (nodes + 1)
    | _ => ([.stop "workflow predicate requires exactly one operator"], nodes + 1)

def operatorTests (limits : PredicateLimits) (operator : String) (operand : Json)
    (depth nodes : ℕ) : List Test × ℕ :=
  if operator = "all" ∨ operator = "any" then
    match operand with
    | .arr (item :: items) =>
      let (tests, nodes) := itemsTests limits (item :: items) (depth + 1) nodes
      (if (item :: items).all isPredicate then tests
        else tests ++ [.stop "logical predicate operand is invalid"], nodes)
    | _ => ([.stop (operator ++ " predicate requires operands")], nodes)
  else if operator = "not" then
    match operand with
    | .obj predicate => nodeTests limits predicate (depth + 1) nodes
    | _ => ([.stop "not predicate requires one predicate"], nodes)
  else ([.leaf operator operand], nodes)

def itemsTests (limits : PredicateLimits) (items : List Json) (depth nodes : ℕ) :
    List Test × ℕ :=
  match items with
  | [] => ([], nodes)
  | .obj predicate :: items =>
    let (tests, nodes) := nodeTests limits predicate depth nodes
    let (others, nodes) := itemsTests limits items depth nodes
    (tests ++ others, nodes)
  | _ :: items => itemsTests limits items depth nodes

end

/-! ## Soundness -/

/-- The nodes that were visited are within the bounds. -/
def Bounded (limits : PredicateLimits) (visits : Visits) : Prop :=
  visits.length ≤ limits.maxNodes ∧ ∀ depth ∈ visits, depth ≤ limits.maxDepth

/-- A run of the evaluation makes the tests up to the first that fails, and returns what it has to
when all of them pass. -/
structure Sound (limits : PredicateLimits) (results : JsonObject) {α : Type} (Meaning : α → Prop)
    (visits : Visits) (tests : List Test × ℕ) (run : Except Raised α × Visits) : Prop where
  bounded : Bounded limits visits → Bounded limits run.2
  passed : ∀ a, run.1 = .ok a →
    Meaning a ∧ firstFailure results tests.1 = none ∧ tests.2 = run.2.length
  failed : ∀ e, run.1 = .error e → firstFailure results tests.1 = some e

theorem Sound.stop {α : Type} {Meaning : α → Prop} {visits visits' : Visits}
    {message : String} {n : ℕ} (h : Bounded limits visits → Bounded limits visits') :
    Sound limits results Meaning visits ([.stop message], n)
      (.error (fault .plan message), visits') where
  bounded := h
  passed _ h := nomatch h
  failed _ h := by
    obtain rfl := Except.error.inj h
    rfl

/-- The values of operands: one for each that is a predicate, with its meaning. -/
structure ItemsMeaning (results : JsonObject) (items : List Json) (values : List Bool) : Prop where
  length_le : values.length ≤ items.length
  length_eq : values.length = items.length ↔ items.all isPredicate = true
  all : items.all isPredicate = true → (values.all id = true ↔ AllHold results items)
  any : items.all isPredicate = true → (values.any id = true ↔ AnyHolds results items)

/-- The value of a conjunction or disjunction. -/
theorem ItemsMeaning.combine {items : List Json} {values : List Bool}
    (h : ItemsMeaning results items values) (hitems : items.all isPredicate = true)
    (hlogical : operator = "all" ∨ operator = "any") :
    PredicateEvaluator.combine operator items values =
        .ok (if operator = "all" then values.all id else values.any id) ∧
      ((if operator = "all" then values.all id else values.any id) = true ↔
        OperatorHolds results operator (.arr items)) := by
  refine ⟨by rw [PredicateEvaluator.combine, if_neg (not_not.mpr (h.length_eq.mpr hitems))], ?_⟩
  rw [OperatorHolds.eq_def]
  rcases hlogical with rfl | rfl
  · exact h.all hitems
  · exact h.any hitems

theorem firstFailure_append {tests others : List Test} : firstFailure results (tests ++ others) =
      (firstFailure results tests).or (firstFailure results others) := List.findSome?_append

mutual

theorem evaluateNode_sound (limits : PredicateLimits) (results predicate : JsonObject) (depth : ℕ)
    (visits : Visits) : Sound limits results (· = true ↔ Holds results predicate) visits
      (nodeTests limits predicate depth visits.length)
      (evaluateNode limits results predicate depth visits) := by
  rw [evaluateNode.eq_def, nodeTests.eq_def]
  by_cases hbounds : limits.maxDepth < depth ∨ limits.maxNodes < visits.length + 1
  · rw [if_pos hbounds, if_pos hbounds]
    exact .stop id
  rw [if_neg hbounds, if_neg hbounds]
  have hvisit : Bounded limits visits → Bounded limits (visits ++ [depth]) := by
    rintro ⟨hlength, hdepths⟩
    refine ⟨by rw [length_append, length_singleton]; omega, fun d hd => ?_⟩
    rcases mem_append.mp hd with hd | hd
    · exact hdepths d hd
    · rw [mem_singleton.mp hd]
      omega
  match predicate with
  | [] => exact .stop hvisit
  | [(operator, operand)] =>
    have h := evaluateOperator_sound limits results operator operand depth (visits ++ [depth])
    rw [length_append, length_singleton] at h
    exact { bounded := fun hb => h.bounded (hvisit hb), passed := h.passed, failed := h.failed }
  | _ :: _ :: _ => exact .stop hvisit

theorem evaluateOperator_sound (limits : PredicateLimits) (results : JsonObject)
    (operator : String) (operand : Json) (depth : ℕ) (visits : Visits) :
    Sound limits results (· = true ↔ OperatorHolds results operator operand) visits
      (operatorTests limits operator operand depth visits.length)
      (evaluateOperator limits results operator operand depth visits) := by
  rw [evaluateOperator.eq_def, operatorTests.eq_def]
  by_cases hlogical : operator = "all" ∨ operator = "any"
  · rw [if_pos hlogical, if_pos hlogical]
    match operand with
    | .arr (item :: items) =>
      have h := evaluateItems_sound limits results (item :: items) (depth + 1) visits
      dsimp only
      generalize evaluateItems limits results (item :: items) (depth + 1) visits = run at h ⊢
      generalize itemsTests limits (item :: items) (depth + 1) visits.length = tests at h ⊢
      obtain ⟨x | values, visits'⟩ := run
      · -- one of the operands fails
        refine ⟨h.bounded, nofun, fun e he => ?_⟩
        obtain rfl := Except.error.inj he
        have hfailed := h.failed x rfl
        dsimp only
        split
        · exact hfailed
        · rw [firstFailure_append, hfailed]
          rfl
      · obtain ⟨hmeaning, hpassed, hnodes⟩ := h.passed values rfl
        dsimp only
        by_cases hitems : (item :: items).all isPredicate = true
        · obtain ⟨hcombine, hvalue⟩ := hmeaning.combine hitems hlogical
          rw [if_pos hitems, hcombine]
          refine ⟨h.bounded, fun b hb => ?_, nofun⟩
          obtain rfl := Except.ok.inj hb
          exact ⟨hvalue, hpassed, hnodes⟩
        · have hcombine : combine operator (item :: items) values =
              .error (fault .plan "logical predicate operand is invalid") :=
            if_pos fun hlength => hitems (hmeaning.length_eq.mp hlength)
          rw [if_neg hitems, hcombine]
          refine ⟨h.bounded, nofun, fun e he => ?_⟩
          obtain rfl := Except.error.inj he
          rw [firstFailure_append, hpassed]
          rfl
    | .arr [] | .null | .bool _ | .int _ | .decimal _ _ | .str _ | .obj _ => exact .stop id
  rw [if_neg hlogical, if_neg hlogical]
  obtain ⟨hnotall, hnotany⟩ := not_or.mp hlogical
  by_cases hnot : operator = "not"
  · rw [if_pos hnot, if_pos hnot]
    match operand with
    | .obj predicate =>
      have h := evaluateNode_sound limits results predicate (depth + 1) visits
      dsimp only
      generalize evaluateNode limits results predicate (depth + 1) visits = run at h ⊢
      obtain ⟨x | value, visits'⟩ := run
      · exact ⟨h.bounded, nofun, h.failed⟩
      · refine ⟨h.bounded, fun b hb => ?_, nofun⟩
        obtain rfl := Except.ok.inj hb
        obtain ⟨hmeaning, hpassed, hnodes⟩ := h.passed value rfl
        refine ⟨?_, hpassed, hnodes⟩
        rw [OperatorHolds.eq_def, if_neg hnotall, if_neg hnotany, if_pos hnot]
        dsimp only
        rw [← hmeaning]
        cases value <;> simp
    | .arr _ | .null | .bool _ | .int _ | .decimal _ _ | .str _ => exact .stop id
  · rw [if_neg hnot, if_neg hnot]
    refine ⟨id, fun b hb => ⟨?_, ?_, rfl⟩, fun e he => ?_⟩
    · rw [OperatorHolds.eq_def, if_neg hnotall, if_neg hnotany, if_neg hnot]
      exact evaluateLeaf_eq_ok hb
    · have hleaf : evaluateLeaf results operator operand = .ok b := hb
      simp [firstFailure, Test.failure, hleaf]
    · have hleaf : evaluateLeaf results operator operand = .error e := he
      simp [firstFailure, Test.failure, hleaf]

theorem evaluateItems_sound (limits : PredicateLimits) (results : JsonObject) (items : List Json)
    (depth : ℕ) (visits : Visits) : Sound limits results (ItemsMeaning results items) visits
      (itemsTests limits items depth visits.length)
      (evaluateItems limits results items depth visits) := by
  rw [evaluateItems.eq_def, itemsTests.eq_def]
  match items with
  | [] =>
    refine ⟨id, fun values hvalues => ?_, nofun⟩
    obtain rfl := Except.ok.inj hvalues
    exact ⟨⟨le_rfl, by simp, fun _ => by simp [AllHold], fun _ => by simp [AnyHolds]⟩, rfl, rfl⟩
  | .obj predicate :: items =>
    have hnode := evaluateNode_sound limits results predicate depth visits
    dsimp only
    generalize evaluateNode limits results predicate depth visits = run at hnode ⊢
    generalize nodeTests limits predicate depth visits.length = tests at hnode ⊢
    obtain ⟨x | value, visits'⟩ := run
    · refine ⟨hnode.bounded, nofun, fun e he => ?_⟩
      obtain rfl := Except.error.inj he
      dsimp only
      rw [firstFailure_append, hnode.failed x rfl]
      rfl
    · obtain ⟨hmeaning, hpassed, hnodes⟩ := hnode.passed value rfl
      have hrest := evaluateItems_sound limits results items depth visits'
      rw [hnodes]
      dsimp only at hnodes ⊢
      generalize evaluateItems limits results items depth visits' = run at hrest ⊢
      generalize itemsTests limits items depth visits'.length = others at hrest ⊢
      obtain ⟨x | values, visits''⟩ := run
      · refine ⟨fun hb => hrest.bounded (hnode.bounded hb), nofun, fun e he => ?_⟩
        dsimp only
        rw [firstFailure_append, hpassed]
        exact hrest.failed e he
      · refine ⟨fun hb => hrest.bounded (hnode.bounded hb), fun vs hvs => ?_, nofun⟩
        obtain rfl := Except.ok.inj hvs
        obtain ⟨hvalues, hpassed', hnodes'⟩ := hrest.passed values rfl
        refine ⟨⟨by simpa using hvalues.length_le, by simpa [isPredicate] using hvalues.length_eq,
          fun hitems => ?_, fun hitems => ?_⟩, ?_, hnodes'⟩
        · have hall := hvalues.all (by simpa [isPredicate] using hitems)
          rw [AllHold.eq_def]
          simp only [all_cons, Bool.and_eq_true, id_eq, hmeaning, hall]
        · have hany := hvalues.any (by simpa [isPredicate] using hitems)
          rw [AnyHolds.eq_def]
          simp only [any_cons, Bool.or_eq_true, id_eq, hmeaning, hany]
        · dsimp only
          rw [firstFailure_append, hpassed]
          exact hpassed'
  | .null :: items | .bool _ :: items | .int _ :: items | .decimal _ _ :: items
  | .str _ :: items | .arr _ :: items =>
    have h := evaluateItems_sound limits results items depth visits
    refine ⟨h.bounded, fun values hvalues => ?_, h.failed⟩
    obtain ⟨hmeaning, hrest⟩ := h.passed values hvalues
    have hlength := hmeaning.length_le
    refine ⟨⟨by rw [length_cons]; omega, ?_, ?_, ?_⟩, hrest⟩
    · rw [length_cons]
      simp [isPredicate]
      omega
    · simp [isPredicate]
    · simp [isPredicate]

end

/-! ## Indexes -/

/-- The path an operator without predicates below it follows. -/
def leafPath? (operator : String) (operand : Json) : Option String :=
  if operator = "exists" then
    match operand with
    | .str path => some path
    | _ => none
  else if operator ∈ comparisons then
    match operand with
    | .arr [.str path, _] => some path
    | _ => none
  else none

def Test.path? : Test → Option String
  | .leaf operator operand => leafPath? operator operand
  | .stop _ => none

/-- The segments come to a list with digits that are no number. -/
def misindexed (current : Json) : List String → Bool
  | [] => false
  | part :: parts =>
    match current with
    | .obj members =>
      match Json.lookup members part with
      | some next => misindexed next parts
      | none => false
    | .arr items =>
      if Digits.isdigit part then
        match Digits.int? part with
        | some index =>
          match items[index]? with
          | some next => misindexed next parts
          | none => false
        | none => true
      else false
    | _ => false

/-- A test comes to a list with a segment that counts as digits and is no number: digits of no
decimal system, or too many. -/
def Test.Misindexes (results : JsonObject) (test : Test) : Prop :=
  ∃ path ∈ test.path?, pathInvalid path = false ∧
    misindexed (.obj results) (segments path) = true

/-- What `int` raises for digits that are no number. -/
abbrev notANumber : Raised := .valueError "invalid literal for int() with base 10"

/-- Following a path fails exactly at such a segment. -/
theorem descend_of_misindexed {current : Json} {parts : List String} :
    (misindexed current parts = true → descend current parts = .error notANumber) ∧
      (misindexed current parts = false → ∃ found, descend current parts = .ok found) := by
  induction parts generalizing current with
  | nil => exact ⟨(by cases ·), fun _ => ⟨some current, rfl⟩⟩
  | cons part parts ih =>
    cases current with
    | obj members =>
      rw [misindexed, descend, child, ok_bind]
      cases Json.lookup members part with
      | none => exact ⟨(by cases ·), fun _ => ⟨none, rfl⟩⟩
      | some next => exact ih
    | arr items =>
      rw [misindexed, descend, child]
      by_cases hdigit : Digits.isdigit part = true
      · rw [if_pos hdigit, if_pos hdigit]
        cases Digits.int? part with
        | none => exact ⟨fun _ => rfl, (by cases ·)⟩
        | some index =>
          rw [require, ok_bind]
          dsimp only
          cases items[index]? with
          | none => exact ⟨(by cases ·), fun _ => ⟨none, rfl⟩⟩
          | some next => exact ih
      · rw [if_neg hdigit, if_neg hdigit]
        exact ⟨(by cases ·), fun _ => ⟨none, rfl⟩⟩
    | _ => exact ⟨(by cases ·), fun _ => ⟨none, rfl⟩⟩

/-- A planning error. -/
def Planned (e : Raised) : Prop := ∃ error, e = .mishkan error ∧ error.code = .plan

theorem planned_fault (message : String) : Planned (fault .plan message) := ⟨_, rfl, rfl⟩

theorem resolve_of_misindexed :
    (pathInvalid path = false ∧ misindexed (.obj results) (segments path) = true →
      resolve results path = .error notANumber) ∧
    (¬ (pathInvalid path = false ∧ misindexed (.obj results) (segments path) = true) →
      ∀ e, resolve results path = .error e → Planned e) := by
  unfold resolve
  constructor
  · rintro ⟨hvalid, hmis⟩
    rw [refuseIf_of_not (by simp [hvalid]), ok_bind]
    exact descend_of_misindexed.1 hmis
  · intro hnot e he
    by_cases hvalid : pathInvalid path = true
    · rw [refuseIf_of hvalid] at he
      obtain rfl := Except.error.inj he
      exact planned_fault _
    · have hmis : misindexed (.obj results) (segments path) = false := by
        simpa [Bool.not_eq_true _ ▸ hvalid] using hnot
      obtain ⟨found, hfound⟩ := descend_of_misindexed.2 hmis
      rw [refuseIf_of_not hvalid, ok_bind, hfound] at he
      cases he

variable (results) in
/-- An operator that follows no path is refused. -/
theorem evaluateLeaf_of_no_path
    (h : leafPath? operator operand = none) :
    ∃ message, evaluateLeaf results operator operand = .error (fault .plan message) := by
  unfold leafPath? at h
  unfold evaluateLeaf
  by_cases hexists : operator = "exists"
  · rw [if_pos hexists] at h ⊢
    split
    · cases h
    · exact ⟨_, rfl⟩
  rw [if_neg hexists] at h ⊢
  by_cases hcomparison : operator ∈ comparisons
  · rw [if_pos hcomparison] at h
    rw [if_neg (not_not.mpr hcomparison)]
    split
    · cases h
    · exact ⟨_, rfl⟩
  · rw [if_pos hcomparison]
    exact ⟨_, rfl⟩

theorem leafPath?_eq_some
    (h : leafPath? operator operand = some path) : operator = "exists" ∧ operand = .str path ∨
      operator ≠ "exists" ∧ operator ∈ comparisons ∧
        ∃ expected, operand = .arr [.str path, expected] := by
  unfold leafPath? at h
  split_ifs at h with hexists hcomparison
  · split at h
    · exact .inl ⟨hexists, congrArg Json.str (Option.some.inj h)⟩
    · cases h
  · split at h
    · obtain rfl := Option.some.inj h
      exact .inr ⟨hexists, hcomparison, _, rfl⟩
    · cases h

variable (results) in
/-- An operator that follows a path fails where the path does, and else as planned. -/
theorem evaluateLeaf_of_path
    (h : leafPath? operator operand = some path) :
    (∀ e, resolve results path = .error e → evaluateLeaf results operator operand = .error e) ∧
      (∀ found e, resolve results path = .ok found →
        evaluateLeaf results operator operand = .error e → Planned e) := by
  rcases leafPath?_eq_some h with ⟨rfl, rfl⟩ | ⟨hexists, hcomparison, expected, rfl⟩
  · simp only [evaluateLeaf, if_true]
    refine ⟨fun e hresolve => by rw [hresolve]; rfl, fun found e hresolve he => ?_⟩
    rw [hresolve] at he
    cases he
  · simp only [evaluateLeaf, if_neg hexists, if_neg (not_not.mpr hcomparison)]
    refine ⟨fun e hresolve => by rw [hresolve]; rfl, fun found e hresolve he => ?_⟩
    rw [hresolve, ok_bind] at he
    cases found with
    | none => cases he
    | some actual =>
      dsimp only at he
      cases hvalue : compareValues operator actual expected with
      | some b =>
        rw [hvalue] at he
        cases he
      | none =>
        rw [hvalue] at he
        obtain rfl := Except.error.inj he
        exact planned_fault _

theorem Test.failure_leaf {e : Raised} :
    Test.failure results (.leaf operator operand) = some e ↔
      evaluateLeaf results operator operand = .error e := by
  rw [Test.failure]
  cases evaluateLeaf results operator operand <;> simp

variable (results) in
/-- **A test that fails fails with a planning error, unless it misindexes a list.** -/
theorem Test.failure_spec (test : Test) :
    (test.Misindexes results → test.failure results = some notANumber) ∧
    (¬ test.Misindexes results → ∀ e, test.failure results = some e → Planned e) := by
  cases test with
  | stop message =>
    refine ⟨fun ⟨_, hpath, _⟩ => absurd hpath nofun, fun _ e he => ?_⟩
    obtain rfl := Option.some.inj he
    exact planned_fault message
  | leaf operator operand =>
    simp only [Test.failure_leaf]
    cases hpath : leafPath? operator operand with
    | none =>
      obtain ⟨message, hmessage⟩ := evaluateLeaf_of_no_path results hpath
      refine ⟨fun ⟨path, hmem, _⟩ => ?_, fun _ e he => ?_⟩
      · rw [Test.path?, hpath] at hmem
        cases hmem
      · rw [hmessage] at he
        obtain rfl := Except.error.inj he
        exact planned_fault message
    | some path =>
      obtain ⟨hfails, hplanned⟩ := evaluateLeaf_of_path results hpath
      refine ⟨fun ⟨path', hmem, hmis⟩ => ?_, fun hnot e he => ?_⟩
      · rw [Test.path?, hpath, Option.mem_some] at hmem
        subst hmem
        exact hfails _ (resolve_of_misindexed.1 hmis)
      · cases hresolve : resolve results path with
        | ok found => exact hplanned found e hresolve he
        | error e' =>
          rw [hfails e' hresolve] at he
          obtain rfl := Except.error.inj he
          exact resolve_of_misindexed.2 (fun hmis => hnot ⟨path, hpath, hmis⟩) e' hresolve

/-- The tests are made one after another, and none that is made misindexes a list. -/
def Indexable (limits : PredicateLimits) (results predicate : JsonObject) : Prop :=
  ∀ before test after, (nodeTests limits predicate 0 0).1 = before ++ test :: after →
    (∀ t ∈ before, t.failure results = none) → ¬ test.Misindexes results

/-- **The evaluation of a predicate**: it visits no more nodes than it may and none too deep; what
it returns is what the predicate means; and if it does not return it raises the planning error,
exactly when no test it makes misindexes a list. -/
theorem evaluate_declared (limits : PredicateLimits) (results predicate : JsonObject) :
    Bounded limits (evaluateNode limits results predicate 0 []).2 ∧
      (∀ b, evaluate limits results predicate = .ok b → (b = true ↔ Holds results predicate)) ∧
      ((∀ e, evaluate limits results predicate = .error e → Planned e) ↔
        Indexable limits results predicate) := by
  have h := evaluateNode_sound limits results predicate 0 []
  refine ⟨h.bounded ⟨Nat.zero_le _, by simp⟩, fun b hb => (h.passed b hb).1, ?_, ?_⟩
  · intro hdeclared before test after htests hpass hmis
    have hfailure := (test.failure_spec results).1 hmis
    have hfirst : firstFailure results (nodeTests limits predicate 0 0).1 =
        some notANumber := by
      rw [htests, firstFailure_append, firstFailure, List.findSome?_eq_none_iff.mpr hpass,
        firstFailure, List.findSome?_cons, hfailure]
      rfl
    cases hrun : evaluate limits results predicate with
    | ok b =>
      have hnone := (h.passed b hrun).2.1
      rw [length_nil, hfirst] at hnone
      cases hnone
    | error e =>
      have hsome := h.failed e hrun
      rw [length_nil, hfirst] at hsome
      obtain ⟨error, rfl, -⟩ := hdeclared e hrun
      cases hsome
  · intro hindexable e he
    obtain ⟨before, test, after, htests, hfailure, hpass⟩ :=
      List.findSome?_eq_some_iff.mp (h.failed e he)
    exact (test.failure_spec results).2 (hindexable before test after htests hpass) e
      hfailure

/-- A superscript is a digit of no number: the evaluation does not end as declared. -/
theorem evaluate_superscript :
    ¬ ∀ (limits : PredicateLimits) (results predicate : JsonObject) (e : Raised),
      evaluate limits results predicate = .error e → Planned e := by
  intro h
  obtain ⟨error, herror, -⟩ := h { } [("items", .arr [.int 1])] [("exists", .str "items.²")]
    notANumber (by decide +kernel)
  cases herror

end Mishkan.PredicateEvaluator
