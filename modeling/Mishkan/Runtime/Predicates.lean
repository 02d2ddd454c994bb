import Mishkan.Domain.Errors
import Mishkan.Foundations.Dynamic
import Mishkan.Foundations.Refusal

/-!
# Runtime/Predicates — the predicates that end a bounded workflow loop

A predicate is a JSON object with one operator.  `evaluateNode` visits its nodes depth first, all
operands of a conjunction or disjunction included, and counts them; `visits` has the depth of every
node that is within the bounds, in the order of the visits.
-/

namespace Mishkan.PredicateEvaluator

open Refusal

structure PredicateLimits where
  maxDepth : ℕ := 12
  maxNodes : ℕ := 128
deriving DecidableEq

/-! ## Paths -/

/-- The member or item of a value that a segment of a path names. -/
def child (current : Json) (part : String) : Except Raised (Option Json) :=
  match current with
  | .obj members => .ok (Json.lookup members part)
  | .arr items =>
    if Digits.isdigit part then do
      let index ← require (Digits.int? part) (.valueError "invalid literal for int() with base 10")
      return items[index]?
    else .ok none
  | _ => .ok none

/-- Follow the segments of a path. -/
def descend (current : Json) : List String → Except Raised (Option Json)
  | [] => .ok (some current)
  | part :: parts => do
    match ← child current part with
    | some next => descend next parts
    | none => return none

/-- The segments of a path. -/
def segments (path : String) : List String := (path.toList.splitOn '.').map String.ofList

/-- A path is empty, or begins or ends with a dot. -/
def pathInvalid (path : String) : Bool :=
  path = "" ∨ path.toList.head? = some '.' ∨ path.toList.getLast? = some '.'

def resolve (results : JsonObject) (path : String) : Except Raised (Option Json) := do
  refuseIf (pathInvalid path) (fault .plan "workflow result path is invalid")
  descend (.obj results) (segments path)

/-! ## Operators -/

/-- What a comparison says of two values, if it says anything. -/
def compareValues (operator : String) (actual expected : Json) : Option Bool :=
  if operator = "eq" then some (Json.same actual expected)
  else if operator = "ne" then some (!Json.same actual expected)
  else if operator = "lt" then Json.ordered .lt actual expected
  else if operator = "le" then Json.ordered .le actual expected
  else if operator = "gt" then Json.ordered .gt actual expected
  else if operator = "ge" then Json.ordered .ge actual expected
  else if operator = "in" then Json.isIn actual expected
  else Json.isIn expected actual

def comparisons : List String := ["eq", "ne", "lt", "le", "gt", "ge", "in", "contains"]

/-- An operator that has no predicates below it. -/
def evaluateLeaf (results : JsonObject) (operator : String) (operand : Json) :
    Except Raised Bool :=
  if operator = "exists" then
    match operand with
    | .str path => return (← resolve results path).isSome
    | _ => .error (fault .plan "exists predicate requires a result path")
  else if operator ∉ comparisons then
    .error (fault .plan "workflow predicate operator is unsupported")
  else
    match operand with
    | .arr [.str path, expected] => do
      match ← resolve results path with
      | none => return false
      | some actual =>
        require (compareValues operator actual expected)
          (fault .plan "workflow predicate operands are incompatible")
    | _ => .error (fault .plan "comparison predicate requires path and literal")

/-! ## Evaluation -/

/-- The depths of the nodes that were visited. -/
abbrev Visits := List ℕ

/-- The value of a conjunction or disjunction whose operands have these values. -/
def combine (operator : String) (operands : List Json) (values : List Bool) :
    Except Raised Bool :=
  if values.length ≠ operands.length then
    .error (fault .plan "logical predicate operand is invalid")
  else .ok (if operator = "all" then values.all id else values.any id)

variable (limits : PredicateLimits) (results : JsonObject)

mutual

def evaluateNode (predicate : JsonObject) (depth : ℕ) (visits : Visits) :
    Except Raised Bool × Visits :=
  if limits.maxDepth < depth ∨ limits.maxNodes < visits.length + 1 then
    (.error (fault .plan "workflow predicate exceeds configured bounds"), visits)
  else
    match predicate with
    | [(operator, operand)] => evaluateOperator operator operand depth (visits ++ [depth])
    | _ =>
      (.error (fault .plan "workflow predicate requires exactly one operator"), visits ++ [depth])

def evaluateOperator (operator : String) (operand : Json) (depth : ℕ) (visits : Visits) :
    Except Raised Bool × Visits :=
  if operator = "all" ∨ operator = "any" then
    match operand with
    | .arr (item :: items) =>
      match evaluateItems (item :: items) (depth + 1) visits with
      | (.ok values, visits) => (combine operator (item :: items) values, visits)
      | (.error e, visits) => (.error e, visits)
    | _ => (.error (fault .plan (operator ++ " predicate requires operands")), visits)
  else if operator = "not" then
    match operand with
    | .obj predicate =>
      match evaluateNode predicate (depth + 1) visits with
      | (.ok value, visits) => (.ok (!value), visits)
      | (.error e, visits) => (.error e, visits)
    | _ => (.error (fault .plan "not predicate requires one predicate"), visits)
  else (evaluateLeaf results operator operand, visits)

/-- The values of the operands that are predicates. -/
def evaluateItems (items : List Json) (depth : ℕ) (visits : Visits) :
    Except Raised (List Bool) × Visits :=
  match items with
  | [] => (.ok [], visits)
  | .obj predicate :: items =>
    match evaluateNode predicate depth visits with
    | (.error e, visits) => (.error e, visits)
    | (.ok value, visits) =>
      match evaluateItems items depth visits with
      | (.error e, visits) => (.error e, visits)
      | (.ok values, visits) => (.ok (value :: values), visits)
  | _ :: items => evaluateItems items depth visits

end

def evaluate (predicate : JsonObject) : Except Raised Bool :=
  (evaluateNode limits results predicate 0 []).1

end Mishkan.PredicateEvaluator
