import Mishkan.Domain.Errors
import Mishkan.Foundations.JsonText
import Mishkan.Foundations.Refusal

/-!
# Tools/Inspection — inspection of content before it is persisted or passed on

`ContentInspector.inspect` refuses a text that contains a resolved secret or that a blocking rule
matches, and rewrites what the redacting rules match.
-/

namespace Mishkan.Inspection

open Refusal

/-- What `re.compile` makes of a pattern. -/
structure Expression where
  search : List Char → Bool
  /-- The text with every match replaced. -/
  sub : (replacement : String) → List Char → List Char

inductive InspectionAction where
  | block | redact
deriving DecidableEq

structure InspectionRule where
  ruleId : String
  pattern : String
  action : InspectionAction
  replacement : String := "[REDACTED]"
deriving DecidableEq

/-- An inspection profile, with the compiled expression of each of its rules. -/
structure ContentInspector where
  profileId : String
  compiled : List (InspectionRule × Expression)

namespace ContentInspector

/-- One of the secrets stands in the content. -/
def exposes (secrets : List String) (content : List Char) : Prop :=
  ∃ secret ∈ secrets, secret ≠ "" ∧ secret.toList <:+: content

instance (secrets : List String) (content : List Char) : Decidable (exposes secrets content) :=
  inferInstanceAs (Decidable (∃ secret ∈ secrets, _))

/-- Apply one rule. -/
def applyRule (inspector : ContentInspector) (content : List Char)
    (rule : InspectionRule × Expression) : Except Raised (List Char) := do
  if ¬ rule.2.search content then return content
  refuseIf (rule.1.action = .block) (fault .secretContent
    "configured inspection rule blocked content"
    [("profile_id", .str inspector.profileId), ("rule_id", .str rule.1.ruleId)])
  return rule.2.sub rule.1.replacement content

def inspect (inspector : ContentInspector) (content : List Char) (secrets : List String) :
    Except Raised (List Char) := do
  refuseIf (exposes secrets content) (fault .secretContent
    "resolved credential content reached an inspection boundary"
    [("profile_id", .str inspector.profileId)])
  inspector.compiled.foldlM inspector.applyRule content

variable {inspector : ContentInspector} {content content' : List Char} {secrets : List String}

/-- **Content that is let through shows no secret.** -/
theorem not_exposes_of_inspect (h : inspector.inspect content secrets = .ok content') :
    ¬ exposes secrets content := by
  obtain ⟨_, hexposes, -⟩ := bind_eq_ok.mp h
  exact refuseIf_eq_ok.mp hexposes

/-- Without rules, content that shows no secret is let through as it is. -/
theorem inspect_of_not_exposes (hrules : inspector.compiled = [])
    (h : ¬ exposes secrets content) : inspector.inspect content secrets = .ok content := by
  rw [inspect, refuseIf_of_not h, hrules]
  rfl

end ContentInspector

end Mishkan.Inspection
