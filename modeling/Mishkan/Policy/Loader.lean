import Mishkan.Policy.Models

/-!
# Policy/Loader — an effective policy from configured sources

`load` is `PolicyLoader.load` once every source is parsed: a rule identifier that two rules claim
is refused, within a source by the document and across sources here.
-/

namespace Mishkan

/-- Which source claims which rule identifier. -/
def ruleClaims (sources : List (String × PolicyDocument)) : List (String × String) :=
  sources.flatMap fun source => source.2.rules.map fun rule => (rule.ruleId, source.1)

/-- The identifiers claimed more than once. -/
def collisions (sources : List (String × PolicyDocument)) : List (String × List String) :=
  ((ruleClaims sources).map Prod.fst).eraseDups.filterMap fun ruleId =>
    let uris := ((ruleClaims sources).filter (·.1 = ruleId)).map Prod.snd
    if 1 < uris.length then some (ruleId, uris) else none

/-- `PolicyLoader.load`.  `digest` is the fingerprint of the sources with their documents'. -/
def load (digest : List (String × PolicyDocument) → String)
    (sources : List (String × PolicyDocument)) : Except Raised EffectivePolicy :=
  if sources = [] then
    .error <| fault .configuration "at least one policy source is required"
      [("field", .str "policy_sources")]
  else if collisions sources ≠ [] then
    .error <| fault .policyConflict "policy rule identifiers collide across configured sources"
      [("collisions", .obj ((collisions sources).map fun claim => (claim.1, .strings claim.2)))]
  else .ok { documents := sources.map Prod.snd, fingerprint := digest sources }

/-- Every rule of a policy has an identifier of its own. -/
def EffectivePolicy.UniqueRuleIds (policy : EffectivePolicy) : Prop :=
  (policy.documents.flatMap fun document => document.rules.map (·.ruleId)).Nodup

theorem map_fst_ruleClaims (sources : List (String × PolicyDocument)) :
    (ruleClaims sources).map Prod.fst =
      (sources.map Prod.snd).flatMap fun document => document.rules.map (·.ruleId) := by
  simp [ruleClaims, List.map_flatMap, List.flatMap_map, Function.comp_def]

theorem count_ruleClaims_le_one {sources : List (String × PolicyDocument)}
    (h : collisions sources = []) (ruleId : String) :
    ((ruleClaims sources).map Prod.fst).count ruleId ≤ 1 := by
  by_contra hmany
  have hmem : ruleId ∈ (ruleClaims sources).map Prod.fst := List.count_pos_iff.mp (by omega)
  have hnone := List.filterMap_eq_nil_iff.mp h ruleId (List.mem_eraseDups.mpr hmem)
  simp only [List.length_map, ite_eq_right_iff, reduceCtorEq, imp_false, not_lt] at hnone
  rw [List.count_eq_length_filter, List.filter_map, List.length_map] at hmany
  exact hmany (by simpa [Function.comp_def, beq_eq_decide] using hnone)

/-- **A loaded policy has no rule identifier twice.** -/
theorem uniqueRuleIds_of_load {digest : List (String × PolicyDocument) → String}
    {sources : List (String × PolicyDocument)} {policy : EffectivePolicy}
    (h : load digest sources = .ok policy) : policy.UniqueRuleIds := by
  unfold load at h
  split_ifs at h with hempty hclash
  cases h
  rw [EffectivePolicy.UniqueRuleIds, ← map_fst_ruleClaims]
  exact List.nodup_iff_count_le_one.mpr (count_ruleClaims_le_one (not_not.mp hclash))

end Mishkan
