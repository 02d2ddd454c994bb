import Mathlib.Algebra.GroupWithZero.Nat
import Mathlib.Data.List.MinMax
import Mathlib.Data.Prod.Lex
import Mishkan.Foundations.Glob
import Mishkan.Policy.Models

/-!
# Policy/Evaluator — closed-world authorization

`evaluate` is `PolicyAuthority.evaluate`: the rules in force whose scope matches the request are
ranked by document priority, rule priority and specificity; those ranked first have to agree, and
the one with the least id decides.
-/

namespace Mishkan

open Glob

/-! ## Matching -/

/-- `_matches_one` -/
def matchesOne (value : String) (selectors : List String) : Bool :=
  selectors.any (fnmatchcase value)

/-- `_matches_all` -/
def matchesAll (values selectors : List String) : Bool := values.all (matchesOne · selectors)

/-- The values of a request that there is one of, with their selectors. -/
def scalarPairs (request : AuthorizationRequest) (scope : PolicyScope) :
    List (String × List String) :=
  [(request.identity, scope.identities), (request.objectiveClass, scope.objectiveClasses),
    (request.repository, scope.repositories), (request.outcome, scope.outcomes),
    (request.role, scope.roles), (request.capability, scope.capabilities),
    (request.effectClass, scope.effectClasses)]

/-- The values of a request that there may be more of, with their selectors. -/
def collectionPairs (request : AuthorizationRequest) (scope : PolicyScope) :
    List (List String × List String) :=
  [(request.paths, scope.paths), (request.executables, scope.executables),
    (request.arguments, scope.arguments), (request.networkDestinations, scope.networkDestinations),
    (request.remotes, scope.remotes), (request.branches, scope.branches),
    (request.environments, scope.environments), (request.credentials, scope.credentials),
    (request.externalResources, scope.externalResources), (request.effects, scope.effects)]

/-- The limits of a scope that a request for resources exceeds. -/
def exceeds (resources : ResourceRequest) (scope : PolicyScope) : Bool :=
  scope.maxTimeoutSeconds.any (· < resources.timeoutSeconds)
    || scope.maxMemoryMb.any (· < resources.memoryMb.getD 0)
    || scope.allowNetwork.any (resources.network != ·)
    || scope.maxConcurrency.any (· < resources.concurrency)

/-- `_matches` -/
def scopeMatches (request : AuthorizationRequest) (scope : PolicyScope) : Bool :=
  (scalarPairs request scope).all (fun pair => matchesOne pair.1 pair.2)
    && (collectionPairs request scope).all (fun pair => matchesAll pair.1 pair.2)
    && request.isolationProfile.all (matchesOne · scope.isolationProfiles)
    && !exceeds request.resources scope

theorem scopeMatches_iff {request : AuthorizationRequest} {scope : PolicyScope} :
    scopeMatches request scope ↔ (∀ pair ∈ scalarPairs request scope, matchesOne pair.1 pair.2) ∧
        (∀ pair ∈ collectionPairs request scope, matchesAll pair.1 pair.2) ∧
          (∀ profile ∈ request.isolationProfile, matchesOne profile scope.isolationProfiles) ∧
            ¬exceeds request.resources scope := by
  simp [scopeMatches, and_assoc, Option.all_eq_true]

theorem not_exceeds_iff {resources : ResourceRequest} {scope : PolicyScope} :
    ¬exceeds resources scope ↔
      (∀ limit ∈ scope.maxTimeoutSeconds, resources.timeoutSeconds ≤ limit) ∧
        (∀ limit ∈ scope.maxMemoryMb, resources.memoryMb.getD 0 ≤ limit) ∧
          (∀ allowed ∈ scope.allowNetwork, resources.network = allowed) ∧
            ∀ limit ∈ scope.maxConcurrency, resources.concurrency ≤ limit := by
  simp [exceeds, and_assoc, Option.any_eq_false]

/-! ## Ranking -/

/-- A selector without a wildcard. -/
def isLiteral (selector : String) : Bool := '*' ∉ selector.toList && '?' ∉ selector.toList

def selectorGroups (scope : PolicyScope) : List (List String) :=
  [scope.identities, scope.objectiveClasses, scope.repositories, scope.outcomes, scope.roles,
    scope.capabilities, scope.effectClasses, scope.effects, scope.paths, scope.executables,
    scope.arguments, scope.networkDestinations, scope.remotes, scope.branches, scope.environments,
    scope.credentials, scope.externalResources, scope.isolationProfiles]

/-- Which limits a scope sets. -/
def limits (scope : PolicyScope) : List Bool :=
  [scope.maxTimeoutSeconds.isSome, scope.maxMemoryMb.isSome, scope.allowNetwork.isSome,
    scope.maxConcurrency.isSome]

/-- What a group of selectors counts for. -/
def groupScore (selectors : List String) : Nat :=
  if selectors = ["*"] then 0 else 1 + selectors.countP isLiteral

/-- `_specificity` -/
def specificity (scope : PolicyScope) : Nat :=
  ((selectorGroups scope).map groupScore).sum + (limits scope).countP id

/-- A rule that matches, with its document. -/
structure Match where
  document : PolicyDocument
  rule : PolicyRule
deriving DecidableEq

/-- What rules are compared by, in this order. -/
abbrev Score := Int ×ₗ Int ×ₗ Nat

instance : Preorder Score := (inferInstance : LinearOrder Score).toPreorder

def Match.score (m : Match) : Score :=
  toLex (m.document.priority, toLex (m.rule.priority, specificity m.rule.scope))

/-- A document is in force at an instant. -/
def PolicyDocument.inForce (document : PolicyDocument) (now : Instant) : Bool :=
  document.effectiveFrom.all (· ≤ now) && document.retiredAt.all (now < ·)

/-- The rules of a document that match a request. -/
def PolicyDocument.matching (document : PolicyDocument) (request : AuthorizationRequest)
    (now : Instant) : List Match :=
  ((document.rules.filter fun rule => document.inForce now && scopeMatches request rule.scope).map
    fun rule => ⟨document, rule⟩)

/-- The rules in force that match a request. -/
def matchesOf (request : AuthorizationRequest) (policy : EffectivePolicy) (now : Instant) :
    List Match :=
  policy.documents.flatMap fun document => document.matching request now

/-- Those ranked first. -/
def winners (found : List Match) : List Match :=
  found.filter fun m => (found.map Match.score).maximum = m.score

/-! ## Deciding -/

/-- How an evaluation ends that gives no decision. -/
inductive PolicyRefusal where
  /-- Rules ranked alike decide differently. -/
  | conflict (request : Digest AuthorizationRequest) (rules decisions : List String)
  /-- The approval is not for this request and policy, or not active. -/
  | approvalMismatch (request : Digest AuthorizationRequest)
deriving DecidableEq

def PolicyRefusal.code : PolicyRefusal → ErrorCode
  | .conflict _ _ _ => .policyConflict
  | .approvalMismatch _ => .authorizationMissing

def PolicyRefusal.message : PolicyRefusal → String
  | .conflict _ _ _ => "equally ranked policy rules conflict"
  | .approvalMismatch _ => "approval does not match the exact request and policy"

/-- The texts of a list, in order. -/
def sortedTexts (texts : List String) : List String := texts.mergeSort (· ≤ ·)

/-- The documents a decision was made from. -/
def policyRevisions (policy : EffectivePolicy) : List String :=
  policy.documents.map fun document => document.sourceId ++ "@" ++ document.revision

/-- The decision when no rule matches. -/
def closedWorldDefault (request : AuthorizationRequest) (policy : EffectivePolicy) :
    AuthorizationDecision where
  requestFingerprint := request.fingerprint
  planFingerprint := request.planFingerprint
  policyFingerprint := policy.fingerprint
  policyRevisions := policyRevisions policy
  decision := .deny
  matchedRuleIds := []
  decidedBy := "closed-world-default"
  reason := "no public policy rule grants the exact requested scope"

/-- The decision of a rule. -/
def decisionOf (request : AuthorizationRequest) (policy : EffectivePolicy) (first : List Match)
    (winner : Match) : AuthorizationDecision where
  requestFingerprint := request.fingerprint
  planFingerprint := request.planFingerprint
  policyFingerprint := policy.fingerprint
  policyRevisions := policyRevisions policy
  decision := winner.rule.decision
  matchedRuleIds := sortedTexts (first.map (·.rule.ruleId))
  matchedScope := some winner.rule.scope
  decidedBy := "policy:" ++ winner.document.sourceId ++ ":" ++ winner.rule.ruleId
  reason := "matched public policy rule " ++ winner.rule.ruleId

/-- The decision of a rule that asks for approval, with one. -/
def approvedDecision (decision : AuthorizationDecision) (winner : Match)
    (approval : ApprovalEvidence) : AuthorizationDecision :=
  { decision with
    decision := .allow
    approvalId := some approval.id
    decidedBy := approval.approvedBy
    reason := "interactive approval satisfied rule " ++ winner.rule.ruleId }

/-- `sorted(winners, key=rule_id)[0]`: the first of those with the least id. -/
def leastId (first : List Match) : Option Match := first.argmin fun m => m.rule.ruleId

/-- `PolicyAuthority.evaluate` -/
def evaluate (request : AuthorizationRequest) (policy : EffectivePolicy)
    (approval : Option ApprovalEvidence) (now : Instant) :
    Except PolicyRefusal AuthorizationDecision :=
  let first := winners (matchesOf request policy now)
  match leastId first with
  | none => .ok (closedWorldDefault request policy)
  | some winner =>
    if ∃ m ∈ first, m.rule.decision ≠ winner.rule.decision then
      .error (.conflict request.fingerprint (sortedTexts (first.map (·.rule.ruleId)))
        (sortedTexts ((first.map (·.rule.decision.value)).dedup)))
    else match winner.rule.decision, approval with
      | .requireApproval, some approval =>
        if approval.isActiveFor request policy now then
          .ok (approvedDecision (decisionOf request policy first winner) winner approval)
        else .error (.approvalMismatch request.fingerprint)
      | _, _ => .ok (decisionOf request policy first winner)

end Mishkan
