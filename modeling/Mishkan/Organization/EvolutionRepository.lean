import Mathlib.Data.List.MinMax
import Mishkan.Domain.Errors
import Mishkan.Foundations.Refusal
import Mishkan.Foundations.Table
import Mishkan.Foundations.Transition

/-!
# Organization/EvolutionRepository — recording evidence, deciding promotions, reading competence

Evidence is about an identity, a kind and a subject, at a scope.  A promotion asks to take what is
shown at one scope for a broader one; decisions on promotions are numbered for every identity, kind
and subject.  A write is one transaction; what the roster knows, the clock and the new identities
are given.
-/

namespace Mishkan

open Refusal Transition

inductive ProfessionalEvidenceKind where
  | projectKnowledge | toolMastery | skillAssociation | demonstratedCompetence
deriving DecidableEq

inductive ProfessionalEvidenceOutcome where
  | demonstrated | partly | failed | contradicted
deriving DecidableEq

inductive ProfessionalEvidenceAttribution where
  | individualResult | teamAggregate
deriving DecidableEq

inductive LearningScopeLevel where
  | mission | project | agent | branch | organization
deriving DecidableEq

/-- `_SCOPE_RANK`. -/
def LearningScopeLevel.rank : LearningScopeLevel → ℕ
  | mission => 0
  | project => 1
  | agent => 2
  | branch => 3
  | organization => 4

structure ProfessionalLearningScope where
  level : LearningScopeLevel
  scopeId : String
deriving DecidableEq

/-- `is_broader_than`. -/
def ProfessionalLearningScope.isBroaderThan (scope other : ProfessionalLearningScope) : Prop :=
  other.level.rank < scope.level.rank

instance (scope other : ProfessionalLearningScope) : Decidable (scope.isBroaderThan other) :=
  inferInstanceAs (Decidable (_ < _))

/-- What evidence and promotions are about. -/
structure ProfessionalSubject where
  identityId : String
  kind : ProfessionalEvidenceKind
  subject : String
deriving DecidableEq

/-- `ProfessionalEvidenceRecord`; the texts and references that nothing reads are in `content`. -/
structure ProfessionalEvidenceRecord where
  evidenceId : Uuid
  about : ProfessionalSubject
  scope : ProfessionalLearningScope
  outcome : ProfessionalEvidenceOutcome
  attribution : ProfessionalEvidenceAttribution := .individualResult
  critical : Bool
  evaluatorIdentity : String
  observedAt : Instant
  freshUntil : Instant
  content : Json
deriving DecidableEq

/-- `evidence_is_attributable_and_fresh`. -/
structure ProfessionalEvidenceRecord.Validated (record : ProfessionalEvidenceRecord) : Prop where
  fresh : record.observedAt < record.freshUntil
  attributable : record.critical = true → record.outcome = .demonstrated →
    record.evaluatorIdentity ≠ record.about.identityId

/-- `ProfessionalPromotionRequest`. -/
structure ProfessionalPromotionRequest where
  requestId : Uuid
  about : ProfessionalSubject
  sourceScope : ProfessionalLearningScope
  targetScope : ProfessionalLearningScope
  supportingEvidenceIds : List Uuid
  content : Json
deriving DecidableEq

/-- `promotion_is_broader_and_unambiguous`, and what the field of the evidence requires. -/
structure ProfessionalPromotionRequest.Validated (request : ProfessionalPromotionRequest) :
    Prop where
  broader : request.targetScope.isBroaderThan request.sourceScope
  unambiguous : request.supportingEvidenceIds.Nodup
  supported : request.supportingEvidenceIds ≠ []

inductive ProfessionalPromotionDisposition where
  | accepted | rejected
deriving DecidableEq

structure ProfessionalPromotionDecision where
  decisionId : Uuid
  request : ProfessionalPromotionRequest
  disposition : ProfessionalPromotionDisposition
  revision : ℕ
  previousDecisionId : Option Uuid
  supportingEvidenceIds : List Uuid
  contradictoryEvidenceIds : List Uuid
  failureEvidenceIds : List Uuid
  decidedBy : String
  policyFingerprint : String
  reason : String
deriving DecidableEq

/-- `^[a-f0-9]{64}$`. -/
def isPolicyFingerprint (text : String) : Bool :=
  text.length = 64 && text.toList.all fun c => c.isDigit || ('a' ≤ c && c ≤ 'f')

/-- What the fields of a decision require of who decides, and why. -/
def ProfessionalPromotionDecision.isBounded (decision : ProfessionalPromotionDecision) : Bool :=
  1 ≤ decision.decidedBy.length && decision.decidedBy.length ≤ 256 &&
    isPolicyFingerprint decision.policyFingerprint &&
    3 ≤ decision.reason.length && decision.reason.length ≤ 8192

structure ProfessionalCompetenceState where
  about : ProfessionalSubject
  effectiveScope : Option ProfessionalLearningScope
  revision : ℕ
  latestDecisionId : Option Uuid
  freshnessEvaluatedAt : Instant
  supportingEvidenceIds : List Uuid
  freshSupportingEvidenceIds : List Uuid
  staleSupportingEvidenceIds : List Uuid
  contradictoryEvidenceIds : List Uuid
  failureEvidenceIds : List Uuid
deriving DecidableEq

instance : Keyed ProfessionalEvidenceRecord := .ofKey (·.evidenceId)

theorem promotion_clash_symm {k l : Uuid × Uuid × ProfessionalSubject × ℕ}
    (h : (decide (k.1 = l.1) || decide (k.2.1 = l.2.1) || decide (k.2.2 = l.2.2)) = true) :
    (decide (l.1 = k.1) || decide (l.2.1 = k.2.1) || decide (l.2.2 = k.2.2)) = true := by
  simp only [Bool.or_eq_true, decide_eq_true_eq] at h ⊢
  exact h.imp (Or.imp Eq.symm Eq.symm) Eq.symm

/-- A decision has an identity of its own, a request has one decision, and a subject has one
decision of each revision. -/
instance : Keyed ProfessionalPromotionDecision where
  Key := Uuid × Uuid × ProfessionalSubject × ℕ
  key d := (d.decisionId, d.request.requestId, d.request.about, d.revision)
  clash k l := k.1 = l.1 || k.2.1 = l.2.1 || k.2.2 = l.2.2
  clash_symm := promotion_clash_symm

/-- The tables of evidence and of decisions on promotions. -/
structure EvolutionStore where
  evidence : Table ProfessionalEvidenceRecord := ∅
  promotions : Table ProfessionalPromotionDecision := ∅
deriving DecidableEq

namespace EvolutionStore

/-! ## Rows -/

/-- `_require_identity`. -/
def requireIdentity (roster : List String) (identityId : String) : Except Raised Unit :=
  refuseIf (identityId ∉ roster) <|
    fault .roleConflict "professional evidence references an unknown organization identity"
      [("identity_id", .str identityId)]

/-- `_evidence_for_subject`. -/
def evidenceForSubject (s : EvolutionStore) (about : ProfessionalSubject) :
    List ProfessionalEvidenceRecord :=
  (s.evidence.select (·.about = about)).insertionSort fun a b => a.observedAt ≤ b.observedAt

/-- The decisions on the promotions of a subject. -/
def decisions (s : EvolutionStore) (about : ProfessionalSubject) :
    List ProfessionalPromotionDecision :=
  s.promotions.select (·.request.about = about)

/-- The decision with the greatest revision. -/
def latest (decisions : List ProfessionalPromotionDecision) :
    Option ProfessionalPromotionDecision :=
  decisions.argmax (·.revision)

/-- The identities of the records with an outcome. -/
def withOutcome (outcome : ProfessionalEvidenceOutcome)
    (records : List ProfessionalEvidenceRecord) : List Uuid :=
  (records.filter (·.outcome = outcome)).map (·.evidenceId)

/-- Individually attributed and demonstrated, and fresh at an instant. -/
def isDemonstrable (now : Instant) (record : ProfessionalEvidenceRecord) : Bool :=
  record.outcome = .demonstrated && now < record.freshUntil &&
    record.attribution = .individualResult

/-! ## Writes -/

def recordEvidence (s : EvolutionStore) (roster : List String)
    (record : ProfessionalEvidenceRecord) :
    Except Raised (ProfessionalEvidenceRecord × EvolutionStore) := do
  requireIdentity roster record.about.identityId
  requireIdentity roster record.evaluatorIdentity
  match s.evidence.find (·.evidenceId = record.evidenceId) with
  | some existing =>
    refuseIf (existing ≠ record) <|
      fault .duplicateResult "professional evidence identity contains different content"
    return (record, s)
  | none =>
    let evidence ← require (s.evidence.insert record) .integrityError
    return (record, { s with evidence := evidence })

/-- What is decided about a promotion, by whom and why. -/
structure Verdict where
  disposition : ProfessionalPromotionDisposition
  decidedBy : String
  policyFingerprint : String
  reason : String
deriving DecidableEq

/-- The decision a verdict makes of a request, behind the decisions there are. -/
def decisionOf (s : EvolutionStore) (request : ProfessionalPromotionRequest) (verdict : Verdict)
    (decisionId : Uuid) : ProfessionalPromotionDecision :=
  let records := s.evidenceForSubject request.about
  let prior := latest (s.decisions request.about)
  { decisionId := decisionId
    request := request
    disposition := verdict.disposition
    revision := (prior.map (·.revision)).getD 0 + 1
    previousDecisionId := prior.map (·.decisionId)
    supportingEvidenceIds := request.supportingEvidenceIds
    contradictoryEvidenceIds := withOutcome .contradicted records
    failureEvidenceIds := withOutcome .failed records
    decidedBy := verdict.decidedBy
    policyFingerprint := verdict.policyFingerprint
    reason := verdict.reason }

def decidePromotion (s : EvolutionStore) (roster : List String)
    (request : ProfessionalPromotionRequest) (verdict : Verdict) (now : Instant)
    (decisionId : Uuid) : Except Raised (ProfessionalPromotionDecision × EvolutionStore) := do
  requireIdentity roster request.about.identityId
  match s.promotions.find (·.request.requestId = request.requestId) with
  | some decision =>
    refuseIf (decision.request ≠ request ∨ decision.disposition ≠ verdict.disposition ∨
        decision.decidedBy ≠ verdict.decidedBy ∨
        decision.policyFingerprint ≠ verdict.policyFingerprint ∨
        decision.reason ≠ verdict.reason) <|
      fault .duplicateResult "professional promotion request contains different decision content"
    return (decision, s)
  | none =>
    let records := s.evidenceForSubject request.about
    let missing := request.supportingEvidenceIds.filter fun id =>
      !records.any (·.evidenceId = id)
    refuseIf (missing ≠ []) <|
      fault .outputContract "professional promotion references unavailable evidence"
        [("missing_evidence_ids", .strings ((missing.map Uuid.text).insertionSort (· ≤ ·)))]
    let support := request.supportingEvidenceIds.filterMap fun id =>
      records.find? (·.evidenceId = id)
    refuseIf (support.any (·.scope ≠ request.sourceScope)) <|
      fault .outputContract
        "professional promotion evidence does not match its declared source scope"
    refuseIf (verdict.disposition = .accepted ∧ ¬ support.any (isDemonstrable now)) <|
      fault .authorizationMissing <|
        "accepted professional promotion requires fresh individually attributed demonstrated " ++
          "evidence"
    let decision := s.decisionOf request verdict decisionId
    refuseIf (¬ decision.isBounded) (.valueError "ProfessionalPromotionDecision")
    let promotions ← require (s.promotions.insert decision) .integrityError
    return (decision, { s with promotions := promotions })

/-! ## Competence -/

/-- The decision in effect: the last one that accepts. -/
def effectiveDecision (s : EvolutionStore) (about : ProfessionalSubject) :
    Option ProfessionalPromotionDecision :=
  latest ((s.decisions about).filter (·.disposition = .accepted))

def competenceState (s : EvolutionStore) (roster : List String) (about : ProfessionalSubject)
    (now : Instant) : Except Raised ProfessionalCompetenceState := do
  requireIdentity roster about.identityId
  let records := s.evidenceForSubject about
  let latestDecision := latest (s.decisions about)
  let demonstrated := records.filter (·.outcome = .demonstrated)
  let freshSupport := (demonstrated.filter fun r =>
    now < r.freshUntil && r.attribution = .individualResult).map (·.evidenceId)
  return {
    about := about
    effectiveScope := (s.effectiveDecision about).bind fun decision =>
      if decision.supportingEvidenceIds.any (· ∈ freshSupport) then
        some decision.request.targetScope
      else none
    revision := (latestDecision.map (·.revision)).getD 0
    latestDecisionId := latestDecision.map (·.decisionId)
    freshnessEvaluatedAt := now
    supportingEvidenceIds := demonstrated.map (·.evidenceId)
    freshSupportingEvidenceIds := freshSupport
    staleSupportingEvidenceIds :=
      (demonstrated.filter (·.freshUntil ≤ now)).map (·.evidenceId)
    contradictoryEvidenceIds := withOutcome .contradicted records
    failureEvidenceIds := withOutcome .failed records }

/-! ## Runs -/

/-- A call that writes. -/
inductive Call where
  | recordEvidence (roster : List String)
    (record : { record : ProfessionalEvidenceRecord // record.Validated })
  | decidePromotion (roster : List String)
    (request : { request : ProfessionalPromotionRequest // request.Validated })
    (verdict : Verdict) (now : Instant) (decisionId : Uuid)

/-- What a call leaves: its own writes, or nothing of them when it fails. -/
def step (s : EvolutionStore) : Call → EvolutionStore
  | .recordEvidence roster record => commit s (s.recordEvidence roster record.1)
  | .decidePromotion roster request verdict now decisionId =>
    commit s (s.decidePromotion roster request.1 verdict now decisionId)

end EvolutionStore

end Mishkan
