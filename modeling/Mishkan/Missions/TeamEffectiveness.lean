import Mishkan.Missions.AssignmentGraph

/-!
# Missions/TeamEffectiveness — collaboration plans and the evidence recorded under them

A plan and each record of evidence name the versions they are about; a record carries what its
validator enforces.  `TeamEffectivenessValidator` compares a record with the plan it is given.  What
is only stored of a record is its `content`.
-/

namespace Mishkan

open Refusal

/-! ## Kinds -/

/-- How many produce, and with whom. -/
inductive ProductionShape where
  | singleOwner | consultative | multiProducer
deriving DecidableEq

/-- What one identity does with another. -/
inductive CollaborationInteraction where
  | delegate | collaborate | consult | handoff | challenge | evaluate
deriving DecidableEq

inductive TeamHealthStatus where
  | healthy | attention | blocked | uncertain
deriving DecidableEq

inductive TeamDimension where
  | outcome | stability | flow | coordination | epistemicSafety | learning | resourceEfficiency
deriving DecidableEq

inductive AdaptationDisposition where
  | bounded | approvalRequired
deriving DecidableEq

inductive AdaptationKind where
  | repairContext | requestConsultation | requestChallenge | splitTask | combineTasks
  | reduceParallelism | reassignWithinCrew | pauseDependentWork | addCrewMember
  | changeIndependence | changeMaterialScope | expandAuthority | acceptConsequentialRisk
deriving DecidableEq

/-- The adaptations a plan may permit in advance. -/
def boundedAdaptations : List AdaptationKind :=
  [.repairContext, .requestConsultation, .requestChallenge, .splitTask, .combineTasks,
    .reduceParallelism, .reassignWithinCrew, .pauseDependentWork]

/-! ## Collaboration plans -/

/-- What an identity answers for and may decide. -/
structure CollaborationResponsibility where
  identityId : String
  responsibility : String
  decisionRights : List String
  rightsNonempty : decisionRights ≠ []

instance : DecidableEq CollaborationResponsibility := fun a b =>
  decidable_of_iff
    (a.identityId = b.identityId ∧ a.responsibility = b.responsibility ∧
      a.decisionRights = b.decisionRights)
    (by cases a; cases b; simp)

/-- An interaction of two identities. -/
structure CollaborationEdge where
  sourceIdentity : String
  targetIdentity : String
  interaction : CollaborationInteraction
  content : Json := .null
  identitiesDistinct : sourceIdentity ≠ targetIdentity
deriving DecidableEq

structure CollaborationHistoryCitation where
  missionId : Uuid
  evaluationIds : List Uuid
  content : Json := .null
  evaluationsNonempty : evaluationIds ≠ []
deriving DecidableEq

/-- A version of how a crew works together. -/
structure MissionCollaborationPlan where
  planId : Uuid
  missionId : Uuid
  version : Nat
  briefVersion : Nat
  crewVersion : Nat
  productionShape : ProductionShape
  productionOwnerIds : List String
  collaborationReasons : List String := []
  responsibilities : List CollaborationResponsibility
  interactions : List CollaborationEdge := []
  permittedAdaptations : List AdaptationKind := []
  historyCitations : List CollaborationHistoryCitation := []
  pmConfirmationId : Uuid
  ctoConfirmationId : Uuid
  content : Json := .null
  createdAt : Instant
  versionPositive : 1 ≤ version
  briefVersionPositive : 1 ≤ briefVersion
  crewVersionPositive : 1 ≤ crewVersion
  ownersUnique : productionOwnerIds.Nodup
  /-- One owner produces, unless the shape is of several producers. -/
  ownersCounted : if productionShape = .multiProducer then 2 ≤ productionOwnerIds.length
    else productionOwnerIds.length = 1
  reasoned : productionShape ≠ .singleOwner → collaborationReasons ≠ []
  consulted : productionShape = .consultative →
    ∃ edge ∈ interactions, edge.interaction = .consult ∨ edge.interaction = .challenge
  connected : productionShape = .multiProducer → interactions ≠ []
  responsibilitiesUnique : (responsibilities.map (·.identityId)).Nodup
  ownersResponsible : ∀ owner ∈ productionOwnerIds, owner ∈ responsibilities.map (·.identityId)
  edgesDeclared : ∀ edge ∈ interactions, edge.sourceIdentity ∈ responsibilities.map (·.identityId)
    ∧ edge.targetIdentity ∈ responsibilities.map (·.identityId)
  /-- A plan cannot permit a material adaptation in advance. -/
  permittedBounded : ∀ kind ∈ permittedAdaptations, kind ∈ boundedAdaptations

instance : DecidableEq MissionCollaborationPlan := fun a b =>
  decidable_of_iff
    (a.planId = b.planId ∧ a.missionId = b.missionId ∧ a.version = b.version ∧
      a.briefVersion = b.briefVersion ∧ a.crewVersion = b.crewVersion ∧
      a.productionShape = b.productionShape ∧ a.productionOwnerIds = b.productionOwnerIds ∧
      a.collaborationReasons = b.collaborationReasons ∧ a.responsibilities = b.responsibilities ∧
      a.interactions = b.interactions ∧ a.permittedAdaptations = b.permittedAdaptations ∧
      a.historyCitations = b.historyCitations ∧ a.pmConfirmationId = b.pmConfirmationId ∧
      a.ctoConfirmationId = b.ctoConfirmationId ∧ a.content = b.content ∧
      a.createdAt = b.createdAt)
    (by cases a; cases b; simp)

/-- What an identity may decide under a plan. -/
def MissionCollaborationPlan.rightsOf (plan : MissionCollaborationPlan) (identityId : String) :
    List String :=
  ((plan.responsibilities.find? (·.identityId = identityId)).map (·.decisionRights)).getD []

/-! ## Evidence -/

structure TeamDimensionAssessment where
  dimension : TeamDimension
  status : TeamHealthStatus
  content : Json := .null
deriving DecidableEq

/-- What an evaluator finds of an interval. -/
structure TeamHealthEvaluation where
  evaluationId : Uuid
  missionId : Uuid
  collaborationPlanVersion : Nat
  intervalStartedAt : Instant
  intervalEndedAt : Instant
  evidenceCursor : Nat
  assessments : List TeamDimensionAssessment
  status : TeamHealthStatus
  evaluatorIdentity : String
  content : Json := .null
  intervalOrdered : intervalStartedAt ≤ intervalEndedAt
  /-- Every dimension is assessed exactly once. -/
  dimensionsExact : (assessments.map (·.dimension)).Nodup ∧
    ∀ dimension, dimension ∈ assessments.map (·.dimension)

/-- What is changed about a team, and by whose leave. -/
structure CrewAdaptationDecision where
  decisionId : Uuid
  missionId : Uuid
  adaptationKinds : List AdaptationKind
  affectedTaskIds : List String
  affectedAssignments : List Uuid := []
  disposition : AdaptationDisposition
  beforeCrewVersion : Nat
  afterCrewVersion : Nat
  beforePlanVersion : Nat
  afterPlanVersion : Nat
  approvalReferences : List String := []
  content : Json := .null
  kindsNonempty : adaptationKinds ≠ []
  tasksNonempty : affectedTaskIds ≠ []
  /-- A material adaptation requires executive approval. -/
  materialApproved : (∃ kind ∈ adaptationKinds, kind ∉ boundedAdaptations) →
    disposition = .approvalRequired
  approvalReferenced : disposition = .approvalRequired → approvalReferences ≠ []
  boundedUnapproved : disposition = .bounded → approvalReferences = []
  boundedCrewKept : disposition = .bounded → afterCrewVersion = beforeCrewVersion
  planAdvances : beforePlanVersion ≤ afterPlanVersion

instance : DecidableEq CrewAdaptationDecision := fun a b =>
  decidable_of_iff
    (a.decisionId = b.decisionId ∧ a.missionId = b.missionId ∧
      a.adaptationKinds = b.adaptationKinds ∧ a.affectedTaskIds = b.affectedTaskIds ∧
      a.affectedAssignments = b.affectedAssignments ∧ a.disposition = b.disposition ∧
      a.beforeCrewVersion = b.beforeCrewVersion ∧ a.afterCrewVersion = b.afterCrewVersion ∧
      a.beforePlanVersion = b.beforePlanVersion ∧ a.afterPlanVersion = b.afterPlanVersion ∧
      a.approvalReferences = b.approvalReferences ∧ a.content = b.content)
    (by cases a; cases b; simp)

structure MissionRetrospective where
  retrospectiveId : Uuid
  missionId : Uuid
  collaborationPlanVersion : Nat
  authoredBy : String
  content : Json := .null
deriving DecidableEq

structure TeamSignal where
  signalId : Uuid
  missionId : Uuid
  collaborationPlanVersion : Nat
  taskIds : List String
  content : Json := .null
deriving DecidableEq

structure MissionHandoff where
  handoffId : Uuid
  missionId : Uuid
  collaborationPlanVersion : Nat
  fromIdentity : String
  toIdentity : String
  taskId : String
  content : Json := .null
  identitiesDistinct : fromIdentity ≠ toIdentity
deriving DecidableEq

instance : DecidableEq TeamHealthEvaluation := fun a b =>
  decidable_of_iff
    (a.evaluationId = b.evaluationId ∧ a.missionId = b.missionId ∧
      a.collaborationPlanVersion = b.collaborationPlanVersion ∧
      a.intervalStartedAt = b.intervalStartedAt ∧ a.intervalEndedAt = b.intervalEndedAt ∧
      a.evidenceCursor = b.evidenceCursor ∧ a.assessments = b.assessments ∧ a.status = b.status ∧
      a.evaluatorIdentity = b.evaluatorIdentity ∧ a.content = b.content)
    (by cases a; cases b; simp)

/-! ## Comparing a record with a plan -/

namespace TeamEffectivenessValidator

/-- A plan is of the Brief and the crew, by members of the crew, and confirmed as the crew is. -/
def collaborationPlan (plan : MissionCollaborationPlan) (brief : MissionBrief)
    (crew : MissionCrewRevision) : Except Raised Unit := do
  refuseIf (plan.missionId ≠ brief.missionId ∨ plan.missionId ≠ crew.missionId) <|
    fault .mission "collaboration plan mission lineage differs"
  refuseIf (plan.briefVersion ≠ brief.version ∨ plan.crewVersion ≠ crew.version) <|
    fault .revisionMismatch "collaboration plan does not reference current Brief and crew revisions"
  let referenced := plan.responsibilities.map (·.identityId)
    ++ plan.interactions.map (·.sourceIdentity) ++ plan.interactions.map (·.targetIdentity)
  let unknown := referenced.dedup.filter (· ∉ crew.members.map (·.identityId))
  refuseIf (unknown ≠ []) <|
    fault .roleConflict "collaboration plan references identities outside the Mission Crew"
      [("unknown", .strings (unknown.insertionSort (· ≤ ·)))]
  refuseIf (plan.pmConfirmationId ≠ crew.pmCompositionConfirmationId
      ∨ plan.ctoConfirmationId ≠ crew.ctoCoverageConfirmationId) <|
    fault .authorityNotGranted "collaboration plan lacks the current PM/CTO crew confirmation"

/-- Some right of an identity is one of these. -/
def holdsRight (plan : MissionCollaborationPlan) (identityId : String) (rights : List String) :
    Prop :=
  ∃ right ∈ rights, right ∈ plan.rightsOf identityId

instance (plan : MissionCollaborationPlan) (identityId : String) (rights : List String) :
    Decidable (holdsRight plan identityId rights) :=
  inferInstanceAs (Decidable (∃ _ ∈ rights, _))

/-- An evaluation is of the plan, by an independent evaluator. -/
def healthEvaluation (evaluation : TeamHealthEvaluation) (plan : MissionCollaborationPlan) :
    Except Raised Unit := do
  refuseIf (evaluation.missionId ≠ plan.missionId
      ∨ evaluation.collaborationPlanVersion ≠ plan.version) <|
    fault .revisionMismatch "health evaluation lineage is stale"
  refuseIf (evaluation.evaluatorIdentity ∈ plan.productionOwnerIds) <|
    fault .roleConflict "a production owner cannot independently evaluate team health"
  refuseIf (¬ holdsRight plan evaluation.evaluatorIdentity
      ["assignment:evaluation", "assignment:audit"]) <|
    fault .roleConflict "team-health evaluator lacks an independent evaluation responsibility"

/-- An adaptation is of the plan, which permits what is bounded. -/
def adaptation (decision : CrewAdaptationDecision) (plan : MissionCollaborationPlan) :
    Except Raised Unit := do
  refuseIf (decision.missionId ≠ plan.missionId ∨ decision.beforePlanVersion ≠ plan.version) <|
    fault .revisionMismatch "adaptation starts from stale plan"
  refuseIf (decision.disposition = .bounded
      ∧ ¬ ∀ kind ∈ decision.adaptationKinds, kind ∈ plan.permittedAdaptations) <|
    fault .authorityNotGranted "bounded adaptation is not pre-authorized by the collaboration plan"

/-- A retrospective is of the plan, by one who reports or audits. -/
def retrospective (record : MissionRetrospective) (plan : MissionCollaborationPlan) :
    Except Raised Unit := do
  refuseIf (record.missionId ≠ plan.missionId
      ∨ record.collaborationPlanVersion ≠ plan.version) <|
    fault .revisionMismatch "retrospective lineage is stale"
  refuseIf (¬ holdsRight plan record.authoredBy ["assignment:reporting", "assignment:audit"]) <|
    fault .roleConflict "mission retrospective requires an independent reporting or audit identity"

end TeamEffectivenessValidator
end Mishkan
