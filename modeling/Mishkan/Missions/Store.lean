import Mishkan.Conversations.Models
import Mishkan.Persistence.Store

/-!
# Missions/Store — the tables of missions and conversations

A record that is never rewritten is its own row.  A mission row has columns beside its payload, and
the two are written separately.  The tables of the run repository and the environment evidence are
read and not written.
-/

namespace Mishkan

/-! ## Rows and their unique constraints -/

structure MissionRow where
  id : Uuid
  state : MissionState
  revision : Nat
  organizationId : String
  organizationVersion : String
  currentBriefVersion : Option Nat
  currentCrewVersion : Option Nat
  currentEnvironmentPlanVersion : Option Nat
  payload : MissionRecord
  updatedAt : Instant
deriving DecidableEq

instance : Keyed MissionRow := .ofKey (·.id)

instance : Keyed OrganizationRosterDefinition :=
  .ofKey fun r => (r.organizationId, r.organizationVersion)

instance : Keyed MissionBrief := .ofKeys fun r => (r.briefId, r.missionId, r.version)

instance : Keyed MissionCrewRevision := .ofKeys fun r => (r.crewId, r.missionId, r.version)

instance : Keyed MissionTaskAssignment :=
  .ofKeys fun r => (r.assignmentId, r.missionId, r.taskId, r.assignmentRevision)

instance : Keyed MissionTransition := .ofKey (·.transitionId)

instance : Keyed MissionRunBinding :=
  .ofKeys fun r => (r.bindingId, r.missionId, r.bindingKey, r.bindingRevision)

instance : Keyed MissionRunReport := .ofKeys fun r => (r.reportId, r.missionId, r.runId)

instance : Keyed MissionEnvironmentPlanAcceptance where
  Key := Uuid × (Uuid × Nat) × Digest MissionEnvironmentPlan
  key r := (r.plan.planId, (r.plan.missionId, r.plan.version), r.plan.fingerprint)
  clash k l := k.1 = l.1 || k.2.1 = l.2.1 || k.2.2 = l.2.2
  clash_symm := by grind

/-- At most one channel is executive. -/
instance : Keyed ConversationChannel where
  Key := Uuid × ChannelClass
  key r := (r.conversationId, r.channelClass)
  clash k l := k.1 = l.1 || (k.2 = .executive && l.2 = .executive)
  clash_symm := by grind

instance : Keyed ConversationMessage := .ofKey (·.messageId)

/-- Two decisions that supersede nothing do not collide on it. -/
instance : Keyed MissionDecision where
  Key := Uuid × Option Uuid
  key r := (r.decisionId, r.supersedesDecisionId)
  clash k l := k.1 = l.1 || (k.2.isSome && k.2 = l.2)
  clash_symm := by grind

instance : Keyed MissionEscalation := .ofKey (·.escalationId)

instance : Keyed MissionIntervention := .ofKey (·.interventionId)

/-! ## Environment evidence -/

inductive EnvironmentBindingState where
  | compatible | incompatible | unresolved | stale
deriving DecidableEq

inductive EnvironmentSettlement where
  | verified | failed | cancelled | uncertain
deriving DecidableEq

def EnvironmentSettlement.value : EnvironmentSettlement → String
  | .verified => "verified"
  | .failed => "failed"
  | .cancelled => "cancelled"
  | .uncertain => "uncertain"

structure EnvironmentBinding where
  bindingId : Uuid
  requestId : Uuid
  revision : Nat
  state : EnvironmentBindingState
  reason : String
deriving DecidableEq

structure EnvironmentVerification where
  verificationId : Uuid
  bindingId : Uuid
  contextFingerprint : String
  settlement : EnvironmentSettlement
  recordedAt : Instant
deriving DecidableEq

/-- The tables of the environment repository. -/
structure EnvironmentRows where
  bindings : List EnvironmentBinding := []
  verifications : List EnvironmentVerification := []
deriving DecidableEq

/-! ## The store -/

structure MissionStore where
  organizations : Table OrganizationRosterDefinition := ∅
  missions : Table MissionRow := ∅
  briefs : Table MissionBrief := ∅
  crews : Table MissionCrewRevision := ∅
  assignments : Table MissionTaskAssignment := ∅
  transitions : Table MissionTransition := ∅
  bindings : Table MissionRunBinding := ∅
  reports : Table MissionRunReport := ∅
  environmentPlans : Table MissionEnvironmentPlanAcceptance := ∅
  channels : Table ConversationChannel := ∅
  messages : Table ConversationMessage := ∅
  decisions : Table MissionDecision := ∅
  escalations : Table MissionEscalation := ∅
  interventions : Table MissionIntervention := ∅
  runs : Store := {}
  environments : EnvironmentRows := {}

namespace MissionStore

variable {s : MissionStore}

/-- The store of a new database. -/
def empty : MissionStore := {}

def mission? (s : MissionStore) (id : Uuid) : Option MissionRow := s.missions.find (·.id = id)

def brief? (s : MissionStore) (missionId : Uuid) (version : Nat) : Option MissionBrief :=
  s.briefs.find fun b => b.missionId = missionId ∧ b.version = version

def crew? (s : MissionStore) (missionId : Uuid) (version : Nat) : Option MissionCrewRevision :=
  s.crews.find fun c => c.missionId = missionId ∧ c.version = version

/-- All assignments of a mission, in the order they were recorded. -/
def assignmentsOf (s : MissionStore) (missionId : Uuid) : List MissionTaskAssignment :=
  s.assignments.select (·.missionId = missionId)

theorem mission?_eq_some {id : Uuid} {r : MissionRow} :
    s.mission? id = some r ↔ r ∈ s.missions ∧ r.id = id := by
  rw [mission?, Table.find_decide]
  simp +contextual [Keyed.clash, Keyed.key]

theorem crew?_eq_some {missionId : Uuid} {version : Nat} {c : MissionCrewRevision} :
    s.crew? missionId version = some c ↔
      c ∈ s.crews ∧ c.missionId = missionId ∧ c.version = version := by
  rw [crew?, Table.find_decide]
  simp +contextual [Keyed.clash, Keyed.key]

/-- Task and revision identify an assignment of a mission. -/
theorem assignmentsOf_inj {id : Uuid} : ∀ a ∈ s.assignmentsOf id, ∀ b ∈ s.assignmentsOf id,
    a.taskId = b.taskId → a.assignmentRevision = b.assignmentRevision → a = b := by
  intro a ha b hb htask hrevision
  obtain ⟨ha, hida⟩ := Table.mem_select.mp ha
  obtain ⟨hb, hidb⟩ := Table.mem_select.mp hb
  simp only [decide_eq_true_eq] at hida hidb
  exact Table.eq_of_clash ha hb (by simp [Keyed.clash, Keyed.key, hida, hidb, htask, hrevision])

end MissionStore
end Mishkan
