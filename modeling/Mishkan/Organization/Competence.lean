import Mishkan.Organization.EvolutionRepository

/-!
# Organization/Competence — competence follows the decisions on promotions

The decisions about a subject are one chain, and a scope that is reported is the target of a
decision whose support is fresh and shown at its source (`Consistent.grounded`). The last decision
that accepts is the one in effect: a promotion that is accepted leaves its own target, which is
narrower than what was in effect before unless the call `Widens` (`follows_iff`). -/

namespace Mishkan.EvolutionStore

open Refusal Transition List Table

/-! ## What is asked for -/

/-- Decisions numbered from one, each naming the one before it. -/
inductive DecisionChain : List ProfessionalPromotionDecision → Prop
  | nil : DecisionChain []
  | next {decisions : List ProfessionalPromotionDecision} {d : ProfessionalPromotionDecision}
    (h : DecisionChain decisions) (hrevision : d.revision = decisions.length + 1)
    (hprevious : d.previousDecisionId = decisions.getLast?.map (·.decisionId)) :
    DecisionChain (decisions ++ [d])

/-- A decision has support that is fresh at an instant: a record it names, about its subject,
demonstrated and individually attributed. -/
def Supported (s : EvolutionStore) (now : Instant) (d : ProfessionalPromotionDecision) : Prop :=
  ∃ r ∈ s.evidence, r.evidenceId ∈ d.supportingEvidenceIds ∧ r.about = d.request.about ∧
    isDemonstrable now r = true

/-- **Decisions are chains, and a scope that is reported has a decision and its support.** -/
structure Sound (s : EvolutionStore) : Prop where
  chained : ∀ about, DecisionChain (s.decisions about)
  grounded : ∀ roster about now state scope, s.competenceState roster about now = .ok state →
    state.effectiveScope = some scope →
    ∃ d ∈ s.promotions, d.request.about = about ∧ d.disposition = .accepted ∧
      d.request.targetScope = scope ∧
      ∃ r ∈ s.evidence, r.evidenceId ∈ d.supportingEvidenceIds ∧ r.about = about ∧
        r.scope = d.request.sourceScope ∧ isDemonstrable now r = true

/-- **A promotion that is accepted leaves a scope**, and none narrower than the scope before it. -/
def Keeps (s : EvolutionStore) : Call → Prop
  | .recordEvidence _ _ => True
  | .decidePromotion roster request verdict now decisionId =>
    verdict.disposition = .accepted →
    ∀ decision s', s.decidePromotion roster request.1 verdict now decisionId = .ok (decision, s') →
    decision ∉ s.promotions →
    ∀ roster before after, s.competenceState roster request.1.about now = .ok before →
      s'.competenceState roster request.1.about now = .ok after →
      ∃ scope, after.effectiveScope = some scope ∧
        ∀ previous, before.effectiveScope = some previous → ¬ previous.isBroaderThan scope

/-- What a decision that is new has to meet. -/
structure Admits (s : EvolutionStore) (roster : List String)
    (request : ProfessionalPromotionRequest) (verdict : Verdict) (now : Instant)
    (decisionId : Uuid) : Prop where
  known : request.about.identityId ∈ roster
  undecided : ∀ d ∈ s.promotions, d.request.requestId ≠ request.requestId
  new : ∀ d ∈ s.promotions, d.decisionId ≠ decisionId
  evidenced : ∀ id ∈ request.supportingEvidenceIds,
    ∃ r ∈ s.evidence, r.evidenceId = id ∧ r.about = request.about ∧ r.scope = request.sourceScope
  supported : verdict.disposition = .accepted →
    s.Supported now (s.decisionOf request verdict decisionId)
  bounded : (s.decisionOf request verdict decisionId).isBounded = true

/-- The call accepts no promotion to a scope narrower than the target of the decision in effect,
while that one has fresh support. -/
def Widens (s : EvolutionStore) : Call → Prop
  | .recordEvidence _ _ => True
  | .decidePromotion roster request verdict now decisionId =>
    verdict.disposition = .accepted → s.Admits roster request.1 verdict now decisionId →
    ∀ d, s.effectiveDecision request.1.about = some d → s.Supported now d →
      ¬ d.request.targetScope.isBroaderThan request.1.targetScope

/-! ## Rows -/

section Rows

variable {s : EvolutionStore} {about : ProfessionalSubject} {r : ProfessionalEvidenceRecord}
  {id : Uuid} {d : ProfessionalPromotionDecision} {now : Instant} {roster : List String}

theorem mem_evidenceForSubject :
    r ∈ s.evidenceForSubject about ↔ r ∈ s.evidence ∧ r.about = about := by
  simp [evidenceForSubject]

theorem mem_decisions : d ∈ s.decisions about ↔ d ∈ s.promotions ∧ d.request.about = about := by
  simp [decisions]

/-- **An identity belongs to one record.** -/
theorem eq_of_evidenceId {r' : ProfessionalEvidenceRecord} (hr : r ∈ s.evidence)
    (hr' : r' ∈ s.evidence) (h : r.evidenceId = r'.evidenceId) : r = r' :=
  eq_of_clash hr hr' (decide_eq_true h)

theorem find_evidence : (s.evidenceForSubject about).find? (·.evidenceId = id) = some r ↔
    r ∈ s.evidence ∧ r.about = about ∧ r.evidenceId = id := by
  constructor
  · intro h
    have hmem := mem_evidenceForSubject.mp (mem_of_find?_eq_some h)
    exact ⟨hmem.1, hmem.2, by simpa using List.find?_some h⟩
  · rintro ⟨hr, habout, hid⟩
    have hsome : ((s.evidenceForSubject about).find? (·.evidenceId = id)).isSome := by
      rw [List.find?_isSome]
      exact ⟨r, mem_evidenceForSubject.mpr ⟨hr, habout⟩, decide_eq_true hid⟩
    obtain ⟨found, hfound⟩ := Option.isSome_iff_exists.mp hsome
    have hmem := mem_evidenceForSubject.mp (mem_of_find?_eq_some hfound)
    have hfoundId : found.evidenceId = id := by simpa using List.find?_some hfound
    rw [hfound, eq_of_evidenceId hmem.1 hr (hfoundId.trans hid.symm)]

/-- A list names a record with a property exactly when one of the records found for it has it. -/
theorem exists_support_iff {ids : List Uuid} {P : ProfessionalEvidenceRecord → Prop} :
    (∃ r ∈ ids.filterMap fun id => (s.evidenceForSubject about).find? (·.evidenceId = id), P r) ↔
      ∃ r ∈ s.evidence, r.evidenceId ∈ ids ∧ r.about = about ∧ P r := by
  constructor
  · rintro ⟨r, hr, hP⟩
    obtain ⟨id, hid, hfind⟩ := mem_filterMap.mp hr
    obtain ⟨hmem, habout, rfl⟩ := find_evidence.mp hfind
    exact ⟨r, hmem, hid, habout, hP⟩
  · rintro ⟨r, hmem, hid, habout, hP⟩
    exact ⟨r, mem_filterMap.mpr ⟨r.evidenceId, hid, find_evidence.mpr ⟨hmem, habout, rfl⟩⟩, hP⟩

/-- **The scope that is reported** is the target of the decision in effect, while it has fresh
support. -/
theorem effectiveScope_eq_some {state : ProfessionalCompetenceState}
    (h : s.competenceState roster about now = .ok state) {scope : ProfessionalLearningScope} :
    state.effectiveScope = some scope ↔ ∃ d, s.effectiveDecision about = some d ∧
      d.request.targetScope = scope ∧ ∃ r ∈ s.evidence, r.evidenceId ∈ d.supportingEvidenceIds ∧
        r.about = about ∧ isDemonstrable now r = true := by
  simp only [competenceState, bind_eq_ok, pure_eq_ok] at h
  obtain ⟨-, -, rfl⟩ := h
  rw [Option.bind_eq_some_iff]
  refine exists_congr fun d => and_congr_right fun _ => ?_
  simp only [Option.ite_none_right_eq_some, Option.some.injEq, any_eq_true, decide_eq_true_eq,
    mem_map, mem_filter, mem_evidenceForSubject, Bool.and_eq_true, isDemonstrable]
  constructor
  · rintro ⟨⟨id, hid, r, ⟨⟨⟨hr, habout⟩, houtcome⟩, hfresh, hindividual⟩, rfl⟩, hscope⟩
    exact ⟨hscope, r, hr, hid, habout, ⟨houtcome, hfresh⟩, hindividual⟩
  · rintro ⟨hscope, r, hr, hid, habout, ⟨houtcome, hfresh⟩, hindividual⟩
    exact ⟨⟨_, hid, r, ⟨⟨⟨hr, habout⟩, houtcome⟩, hfresh, hindividual⟩, rfl⟩, hscope⟩

theorem mem_of_effectiveDecision (h : s.effectiveDecision about = some d) :
    d ∈ s.promotions ∧ d.request.about = about ∧ d.disposition = .accepted := by
  have hmem := mem_filter.mp (argmax_mem h)
  obtain ⟨hd, habout⟩ := mem_decisions.mp hmem.1
  exact ⟨hd, habout, by simpa using hmem.2⟩

end Rows

/-! ## Chains -/

section Chains

variable {decisions : List ProfessionalPromotionDecision} {d : ProfessionalPromotionDecision}

/-- The last element is the greatest, when all before it are smaller. -/
theorem latest_append (h : ∀ e ∈ decisions, e.revision < d.revision) :
    latest (decisions ++ [d]) = some d := by
  rw [latest, argmax_concat]
  cases hlatest : List.argmax (fun e : ProfessionalPromotionDecision => e.revision) decisions with
  | none => rfl
  | some e => exact if_pos (h e (argmax_mem hlatest))

theorem DecisionChain.revision_le (h : DecisionChain decisions) :
    ∀ e ∈ decisions, e.revision ≤ decisions.length := by
  induction h with
  | nil => exact forall_mem_nil _
  | @next decisions d _ hrevision _ ih =>
    intro e he
    rw [length_append, length_singleton]
    rcases mem_append.mp he with he | he
    · exact (ih e he).trans (Nat.le_succ _)
    · exact (mem_singleton.mp he ▸ hrevision).le

/-- **The latest decision of a chain is its last**, numbered with its length. -/
theorem DecisionChain.latest_eq (h : DecisionChain decisions) :
    latest decisions = decisions.getLast? ∧
      ((latest decisions).map (·.revision)).getD 0 = decisions.length := by
  cases h with
  | nil => exact ⟨rfl, rfl⟩
  | @next decisions d h hrevision _ =>
    have hlatest : latest (decisions ++ [d]) = some d := latest_append fun e he => by
        have := h.revision_le e he
        omega
    rw [hlatest, List.getLast?_concat, length_append, length_singleton]
    exact ⟨rfl, hrevision⟩

/-- The decision that is made of a request is the next of the chain. -/
theorem DecisionChain.decisionOf {s : EvolutionStore} {request : ProfessionalPromotionRequest}
    (h : DecisionChain (s.decisions request.about)) (verdict : Verdict) (decisionId : Uuid) :
    DecisionChain (s.decisions request.about ++ [s.decisionOf request verdict decisionId]) := by
  refine .next h ?_ ?_
  · exact congrArg (· + 1) h.latest_eq.2
  · exact congrArg (Option.map _) h.latest_eq.1

end Chains

/-! ## What a call does -/

/-- **What the calls keep**: chains, and decisions whose support is shown at their source. -/
structure Consistent (s : EvolutionStore) : Prop where
  chained : ∀ about, DecisionChain (s.decisions about)
  evidenced : ∀ d ∈ s.promotions, ∀ id ∈ d.supportingEvidenceIds,
    ∃ r ∈ s.evidence, r.evidenceId = id ∧ r.about = d.request.about ∧
      r.scope = d.request.sourceScope

section Calls

variable {s s' : EvolutionStore} {roster : List String} {request : ProfessionalPromotionRequest}
  {verdict : Verdict} {now : Instant} {decisionId : Uuid} {decision : ProfessionalPromotionDecision}
  {record : ProfessionalEvidenceRecord}

theorem requireIdentity_eq_ok {identityId : String} {u : Unit} :
    requireIdentity roster identityId = .ok u ↔ identityId ∈ roster := by
  rw [requireIdentity, refuseIf_eq_ok, not_not]

/-- **Recording evidence** leaves the store, or adds a record to it. -/
theorem recordEvidence_cases {r : ProfessionalEvidenceRecord}
    (h : s.recordEvidence roster record = .ok (r, s')) :
    s' = s ∨ ∃ evidence, s.evidence.insert record = some evidence ∧
      s' = { s with evidence := evidence } := by
  simp only [recordEvidence, bind_eq_ok] at h
  obtain ⟨-, -, -, -, h⟩ := h
  split at h
  · simp only [bind_eq_ok, return_eq_ok] at h
    obtain ⟨-, -, -, rfl⟩ := h
    exact .inl rfl
  · simp only [bind_eq_ok, require_eq_ok, return_eq_ok] at h
    obtain ⟨evidence, hinsert, -, rfl⟩ := h
    exact .inr ⟨evidence, hinsert, rfl⟩

/-- The decision on a request that is not decided can be recorded exactly when its number, its
identity and its request are new. -/
theorem Consistent.exists_insert (hs : s.Consistent)
    (hundecided : ∀ d ∈ s.promotions, d.request.requestId ≠ request.requestId) :
    (∃ promotions, s.promotions.insert (s.decisionOf request verdict decisionId) =
      some promotions) ↔ ∀ d ∈ s.promotions, d.decisionId ≠ decisionId := by
  constructor
  · rintro ⟨promotions, hinsert⟩ d hd hid
    refine Table.not_clash_of_insert hinsert hd ?_
    simp [Keyed.clash, Keyed.key, decisionOf, hid]
  · intro hnew
    refine Table.exists_insert fun d hd hclash => ?_
    simp only [Keyed.clash, Keyed.key, Bool.or_eq_true, decide_eq_true_eq, Prod.mk.injEq] at hclash
    rcases hclash with (hid | hrequest) | ⟨habout, hrevision⟩
    · exact hnew d hd hid
    · exact hundecided d hd hrequest
    · have hchain := hs.chained request.about
      have hle := hchain.revision_le d (mem_decisions.mpr ⟨hd, habout⟩)
      have hlength := hchain.latest_eq.2
      simp only [decisionOf] at hrevision
      omega

/-- **Deciding a promotion** repeats the decision on its request, or records a new one. -/
theorem Consistent.decidePromotion_cases (hs : s.Consistent)
    (h : s.decidePromotion roster request verdict now decisionId = .ok (decision, s')) :
    decision ∈ s.promotions ∧ s' = s ∨ s.Admits roster request verdict now decisionId ∧
      decision = s.decisionOf request verdict decisionId ∧
      ∃ promotions, s.promotions.insert decision = some promotions ∧
        s' = { s with promotions := promotions } := by
  simp only [decidePromotion, bind_eq_ok] at h
  obtain ⟨_, hknown, h⟩ := h
  split at h
  · rename_i existing hfind
    simp only [bind_eq_ok, return_eq_ok] at h
    obtain ⟨-, -, rfl, rfl⟩ := h
    exact .inl ⟨mem_of_find hfind, rfl⟩
  · rename_i hfind
    simp only [bind_eq_ok, refuseIf_eq_ok, require_eq_ok, return_eq_ok] at h
    obtain ⟨-, hmissing, -, hscopes, -, hdemonstrable, -, hbounded, promotions, hinsert, rfl,
      rfl⟩ := h
    have hundecided : ∀ d ∈ s.promotions, d.request.requestId ≠ request.requestId :=
      fun d hd => by simpa using find_eq_none.mp hfind d hd
    refine .inr ⟨⟨requireIdentity_eq_ok.mp hknown, hundecided,
      (hs.exists_insert hundecided).mp ⟨promotions, hinsert⟩, fun id hid => ?_, fun haccepted => ?_,
      not_not.mp hbounded⟩, rfl, promotions, hinsert, rfl⟩
    · rw [not_not, filter_eq_nil_iff] at hmissing
      obtain ⟨r, hr, hrid⟩ : ∃ r ∈ s.evidenceForSubject request.about, r.evidenceId = id := by
        simpa using hmissing id hid
      obtain ⟨hmem, habout⟩ := mem_evidenceForSubject.mp hr
      refine ⟨r, hmem, hrid, habout, ?_⟩
      by_contra hscope
      refine hscopes (any_eq_true.mpr ?_)
      rw [← hrid] at hid
      obtain ⟨r', hr', hne⟩ := exists_support_iff (P := fun r => r.scope ≠ request.sourceScope)
        |>.mpr ⟨r, hmem, hid, habout, hscope⟩
      exact ⟨r', hr', decide_eq_true hne⟩
    · have hany := not_not.mp (not_and.mp hdemonstrable haccepted)
      obtain ⟨r, hmem, hid, habout, hr⟩ := exists_support_iff.mp (any_eq_true.mp hany)
      exact ⟨r, hmem, hid, habout, hr⟩

/-- **What is admitted is decided.** -/
theorem Consistent.decidePromotion_of_admits (hs : s.Consistent)
    (h : s.Admits roster request verdict now decisionId) :
    ∃ promotions, s.promotions.insert (s.decisionOf request verdict decisionId) = some promotions ∧
      s.decidePromotion roster request verdict now decisionId =
        .ok (s.decisionOf request verdict decisionId, { s with promotions := promotions }) := by
  obtain ⟨promotions, hinsert⟩ := (hs.exists_insert h.undecided).mpr h.new
  refine ⟨promotions, hinsert, ?_⟩
  have hfind : s.promotions.find (·.request.requestId = request.requestId) = none :=
    find_eq_none.mpr fun d hd => by simpa using h.undecided d hd
  have hmissing : (request.supportingEvidenceIds.filter fun id =>
      !(s.evidenceForSubject request.about).any (·.evidenceId = id)) = [] := by
    rw [filter_eq_nil_iff]
    intro id hid
    obtain ⟨r, hr, hrid, habout, -⟩ := h.evidenced id hid
    have hmem := mem_evidenceForSubject.mpr ⟨hr, habout⟩
    simpa using ⟨r, hmem, hrid⟩
  have hscopes : ¬ (request.supportingEvidenceIds.filterMap fun id =>
      (s.evidenceForSubject request.about).find? (·.evidenceId = id)).any
        (·.scope ≠ request.sourceScope) = true := by
    rw [any_eq_true]
    rintro ⟨r, hr, hscope⟩
    obtain ⟨id, hid, hfound⟩ := mem_filterMap.mp hr
    obtain ⟨hmem, -, rfl⟩ := find_evidence.mp hfound
    obtain ⟨r', hr', hid', -, hscope'⟩ := h.evidenced _ hid
    rw [eq_of_evidenceId hr' hmem hid'] at hscope'
    exact of_decide_eq_true hscope hscope'
  have hdemonstrable : ¬ (verdict.disposition = .accepted ∧
      ¬ (request.supportingEvidenceIds.filterMap fun id =>
        (s.evidenceForSubject request.about).find? (·.evidenceId = id)).any
          (isDemonstrable now) = true) := by
    rintro ⟨haccepted, hnone⟩
    obtain ⟨r, hr⟩ := h.supported haccepted
    exact hnone (any_eq_true.mpr (exists_support_iff.mpr ⟨r, hr⟩))
  have hknown : requireIdentity roster request.about.identityId = .ok () :=
    requireIdentity_eq_ok.mpr h.known
  simp only [decidePromotion, hknown, ok_bind, hfind]
  rw [refuseIf_of_not (not_not.mpr hmissing), ok_bind, refuseIf_of_not hscopes, ok_bind,
    refuseIf_of_not hdemonstrable, ok_bind, refuseIf_of_not (not_not.mpr h.bounded), ok_bind,
    hinsert]
  rfl

/-- The decisions about a subject after a new one. -/
theorem decisions_insert {promotions : Table ProfessionalPromotionDecision}
    (h : s.promotions.insert decision = some promotions) (about : ProfessionalSubject) :
    decisions { s with promotions := promotions } about =
      s.decisions about ++ if decision.request.about = about then [decision] else [] := by
  rw [decisions, select_insert h]
  by_cases habout : decision.request.about = about <;> simp [habout, decisions]

/-- **A decision that accepts is in effect.** -/
theorem Consistent.effectiveDecision_insert (hs : s.Consistent)
    {promotions : Table ProfessionalPromotionDecision}
    (h : s.promotions.insert (s.decisionOf request verdict decisionId) = some promotions)
    (haccepted : verdict.disposition = .accepted) :
    effectiveDecision { s with promotions := promotions } request.about =
      some (s.decisionOf request verdict decisionId) := by
  have hdisposition : (s.decisionOf request verdict decisionId).disposition = .accepted := haccepted
  have habout : (s.decisionOf request verdict decisionId).request.about = request.about := rfl
  rw [effectiveDecision, decisions_insert h, if_pos habout, filter_append,
    filter_cons_of_pos (by simpa using hdisposition), filter_nil]
  refine latest_append fun e he => ?_
  have hchain := hs.chained request.about
  have hle := hchain.revision_le e (mem_of_mem_filter he)
  have hrevision : (s.decisionOf request verdict decisionId).revision =
      (s.decisions request.about).length + 1 := congrArg (· + 1) hchain.latest_eq.2
  omega

end Calls

/-! ## Runs -/

section Runs

variable {s : EvolutionStore}

theorem consistent_empty : Consistent {} :=
  ⟨fun _ => .nil, fun _ hd => absurd hd not_mem_empty⟩

/-- **Consistent stores are sound.** -/
theorem Consistent.sound (hs : s.Consistent) : s.Sound := by
  refine ⟨hs.chained, fun roster about now state scope hstate hscope => ?_⟩
  obtain ⟨d, hd, htarget, r, hr, hid, habout, hdemonstrable⟩ :=
    (effectiveScope_eq_some hstate).mp hscope
  obtain ⟨hmem, hsubject, haccepted⟩ := mem_of_effectiveDecision hd
  obtain ⟨r', hr', hid', -, hsource⟩ := hs.evidenced d hmem _ hid
  rw [eq_of_evidenceId hr' hr hid'] at hsource
  exact ⟨d, hmem, hsubject, haccepted, htarget, r, hr, hid, habout, hsource, hdemonstrable⟩

/-- **Every call keeps the store consistent.** -/
theorem Consistent.step (hs : s.Consistent) (call : Call) : (s.step call).Consistent := by
  cases call with
  | recordEvidence roster record =>
    refine commit_cases (R := fun _ s' => Consistent s') hs fun r s' h => ?_
    rcases recordEvidence_cases h with rfl | ⟨evidence, hinsert, rfl⟩
    · exact hs
    · refine ⟨hs.chained, fun d hd id hid => ?_⟩
      obtain ⟨r, hr, hrest⟩ := hs.evidenced d hd id hid
      exact ⟨r, (mem_of_insert hinsert).mpr (.inl hr), hrest⟩
  | decidePromotion roster request verdict now decisionId =>
    refine commit_cases (R := fun _ s' => Consistent s') hs fun decision s' h => ?_
    rcases hs.decidePromotion_cases h with ⟨-, rfl⟩ | ⟨hadmits, rfl, promotions, hinsert, rfl⟩
    · exact hs
    · refine ⟨fun about => ?_, fun d hd => ?_⟩
      · rw [decisions_insert hinsert]
        split_ifs with habout
        · obtain rfl : request.1.about = about := habout
          exact (hs.chained _).decisionOf verdict decisionId
        · rw [append_nil]
          exact hs.chained about
      · rcases (mem_of_insert hinsert).mp hd with hd | rfl
        · exact hs.evidenced d hd
        · exact hadmits.evidenced

/-- **One call keeps the scope exactly when it widens it.** -/
theorem Consistent.keeps_iff (hs : s.Consistent) (call : Call) : s.Keeps call ↔ s.Widens call := by
  cases call with
  | recordEvidence => exact Iff.rfl
  | decidePromotion roster request verdict now decisionId =>
    refine forall_congr' fun haccepted => ?_
    constructor
    · intro hkeeps hadmits d hd hsupported
      obtain ⟨promotions, hinsert, hdecided⟩ := hs.decidePromotion_of_admits hadmits
      have hnew : s.decisionOf request.1 verdict decisionId ∉ s.promotions :=
        fun hmem => hadmits.new _ hmem rfl
      have hstates : ∀ s : EvolutionStore, ∃ state,
          s.competenceState roster request.1.about now = .ok state := fun s => by
        have hknown : requireIdentity roster request.1.about.identityId = .ok () :=
          requireIdentity_eq_ok.mpr hadmits.known
        rw [competenceState, hknown]
        exact ⟨_, rfl⟩
      obtain ⟨before, hbefore⟩ := hstates s
      obtain ⟨after, hafter⟩ := hstates { s with promotions := promotions }
      obtain ⟨scope, hscope, hwider⟩ := hkeeps _ _ hdecided hnew roster before after hbefore hafter
      obtain ⟨d', hd', rfl, -⟩ := (effectiveScope_eq_some hafter).mp hscope
      rw [hs.effectiveDecision_insert hinsert haccepted] at hd'
      obtain rfl := Option.some.inj hd'
      refine hwider _ ((effectiveScope_eq_some hbefore).mpr ⟨d, hd, rfl, ?_⟩)
      rw [← (mem_of_effectiveDecision hd).2.1]
      exact hsupported
    · intro hwidens decision s' hdecided hnew roster before after hbefore hafter
      rcases hs.decidePromotion_cases hdecided with ⟨hmem, -⟩ | ⟨hadmits, rfl, promotions, hinsert,
        rfl⟩
      · exact absurd hmem hnew
      · refine ⟨request.1.targetScope, (effectiveScope_eq_some hafter).mpr
          ⟨_, hs.effectiveDecision_insert hinsert haccepted, rfl, hadmits.supported haccepted⟩,
          fun previous hprevious => ?_⟩
        obtain ⟨d, hd, rfl, hsupported⟩ := (effectiveScope_eq_some hbefore).mp hprevious
        refine hwidens hadmits d hd ?_
        rw [Supported, (mem_of_effectiveDecision hd).2.1]
        exact hsupported

/-- **Competence follows its decisions** along a run: every state is sound, and every promotion that
is accepted keeps the scope. -/
def Follows (calls : List Call) : Prop :=
  Sound {} ∧ Along step (fun s call => s.Keeps call ∧ (s.step call).Sound) {} calls

/-- **Competence follows its decisions exactly along the runs whose promotions never narrow it.** -/
theorem follows_iff (calls : List Call) : Follows calls ↔ Along step Widens {} calls := by
  have hsound : Follows calls ↔
      Along step (fun s call => s.Keeps call ∧ (s.step call).Sound) {} calls :=
    and_iff_right consistent_empty.sound
  rw [hsound]
  refine Along.congr_of_guarded (F := fun _ _ => True) (I := Consistent)
    (fun s call hs _ _ => hs.step call) (fun s call hs _ => ?_) consistent_empty
    (.of_forall (fun _ _ _ => trivial) _)
  rw [and_iff_left (hs.step call).sound]
  exact hs.keeps_iff call

end Runs

/-! ## A promotion that narrows -/

/-- Evidence from one mission. -/
def missionEvidence : ProfessionalEvidenceRecord where
  evidenceId := 1
  about := ⟨"Backend_Service_Engineer", .toolMastery, "postgresql.schema-review"⟩
  scope := ⟨.mission, "mission:recovery"⟩
  outcome := .demonstrated
  critical := true
  evaluatorIdentity := "Software_Technical_Evaluator"
  observedAt := 0
  freshUntil := 30 * second
  content := .null

/-- A promotion of what the mission has shown. -/
def missionPromotion (requestId : Uuid) (target : ProfessionalLearningScope) :
    ProfessionalPromotionRequest where
  requestId := requestId
  about := missionEvidence.about
  sourceScope := missionEvidence.scope
  targetScope := target
  supportingEvidenceIds := [1]
  content := .null

def organizationScope : ProfessionalLearningScope := ⟨.organization, "organization:mishkan"⟩

def projectScope : ProfessionalLearningScope := ⟨.project, "project:api"⟩

def acceptance : Verdict where
  disposition := .accepted
  decidedBy := "CTO"
  policyFingerprint := String.ofList (List.replicate 64 'a')
  reason := "Fresh independent evidence supports this bounded promotion"

def evolutionRoster : List String := ["Backend_Service_Engineer", "Software_Technical_Evaluator"]

theorem missionEvidence_validated : missionEvidence.Validated := ⟨by decide, by decide⟩

theorem organizationPromotion_validated : (missionPromotion 2 organizationScope).Validated :=
  ⟨by decide, by decide, by decide⟩

theorem projectPromotion_validated : (missionPromotion 3 projectScope).Validated :=
  ⟨by decide, by decide, by decide⟩

/-- Evidence of one mission, promoted to the organization, and then to one project. -/
def narrowingCalls : List Call :=
  [.recordEvidence evolutionRoster ⟨missionEvidence, missionEvidence_validated⟩,
    .decidePromotion evolutionRoster ⟨_, organizationPromotion_validated⟩ acceptance second 4,
    .decidePromotion evolutionRoster ⟨_, projectPromotion_validated⟩ acceptance (2 * second) 5]

/-- **A second promotion takes the identity from the organization to one project**, while the
support of the first is fresh. -/
theorem second_promotion_narrows : ¬ ∀ calls, Follows calls := by
  intro h
  obtain ⟨-, -, -, ⟨hkeeps, -⟩, -⟩ := h narrowingCalls
  have hs := ((consistent_empty.step (.recordEvidence evolutionRoster
    ⟨missionEvidence, missionEvidence_validated⟩)).step
    (.decidePromotion evolutionRoster ⟨_, organizationPromotion_validated⟩ acceptance second 4))
  have hwidens := (hs.keeps_iff _).mp hkeeps
  refine hwidens rfl ⟨by decide, by decide, by decide, by decide, fun _ => ?_, by decide⟩ _ rfl ?_
    (by decide)
  · exact ⟨missionEvidence, by decide, by decide, by decide, by decide⟩
  · exact ⟨missionEvidence, by decide, by decide, by decide, by decide⟩

end Mishkan.EvolutionStore
