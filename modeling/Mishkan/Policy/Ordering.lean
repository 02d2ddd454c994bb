import Mathlib.Data.List.Dedup
import Mathlib.Data.List.Pairwise
import Mathlib.Data.List.Perm.Basic
import Mishkan.Policy.Evaluator
import Mishkan.Policy.Loader

/-!
# Policy/Ordering — the order in which documents and rules are listed

`evaluate` reads its policy as lists.  What it concludes depends on their order only through the
last resort: of the rules ranked first, the first listed one with the least identifier decides.
`outcome_eq_iff` is the condition under which that leaves no trace, and
`tiesAgree_of_uniqueRuleIds` that a loaded policy meets it.
-/

namespace Mishkan

open List

/-! ## Reordered policies -/

/-- A document with its rules in some other order. -/
structure SameRules (document document' : PolicyDocument) : Prop where
  sourceId : document'.sourceId = document.sourceId
  revision : document'.revision = document.revision
  priority : document'.priority = document.priority
  effectiveFrom : document'.effectiveFrom = document.effectiveFrom
  retiredAt : document'.retiredAt = document.retiredAt
  rules : document.rules.Perm document'.rules

/-- A policy with its documents, and the rules inside each, in some other order. -/
structure Reordered (policy policy' : EffectivePolicy) : Prop where
  fingerprint : policy'.fingerprint = policy.fingerprint
  documents : ∃ documents, policy.documents.Perm documents ∧
    List.Forall₂ SameRules documents policy'.documents

theorem SameRules.refl (document : PolicyDocument) : SameRules document document :=
  ⟨rfl, rfl, rfl, rfl, rfl, .refl _⟩

/-- What a match says apart from its document's other rules. -/
structure Brief where
  sourceId : String
  priority : Int
  rule : PolicyRule
deriving DecidableEq

def Match.brief (m : Match) : Brief := ⟨m.document.sourceId, m.document.priority, m.rule⟩

def Brief.score (brief : Brief) : Score :=
  toLex (brief.priority, toLex (brief.rule.priority, specificity brief.rule.scope))

@[simp] theorem Match.score_brief (m : Match) : m.brief.score = m.score := rfl

section

variable {request : AuthorizationRequest} {policy policy' : EffectivePolicy} {now : Instant}
  {approval : Option ApprovalEvidence}

theorem SameRules.matching {document document' : PolicyDocument}
    (h : SameRules document document') : ((document.matching request now).map Match.brief).Perm
      ((document'.matching request now).map Match.brief) := by
  simp only [PolicyDocument.matching, PolicyDocument.inForce, map_map, Function.comp_def,
    Match.brief, h.sourceId, h.priority, h.effectiveFrom, h.retiredAt]
  exact (h.rules.filter _).map _

theorem perm_flatMap_matching {documents documents' : List PolicyDocument}
    (h : List.Forall₂ SameRules documents documents') :
    ((documents.flatMap (·.matching request now)).map Match.brief).Perm
      ((documents'.flatMap (·.matching request now)).map Match.brief) := by
  induction h with
  | nil => exact .refl _
  | cons hd _ ih =>
    simp only [flatMap_cons, map_append]
    exact hd.matching.append ih

/-- A reordered policy has the same matches. -/
theorem Reordered.matchesOf (h : Reordered policy policy') :
    ((matchesOf request policy now).map Match.brief).Perm
      ((Mishkan.matchesOf request policy' now).map Match.brief) := by
  obtain ⟨documents, hperm, hsame⟩ := h.documents
  exact ((hperm.flatMap_right _).map _).trans (perm_flatMap_matching hsame)

theorem map_brief_winners (found : List Match) : (winners found).map Match.brief =
      (found.map Match.brief).filter fun brief =>
        ((found.map Match.brief).map Brief.score).maximum = brief.score := by
  simp only [winners, map_map, filter_map, Function.comp_def, Match.score_brief]
  rfl

theorem perm_winners {found found' : List Match}
    (h : (found.map Match.brief).Perm (found'.map Match.brief)) :
    ((winners found).map Match.brief).Perm ((winners found').map Match.brief) := by
  rw [map_brief_winners, map_brief_winners, (h.map Brief.score).maximum_eq]
  exact h.filter _

/-! ## What an evaluation tells -/

/-- What the order of listing may show in. -/
structure Outcome where
  decision : Decision
  matchedRuleIds : List String
  decidedBy : String
  matchedScope : Option PolicyScope
deriving DecidableEq

def outcomeOf : Except PolicyRefusal AuthorizationDecision → Except PolicyRefusal Outcome :=
  Except.map fun decision =>
    ⟨decision.decision, decision.matchedRuleIds, decision.decidedBy, decision.matchedScope⟩

/-- What is told when the rules ranked first agree, and `winner` is the one that decides. -/
def outcomeBy (request : AuthorizationRequest) (policy : EffectivePolicy)
    (approval : Option ApprovalEvidence) (now : Instant) (ids : List String) (winner : Brief) :
    Except PolicyRefusal Outcome :=
  match winner.rule.decision, approval with
  | .requireApproval, some approval =>
    if approval.isActiveFor request policy now then
      .ok ⟨.allow, ids, approval.approvedBy, some winner.rule.scope⟩
    else .error (.approvalMismatch request.fingerprint)
  | decision, _ =>
    .ok ⟨decision, ids, "policy:" ++ winner.sourceId ++ ":" ++ winner.rule.ruleId,
      some winner.rule.scope⟩

/-- The identifiers of rules, in order. -/
def idsOf (first : List Match) : List String := sortedTexts (first.map (·.rule.ruleId))

variable {winner : Match}

theorem outcome_of_agreeing
    (hleast : leastId (winners (matchesOf request policy now)) = some winner)
    (hagree : ∀ m ∈ winners (matchesOf request policy now),
      m.rule.decision = winner.rule.decision) : outcomeOf (evaluate request policy approval now) =
      outcomeBy request policy approval now (idsOf (winners (matchesOf request policy now)))
        winner.brief := by
  have hnone : ¬∃ m ∈ winners (matchesOf request policy now),
      m.rule.decision ≠ winner.rule.decision := fun ⟨m, hm, hne⟩ => hne (hagree m hm)
  simp only [evaluate, hleast, if_neg hnone]
  unfold outcomeBy
  cases hdecision : winner.rule.decision <;> cases approval <;>
    simp only [outcomeOf, Except.map, decisionOf, Match.brief, hdecision, idsOf]
  split_ifs <;> simp [approvedDecision]

theorem outcome_of_conflict
    (hleast : leastId (winners (matchesOf request policy now)) = some winner)
    (hsome : ∃ m ∈ winners (matchesOf request policy now), m.rule.decision ≠ winner.rule.decision) :
    outcomeOf (evaluate request policy approval now) = .error (.conflict request.fingerprint
        (idsOf (winners (matchesOf request policy now))) (sortedTexts
          ((winners (matchesOf request policy now)).map (·.rule.decision.value)).dedup)) := by
  simp only [evaluate, hleast, if_pos hsome]
  rfl

theorem outcome_of_none (hleast : leastId (winners (matchesOf request policy now)) = none) :
    outcomeOf (evaluate request policy approval now) =
      .ok ⟨.deny, [], "closed-world-default", none⟩ := by
  simp only [evaluate, hleast]
  rfl

theorem sortedTexts_perm {texts texts' : List String} (h : texts.Perm texts') :
    sortedTexts texts = sortedTexts texts' :=
  List.Perm.eq_of_pairwise' (r := (· ≤ ·)) (pairwise_mergeSort' _ _)
    (pairwise_mergeSort' _ _)
    ((mergeSort_perm _ _).trans (h.trans (mergeSort_perm _ _).symm))

/-! ## Ties -/

/-- A rule in force that matches, with its document. -/
structure Candidate (request : AuthorizationRequest) (policy : EffectivePolicy) (now : Instant)
    (m : Match) : Prop where
  document : m.document ∈ policy.documents
  rule : m.rule ∈ m.document.rules
  inForce : m.document.inForce now
  scope : scopeMatches request m.rule.scope

/-- No candidate is ranked before it. -/
structure TopRanked (request : AuthorizationRequest) (policy : EffectivePolicy) (now : Instant)
    (m : Match) : Prop where
  candidate : Candidate request policy now m
  top : ∀ other, Candidate request policy now other → other.score ≤ m.score

/-- None of those has a lesser identifier. -/
structure Foremost (request : AuthorizationRequest) (policy : EffectivePolicy) (now : Instant)
    (m : Match) : Prop where
  topRanked : TopRanked request policy now m
  least : ∀ other, TopRanked request policy now other → m.rule.ruleId ≤ other.rule.ruleId

/-- Two rules that an outcome does not tell apart: an approval in place of the rule that asked for
one stands for its source, and one that is not active for its scope too. -/
structure SameDecider (request : AuthorizationRequest) (policy : EffectivePolicy)
    (approval : Option ApprovalEvidence) (now : Instant) (m m' : Match) : Prop where
  scope : (m.rule.decision = .requireApproval →
      ∀ evidence ∈ approval, evidence.isActiveFor request policy now) →
    m.rule.scope = m'.rule.scope
  sourceId : (m.rule.decision = .requireApproval → approval = none) →
    m.document.sourceId = m'.document.sourceId

/-- Where the rules ranked first agree, those of them with the least identifier say the same. -/
def TiesAgree (request : AuthorizationRequest) (policy : EffectivePolicy)
    (approval : Option ApprovalEvidence) (now : Instant) : Prop :=
  (∀ m m', TopRanked request policy now m → TopRanked request policy now m' →
      m.rule.decision = m'.rule.decision) →
    ∀ m m', Foremost request policy now m → Foremost request policy now m' →
      SameDecider request policy approval now m m'

variable {m : Match}

theorem mem_matchesOf : m ∈ matchesOf request policy now ↔ Candidate request policy now m := by
  simp only [matchesOf, PolicyDocument.matching, mem_flatMap, mem_map, mem_filter,
    Bool.and_eq_true]
  constructor
  · rintro ⟨document, hdocument, rule, ⟨hrule, hforce, hscope⟩, rfl⟩
    exact ⟨hdocument, hrule, hforce, hscope⟩
  · rintro ⟨hdocument, hrule, hforce, hscope⟩
    exact ⟨m.document, hdocument, m.rule, ⟨hrule, hforce, hscope⟩, rfl⟩

theorem mem_winners :
    m ∈ winners (matchesOf request policy now) ↔ TopRanked request policy now m := by
  simp only [winners, mem_filter, mem_matchesOf, decide_eq_true_eq, maximum_eq_coe_iff]
  constructor
  · rintro ⟨hm, -, htop⟩
    exact ⟨hm, fun other ho => htop _ (mem_map_of_mem (mem_matchesOf.mpr ho))⟩
  · rintro ⟨hm, htop⟩
    refine ⟨hm, mem_map_of_mem (mem_matchesOf.mpr hm), fun score hs => ?_⟩
    obtain ⟨other, ho, rfl⟩ := mem_map.mp hs
    exact htop other (mem_matchesOf.mp ho)

theorem foremost_of_leastId (h : leastId (winners (matchesOf request policy now)) = some m) :
    Foremost request policy now m where
  topRanked := mem_winners.mp (argmin_mem h)
  least _ ho := le_of_mem_argmin (f := fun m : Match => m.rule.ruleId) (mem_winners.mpr ho) h

theorem exists_leastId (h : TopRanked request policy now m) :
    ∃ winner, leastId (winners (matchesOf request policy now)) = some winner :=
  Option.ne_none_iff_exists'.mp fun hnone =>
    ne_nil_of_mem (mem_winners.mpr h) (argmin_eq_none.mp hnone)

variable {m m' : Match}

/-- What an outcome tells of its decider is what `SameDecider` compares. -/
theorem outcomeBy_eq_iff {ids : List String}
    (hdecision : m.rule.decision = m'.rule.decision) (hid : m.rule.ruleId = m'.rule.ruleId) :
    outcomeBy request policy approval now ids m.brief =
        outcomeBy request policy approval now ids m'.brief ↔
      SameDecider request policy approval now m m' := by
  have hplain : m.rule.decision ≠ .requireApproval ∨ approval = none →
      (SameDecider request policy approval now m m' ↔
        m.document.sourceId = m'.document.sourceId ∧ m.rule.scope = m'.rule.scope) := by
    intro hp
    refine ⟨fun h => ⟨h.sourceId fun ha => hp.resolve_left (not_not.mpr ha), h.scope ?_⟩,
      fun h => ⟨fun _ => h.2, fun _ => h.1⟩⟩
    intro ha evidence he
    simp [hp.resolve_left (not_not.mpr ha)] at he
  unfold outcomeBy
  cases hd : m'.rule.decision with
  | requireApproval =>
    cases approval with
    | none => simp [Match.brief, hdecision, hd, hid, hplain]
    | some evidence =>
      by_cases hactive : evidence.isActiveFor request policy now
      · simp only [Match.brief, hdecision, hd, hactive, if_true, Except.ok.injEq,
          Outcome.mk.injEq, Option.some.injEq, true_and]
        exact ⟨fun h => ⟨fun _ => h, fun hnone => by simp [hdecision, hd] at hnone⟩,
          fun h => h.scope fun _ _ he => Option.mem_some.mp he ▸ hactive⟩
      · simp only [Match.brief, hdecision, hd, hactive]
        refine iff_of_true rfl ⟨fun h => ?_, fun h => ?_⟩
        · exact absurd (h (hdecision.trans hd) evidence rfl) hactive
        · simp [hdecision, hd] at h
  | allow => simp [Match.brief, hdecision, hd, hid, hplain]
  | deny => simp [Match.brief, hdecision, hd, hid, hplain]

/-! ## The last resort -/

/-- A policy that lists a rule first. -/
def listFirst (policy : EffectivePolicy) (m : Match) : EffectivePolicy :=
  { policy with
    documents := { m.document with rules := m.rule :: m.document.rules.erase m.rule } ::
      policy.documents.erase m.document }

theorem reordered_listFirst (h : Candidate request policy now m) :
    Reordered policy (listFirst policy m) where
  fingerprint := rfl
  documents := by
    refine ⟨_, perm_cons_erase h.document, .cons ?_ ?_⟩
    · exact ⟨rfl, rfl, rfl, rfl, rfl, perm_cons_erase h.rule⟩
    · exact forall₂_same.mpr fun document _ => .refl document

/-- Reordering keeps what is said of the rules ranked first. -/
theorem Reordered.winners (h : Reordered policy policy') (request : AuthorizationRequest)
    (now : Instant) : ((winners (Mishkan.matchesOf request policy now)).map Match.brief).Perm
      ((Mishkan.winners (Mishkan.matchesOf request policy' now)).map Match.brief) :=
  perm_winners h.matchesOf

theorem exists_topRanked_of_perm {m' : Match}
    (h : ((winners (matchesOf request policy now)).map Match.brief).Perm
      ((winners (matchesOf request policy' now)).map Match.brief))
    (hm' : TopRanked request policy' now m') :
    ∃ m, TopRanked request policy now m ∧ m.brief = m'.brief := by
  have hmem := h.mem_iff.mpr (mem_map_of_mem (mem_winners.mpr hm'))
  obtain ⟨m, hm, hbrief⟩ := mem_map.mp hmem
  exact ⟨m, mem_winners.mp hm, hbrief⟩

theorem rule_eq_of_brief (h : m.brief = m'.brief) : m.rule = m'.rule :=
  congrArg Brief.rule h

/-- The rule that decides in a reordered policy stands for a foremost one. -/
theorem Reordered.exists_foremost (h : Reordered policy policy')
    (hleast : leastId (Mishkan.winners (Mishkan.matchesOf request policy' now)) = some winner) :
    ∃ m, Foremost request policy now m ∧ m.brief = winner.brief := by
  have hfore := foremost_of_leastId hleast
  obtain ⟨m, hm, hbrief⟩ := exists_topRanked_of_perm (h.winners request now) hfore.topRanked
  refine ⟨m, ⟨hm, fun other ho => ?_⟩, hbrief⟩
  obtain ⟨other', ho', hbrief'⟩ := exists_topRanked_of_perm (h.winners request now).symm ho
  rw [rule_eq_of_brief hbrief, ← rule_eq_of_brief hbrief']
  exact hfore.least other' ho'

theorem idsOf_perm {first first' : List Match}
    (h : (first.map Match.brief).Perm (first'.map Match.brief)) : idsOf first = idsOf first' := by
  have hids := h.map fun brief => brief.rule.ruleId
  simp only [map_map] at hids
  exact sortedTexts_perm hids

theorem decisions_perm {first first' : List Match}
    (h : (first.map Match.brief).Perm (first'.map Match.brief)) :
    sortedTexts (first.map (·.rule.decision.value)).dedup =
      sortedTexts (first'.map (·.rule.decision.value)).dedup := by
  have hvalues := h.map fun brief => brief.rule.decision.value
  simp only [map_map] at hvalues
  exact sortedTexts_perm hvalues.dedup

theorem outcomeBy_congr (h : policy'.fingerprint = policy.fingerprint) (ids : List String)
    (brief : Brief) : outcomeBy request policy' approval now ids brief =
      outcomeBy request policy approval now ids brief := by
  simp only [outcomeBy, ApprovalEvidence.isActiveFor, h]
  rfl

theorem Foremost.ruleId_eq (hm : Foremost request policy now m)
    (hm' : Foremost request policy now m') : m.rule.ruleId = m'.rule.ruleId :=
  le_antisymm (hm.least m' hm'.topRanked) (hm'.least m hm.topRanked)

theorem outcome_eq_of_tiesAgree (hties : TiesAgree request policy approval now)
    (h : Reordered policy policy') : outcomeOf (evaluate request policy' approval now) =
      outcomeOf (evaluate request policy approval now) := by
  cases hleast : leastId (winners (matchesOf request policy now)) with
  | none =>
    have hnil : winners (matchesOf request policy' now) = [] := by
      have hperm := h.winners request now
      rw [argmin_eq_none.mp hleast, map_nil, nil_perm] at hperm
      exact map_eq_nil_iff.mp hperm
    rw [outcome_of_none hleast, outcome_of_none (by rw [hnil]; rfl)]
  | some winner =>
    have hfore := foremost_of_leastId hleast
    obtain ⟨top', htop', -⟩ := exists_topRanked_of_perm (h.winners request now).symm hfore.topRanked
    obtain ⟨winner', hleast'⟩ := exists_leastId htop'
    obtain ⟨m, hm, hbrief⟩ := h.exists_foremost hleast'
    have hids := idsOf_perm (h.winners request now)
    by_cases hagree : ∀ m ∈ winners (matchesOf request policy now),
        m.rule.decision = winner.rule.decision
    · have hagree' : ∀ m' ∈ winners (matchesOf request policy' now),
          m'.rule.decision = winner'.rule.decision := by
        intro m' hm'
        obtain ⟨m₁, hm₁, hbrief₁⟩ :=
          exists_topRanked_of_perm (h.winners request now) (mem_winners.mp hm')
        rw [← rule_eq_of_brief hbrief₁, ← rule_eq_of_brief hbrief,
          hagree m₁ (mem_winners.mpr hm₁), hagree m (mem_winners.mpr hm.topRanked)]
      have hsame : SameDecider request policy approval now winner m := hties (fun m₁ m₂ h₁ h₂ =>
          (hagree m₁ (mem_winners.mpr h₁)).trans (hagree m₂ (mem_winners.mpr h₂)).symm)
          winner m hfore hm
      have hdecision := (hagree m (mem_winners.mpr hm.topRanked)).symm
      rw [outcome_of_agreeing hleast' hagree', outcome_of_agreeing hleast hagree, ← hids,
        outcomeBy_congr h.fingerprint, ← hbrief]
      exact ((outcomeBy_eq_iff hdecision (hfore.ruleId_eq hm)).mpr hsame).symm
    · push Not at hagree
      have hagree' : ∃ m' ∈ winners (matchesOf request policy' now),
          m'.rule.decision ≠ winner'.rule.decision := by
        by_contra hall
        push Not at hall
        obtain ⟨m₁, hm₁, hne⟩ := hagree
        have same : ∀ m₂, TopRanked request policy now m₂ →
            m₂.rule.decision = winner'.rule.decision := by
          intro m₂ hm₂
          obtain ⟨m', hm', hbrief'⟩ := exists_topRanked_of_perm (h.winners request now).symm hm₂
          rw [← rule_eq_of_brief hbrief']
          exact hall m' (mem_winners.mpr hm')
        exact hne ((same m₁ (mem_winners.mp hm₁)).trans (same winner hfore.topRanked).symm)
      rw [outcome_of_conflict hleast' hagree', outcome_of_conflict hleast hagree, hids,
        decisions_perm (h.winners request now)]

theorem leastId_cons {rest : List Match}
    (h : ∀ other ∈ rest, m.rule.ruleId ≤ other.rule.ruleId) : leastId (m :: rest) = some m := by
  rw [leastId, argmin_cons]
  cases hrest : List.argmin (fun m : Match => m.rule.ruleId) rest with
  | none => rfl
  | some other => exact if_neg (not_lt.mpr (h other (argmin_mem hrest)))

theorem TopRanked.of_brief (hm : TopRanked request policy now m)
    (hm' : Candidate request policy now m') (hbrief : m'.brief = m.brief) :
    TopRanked request policy now m' where
  candidate := hm'
  top other ho := by
    have hscore : m'.score = m.score := congrArg Brief.score hbrief
    exact hscore ▸ hm.top other ho

theorem matching_cons (document : PolicyDocument) {rule : PolicyRule} {rules : List PolicyRule}
    (hrules : document.rules = rule :: rules) (hforce : document.inForce now)
    (hscope : scopeMatches request rule.scope) : document.matching request now = ⟨document, rule⟩ ::
      ((rules.filter fun rule => document.inForce now && scopeMatches request rule.scope).map
        fun rule => ⟨document, rule⟩) := by
  rw [PolicyDocument.matching, hrules, filter_cons_of_pos (by simp [hforce, hscope]),
    map_cons]

theorem exists_matchesOf_listFirst (hm : Candidate request policy now m) :
    ∃ first rest, matchesOf request (listFirst policy m) now = first :: rest ∧
      first.brief = m.brief := by
  have hfirst := matching_cons
    { m.document with rules := m.rule :: m.document.rules.erase m.rule } rfl hm.inForce hm.scope
  have happend := congrArg
    (· ++ (policy.documents.erase m.document).flatMap (·.matching request now)) hfirst
  exact ⟨_, _, happend, rfl⟩

/-- A foremost rule decides once it is listed first. -/
theorem exists_leastId_listFirst (hm : Foremost request policy now m) :
    ∃ winner, leastId (winners (matchesOf request (listFirst policy m) now)) = some winner ∧
      winner.brief = m.brief := by
  have hre := reordered_listFirst hm.topRanked.candidate
  obtain ⟨first, rest, hfound, hbrief⟩ := exists_matchesOf_listFirst hm.topRanked.candidate
  have hcandidate : Candidate request (listFirst policy m) now first :=
    mem_matchesOf.mp (hfound ▸ mem_cons_self)
  obtain ⟨m', hm', hbrief'⟩ := exists_topRanked_of_perm (hre.winners request now).symm hm.topRanked
  have htop := hm'.of_brief hcandidate (hbrief.trans hbrief'.symm)
  refine ⟨first, ?_, hbrief⟩
  have hmem := mem_winners.mpr htop
  rw [hfound, winners, mem_filter] at hmem
  have hcons : winners (matchesOf request (listFirst policy m) now) =
      first :: rest.filter fun m => ((first :: rest).map Match.score).maximum = m.score := by
    rw [hfound]
    exact filter_cons_of_pos hmem.2
  rw [hcons]
  refine leastId_cons fun other ho => ?_
  have hother : TopRanked request (listFirst policy m) now other :=
    mem_winners.mp (hcons ▸ mem_cons_of_mem _ ho)
  obtain ⟨m₁, hm₁, hbrief₁⟩ := exists_topRanked_of_perm (hre.winners request now) hother
  rw [rule_eq_of_brief hbrief, ← rule_eq_of_brief hbrief₁]
  exact hm.least m₁ hm₁

theorem outcome_listFirst (hm : Foremost request policy now m)
    (hagree : ∀ m m', TopRanked request policy now m → TopRanked request policy now m' →
      m.rule.decision = m'.rule.decision) :
    outcomeOf (evaluate request (listFirst policy m) approval now) =
      outcomeBy request policy approval now (idsOf (winners (matchesOf request policy now)))
        m.brief := by
  have hre := reordered_listFirst hm.topRanked.candidate
  obtain ⟨winner, hleast, hbrief⟩ := exists_leastId_listFirst hm
  rw [outcome_of_agreeing hleast, hbrief, outcomeBy_congr hre.fingerprint,
    idsOf_perm (hre.winners request now)]
  intro m' hm'
  obtain ⟨m₁, hm₁, hbrief₁⟩ :=
    exists_topRanked_of_perm (hre.winners request now) (mem_winners.mp hm')
  rw [← rule_eq_of_brief hbrief₁, rule_eq_of_brief hbrief]
  exact hagree m₁ m hm₁ hm.topRanked

/-- **When the order of listing leaves no trace**: exactly where the rules that tie to the last
agree. -/
theorem outcome_eq_iff : (∀ policy', Reordered policy policy' →
        outcomeOf (evaluate request policy' approval now) =
          outcomeOf (evaluate request policy approval now)) ↔
      TiesAgree request policy approval now := by
  refine ⟨fun hsame hagree m m' hm hm' => ?_, fun h policy' hre => outcome_eq_of_tiesAgree h hre⟩
  rw [← outcomeBy_eq_iff (hagree m m' hm.topRanked hm'.topRanked) (hm.ruleId_eq hm'),
    ← outcome_listFirst hm hagree, ← outcome_listFirst hm' hagree,
    hsame _ (reordered_listFirst hm.topRanked.candidate),
    hsame _ (reordered_listFirst hm'.topRanked.candidate)]

/-! ## Identifiers of their own -/

/-- An identifier stands for one rule of one document. -/
theorem EffectivePolicy.UniqueRuleIds.eq (h : policy.UniqueRuleIds)
    (hm : Candidate request policy now m) (hm' : Candidate request policy now m')
    (hid : m.rule.ruleId = m'.rule.ruleId) : m = m' := by
  obtain ⟨hwithin, hacross⟩ := nodup_flatMap.mp h
  have hdocument : m.document = m'.document := by
    by_contra hne
    have hdisjoint := @List.Pairwise.forall _ _ _ ⟨fun _ _ hxy => List.Disjoint.symm hxy⟩ hacross
      _ hm.document _ hm'.document hne
    exact hdisjoint (mem_map_of_mem hm.rule) (hid ▸ mem_map_of_mem hm'.rule)
  have hrule : m.rule = m'.rule :=
    inj_on_of_nodup_map (hwithin _ hm.document) hm.rule (hdocument ▸ hm'.rule) hid
  cases m
  cases m'
  exact congrArg₂ Match.mk hdocument hrule

theorem tiesAgree_of_uniqueRuleIds (h : policy.UniqueRuleIds) :
    TiesAgree request policy approval now := by
  intro _ m m' hm hm'
  have heq := h.eq hm.topRanked.candidate hm'.topRanked.candidate (hm.ruleId_eq hm')
  exact ⟨fun _ => heq ▸ rfl, fun _ => heq ▸ rfl⟩

/-- **The order of listing leaves no trace** exactly where the rules that tie to the last agree,
and so in every policy that was loaded. -/
theorem outcome_of_reordered (request : AuthorizationRequest) (policy : EffectivePolicy)
    (approval : Option ApprovalEvidence) (now : Instant) :
    ((∀ policy', Reordered policy policy' →
          outcomeOf (evaluate request policy' approval now) =
            outcomeOf (evaluate request policy approval now)) ↔
        TiesAgree request policy approval now) ∧
      ∀ digest sources, load digest sources = .ok policy → ∀ policy', Reordered policy policy' →
        outcomeOf (evaluate request policy' approval now) =
          outcomeOf (evaluate request policy approval now) :=
  ⟨outcome_eq_iff, fun _ _ hload _ hre =>
    outcome_eq_of_tiesAgree (tiesAgree_of_uniqueRuleIds (uniqueRuleIds_of_load hload)) hre⟩

end

/-! ## Two sources, one identifier -/

/-- A source that allows reading. -/
def readingSource (sourceId ruleId : String) : PolicyDocument where
  sourceId := sourceId
  revision := "1"
  rules := [{ ruleId := ruleId, decision := .allow, scope := { effectClasses := ["read"] } }]

/-- A request to read. -/
def readRequest : AuthorizationRequest := engineerRequest "file.read" "read"

def policyOf (documents : List PolicyDocument) : EffectivePolicy where
  documents := documents
  fingerprint := "1111111111111111111111111111111111111111111111111111111111111111"

theorem reordered_pair (document document' : PolicyDocument) :
    Reordered (policyOf [document, document']) (policyOf [document', document]) where
  fingerprint := rfl
  documents := ⟨[document', document], .swap .., .cons (.refl _) (.cons (.refl _) .nil)⟩

theorem outcome_of_loaded_pair :
    outcomeOf (evaluate readRequest (policyOf
        [readingSource "project" "project.read", readingSource "organization" "any.read"])
        none 0) =
      outcomeOf (evaluate readRequest (policyOf
        [readingSource "organization" "any.read", readingSource "project" "project.read"])
        none 0) :=
  (outcome_of_reordered readRequest (policyOf
      [readingSource "organization" "any.read", readingSource "project" "project.read"])
      none 0).2 (fun _ => "1111111111111111111111111111111111111111111111111111111111111111")
    [("organization.yaml", readingSource "organization" "any.read"),
      ("project.yaml", readingSource "project" "project.read")] (by decide +kernel) _
    (reordered_pair _ _)

/-- **Where two sources use one identifier**, the first listed is said to have decided. -/
theorem first_listed_decides :
    (evaluate readRequest (policyOf
        [readingSource "organization" "any.read", readingSource "project" "any.read"])
        none 0).toOption.map (·.decidedBy) = some "policy:organization:any.read" ∧
      (evaluate readRequest (policyOf
        [readingSource "project" "any.read", readingSource "organization" "any.read"])
        none 0).toOption.map (·.decidedBy) = some "policy:project:any.read" ∧
      ¬∀ request policy approval now policy', Reordered policy policy' →
        outcomeOf (evaluate request policy' approval now) =
          outcomeOf (evaluate request policy approval now) := by
  have hone : (evaluate readRequest (policyOf
      [readingSource "organization" "any.read", readingSource "project" "any.read"])
      none 0).toOption.map (·.decidedBy) = some "policy:organization:any.read" := by decide +kernel
  have htwo : (evaluate readRequest (policyOf
      [readingSource "project" "any.read", readingSource "organization" "any.read"])
      none 0).toOption.map (·.decidedBy) = some "policy:project:any.read" := by decide +kernel
  refine ⟨hone, htwo, fun hsame => ?_⟩
  have houtcome := hsame readRequest _ none 0 _ (reordered_pair
    (readingSource "organization" "any.read") (readingSource "project" "any.read"))
  have hdecided (result : Except PolicyRefusal AuthorizationDecision) :
      (outcomeOf result).toOption.map (·.decidedBy) = result.toOption.map (·.decidedBy) := by
    cases result <;> rfl
  have := congrArg (fun result => result.toOption.map (·.decidedBy)) houtcome
  simp only [hdecided, hone, htwo] at this
  exact absurd this (by decide)

end Mishkan
