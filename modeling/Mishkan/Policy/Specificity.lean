import Mishkan.Policy.Evaluator

/-!
# Policy/Specificity — the score of a scope and what it leaves open

`_specificity` counts the selector groups and limits a scope writes, and every literal selector in
them.  A scope that is narrower than another constrains whatever the other does, but the score also
grows with each literal listed, and a longer list is a broader one: `specificity_le_iff` says when
the narrower scope keeps its rank.
-/

namespace Mishkan

open Glob List

/-! ## Dimensions -/

/-- What a scope has selectors for. -/
inductive Dimension where
  | identities | objectiveClasses | repositories | outcomes | roles | capabilities
  | effectClasses | effects | paths | executables | arguments | networkDestinations | remotes
  | branches | environments | credentials | externalResources | isolationProfiles
deriving DecidableEq

namespace Dimension

/-- In the order of `_specificity`. -/
def all : List Dimension :=
  [identities, objectiveClasses, repositories, outcomes, roles, capabilities, effectClasses,
    effects, paths, executables, arguments, networkDestinations, remotes, branches, environments,
    credentials, externalResources, isolationProfiles]

/-- The selectors of a scope. -/
def group : Dimension → PolicyScope → List String
  | identities => PolicyScope.identities
  | objectiveClasses => PolicyScope.objectiveClasses
  | repositories => PolicyScope.repositories
  | outcomes => PolicyScope.outcomes
  | roles => PolicyScope.roles
  | capabilities => PolicyScope.capabilities
  | effectClasses => PolicyScope.effectClasses
  | effects => PolicyScope.effects
  | paths => PolicyScope.paths
  | executables => PolicyScope.executables
  | arguments => PolicyScope.arguments
  | networkDestinations => PolicyScope.networkDestinations
  | remotes => PolicyScope.remotes
  | branches => PolicyScope.branches
  | environments => PolicyScope.environments
  | credentials => PolicyScope.credentials
  | externalResources => PolicyScope.externalResources
  | isolationProfiles => PolicyScope.isolationProfiles

/-- The values of a request. -/
def asks : Dimension → AuthorizationRequest → List String
  | identities, r => [r.identity]
  | objectiveClasses, r => [r.objectiveClass]
  | repositories, r => [r.repository]
  | outcomes, r => [r.outcome]
  | roles, r => [r.role]
  | capabilities, r => [r.capability]
  | effectClasses, r => [r.effectClass]
  | effects, r => r.effects
  | paths, r => r.paths
  | executables, r => r.executables
  | arguments, r => r.arguments
  | networkDestinations, r => r.networkDestinations
  | remotes, r => r.remotes
  | branches, r => r.branches
  | environments, r => r.environments
  | credentials, r => r.credentials
  | externalResources, r => r.externalResources
  | isolationProfiles, r => r.isolationProfile.toList

/-- A request that asks for one value in a dimension. -/
def ask (value : String) : Dimension → AuthorizationRequest → AuthorizationRequest
  | identities, r => { r with identity := value }
  | objectiveClasses, r => { r with objectiveClass := value }
  | repositories, r => { r with repository := value }
  | outcomes, r => { r with outcome := value }
  | roles, r => { r with role := value }
  | capabilities, r => { r with capability := value }
  | effectClasses, r => { r with effectClass := value }
  | effects, r => { r with effects := [value] }
  | paths, r => { r with paths := [value] }
  | executables, r => { r with executables := [value] }
  | arguments, r => { r with arguments := [value] }
  | networkDestinations, r => { r with networkDestinations := [value] }
  | remotes, r => { r with remotes := [value] }
  | branches, r => { r with branches := [value] }
  | environments, r => { r with environments := [value] }
  | credentials, r => { r with credentials := [value] }
  | externalResources, r => { r with externalResources := [value] }
  | isolationProfiles, r => { r with isolationProfile := some value }

/-- A request names one identity, objective class and so on, and names it. -/
def required : Dimension → Bool
  | identities | objectiveClasses | repositories | outcomes | roles | capabilities
  | effectClasses => true
  | _ => false

/-- The values a request may ask for.  `stable` is `security_identifier` on the text. -/
def admits (stable : String → Bool) (dimension : Dimension) (value : String) : Prop :=
  if dimension = arguments then '\x00' ∉ value.toList
  else stable value ∧ (dimension.required → value ≠ "")

theorem asks_ask (dimension other : Dimension) (value : String) (r : AuthorizationRequest) :
    other.asks (dimension.ask value r) = if other = dimension then [value] else other.asks r := by
  cases dimension <;> cases other <;> rfl

theorem resources_ask (dimension : Dimension) (value : String) (r : AuthorizationRequest) :
    (dimension.ask value r).resources = r.resources := by
  cases dimension <;> rfl

theorem planFingerprint_ask (dimension : Dimension) (value : String) (r : AuthorizationRequest) :
    (dimension.ask value r).planFingerprint = r.planFingerprint := by
  cases dimension <;> rfl

end Dimension

open Dimension (asks ask group)

theorem scopeMatches_iff_asks {r : AuthorizationRequest} {scope : PolicyScope} :
    scopeMatches r scope ↔
      (∀ dimension, ∀ value ∈ asks dimension r, matchesOne value (group dimension scope)) ∧
        ¬exceeds r.resources scope := by
  simp only [scopeMatches_iff, scalarPairs, collectionPairs, matchesAll, forall_mem_cons,
    all_eq_true]
  constructor
  · rintro ⟨scalars, collections, isolation, hresources⟩
    refine ⟨fun dimension => ?_, hresources⟩
    cases dimension <;> simp_all [asks, group]
  · rintro ⟨hasks, hresources⟩
    refine ⟨⟨?_, ?_, ?_, ?_, ?_, ?_, ?_, by simp⟩,
      ⟨hasks .paths, hasks .executables, hasks .arguments, hasks .networkDestinations,
        hasks .remotes, hasks .branches, hasks .environments, hasks .credentials,
        hasks .externalResources, hasks .effects, by simp⟩, ?_, hresources⟩
    · exact hasks .identities _ mem_cons_self
    · exact hasks .objectiveClasses _ mem_cons_self
    · exact hasks .repositories _ mem_cons_self
    · exact hasks .outcomes _ mem_cons_self
    · exact hasks .roles _ mem_cons_self
    · exact hasks .capabilities _ mem_cons_self
    · exact hasks .effectClasses _ mem_cons_self
    · exact fun profile hp => hasks .isolationProfiles profile (Option.mem_toList.mpr hp)

/-! ## Inclusion -/

/-- What the models of a request check. -/
structure AuthorizationRequest.Valid (stable : String → Bool) (r : AuthorizationRequest) :
    Prop where
  planFingerprint : r.planFingerprint.length = 64
  asks : ∀ dimension, ∀ value ∈ Dimension.asks dimension r, dimension.admits stable value
  unique : ∀ dimension, dimension ≠ .arguments → (Dimension.asks dimension r).Nodup
  timeoutSeconds : 1 ≤ r.resources.timeoutSeconds ∧ r.resources.timeoutSeconds ≤ 86400
  memoryMb : ∀ bound ∈ r.resources.memoryMb, 1 ≤ bound
  concurrency : 1 ≤ r.resources.concurrency

/-- Every request that `scope` matches, `scope'` matches, and not the other way round. -/
structure Narrower (stable : String → Bool) (scope scope' : PolicyScope) : Prop where
  included : ∀ r, r.Valid stable → scopeMatches r scope → scopeMatches r scope'
  strict : ∃ r : AuthorizationRequest, r.Valid stable ∧ scopeMatches r scope' ∧
    ¬scopeMatches r scope

/-- Some request is matched. -/
def Satisfiable (stable : String → Bool) (scope : PolicyScope) : Prop :=
  ∃ r : AuthorizationRequest, r.Valid stable ∧ scopeMatches r scope

/-- What a scope writes, it restricts: no group but `["*"]` accepts every value, and the timeout
is not the largest that can be asked for. -/
structure Plain (stable : String → Bool) (scope : PolicyScope) : Prop where
  group : ∀ dimension, Dimension.group dimension scope ≠ ["*"] →
    ∃ value, dimension.admits stable value ∧ ¬matchesOne value (Dimension.group dimension scope)
  maxTimeoutSeconds : ∀ limit ∈ scope.maxTimeoutSeconds, limit < 86400

theorem fnmatchcase_star (value : String) : fnmatchcase value "*" = true := by
  have hstar : translate "*" = [.star] := by decide
  rw [fnmatchcase, hstar, matchTokens, any_eq_true]
  exact ⟨[], (mem_tails ..).mpr nil_suffix, rfl⟩

@[simp] theorem matchesOne_star (value : String) : matchesOne value ["*"] = true := by
  simp [matchesOne, fnmatchcase_star]

section

variable {stable : String → Bool} {scope scope' : PolicyScope} {r : AuthorizationRequest}

theorem AuthorizationRequest.Valid.ask (h : r.Valid stable) {dimension : Dimension}
    {value : String} (hv : dimension.admits stable value) :
    (dimension.ask value r).Valid stable where
  planFingerprint := (dimension.planFingerprint_ask value r).symm ▸ h.planFingerprint
  asks other asked ha := by
    rw [Dimension.asks_ask] at ha
    split_ifs at ha with hsame
    · rw [mem_singleton.mp ha, hsame]
      exact hv
    · exact h.asks other asked ha
  unique other ho := by
    rw [Dimension.asks_ask]
    split_ifs
    · exact nodup_singleton value
    · exact h.unique other ho
  timeoutSeconds := (dimension.resources_ask value r).symm ▸ h.timeoutSeconds
  memoryMb := (dimension.resources_ask value r).symm ▸ h.memoryMb
  concurrency := (dimension.resources_ask value r).symm ▸ h.concurrency

/-- A scope that leaves a dimension open does not mind what is asked for there. -/
theorem scopeMatches_ask (hm : scopeMatches r scope) {dimension : Dimension}
    (hopen : dimension.group scope = ["*"]) (value : String) :
    scopeMatches (dimension.ask value r) scope := by
  obtain ⟨hasks, hresources⟩ := scopeMatches_iff_asks.mp hm
  refine scopeMatches_iff_asks.mpr ⟨fun other asked ha => ?_, ?_⟩
  · rw [Dimension.asks_ask] at ha
    split_ifs at ha with hsame
    · rw [hsame, hopen]
      exact matchesOne_star asked
    · exact hasks other asked ha
  · rw [Dimension.resources_ask]
    exact hresources

theorem scopeMatches_resources (hm : scopeMatches r scope) {resources : ResourceRequest}
    (hr : ¬exceeds resources scope) : scopeMatches { r with resources := resources } scope := by
  obtain ⟨hasks, -⟩ := scopeMatches_iff_asks.mp hm
  refine scopeMatches_iff_asks.mpr ⟨fun dimension => ?_, hr⟩
  have := hasks dimension
  cases dimension <;> exact this

/-! ## What is written -/

/-- Which groups and limits a scope writes. -/
def constraints (scope : PolicyScope) : List Bool :=
  Dimension.all.map (fun dimension => decide (dimension.group scope ≠ ["*"])) ++ limits scope

/-- The literal selectors of a scope. -/
def literals (scope : PolicyScope) : Nat :=
  (Dimension.all.map fun dimension => (dimension.group scope).countP isLiteral).sum

/-- The groups and limits that `scope` writes and `scope'` leaves open. -/
def writesAlone (scope scope' : PolicyScope) : Nat :=
  ((constraints scope).zip (constraints scope')).countP fun pair => pair.1 && !pair.2

theorem groupScore_eq (selectors : List String) : groupScore selectors =
      (if decide (selectors ≠ ["*"]) then 1 else 0) + selectors.countP isLiteral := by
  by_cases hopen : selectors = ["*"]
  · rw [hopen]
    decide
  · simp [groupScore, hopen]

theorem sum_groupScore (scope : PolicyScope) (dimensions : List Dimension) :
    ((dimensions.map fun dimension => dimension.group scope).map groupScore).sum =
      (dimensions.map fun dimension => decide (dimension.group scope ≠ ["*"])).countP id +
        (dimensions.map fun dimension => (dimension.group scope).countP isLiteral).sum := by
  induction dimensions with
  | nil => rfl
  | cons dimension dimensions ih =>
    simp only [map_cons, sum_cons, countP_cons, ih, groupScore_eq, id_eq]
    omega

/-- **The score is the number of constraints and literals.** -/
theorem specificity_eq (scope : PolicyScope) :
    specificity scope = (constraints scope).countP id + literals scope := by
  have hgroups : selectorGroups scope = Dimension.all.map fun dimension => dimension.group scope :=
    rfl
  rw [specificity, hgroups, sum_groupScore, constraints, literals, countP_append]
  omega

theorem countP_add_countP_zip : ∀ {marks marks' : List Bool}, marks.length = marks'.length →
    marks.countP id + (marks'.zip marks).countP (fun pair => pair.1 && !pair.2) =
      marks'.countP id + (marks.zip marks').countP fun pair => pair.1 && !pair.2
  | [], [], _ => rfl
  | mark :: marks, mark' :: marks', h => by
    have ih := countP_add_countP_zip (Nat.succ.inj h)
    cases mark <;> cases mark' <;> simp at ih ⊢ <;> omega

theorem countP_constraints (scope scope' : PolicyScope) :
    (constraints scope).countP id + writesAlone scope' scope =
      (constraints scope').countP id + writesAlone scope scope' :=
  countP_add_countP_zip (by simp [constraints, limits])

/-- **When one scope ranks no lower than another**: what it writes alone makes up for the literals
that the other lists in excess. -/
theorem specificity_le_iff : specificity scope' ≤ specificity scope ↔
      literals scope' + writesAlone scope' scope ≤ literals scope + writesAlone scope scope' := by
  have hbalance := countP_constraints scope scope'
  rw [specificity_eq, specificity_eq]
  omega

/-! ## A narrower scope leaves nothing open -/

namespace Narrower

/-- A group that the broader scope writes, the narrower one writes. -/
theorem group (h : Narrower stable scope scope') (hsat : Satisfiable stable scope)
    (hplain : Plain stable scope') {dimension : Dimension}
    (hopen : dimension.group scope = ["*"]) : dimension.group scope' = ["*"] := by
  by_contra hwritten
  obtain ⟨r, hvalid, hm⟩ := hsat
  obtain ⟨value, hadmits, hrefused⟩ := hplain.group dimension hwritten
  have hm' := h.included _ (hvalid.ask hadmits) (scopeMatches_ask hm hopen value)
  refine hrefused ((scopeMatches_iff_asks.mp hm').1 dimension value ?_)
  simp [Dimension.asks_ask]

/-- What a matching request may ask for by the limits of the narrower scope, it may by those of
the broader. -/
theorem resources (h : Narrower stable scope scope') (resources : ResourceRequest)
    (hvalid : r.Valid stable) (hm : scopeMatches r scope)
    (htimeout : 1 ≤ resources.timeoutSeconds ∧ resources.timeoutSeconds ≤ 86400)
    (hmemory : ∀ bound ∈ resources.memoryMb, 1 ≤ bound) (hconcurrency : 1 ≤ resources.concurrency)
    (hr : ¬exceeds resources scope) : ¬exceeds resources scope' := by
  have hvalid' : AuthorizationRequest.Valid stable { r with resources := resources } :=
    ⟨hvalid.planFingerprint, fun dimension => by
      have := hvalid.asks dimension
      cases dimension <;> exact this, fun dimension => by
      have := hvalid.unique dimension
      cases dimension <;> exact this, htimeout, hmemory, hconcurrency⟩
  exact (scopeMatches_iff_asks.mp (h.included _ hvalid' (scopeMatches_resources hm hr))).2

/-- A limit that the broader scope sets, the narrower one sets. -/
theorem limits (h : Narrower stable scope scope') (hsat : Satisfiable stable scope)
    (hplain : Plain stable scope') :
    (scope.maxTimeoutSeconds = none → scope'.maxTimeoutSeconds = none) ∧
      (scope.maxMemoryMb = none → scope'.maxMemoryMb = none) ∧
        (scope.allowNetwork = none → scope'.allowNetwork = none) ∧
          (scope.maxConcurrency = none → scope'.maxConcurrency = none) := by
  obtain ⟨r, hvalid, hm⟩ := hsat
  obtain ⟨-, hwithin⟩ := scopeMatches_iff_asks.mp hm
  obtain ⟨timeout, memory, network, concurrency⟩ := not_exceeds_iff.mp hwithin
  refine ⟨fun hopen => ?_, fun hopen => ?_, fun hopen => ?_, fun hopen => ?_⟩
  · cases hlimit : scope'.maxTimeoutSeconds with
    | none => rfl
    | some limit =>
      have hlt := hplain.maxTimeoutSeconds limit hlimit
      have hmore := h.resources { r.resources with timeoutSeconds := limit + 1 }
        hvalid hm ⟨by simp, hlt⟩ hvalid.memoryMb hvalid.concurrency
        (not_exceeds_iff.mpr ⟨by simp [hopen], memory, network, concurrency⟩)
      exact absurd ((not_exceeds_iff.mp hmore).1 limit hlimit) (by simp)
  · cases hlimit : scope'.maxMemoryMb with
    | none => rfl
    | some limit =>
      have hmore := h.resources { r.resources with memoryMb := some (limit + 1) }
        hvalid hm hvalid.timeoutSeconds (by simp) hvalid.concurrency
        (not_exceeds_iff.mpr ⟨timeout, by simp [hopen], network, concurrency⟩)
      exact absurd ((not_exceeds_iff.mp hmore).2.1 limit hlimit) (by simp)
  · cases hlimit : scope'.allowNetwork with
    | none => rfl
    | some allowed =>
      have hmore := h.resources { r.resources with network := !allowed }
        hvalid hm hvalid.timeoutSeconds hvalid.memoryMb hvalid.concurrency
        (not_exceeds_iff.mpr ⟨timeout, memory, by simp [hopen], concurrency⟩)
      exact absurd ((not_exceeds_iff.mp hmore).2.2.1 allowed hlimit) (by simp)
  · cases hlimit : scope'.maxConcurrency with
    | none => rfl
    | some limit =>
      have hmore := h.resources { r.resources with concurrency := limit + 1 }
        hvalid hm hvalid.timeoutSeconds hvalid.memoryMb (by simp)
        (not_exceeds_iff.mpr ⟨timeout, memory, network, by simp [hopen]⟩)
      exact absurd ((not_exceeds_iff.mp hmore).2.2.2 limit hlimit) (by simp)

/-- **A narrower scope leaves nothing open** that the broader one restricts. -/
theorem writesAlone_eq_zero (h : Narrower stable scope scope') (hsat : Satisfiable stable scope)
    (hplain : Plain stable scope') : writesAlone scope' scope = 0 := by
  obtain ⟨timeout, memory, network, concurrency⟩ := h.limits hsat hplain
  rw [writesAlone, constraints, constraints, zip_append (by simp), zip_map',
    countP_append, Nat.add_eq_zero_iff, countP_eq_zero, countP_eq_zero]
  constructor
  · rintro pair hpair
    obtain ⟨dimension, -, rfl⟩ := mem_map.mp hpair
    simpa using fun hwritten hopen => hwritten (h.group hsat hplain hopen)
  · simp only [Mishkan.limits, zip_cons_cons, zip_nil_right, forall_mem_cons]
    refine ⟨?_, ?_, ?_, ?_, by simp⟩ <;>
      simp only [Bool.and_eq_true, Bool.not_eq_true', not_and, Option.isSome_iff_ne_none,
        Option.isSome_eq_false_iff, Option.isNone_iff_eq_none]
    · exact fun hset hopen => hset (timeout hopen)
    · exact fun hset hopen => hset (memory hopen)
    · exact fun hset hopen => hset (network hopen)
    · exact fun hset hopen => hset (concurrency hopen)

end Narrower

/-- At equal priorities, specificity ranks. -/
theorem score_le_iff {m m' : Match} (hdocument : m'.document.priority = m.document.priority)
    (hrule : m'.rule.priority = m.rule.priority) :
    m'.score ≤ m.score ↔ specificity m'.rule.scope ≤ specificity m.rule.scope := by
  simp [Match.score, Prod.Lex.toLex_le_toLex, hdocument, hrule]

/-- **When a narrower scope is not overridden**: it ranks no lower than the broader one, and
neither does its rule at equal priorities, exactly if what it writes alone makes up for the
literals that the other lists in excess.  The other writes nothing alone, unless the narrower
matches no request at all or the other restricts nothing by what it writes. -/
theorem specificity_of_narrower (h : Narrower stable scope scope') :
    (specificity scope' ≤ specificity scope ↔
        literals scope' + writesAlone scope' scope ≤
          literals scope + writesAlone scope scope') ∧
      (∀ m m' : Match, m.rule.scope = scope → m'.rule.scope = scope' →
        m'.document.priority = m.document.priority → m'.rule.priority = m.rule.priority →
        (m'.score ≤ m.score ↔
          literals scope' + writesAlone scope' scope ≤
            literals scope + writesAlone scope scope')) ∧
        (Satisfiable stable scope → Plain stable scope' → writesAlone scope' scope = 0) := by
  refine ⟨specificity_le_iff, ?_, h.writesAlone_eq_zero⟩
  rintro m m' rfl rfl hdocument hrule
  exact (score_le_iff hdocument hrule).trans specificity_le_iff

/-- A scope with more selectors in its groups matches more. -/
theorem scopeMatches_of_groups (hgroups : ∀ dimension : Dimension,
      dimension.group scope ⊆ dimension.group scope')
    (hlimits : exceeds r.resources scope' = exceeds r.resources scope)
    (hm : scopeMatches r scope) : scopeMatches r scope' := by
  obtain ⟨hasks, hresources⟩ := scopeMatches_iff_asks.mp hm
  refine scopeMatches_iff_asks.mpr ⟨fun dimension value hv => ?_, hlimits ▸ hresources⟩
  obtain ⟨selector, hs, hmatch⟩ := any_eq_true.mp (hasks dimension value hv)
  exact any_eq_true.mpr ⟨selector, hgroups dimension hs, hmatch⟩

end

/-! ## A longer list -/

/-- Visible text of the basic alphabet, which every normalization leaves alone. -/
def isPlainText (text : String) : Bool := text.toList.all fun c => ' ' ≤ c && c ≤ '~'

/-- Writing under `src` is denied. -/
def sourcesDenied : PolicyRule where
  ruleId := "sources.denied"
  decision := .deny
  scope := { paths := ["src/*"] }

/-- Writing under `src` and to another place is allowed. -/
def allowed (extra : String) : PolicyRule where
  ruleId := "tree.allowed"
  decision := .allow
  scope := { paths := ["src/*", extra] }

/-- A request to write a file. -/
def writeRequest (path : String) : AuthorizationRequest :=
  { engineerRequest "file.write" "write" with paths := [path] }

theorem valid_writeRequest {path : String} (h : isPlainText path = true) :
    (writeRequest path).Valid isPlainText := by
  refine ⟨by simp only [writeRequest, engineerRequest]; decide, fun dimension => ?_,
    fun dimension _ => ?_, ?_, ?_, ?_⟩
  · cases dimension with
    | paths => simp [Dimension.asks, writeRequest, engineerRequest, h, Dimension.admits,
        Dimension.required]
    | _ => simp [Dimension.asks, writeRequest, engineerRequest, Dimension.admits,
        Dimension.required] <;> decide
  · cases dimension <;> simp [Dimension.asks, writeRequest, engineerRequest]
  all_goals simp [writeRequest, engineerRequest]

/-- The scope is narrower if the other place has a path outside `src`. -/
theorem sourcesDenied_narrower {extra path : String} (h : isPlainText path = true)
    (hmatch : scopeMatches (writeRequest path) (allowed extra).scope)
    (hout : ¬ scopeMatches (writeRequest path) sourcesDenied.scope) :
    Narrower isPlainText sourcesDenied.scope (allowed extra).scope where
  included r _ hm := by
    refine scopeMatches_of_groups (fun dimension => ?_) ?_ hm
    · cases dimension <;> simp [Dimension.group, sourcesDenied, allowed]
    · rfl
  strict := ⟨writeRequest path, valid_writeRequest h, hmatch, hout⟩

theorem readme_narrower :
    Narrower isPlainText sourcesDenied.scope (allowed "README.md").scope :=
  @sourcesDenied_narrower "README.md" "README.md" (by decide) (by decide +kernel)
    (by decide +kernel)

theorem docs_narrower : Narrower isPlainText sourcesDenied.scope (allowed "docs/*").scope :=
  @sourcesDenied_narrower "docs/*" "docs/a" (by decide) (by decide +kernel) (by decide +kernel)

/-- Both ways: the readme, which is a literal, raises the score of the broader scope, and a pattern
does not. -/
theorem sourcesDenied_overridden_iff :
    (specificity (allowed "README.md").scope ≤ specificity sourcesDenied.scope ↔
      literals (allowed "README.md").scope + writesAlone (allowed "README.md").scope
          sourcesDenied.scope ≤
        literals sourcesDenied.scope + writesAlone sourcesDenied.scope
          (allowed "README.md").scope) ∧
      specificity (allowed "docs/*").scope ≤ specificity sourcesDenied.scope ∧
      (∀ m m' : Match, m.rule = sourcesDenied → m'.rule = allowed "docs/*" →
        m'.document.priority = m.document.priority → m'.score ≤ m.score) ∧
      writesAlone (allowed "docs/*").scope sourcesDenied.scope = 0 := by
  have hsources : (writeRequest "src/main.py").Valid isPlainText := valid_writeRequest (by decide)
  have hplain : Plain isPlainText (allowed "docs/*").scope := by
    refine ⟨fun dimension hne => ?_, by simp [allowed]⟩
    cases dimension with
    | paths => exact ⟨"README.md", ⟨by decide, by simp [Dimension.required]⟩, by decide +kernel⟩
    | _ => exact absurd rfl hne
  obtain ⟨hscope, hscore, hzero⟩ := specificity_of_narrower docs_narrower
  refine ⟨(specificity_of_narrower readme_narrower).1, hscope.mpr (by decide), ?_,
    hzero ⟨_, hsources, by decide +kernel⟩ hplain⟩
  rintro m m' hm hm' hdocument
  refine (hscore m m' (by rw [hm]) (by rw [hm']) hdocument (by rw [hm, hm']; rfl)).mpr (by decide)

/-- **A longer list overrides a narrower scope**: with both rules in one document, a write under
`src` is allowed. -/
theorem longer_list_overrides :
    ¬(∀ scope scope', Narrower isPlainText scope scope' →
        specificity scope' ≤ specificity scope) ∧
      (evaluate (writeRequest "src/main.py")
        { documents := [{ sourceId := "project", revision := "1",
                          rules := [sourcesDenied, allowed "README.md"] }],
          fingerprint := "1111111111111111111111111111111111111111111111111111111111111111" }
        none 0).toOption.map (·.decision) = some .allow := by
  refine ⟨fun hranked => ?_, by decide +kernel⟩
  have hle := hranked _ _ readme_narrower
  exact absurd hle (by decide)

end Mishkan
