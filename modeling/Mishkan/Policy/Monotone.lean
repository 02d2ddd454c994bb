import Mishkan.Policy.Evaluator

/-!
# Policy/Monotone — a scope and a request that asks for more

A request `r'` asks for at least as much as `r` when its targets include those of `r`, its limits
are at least as large, and what it leaves out counts as everything: no memory bound, no isolation.
`_matches` reads an absent bound as zero and an absent profile as accepted, so a scope that accepts
`r'` may refuse `r`; `scopeMatches_iff_of_asksAtLeast` says exactly when.
-/

namespace Mishkan

/-- `r'` asks for at least as much as `r`. -/
structure AsksAtLeast (r r' : AuthorizationRequest) : Prop where
  identity : r'.identity = r.identity
  objectiveClass : r'.objectiveClass = r.objectiveClass
  repository : r'.repository = r.repository
  outcome : r'.outcome = r.outcome
  role : r'.role = r.role
  capability : r'.capability = r.capability
  effectClass : r'.effectClass = r.effectClass
  effects : r.effects ⊆ r'.effects
  paths : r.paths ⊆ r'.paths
  executables : r.executables ⊆ r'.executables
  arguments : r.arguments ⊆ r'.arguments
  networkDestinations : r.networkDestinations ⊆ r'.networkDestinations
  remotes : r.remotes ⊆ r'.remotes
  branches : r.branches ⊆ r'.branches
  environments : r.environments ⊆ r'.environments
  credentials : r.credentials ⊆ r'.credentials
  externalResources : r.externalResources ⊆ r'.externalResources
  /-- No profile is no isolation. -/
  isolationProfile : r'.isolationProfile = none ∨ r'.isolationProfile = r.isolationProfile
  timeoutSeconds : r.resources.timeoutSeconds ≤ r'.resources.timeoutSeconds
  /-- No bound is no limit. -/
  memoryMb : ∀ m' ∈ r'.resources.memoryMb, ∃ m ∈ r.resources.memoryMb, m ≤ m'
  network : r.resources.network → r'.resources.network
  concurrency : r.resources.concurrency ≤ r'.resources.concurrency

/-! ## The parts of a match -/

theorem matchesAll_of_subset {values values' selectors : List String} (hsub : values ⊆ values')
    (h : matchesAll values' selectors) : matchesAll values selectors :=
  List.all_eq_true.mpr fun value hv => List.all_eq_true.mp h value (hsub hv)

section

variable {r r' : AuthorizationRequest} {scope : PolicyScope}

namespace AsksAtLeast

theorem scalarPairs_eq (h : AsksAtLeast r r') : scalarPairs r scope = scalarPairs r' scope := by
  simp only [scalarPairs, h.identity, h.objectiveClass, h.repository, h.outcome, h.role,
    h.capability, h.effectClass]

theorem collections (h : AsksAtLeast r r')
    (hm : ∀ pair ∈ collectionPairs r' scope, matchesAll pair.1 pair.2) :
    ∀ pair ∈ collectionPairs r scope, matchesAll pair.1 pair.2 := by
  simp only [collectionPairs, List.forall_mem_cons] at hm ⊢
  obtain ⟨paths, executables, arguments, destinations, remotes, branches, environments,
    credentials, resources, effects, -⟩ := hm
  exact ⟨matchesAll_of_subset h.paths paths, matchesAll_of_subset h.executables executables,
    matchesAll_of_subset h.arguments arguments,
    matchesAll_of_subset h.networkDestinations destinations,
    matchesAll_of_subset h.remotes remotes, matchesAll_of_subset h.branches branches,
    matchesAll_of_subset h.environments environments,
    matchesAll_of_subset h.credentials credentials,
    matchesAll_of_subset h.externalResources resources, matchesAll_of_subset h.effects effects,
    by simp⟩

/-- A bound that `r'` states, `r` states too, and no larger. -/
theorem memoryMb_le (h : AsksAtLeast r r') {limit : Nat}
    (hle : r'.resources.memoryMb.getD 0 ≤ limit) (hbound : r'.resources.memoryMb ≠ none) :
    r.resources.memoryMb.getD 0 ≤ limit := by
  obtain ⟨m', hm'⟩ := Option.ne_none_iff_exists'.mp hbound
  obtain ⟨m, hm, hmm'⟩ := h.memoryMb m' hm'
  rw [hm'] at hle
  rw [hm]
  exact hmm'.trans hle

end AsksAtLeast

/-- **When a scope that accepts `r'` accepts the smaller `r`**: what `r'` leaves out it has to
accept as `r` states it, and requests that want the network and that do not may not be told
apart. -/
theorem scopeMatches_iff_of_asksAtLeast (h : AsksAtLeast r r') (hm : scopeMatches r' scope) :
    scopeMatches r scope ↔
      (r'.resources.memoryMb = none →
          ∀ limit ∈ scope.maxMemoryMb, r.resources.memoryMb.getD 0 ≤ limit) ∧
        (r'.isolationProfile = none →
          ∀ profile ∈ r.isolationProfile, matchesOne profile scope.isolationProfiles) ∧
          (r.resources.network = r'.resources.network ∨ scope.allowNetwork = none) := by
  obtain ⟨scalars, collections, isolation, resources⟩ := scopeMatches_iff.mp hm
  obtain ⟨timeout, memory, network, concurrency⟩ := not_exceeds_iff.mp resources
  constructor
  · intro hr
    obtain ⟨-, -, isolation', resources'⟩ := scopeMatches_iff.mp hr
    obtain ⟨-, memory', network', -⟩ := not_exceeds_iff.mp resources'
    refine ⟨fun _ => memory', fun _ => isolation', ?_⟩
    cases hallow : scope.allowNetwork with
    | none => exact .inr rfl
    | some allowed => exact .inl ((network' allowed hallow).trans (network allowed hallow).symm)
  · rintro ⟨hmemory, hisolation, hnetwork⟩
    refine scopeMatches_iff.mpr ⟨h.scalarPairs_eq ▸ scalars, h.collections collections, ?_,
      not_exceeds_iff.mpr ⟨?_, ?_, ?_, ?_⟩⟩
    · obtain hnone | hsame := h.isolationProfile
      · exact hisolation hnone
      · exact hsame ▸ isolation
    · exact fun limit hl => h.timeoutSeconds.trans (timeout limit hl)
    · intro limit hl
      by_cases hbound : r'.resources.memoryMb = none
      · exact hmemory hbound limit hl
      · exact h.memoryMb_le (memory limit hl) hbound
    · intro allowed hallow
      obtain hsame | hopen := hnetwork
      · exact hsame.trans (network allowed hallow)
      · simp [hopen] at hallow
    · exact fun limit hl => h.concurrency.trans (concurrency limit hl)

end

/-! ## What is left out -/

/-- A request for a command in a container. -/
def confined : AuthorizationRequest :=
  { engineerRequest "core.process.exec" "command" with
    executables := ["/usr/bin/git"]
    isolationProfile := some "local.no-network"
    resources := { timeoutSeconds := 60, memoryMb := some 4096 } }

/-- The same with neither a memory bound nor a profile. -/
def unconfined : AuthorizationRequest :=
  { confined with isolationProfile := none, resources := { timeoutSeconds := 60 } }

theorem confined_asksAtLeast : AsksAtLeast confined unconfined := by
  constructor <;> simp [confined, unconfined]

/-- A scope with room for the bound the command states. -/
def roomyScope : PolicyScope where
  capabilities := ["core.process.*"]
  isolationProfiles := ["local.*"]
  maxMemoryMb := some 8192

/-- **A scope that accepts the request with its bound** accepts it in spite of what the larger one
leaves out. -/
theorem confined_matches_roomyScope : scopeMatches confined roomyScope :=
  (scopeMatches_iff_of_asksAtLeast confined_asksAtLeast
    (by decide +kernel)).mpr
    ⟨by decide, by decide +kernel, .inl rfl⟩

/-- **Leaving a bound out passes a limit that stating it does not**, and so does a profile. -/
theorem unconfined_passes_confined_refused :
    ¬(∀ (scope : PolicyScope) (r r' : AuthorizationRequest),
        AsksAtLeast r r' → scopeMatches r' scope → scopeMatches r scope) ∧
      (∀ scope ∈ [{ maxMemoryMb := some 512 }, { isolationProfiles := ["review.*"] }],
        scopeMatches unconfined scope ∧ ¬scopeMatches confined scope) := by
  have hboth : ∀ scope ∈ [({ maxMemoryMb := some 512 } : PolicyScope),
      { isolationProfiles := ["review.*"] }],
      scopeMatches unconfined scope ∧ ¬scopeMatches confined scope := by decide +kernel
  refine ⟨fun hmono => ?_, hboth⟩
  obtain ⟨hun, hcon⟩ := hboth _ List.mem_cons_self
  exact hcon (hmono _ confined unconfined confined_asksAtLeast hun)

end Mishkan
