import Mishkan.Persistence.Invariants

/-!
# Workers/Acceptance — remote acceptance against local acceptance

`acceptCompletion` and `acceptResult` were written separately.  Of the checks of the local one the
remote one makes all but three: the state of the task, the whole of the execution context and the
inspection of the content.  Where these pass, the two leave the same tasks, runs, results and
acceptances (`remote_preserves_local_iff`).
-/

namespace Mishkan

open Refusal Transition Store

variable {s s' : Store} {resultId acceptanceId completionId runId : Uuid} {now : Instant}
  {result : InitializationResult} {review : ReviewDecision}

/-! ## The property -/

/-- The result and its review were not there and have been accepted. -/
def NewlyAccepted (s s' : Store) (runId : Uuid) (result : InitializationResult)
    (review : ReviewDecision) : Prop :=
  s.result? runId result.taskId = none ∧
    (s'.result? runId result.taskId).map (·.payload) = some result ∧
    (s'.acceptance? runId result.taskId).map (·.reviewPayload) = some review

/-- The two stores agree on the tasks, the runs, the results and the acceptances. -/
structure SameOutcome (s s' : Store) : Prop where
  tasks : s.tasks = s'.tasks
  runs : s.runs = s'.runs
  results : s.results = s'.results
  acceptances : s.acceptances = s'.acceptances

instance (s s' : Store) (runId : Uuid) (result : InitializationResult) (review : ReviewDecision) :
    Decidable (NewlyAccepted s s' runId result review) :=
  inferInstanceAs (Decidable (_ ∧ _ ∧ _))

instance (s s' : Store) : Decidable (SameOutcome s s') :=
  decidable_of_iff (s.tasks = s'.tasks ∧ s.runs = s'.runs ∧ s.results = s'.results
    ∧ s.acceptances = s'.acceptances)
    ⟨fun ⟨ht, hr, hs, ha⟩ => ⟨ht, hr, hs, ha⟩, fun h => ⟨h.1, h.2, h.3, h.4⟩⟩

/-- **The local acceptance accepts as well, with the same outcome.** -/
def LocallyAccepted (deployment : Deployment) (s s' : Store) (resultId acceptanceId runId : Uuid)
    (now : Instant) (result : InitializationResult) (review : ReviewDecision) : Prop :=
  let s'' := step deployment s (.acceptResult resultId acceptanceId runId now result review)
  NewlyAccepted s s'' runId result review ∧ SameOutcome s'' s'

instance (deployment : Deployment) (s s' : Store) (resultId acceptanceId runId : Uuid)
    (now : Instant) (result : InitializationResult) (review : ReviewDecision) :
    Decidable (LocallyAccepted deployment s s' resultId acceptanceId runId now result review) :=
  inferInstanceAs (Decidable (_ ∧ _))

/-- Whatever a remote acceptance newly accepts, the local one would have accepted. -/
def RemotePreservesLocal (deployment : Deployment) (s : Store)
    (resultId acceptanceId completionId : Uuid) (now : Instant) (result : InitializationResult)
    (review : ReviewDecision) : Prop :=
  let s' := step deployment s
    (.acceptCompletion resultId acceptanceId completionId now result review)
  ∀ c ∈ s.completions, c.id = completionId → ∀ e ∈ s.envelopes, e.id = c.envelopeId →
    NewlyAccepted s s' e.runId result review →
    LocallyAccepted deployment s s' resultId acceptanceId e.runId now result review

instance (deployment : Deployment) (s : Store) (resultId acceptanceId completionId : Uuid)
    (now : Instant) (result : InitializationResult) (review : ReviewDecision) :
    Decidable (RemotePreservesLocal deployment s resultId acceptanceId completionId now result
      review) :=
  inferInstanceAs (Decidable (∀ c ∈ s.completions, _))

/-- The checks of the local acceptance that the remote one does not make. -/
def LocalChecks (deployment : Deployment) (s : Store) (e : RemoteTaskEnvelopeRow)
    (result : InitializationResult) (review : ReviewDecision) : Prop :=
  (∃ t ∈ s.tasks, t.id = e.taskRowId ∧ t.status = .validating) ∧
    (∃ run ∈ s.runs, run.id = e.runId ∧ resultMatchesRunContext result run = true) ∧
    deployment.safe (.result result) = true ∧ deployment.safe (.review review) = true

instance (deployment : Deployment) (s : Store) (e : RemoteTaskEnvelopeRow)
    (result : InitializationResult) (review : ReviewDecision) :
    Decidable (LocalChecks deployment s e result review) :=
  inferInstanceAs (Decidable ((∃ t ∈ s.tasks, _) ∧ (∃ run ∈ s.runs, _) ∧ _))

/-! ## Runs on which the two differ -/

/-- A result against the given repository. -/
def sampleResult (repository : String) : InitializationResult where
  schemaVersion := .v11
  repositoryRevision := some "revision"
  executionContext := some (.repository repository "revision")
  taskId := "build"
  summary := "built"
  citedPaths := ["README.md"]
  findings := []
  legacyRevision := by simp
  explicitContext := by simp [PlanExecutionContext.repositoryRevision]

def sampleReview : ReviewDecision where
  taskId := "build"
  verdict := .accepted
  summary := "good"
  checkedCitations := ["README.md"]
  legacyLineage := by simp
  separatedLineage := by simp

def sampleSubmission (result : InitializationResult) : WorkerCompletionSubmission where
  id := 40
  createdAt := second
  envelopeId := 20
  leaseId := 30
  executionContextRevision := "revision"
  repositoryRevision := some "revision"
  result := result.modelDump
  effectReport := .notApplicable
  encodedBytes := 100

/-- A worker delivers the result. -/
def sampleDelivery (result : InitializationResult) : List Op :=
  sampleStart ++ [.issueLease (sampleEnvelope 20 1 false) 30 sampleToken 0,
    .beginExecution 7 30 sampleToken 0,
    .deliverCompletion 7 (sampleSubmission result) sampleToken second]

/-- A result made against another repository is accepted remotely; so is one whose task a recovery
has released; so is one that inspection would alter. -/
theorem remote_acceptance_weaker :
    ¬ RemotePreservesLocal sampleDeployment
        (runFrom sampleDeployment .empty (sampleDelivery (sampleResult "other")))
        50 51 40 (2 * second) (sampleResult "other") sampleReview ∧
    ¬ RemotePreservesLocal sampleDeployment
        (runFrom sampleDeployment .empty (sampleDelivery (sampleResult "repository")
          ++ [.reconcileInterrupted 1, .releaseInterrupted 1]))
        50 51 40 (2 * second) (sampleResult "repository") sampleReview ∧
    ¬ RemotePreservesLocal
        { sampleDeployment with safe := fun | .review _ => false | _ => true }
        (runFrom sampleDeployment .empty (sampleDelivery (sampleResult "repository")))
        50 51 40 (2 * second) (sampleResult "repository") sampleReview := by
  decide

/-! ## The shared half of the two acceptances -/

namespace SameOutcome

theorem addEvent (h : SameOutcome s s') (id : Uuid) (event : String) (task : Option String) :
    SameOutcome (s.addEvent id event task) s' := ⟨h.1, h.2, h.3, h.4⟩

theorem symm (h : SameOutcome s s') : SameOutcome s' s :=
  ⟨h.1.symm, h.2.symm, h.3.symm, h.4.symm⟩

theorem trans {s'' : Store} (h : SameOutcome s s') (h' : SameOutcome s' s'') : SameOutcome s s'' :=
  ⟨h.1.trans h'.1, h.2.trans h'.2, h.3.trans h'.3, h.4.trans h'.4⟩

theorem releaseDependents (h : SameOutcome s s') (runId : Uuid) :
    SameOutcome (s.releaseDependents runId) (s'.releaseDependents runId) := by
  refine ⟨?_, h.2, h.3, h.4⟩
  simp only [Store.releaseDependents, Store.moveTasks, dependenciesAccepted_congr h.tasks.symm]
  rw [h.tasks]

theorem completeRun (h : SameOutcome s s') (runId : Uuid) :
    SameOutcome (s.completeRun runId) (s'.completeRun runId) := by
  have hunaccepted : s.hasUnaccepted runId = s'.hasUnaccepted runId := by
    simp [Store.hasUnaccepted, h.tasks]
  unfold Store.completeRun
  rw [hunaccepted]
  split
  · exact h
  · refine ⟨h.1, ?_, h.3, h.4⟩
    simp only [Store.moveRun, Store.addEvent, h.runs]

end SameOutcome

/-- What both acceptances leave of the tables they share: the rows of the result and of its
acceptance, the accepted task, its released dependents and the run. -/
def Settled (s s' : Store) (resultId acceptanceId : Uuid) (now : Instant)
    (result : InitializationResult) (review : ReviewDecision) (t : TaskRow) : Prop :=
  ∃ results acceptances,
    s.results.insert
      { id := resultId, runId := t.runId, taskKey := t.taskKey, payload := result,
        acceptedAt := now } = some results ∧
    s.acceptances.insert
      { id := acceptanceId, runId := t.runId, taskKey := t.taskKey, resultId,
        reviewPayload := review, acceptedAt := now } = some acceptances ∧
    SameOutcome s' (((moveTask { s with results := results, acceptances := acceptances } t.id
      .accepted).releaseDependents t.runId).completeRun t.runId)

/-- **What a remote acceptance that newly accepts has checked, and what it leaves.** -/
theorem of_acceptCompletion {a : WorkerCompletionRow} (haddressed : Addressed s)
    (h : s.acceptCompletion resultId acceptanceId completionId now result review = .ok (a, s'))
    (hresults : s'.results ≠ s.results) :
    ∃ c ∈ s.completions, c.id = completionId ∧ ∃ e ∈ s.envelopes, e.id = c.envelopeId ∧
      ∃ t ∈ s.tasks, t.id = e.taskRowId ∧ t.runId = e.runId ∧
      ∃ run ∈ s.runs, run.id = e.runId ∧ run.cancellationRequested = false ∧
        result.taskId = t.taskKey ∧ review.verdict = .accepted ∧
        (review.schemaVersion = .v11 → review.producerIdentity = some t.contract.assignedRole) ∧
        s.dependenciesAccepted t.runId t.contract = true ∧
        Settled s s' resultId acceptanceId now result review t := by
  simp only [acceptCompletion, bind_eq_ok, require_eq_ok, completion?_eq_some,
    envelope?_eq_some, taskRow?_eq_some, run?_eq_some] at h
  obtain ⟨c, ⟨hc, hcid⟩, e, ⟨he, hce⟩, t, ⟨ht, htask⟩, run, ⟨hrun, hrunid⟩, h⟩ := h
  split at h
  · -- a replay writes no result
    split at h <;> cases h <;> exact absurd rfl hresults
  simp only [bind_eq_ok, refuseIf_eq_ok, require_eq_ok, return_eq_ok, not_not, not_or, not_and,
    Bool.not_eq_true, Bool.not_eq_false] at h
  obtain ⟨-, -, -, -, -, ⟨hresult, -⟩, -, hverdict, -, hopen, -, -, -, hproducer, -, hdeps, -, -,
    results, hinsert, acceptances, hinsert', _, -, -, rfl⟩ := h
  have hid : t.runId = e.runId := by
    obtain ⟨t', ht', htid, htrun, -⟩ := haddressed e he
    rw [task_eq ht ht' (htask.trans htid.symm), htrun]
  have hid' : run.id = t.runId := hrunid.trans hid.symm
  rw [hid'] at hinsert hinsert' hdeps ⊢
  refine ⟨c, hc, hcid, e, he, hce, t, ht, htask, hid, run, hrun, hrunid, hopen, hresult, hverdict,
    hproducer, hdeps, results, acceptances, hinsert, hinsert', ?_⟩
  refine SameOutcome.completeRun (SameOutcome.releaseDependents ?_ _) _
  constructor <;> rfl

/-- **What a local acceptance that newly accepts has checked.** -/
theorem of_acceptResult {safe : ContentInspector} {a : RunSnapshot}
    (h : s.acceptResult safe resultId acceptanceId runId now result review = .ok (a, s'))
    (hnew : s.result? runId result.taskId = none) :
    safe (.result result) = true ∧ safe (.review review) = true ∧
      (∃ run ∈ s.runs, run.id = runId ∧ resultMatchesRunContext result run = true) ∧
      ∃ t ∈ s.tasks, t.runId = runId ∧ t.taskKey = result.taskId ∧ t.status = .validating := by
  simp only [acceptResult, bind_eq_ok, require_eq_ok, task?_eq_some, requireRun_eq_ok,
    requireSafeContent, refuseIf_eq_ok, not_not, hnew] at h
  obtain ⟨-, hsafe, run, ⟨hrun, hrunid⟩, t, ⟨ht, htrun, hkey⟩, -, hmatches, -, -, -, -, -, hstatus,
    -⟩ := h
  exact ⟨hsafe _ (by simp), hsafe _ (by simp), ⟨run, hrun, hrunid, hmatches⟩, t, ht, htrun, hkey,
    hstatus⟩

/-- **A local acceptance whose checks pass accepts.** -/
theorem acceptResult_ok {safe : ContentInspector} {run : RunRow} {t : TaskRow}
    (hresult : safe (.result result) = true) (hreview : safe (.review review) = true)
    (hnew : s.result? t.runId result.taskId = none) (hrun : run ∈ s.runs)
    (hrunid : run.id = t.runId)
    (hmatches : resultMatchesRunContext result run = true)
    (hopen : run.cancellationRequested = false) (ht : t ∈ s.tasks)
    (hkey : result.taskId = t.taskKey)
    (hstatus : t.status = .validating)
    (hdeps : s.dependenciesAccepted t.runId t.contract = true)
    (hverdict : review.verdict = .accepted)
    (hproducer : review.schemaVersion = .v11 →
      review.producerIdentity = some t.contract.assignedRole)
    (hsettled : Settled s s' resultId acceptanceId now result review t) :
    ∃ a s'', s.acceptResult safe resultId acceptanceId t.runId now result review = .ok (a, s'') ∧
      SameOutcome s'' s' := by
  obtain ⟨results, acceptances, hinsert, hinsert', hsame⟩ := hsettled
  rw [← hkey] at hinsert hinsert'
  have hrun? : s.requireRun t.runId = .ok run := requireRun_eq_ok.mpr ⟨hrun, hrunid⟩
  have htask? : s.task? t.runId result.taskId = some t :=
    task?_eq_some.mpr ⟨ht, rfl, hkey.symm⟩
  have hsafe : ∀ payload ∈ [Content.result result, .review review], safe payload = true := by
    simp [hresult, hreview]
  let accepted := moveTask { s with results := results, acceptances := acceptances } t.id
    .accepted
  let s'' := ((accepted.addEvent t.runId "task.result_accepted" (some result.taskId))
    |>.releaseDependents t.runId).completeRun t.runId
  refine ⟨s''.snapshot run false, s'', ?_, ?_⟩
  · simp only [acceptResult, bind_eq_ok, require_eq_ok, requireSafeContent,
      refuseIf_eq_ok, not_not, hrun?, htask?, hnew, pure_eq_ok]
    exact ⟨(), hsafe, run, rfl, t, rfl, (), hmatches, (), by simp [hopen], (), by simp [hdeps], (),
      by simp [hstatus], (), by simp [hverdict], (), by simpa using hproducer, results, hinsert,
      acceptances, hinsert', rfl⟩
  · refine SameOutcome.trans ?_ hsame.symm
    exact .completeRun (.releaseDependents (.addEvent ⟨rfl, rfl, rfl, rfl⟩ _ _ _) _) _

/-! ## The two acceptances -/

/-- A store that has newly accepted a result has other results than before. -/
theorem NewlyAccepted.results_ne (h : NewlyAccepted s s' runId result review) :
    s'.results ≠ s.results := by
  intro hsame
  obtain ⟨hnone, hsome, -⟩ := h
  rw [result?, hsame, ← result?, hnone] at hsome
  cases hsome

/-- Agreeing stores have newly accepted the same. -/
theorem NewlyAccepted.congr {s'' : Store} (h : NewlyAccepted s s' runId result review)
    (hsame : SameOutcome s'' s') : NewlyAccepted s s'' runId result review := by
  unfold NewlyAccepted result? acceptance?
  rw [hsame.results, hsame.acceptances]
  exact h

/-- **A remote acceptance preserves the local one exactly when the checks it leaves out pass**: in
every reachable store in which it newly accepts a result, the local acceptance of the same result
accepts as well, with the same outcome, if and only if the task is validating, the result matches
the execution context of the run and inspection leaves result and review unchanged. -/
theorem remote_preserves_local_iff (deployment : Deployment) (hs : Reachable deployment s)
    {c : WorkerCompletionRow} (hc : c ∈ s.completions) {e : RemoteTaskEnvelopeRow}
    (he : e ∈ s.envelopes) (hce : e.id = c.envelopeId)
    (hnew : NewlyAccepted s (step deployment s
      (.acceptCompletion resultId acceptanceId c.id now result review)) e.runId result review) :
    LocallyAccepted deployment s (step deployment s
        (.acceptCompletion resultId acceptanceId c.id now result review))
      resultId acceptanceId e.runId now result review ↔
    LocalChecks deployment s e result review := by
  have haddressed : Addressed s := hs.sound.addressed
  cases hx : s.acceptCompletion resultId acceptanceId c.id now result review with
  | error raised =>
    have hstep : step deployment s (.acceptCompletion resultId acceptanceId c.id now result review)
        = s := by simp only [step, hx]; rfl
    exact absurd (by rw [hstep]) hnew.results_ne
  | ok p =>
    obtain ⟨a, s'⟩ := p
    have hstep : step deployment s (.acceptCompletion resultId acceptanceId c.id now result review)
        = s' := by simp only [step, hx]; rfl
    rw [hstep] at hnew ⊢
    obtain ⟨c', hc', hid, e', he', hce', t, ht, htask, htrun, run, hrun, hrunid, hopen, hkey,
      hverdict, hproducer, hdeps, hsettled⟩ := of_acceptCompletion haddressed hx hnew.results_ne
    have hsamec : c' = c := Table.eq_of_clash hc' hc (by simp [Keyed.clash, Keyed.key, hid])
    have hsamee : e' = e := envelope_eq he' he (by rw [hce', hce, hsamec])
    rw [hsamee] at htask htrun hrunid
    constructor
    · rintro ⟨hnew', -⟩
      -- the local acceptance has committed, so its own checks have passed
      cases hy : s.acceptResult deployment.safe resultId acceptanceId e.runId now result review with
      | error raised =>
        have hstep' : step deployment s
            (.acceptResult resultId acceptanceId e.runId now result review) = s := by
          simp only [step, hy]; rfl
        exact absurd (by rw [hstep']) hnew'.results_ne
      | ok q =>
        obtain ⟨hresult, hreview, hcontext, t', ht', htrun', hkey', hstatus⟩ :=
          of_acceptResult hy hnew.1
        have hsame : t' = t :=
          task_eq_of_key ht' ht (htrun'.trans htrun.symm) (hkey'.trans hkey)
        exact ⟨⟨t, ht, htask, hsame ▸ hstatus⟩, hcontext, hresult, hreview⟩
    · rintro ⟨⟨t', ht', htask', hstatus⟩, ⟨run', hrun', hrunid', hmatches⟩, hresult, hreview⟩
      have hsamet : t' = t := task_eq ht' ht (htask'.trans htask.symm)
      have hsamer : run' = run := run_eq hrun' hrun (hrunid'.trans hrunid.symm)
      rw [hsamet] at hstatus
      rw [hsamer] at hmatches
      obtain ⟨snapshot, s'', hy, hsame⟩ := acceptResult_ok hresult hreview (htrun ▸ hnew.1) hrun
        (hrunid.trans htrun.symm) hmatches hopen ht hkey hstatus hdeps hverdict hproducer hsettled
      have hstep' : step deployment s
          (.acceptResult resultId acceptanceId e.runId now result review) = s'' := by
        rw [← htrun]
        simp only [step, hy]
        rfl
      unfold LocallyAccepted
      rw [hstep']
      exact ⟨hnew.congr hsame, hsame⟩

/-- The delivery of a result against the right repository is accepted by both. -/
theorem remote_preserves_local_sample :
    let s := runFrom sampleDeployment .empty (sampleDelivery (sampleResult "repository"))
    ∃ c ∈ s.completions, ∃ e ∈ s.envelopes, e.id = c.envelopeId ∧
      LocallyAccepted sampleDeployment s (step sampleDeployment s
          (.acceptCompletion 50 51 c.id (2 * second) (sampleResult "repository") sampleReview))
        50 51 e.runId (2 * second) (sampleResult "repository") sampleReview := by
  intro s
  have hdelivered : ∃ c ∈ s.completions, ∃ e ∈ s.envelopes, e.id = c.envelopeId ∧
      NewlyAccepted s (step sampleDeployment s
        (.acceptCompletion 50 51 c.id (2 * second) (sampleResult "repository") sampleReview))
        e.runId (sampleResult "repository") sampleReview ∧
      LocalChecks sampleDeployment s e (sampleResult "repository") sampleReview := by decide
  obtain ⟨c, hc, e, he, hce, hnew, hchecks⟩ := hdelivered
  exact ⟨c, hc, e, he, hce,
    (remote_preserves_local_iff sampleDeployment ⟨_, rfl⟩ hc he hce hnew).mpr hchecks⟩

end Mishkan
