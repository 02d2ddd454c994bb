import Mathlib.Data.List.Infix
import Mishkan.Workers.LeaseBounds

/-!
# Workers/Deliveries — the first valid submission against the first submission

`deliverCompletion` looks for an earlier completion of the envelope in whatever state, so a stale
one takes the place of the first: every later submission, valid or not, is then recorded as a
duplicate of something that was never delivered. Otherwise the first valid submission is the one
delivered, and the duplicates are duplicates of it (`firstValidDelivered_iff`).

What was ever recorded of an envelope is read off its lease: it has completed exactly when a
completion was delivered, and it cannot complete once a submission is there.
-/

namespace Mishkan

open Refusal Transition Table

variable {deployment : Deployment} {s s' : Store} {ops before : List Op} {envelopeId : Uuid}
  {bounds : WorkerBounds} {now : Instant} {G : Prop} {k k' : Custody}

/-! ## The property -/

/-- At some time of the run a completion of the envelope with `P` was in the store. -/
def EverRecorded (deployment : Deployment) (ops : List Op) (envelopeId : Uuid)
    (P : WorkerCompletionRow → Prop) : Prop :=
  ∃ earlier, earlier <+: ops ∧ ∃ c ∈ (runFrom deployment .empty earlier).completions,
    c.envelopeId = envelopeId ∧ P c

/-- A new submission on an envelope and its lease that passes the checks before it is recorded. -/
structure TakenIn (s : Store) (bounds : WorkerBounds) (workerId : Uuid)
    (submission : WorkerCompletionSubmission) (token : String) (e : RemoteTaskEnvelopeRow)
    (l : WorkerLeaseRow) : Prop where
  sized : submission.encodedBytes ≤ bounds.maxCompletionBytes
  new : s.completion? submission.id = none
  envelope : s.envelope? submission.envelopeId = some e
  lease : s.lease? submission.leaseId = some l
  authority : e.workerId = workerId ∧ l.workerId = workerId ∧ l.envelopeId = e.id
  credential : Store.requireToken l token = .ok ()
  artifacts : s.validateCompletionArtifacts l submission = .ok ()

/-- The task of an envelope is where a delivery expects it. -/
def TaskHeld (s : Store) (e : RemoteTaskEnvelopeRow) : Prop :=
  ∃ t ∈ s.tasks, t.id = e.taskRowId ∧ (t.status = .leased ∨ t.status = .executing)

/-- **The first valid submission is delivered, and only duplicates of it are duplicates**, at one
submission after a run: if it has no stale reason and no earlier one of the envelope was without, it
is recorded as delivered; and it is recorded as duplicate only if an earlier one was delivered or
accepted. -/
def FirstValidDelivered (deployment : Deployment) (before : List Op) (workerId : Uuid)
    (submission : WorkerCompletionSubmission) (token : String) (now : Instant)
    (e : RemoteTaskEnvelopeRow) (l : WorkerLeaseRow) : Prop :=
  let result := (runFrom deployment .empty before).deliverCompletion deployment.bounds workerId
    submission token now
  (Store.completionStaleReason e.payload l submission now = none →
      ¬ EverRecorded deployment before e.id (·.decisionReason = none) →
      ∃ row s', result = .ok (row, s') ∧ row.state = .delivered) ∧
    ∀ row s', result = .ok (row, s') → row.state = .duplicate →
      EverRecorded deployment before e.id (·.state.isHeld)

instance (deployment : Deployment) (ops : List Op) (envelopeId : Uuid)
    (P : WorkerCompletionRow → Prop) [DecidablePred P] :
    Decidable (EverRecorded deployment ops envelopeId P) :=
  decidable_of_iff (∃ earlier ∈ ops.inits,
    ∃ c ∈ (runFrom deployment .empty earlier).completions, c.envelopeId = envelopeId ∧ P c)
    (by simp only [EverRecorded, List.mem_inits])

instance (s : Store) (e : RemoteTaskEnvelopeRow) : Decidable (TaskHeld s e) :=
  inferInstanceAs (Decidable (∃ _ ∈ _, _))

/-! ## One delivery -/

section Delivery

variable {workerId : Uuid} {submission : WorkerCompletionSubmission} {token : String}
  {e : RemoteTaskEnvelopeRow} {l : WorkerLeaseRow}

/-- The row of a submission that is taken in. -/
def recordedRow (s : Store) (workerId : Uuid) (submission : WorkerCompletionSubmission)
    (now : Instant) (e : RemoteTaskEnvelopeRow) (l : WorkerLeaseRow) : WorkerCompletionRow :=
  let reason := Store.completionStaleReason e.payload l submission now
  Store.receivedRow submission e.id l.id workerId (s.receivedState e.id reason) now reason

/-- A delivery records a new submission as it is received, and delivers it only while the task is
held. -/
theorem TakenIn.of_deliver (h : TakenIn s bounds workerId submission token e l)
    {row : WorkerCompletionRow}
    (hok : s.deliverCompletion bounds workerId submission token now = .ok (row, s')) :
    row = recordedRow s workerId submission now e l ∧
      s.completions.insert row = some s'.completions ∧
      (row.state = .delivered → TaskHeld s e) := by
  simp only [Store.deliverCompletion, h.new, bind_eq_ok, h.envelope, h.lease, require_eq_ok,
    Option.some.injEq] at hok
  obtain ⟨-, -, _, rfl, _, rfl, -, -, -, -, -, -, completions, hinsert, hok⟩ := hok
  split at hok
  · rename_i hstate
    obtain ⟨rfl, rfl⟩ := return_eq_ok.mp hok
    exact ⟨rfl, hinsert, fun hdelivered => absurd hdelivered hstate⟩
  · simp only [bind_eq_ok, require_eq_ok, return_eq_ok, Option.filter_eq_some_iff,
      Store.taskRow?_eq_some, decide_eq_true_eq] at hok
    obtain ⟨t, ⟨⟨ht, htask⟩, hactive⟩, rfl, rfl⟩ := hok
    exact ⟨rfl, hinsert, fun _ => ⟨t, ht, htask, hactive⟩⟩

/-- A submission that is taken in is recorded, unless it is to be delivered and the task is not
held. -/
theorem TakenIn.exists_deliver (h : TakenIn s bounds workerId submission token e l) (now : Instant)
    (hheld : (recordedRow s workerId submission now e l).state = .delivered → TaskHeld s e) :
    ∃ s', s.deliverCompletion bounds workerId submission token now
      = .ok (recordedRow s workerId submission now e l, s') := by
  obtain ⟨completions, hinsert⟩ :
      ∃ completions, s.completions.insert (recordedRow s workerId submission now e l)
        = some completions := by
    refine exists_insert fun c hc hclash => ?_
    have hid : c.id = submission.id := by
      have hkey : c.id = (recordedRow s workerId submission now e l).id := by
        simpa [Keyed.clash, Keyed.key] using hclash
      exact hkey
    have hfound := Store.completion?_eq_some.mpr ⟨hc, hid⟩
    rw [h.new] at hfound
    cases hfound
  have hsized : ¬ bounds.maxCompletionBytes < submission.encodedBytes := not_lt.mpr h.sized
  have hauthority : ¬ (e.workerId ≠ workerId ∨ l.workerId ≠ workerId ∨ l.envelopeId ≠ e.id) := by
    simp [h.authority]
  simp only [Store.deliverCompletion, h.new, bind_eq_ok, h.envelope, h.lease, require_eq_ok,
    Option.some.injEq, refuseIf_eq_ok]
  by_cases hstate : s.receivedState e.id (Store.completionStaleReason e.payload l submission now)
      = .delivered
  · obtain ⟨t, ht, htask, hactive⟩ := hheld hstate
    apply Exists.intro
    refine ⟨(), hsized, e, rfl, l, rfl, (), hauthority, (), h.credential, (), h.artifacts,
      completions, hinsert, ?_⟩
    rw [if_neg (not_not.mpr hstate)]
    simp only [bind_eq_ok, require_eq_ok, return_eq_ok, Option.filter_eq_some_iff,
      Store.taskRow?_eq_some, decide_eq_true_eq]
    exact ⟨t, ⟨⟨ht, htask⟩, hactive⟩, rfl, rfl⟩
  · apply Exists.intro
    refine ⟨(), hsized, e, rfl, l, rfl, (), hauthority, (), h.credential, (), h.artifacts,
      completions, hinsert, ?_⟩
    rw [if_pos hstate]
    rfl

/-- What is recorded anew has been taken in. -/
theorem takenIn_of_deliver {row : WorkerCompletionRow} (hnew : s.completion? submission.id = none)
    (hok : s.deliverCompletion bounds workerId submission token now = .ok (row, s')) :
    ∃ e l, TakenIn s bounds workerId submission token e l := by
  simp only [Store.deliverCompletion, hnew, bind_eq_ok, require_eq_ok, refuseIf_eq_ok] at hok
  obtain ⟨_, hsized, e, he, l, hl, _, hauthority, _, hcredential, _, hartifacts, -⟩ := hok
  refine ⟨e, l, not_lt.mp hsized, hnew, he, hl, ?_, hcredential, hartifacts⟩
  simpa only [not_or, not_not] using hauthority

/-- A replay changes nothing. -/
theorem deliver_replay {row existing : WorkerCompletionRow}
    (hold : s.completion? submission.id = some existing)
    (hok : s.deliverCompletion bounds workerId submission token now = .ok (row, s')) : s' = s := by
  simp only [Store.deliverCompletion, hold, bind_eq_ok, return_eq_ok] at hok
  obtain ⟨-, -, -, -, -, rfl⟩ := hok
  rfl

end Delivery

/-! ## What was ever recorded -/

/-- The lease of an envelope has completed. -/
def Custody.Completed (k : Custody) (envelopeId : Uuid) : Prop :=
  ∃ l ∈ k.leases, l.envelopeId = envelopeId ∧ l.state = .completed

/-- A submission of an envelope is there, and its lease has not completed. -/
def Custody.Spoiled (k : Custody) (envelopeId : Uuid) : Prop :=
  (∃ c ∈ k.completions, c.envelopeId = envelopeId) ∧ ¬ k.Completed envelopeId

/-- **Completions tell of their lease**: a stale one that it has not completed, a held one that it
has; a completed lease has a completion, and a held completion has no reason against it. -/
structure Telling (k : Custody) : Prop where
  stale : ∀ c ∈ k.completions, c.state = .stale → ¬ k.Completed c.envelopeId
  held : ∀ c ∈ k.completions, c.state.isHeld → k.Completed c.envelopeId
  reason : ∀ c ∈ k.completions, c.state.isHeld → c.decisionReason = none
  received : ∀ envelopeId, k.Completed envelopeId → ∃ c ∈ k.completions, c.envelopeId = envelopeId

/-- A completed lease stays so. -/
theorem CustodyMove.completed_kept (h : CustodyMove bounds now G k k')
    (hcompleted : k.Completed envelopeId) : k'.Completed envelopeId := by
  obtain ⟨l, hl, hle, hstate⟩ := hcompleted
  obtain ⟨l', hl', hstep⟩ := h.lease_forward hl
  obtain rfl := hstep.identity.2.2.2.2 (by simp [hstate])
  exact ⟨l', hl', hle, hstate⟩

/-- **A lease completes only with the first submission of its envelope.** -/
theorem CustodyMove.completed_new (h : CustodyMove bounds now G k k')
    (hcompleted : k'.Completed envelopeId) (hnot : ¬ k.Completed envelopeId) :
    (∀ c ∈ k.completions, c.envelopeId ≠ envelopeId) ∧
      ∃ c ∈ k'.completions, c.envelopeId = envelopeId := by
  obtain ⟨l', hl', hle, hstate⟩ := hcompleted
  obtain ⟨l, hl, hstep⟩ | ⟨_, _, _, _, rfl, -⟩ := h.lease_backward hl'
  · cases hstep with
    | same => exact absurd ⟨l', hl, hle, hstate⟩ hnot
    | renewed hactive => simp [hactive] at hstate
    | completed _ hfirst hnew => exact hle ▸ ⟨hfirst, hnew⟩
    | expired => cases hstate
  · cases hstate

/-- A submission stays. -/
theorem CustodyMove.submission_kept (h : CustodyMove bounds now G k k')
    (hc : ∃ c ∈ k.completions, c.envelopeId = envelopeId) :
    ∃ c ∈ k'.completions, c.envelopeId = envelopeId := by
  obtain ⟨c, hc, rfl⟩ := hc
  obtain ⟨c', hc', hstep⟩ := h.completion_forward hc
  exact ⟨c', hc', hstep.identity.2.1⟩

/-- A spoiled envelope stays so. -/
theorem CustodyMove.spoiled_kept (h : CustodyMove bounds now G k k')
    (hspoiled : k.Spoiled envelopeId) : k'.Spoiled envelopeId := by
  refine ⟨h.submission_kept hspoiled.1, fun hcompleted => ?_⟩
  obtain ⟨c, hc, hce⟩ := hspoiled.1
  exact (h.completed_new hcompleted hspoiled.2).1 c hc hce

theorem isHeld_iff {state : WorkerCompletionState} :
    state.isHeld = true ↔ state = .delivered ∨ state = .accepted := by
  cases state <;> simp [WorkerCompletionState.isHeld]

theorem telling_empty : Telling Store.empty.custody where
  stale _ hc := absurd hc not_mem_empty
  held _ hc := absurd hc not_mem_empty
  reason _ hc := absurd hc not_mem_empty
  received _ h := by
    obtain ⟨l, hl, -⟩ := h
    exact absurd hl not_mem_empty

/-- **Every change of custody keeps what completions tell.** -/
theorem Telling.move (h : Telling k) (hmove : CustodyMove bounds now G k k') : Telling k' where
  stale c' hc' hstale := by
    obtain ⟨c, hc, hstep⟩ | ⟨-, hnew⟩ := hmove.completion_backward hc'
    · have hbefore : c.state = .stale := by
        cases hstep with
        | same => exact hstale
        | accepted | duplicated => cases hstale
      rw [hstep.identity.2.1]
      exact (hmove.spoiled_kept ⟨⟨c, hc, rfl⟩, h.stale c hc hbefore⟩).2
    · obtain hdup | ⟨hfirst, ⟨-, hleases⟩ | ⟨hdelivered, -⟩⟩ := hnew
      · simp [hdup] at hstale
      · unfold Custody.Completed
        rw [hleases]
        intro hcompleted
        obtain ⟨c, hc, hce⟩ := h.received _ hcompleted
        exact hfirst c hc hce
      · simp [hdelivered] at hstale
  held c' hc' hheld := by
    obtain ⟨c, hc, hstep⟩ | ⟨-, hnew⟩ := hmove.completion_backward hc'
    · rw [hstep.identity.2.1]
      exact hmove.completed_kept (h.held c hc (isHeld_iff.mpr (hstep.held (isHeld_iff.mp hheld)).1))
    · obtain hdup | ⟨-, ⟨hstale, -⟩ | ⟨-, -, l, hl, -, hle, hstate, -⟩⟩ := hnew
      · simp [hdup, isHeld_iff] at hheld
      · simp [hstale, isHeld_iff] at hheld
      · exact ⟨l, hl, hle, hstate⟩
  reason c' hc' hheld := by
    obtain ⟨c, hc, hstep⟩ | ⟨-, hnew⟩ := hmove.completion_backward hc'
    · obtain ⟨hbefore, hsame⟩ := hstep.held (isHeld_iff.mp hheld)
      exact hsame.trans (h.reason c hc (isHeld_iff.mpr hbefore))
    · obtain hdup | ⟨-, ⟨hstale, -⟩ | ⟨-, hreason, -⟩⟩ := hnew
      · simp [hdup, isHeld_iff] at hheld
      · simp [hstale, isHeld_iff] at hheld
      · exact hreason
  received envelopeId hcompleted := by
    by_cases hbefore : k.Completed envelopeId
    · exact hmove.submission_kept (h.received envelopeId hbefore)
    · exact (hmove.completed_new hcompleted hbefore).2

/-! ## Runs -/

theorem telling_run (deployment : Deployment) (ops : List Op) :
    Telling (runFrom deployment .empty ops).custody :=
  custody_run deployment (fun hmove h => h.move hmove) telling_empty ops

variable {P : WorkerCompletionRow → Prop}

/-- What was recorded some time is there, and what it tells still holds. -/
theorem EverRecorded.kept {I : Custody → Prop} (h : EverRecorded deployment ops envelopeId P)
    (hP : ∀ {k : Custody} {c : WorkerCompletionRow}, Telling k → c ∈ k.completions →
      c.envelopeId = envelopeId → P c → I k) (hI : ∀ {G : Prop} {now : Instant} {k k' : Custody},
      CustodyMove deployment.bounds now G k k' → I k → I k') :
    I (runFrom deployment .empty ops).custody := by
  obtain ⟨earlier, ⟨later, rfl⟩, c, hc, hce, hPc⟩ := h
  rw [runFrom, run_append]
  exact custody_run deployment hI (hP (telling_run deployment earlier) hc hce hPc) later

theorem EverRecorded.submission (h : EverRecorded deployment ops envelopeId P) :
    ∃ c ∈ (runFrom deployment .empty ops).completions, c.envelopeId = envelopeId :=
  h.kept (I := fun k => ∃ c ∈ k.completions, c.envelopeId = envelopeId)
    (fun _ hc hce _ => ⟨_, hc, hce⟩) fun hmove => hmove.submission_kept

/-- **A submission was never both stale and held** on one envelope. -/
theorem not_stale_and_held (hstale : EverRecorded deployment ops envelopeId (·.state = .stale))
    (hheld : EverRecorded deployment ops envelopeId (·.state.isHeld)) : False := by
  have hspoiled : (runFrom deployment .empty ops).custody.Spoiled envelopeId :=
    hstale.kept (fun htelling hc hce hstate =>
      ⟨⟨_, hc, hce⟩, hce ▸ htelling.stale _ hc hstate⟩) fun hmove => hmove.spoiled_kept
  have hcompleted : (runFrom deployment .empty ops).custody.Completed envelopeId :=
    hheld.kept (fun htelling hc hce hstate => hce ▸ htelling.held _ hc hstate)
      fun hmove => hmove.completed_kept
  exact hspoiled.2 hcompleted

/-- A held submission was without a reason against it. -/
theorem EverRecorded.reason (h : EverRecorded deployment ops envelopeId (·.state.isHeld)) :
    EverRecorded deployment ops envelopeId (·.decisionReason = none) := by
  obtain ⟨earlier, hprefix, c, hc, hce, hheld⟩ := h
  exact ⟨earlier, hprefix, c, hc, hce, (telling_run deployment earlier).reason c hc hheld⟩

theorem EverRecorded.mono (h : EverRecorded deployment ops envelopeId P) (later : List Op) :
    EverRecorded deployment (ops ++ later) envelopeId P := by
  obtain ⟨earlier, hprefix, hc⟩ := h
  exact ⟨earlier, hprefix.trans (List.prefix_append ops later), hc⟩

/-- No operation but a delivery brings a submission in. -/
theorem submission_origin {op : Op} (hop : ¬ op.IsDelivery) {c' : WorkerCompletionRow}
    (hc' : c' ∈ (step deployment s op).completions) :
    ∃ c ∈ s.completions, c.envelopeId = c'.envelopeId := by
  have hchain : Chain (CustodyMove deployment.bounds (op.clock.getD 0) op.IsDelivery) s.custody
      (step deployment s op).custody :=
    step_custody deployment s op fun t ht => by rw [ht, Option.getD_some]
  refine hchain.rel (I := fun _ => True) (R := fun k k' => ∀ c' ∈ k'.completions,
    ∃ c ∈ k.completions, c.envelopeId = c'.envelopeId) ?_ ?_ (fun _ _ _ _ => trivial) ?_ trivial
    c' hc'
  · exact fun k c hc => ⟨c, hc, rfl⟩
  · intro k k₁ k' h h' c' hc'
    obtain ⟨c₁, hc₁, hce₁⟩ := h' c' hc'
    obtain ⟨c, hc, hce⟩ := h c₁ hc₁
    exact ⟨c, hc, hce.trans hce₁⟩
  · intro k k' _ hmove c' hc'
    obtain ⟨c, hc, hstep⟩ | ⟨hG, -⟩ := hmove.completion_backward hc'
    · exact ⟨c, hc, hstep.identity.2.1.symm⟩
    · exact absurd hG hop

/-- **A submission that is there goes back to one that was stale or delivered.** -/
theorem recorded_origin (deployment : Deployment) (ops : List Op) :
    ∀ c ∈ (runFrom deployment .empty ops).completions,
      EverRecorded deployment ops c.envelopeId (·.state = .stale) ∨
        EverRecorded deployment ops c.envelopeId (·.state.isHeld) := by
  induction ops using List.reverseRecOn with
  | nil => exact fun c hc => absurd hc not_mem_empty
  | append_singleton ops op ih =>
    intro c' hc'
    have hearlier : ∀ c ∈ (runFrom deployment .empty ops).completions,
        c.envelopeId = c'.envelopeId →
        EverRecorded deployment (ops ++ [op]) c'.envelopeId (·.state = .stale) ∨
          EverRecorded deployment (ops ++ [op]) c'.envelopeId (·.state.isHeld) := by
      intro c hc hce
      rw [← hce]
      exact (ih c hc).imp (·.mono [op]) (·.mono [op])
    have hlast : c' ∈ (step deployment (runFrom deployment .empty ops) op).completions := by
      rwa [runFrom, run_append] at hc'
    by_cases hop : op.IsDelivery
    · cases op with
      | deliverCompletion workerId submission token now =>
        cases hx : (runFrom deployment .empty ops).deliverCompletion deployment.bounds workerId
            submission token now with
        | error raised =>
          rw [step, hx] at hlast
          exact hearlier c' hlast rfl
        | ok p =>
          obtain ⟨row, s'⟩ := p
          rw [step, hx, commit_ok] at hlast
          cases hnew : (runFrom deployment .empty ops).completion? submission.id with
          | some existing =>
            rw [deliver_replay hnew hx] at hlast
            exact hearlier c' hlast rfl
          | none =>
            obtain ⟨e, l, htaken⟩ := takenIn_of_deliver hnew hx
            obtain ⟨hrow, hinsert, -⟩ := htaken.of_deliver hx
            obtain hold | rfl := (mem_of_insert hinsert).mp hlast
            · exact hearlier c' hold rfl
            have hrecorded : c' ∈ (runFrom deployment .empty
                (ops ++ [.deliverCompletion workerId submission token now])).completions := hc'
            have hce : c'.envelopeId = e.id := by rw [hrow]; rfl
            obtain ⟨-, c, hc, hsame⟩ | ⟨-, ⟨hstale, -⟩ | ⟨hdelivered, -⟩⟩ :=
              receivedState_cases (runFrom deployment .empty ops) e.id
                (Store.completionStaleReason e.payload l submission now)
            · exact hearlier c hc (hsame.trans hce.symm)
            · refine .inl ⟨_, List.prefix_rfl, c', hrecorded, rfl, ?_⟩
              rw [hrow]
              exact hstale
            · refine .inr ⟨_, List.prefix_rfl, c', hrecorded, rfl, ?_⟩
              rw [hrow]
              exact isHeld_iff.mpr (.inl hdelivered)
      | _ => exact absurd hop id
    · obtain ⟨c, hc, hce⟩ := submission_origin hop hlast
      exact hearlier c hc hce

/-! ## The condition -/

/-- **The first valid submission is delivered exactly when no stale one was recorded before** and
the task of the envelope is still held: a stale submission takes the place of the first, so
everything after it is a duplicate of what was never delivered. -/
theorem firstValidDelivered_iff (deployment : Deployment) (before : List Op) {workerId : Uuid}
    {submission : WorkerCompletionSubmission} {token : String} {now : Instant}
    {e : RemoteTaskEnvelopeRow} {l : WorkerLeaseRow}
    (htaken : TakenIn (runFrom deployment .empty before) deployment.bounds workerId submission token
      e l) :
    FirstValidDelivered deployment before workerId submission token now e l ↔
      ¬ EverRecorded deployment before e.id (·.state = .stale) ∧
        (Store.completionStaleReason e.payload l submission now = none →
          ¬ EverRecorded deployment before e.id (·.decisionReason = none) →
          TaskHeld (runFrom deployment .empty before) e) := by
  let s := runFrom deployment .empty before
  let reason := Store.completionStaleReason e.payload l submission now
  have hcases := receivedState_cases s e.id reason
  constructor
  · rintro ⟨hfirst, hdup⟩
    refine ⟨fun hstale => ?_, fun hreason hnone => ?_⟩
    · -- everything after a stale submission is a duplicate
      obtain ⟨c, hc, hce⟩ := hstale.submission
      obtain ⟨hstate, -⟩ | ⟨hno, -⟩ := hcases
      · obtain ⟨s', hok⟩ := htaken.exists_deliver now fun hdelivered => by
          change s.receivedState e.id reason = .delivered at hdelivered
          simp [hstate] at hdelivered
        exact not_stale_and_held hstale (hdup _ s' hok hstate)
      · exact hno c hc hce
    · obtain ⟨row, s', hok, hdelivered⟩ := hfirst hreason hnone
      exact (htaken.of_deliver hok).2.2 hdelivered
  · rintro ⟨hstale, hheld⟩
    refine ⟨fun hreason hnone => ?_, fun row s' hok hstate => ?_⟩
    · have hno : ∀ c ∈ s.completions, c.envelopeId ≠ e.id := by
        rintro c hc hce
        obtain hold | hold := recorded_origin deployment before c hc
        · exact hstale (hce ▸ hold)
        · exact hnone (hce ▸ hold.reason)
      obtain ⟨s', hok⟩ := htaken.exists_deliver now fun _ => hheld hreason hnone
      refine ⟨_, s', hok, ?_⟩
      obtain ⟨-, c, hc, hce⟩ | ⟨-, ⟨-, hsome⟩ | ⟨hdelivered, -⟩⟩ := hcases
      · exact absurd hce (hno c hc)
      · exact absurd hreason hsome
      · exact hdelivered
    · obtain ⟨rfl, -⟩ := htaken.of_deliver hok
      obtain ⟨-, c, hc, hce⟩ | ⟨-, ⟨hstale', -⟩ | ⟨hdelivered, -⟩⟩ := hcases
      · obtain hold | hold := recorded_origin deployment before c hc
        · exact absurd (hce ▸ hold) hstale
        · exact hce ▸ hold
      · cases hstate.symm.trans hstale'
      · cases hstate.symm.trans hdelivered

/-- A submission on the envelope and the lease of the small runs. -/
def submissionOf (id : Uuid) (contextRevision : String) : WorkerCompletionSubmission where
  id := id
  createdAt := second
  envelopeId := 20
  leaseId := 30
  executionContextRevision := contextRevision
  repositoryRevision := some "revision"
  result := .null
  effectReport := .notApplicable
  encodedBytes := 100

/-- A worker holds a lease. -/
def leasedRun : List Op := sampleStart ++ [.issueLease (sampleEnvelope 20 1 false) 30 sampleToken 0]

/-- Its first submission names another revision of the context. -/
def staleRun : List Op :=
  leasedRun ++ [.deliverCompletion 7 (submissionOf 40 "another") sampleToken second]

/-- A valid submission on an active lease is a duplicate after a stale one, although none was ever
delivered. -/
theorem stale_displaces_valid : ∃ e l,
    TakenIn (runFrom sampleDeployment .empty staleRun) sampleDeployment.bounds 7
        (submissionOf 41 "revision") sampleToken e l ∧
      ¬ FirstValidDelivered sampleDeployment staleRun 7 (submissionOf 41 "revision") sampleToken
        (2 * second) e l := by
  have hresult : ((runFrom sampleDeployment .empty staleRun).deliverCompletion
      sampleDeployment.bounds 7 (submissionOf 41 "revision") sampleToken (2 * second)).toOption.map
        (·.1.state) = some .duplicate := by decide
  have hnever : ¬ EverRecorded sampleDeployment staleRun 20 (·.state.isHeld) := by decide
  obtain ⟨⟨row, s'⟩, hsome, hstate⟩ := Option.map_eq_some_iff.mp hresult
  rw [toOption_eq_some] at hsome
  obtain ⟨e, l, htaken⟩ := takenIn_of_deliver (by decide) hsome
  refine ⟨e, l, htaken, fun h => hnever ?_⟩
  have hid : e.id = 20 := (Store.envelope?_eq_some.mp htaken.envelope).2
  exact hid ▸ h.2 row s' hsome hstate

/-- The first submission of a held task is delivered. -/
theorem firstValidDelivered_of_leased : ∃ e l,
    FirstValidDelivered sampleDeployment leasedRun 7 (submissionOf 40 "revision") sampleToken second
      e l := by
  have hresult : ((runFrom sampleDeployment .empty leasedRun).deliverCompletion
      sampleDeployment.bounds 7 (submissionOf 40 "revision") sampleToken second).toOption.map
        (·.1.state) = some .delivered := by decide
  obtain ⟨⟨row, s'⟩, hsome, hstate⟩ := Option.map_eq_some_iff.mp hresult
  rw [toOption_eq_some] at hsome
  obtain ⟨e, l, htaken⟩ := takenIn_of_deliver (by decide) hsome
  have hid : e.id = 20 := (Store.envelope?_eq_some.mp htaken.envelope).2
  refine ⟨e, l, (firstValidDelivered_iff sampleDeployment leasedRun htaken).mpr
    ⟨?_, fun _ _ => (htaken.of_deliver hsome).2.2 hstate⟩⟩
  rw [hid]
  decide

end Mishkan
