import Mishkan.Tools.Invocation

/-!
# Tools/Refusals — what a refused call and an absent effect say about the adapter

The status of a call that raised is read off the code of its error, wherever the error came from.
So a refused call is one that was never dispatched, one that its adapter refused, or one where a
check behind the adapter raised a code of `preDispatchCodes`; where no such check does, only the
first two are left (`refused_by_adapter`).  A call whose adapter ran is settled as absent only when
the inspected result of the adapter, with what was observed of the workspace, reports it.
-/

namespace Mishkan

open Dialogue Refusal

/-- The adapter was invoked. -/
def Invoked (log : List (Sigma Question.Reply)) : Prop :=
  ∃ entry ∈ log, entry.1 = .of .invokeAdapter

/-- The error is of a code that says the call never reached its adapter. -/
def Failure.isPreDispatch : Failure → Bool
  | .raised (.mishkan error) => error.code ∈ preDispatchCodes
  | _ => false

/-- The adapter refuses the call: by its result, or by the code of its error. -/
def AdapterRefuses : Except Failure AdapterResult → Prop
  | .ok result => result.callStatus = .refused
  | .error failure => failure.isPreDispatch = true

/-- The question comes after the adapter has returned. -/
def Call.afterAdapter : Call → Bool
  | .compareWorkspace | .storeWorkspaceDiff | .requireResolvedPathState true
  | .audit .returned _ _ | .completePlannedCall .. => true
  | _ => false

namespace Invocation

/-! ## What an observation reports -/

variable (i : Invocation) (host : ∀ q : Question, q.Reply)

/-- Of what is answered, nothing that follows the return of the adapter fails with a code of
`preDispatchCodes`. -/
structure NoLateRefusal (answered : Sigma Question.Reply → Prop) : Prop where
  asked : ∀ call failure, call.afterAdapter = true → answered ⟨.of call, .error failure⟩ →
    failure.isPreDispatch = false
  evidence : ∀ complete output raised, i.operationEvidence = some complete →
    complete output = .error raised → (Failure.raised raised).isPreDispatch = false
  stored : ∀ put candidate raised, i.artifactStore = some put → put candidate = .error raised →
    (Failure.raised raised).isPreDispatch = false

/-- What the observation of the workspace makes of a result. -/
def observation (result : AdapterResult) : Except Failure AdapterResult :=
  if i.observes then do
    let evidence : WorkspaceEffectEvidence ← host (.of .compareWorkspace)
    if evidence.changedPaths ≠ [] ∧ i.artifactStore.isSome then do
      let reference : String ← host (.of .storeWorkspaceDiff)
      return i.observed evidence (some reference) result
    else
      return i.observed evidence none result
  else
    return result

/-- The result of the adapter, with what was observed of the workspace. -/
def observedResult : Except Failure AdapterResult := do
  let result : AdapterResult ← host (.of .invokeAdapter)
  i.observation host result

/-- The result a call is completed with is the one the adapter and the observation gave, and its
inspected output reports that the effect is absent. -/
def ReportsAbsent (result : ToolResultEnvelope) : Prop :=
  ∃ observed credentials envelope, i.observedResult host = .ok observed ∧
    (i.dispatchedCall credentials).completeResult observed = .ok envelope ∧
    result = envelope.toToolResultEnvelope ∧ reportedSettlement result = some .absent

/-! ## The walk -/

/-- Followed is whether the adapter has been invoked; a call that is then settled as absent has to
report it. -/
def dispatchMonitor : Monitor Question Question.Reply Bool where
  allows invoked
    | .of (.completePlannedCall result settlement) =>
      settlement = .absent → invoked = true → i.effects ≠ [] → i.ReportsAbsent host result
    | _ => True
  admits _ q reply := reply = host q
  next
    | _, .of .invokeAdapter, _ => true
    | invoked, _, _ => invoked

/-- A refusal is the adapter's, unless something behind it refuses. -/
def Refusing : Prop :=
  i.NoLateRefusal (fun entry => host entry.1 = entry.2) → AdapterRefuses (host (.of .invokeAdapter))

/-- An exception that is thrown once the adapter was invoked. -/
structure ThrownBehind (thrown : Thrown) : Prop where
  issued : thrown.locals.callId ≠ none
  started : thrown.locals.dispatchStarted = true
  refusing : thrown.failure.isPreDispatch = true → i.Refusing host

/-- What an end of the attempt says when the adapter was invoked. -/
def Blames : Except Thrown Returned → Bool → Prop
  | .ok returned, invoked => invoked = true → returned.status = .refused → i.Refusing host
  | .error thrown, invoked => invoked = true → i.ThrownBehind host thrown

/-- What the inner `try` ends with: the result that was observed, or an exception from before or
behind the start of the adapter. -/
def AdapterEnds : Except Thrown (Locals × AdapterResult) → Bool → Prop
  | .ok (l, result), invoked => invoked = true ∧ (l.callId ≠ none ∧ l.dispatchStarted = true) ∧
      i.observedResult host = .ok result
  | .error thrown, invoked => invoked = true → i.ThrownBehind host thrown

variable {i host} {l : Locals} {invoked : Bool}

variable {call : Call}

theorem obeys_asking {ε : Type} {throw : Failure → ε} {Q : Except ε call.Answer → Bool → Prop}
    (hallows : (i.dispatchMonitor host).allows invoked (.of call))
    (hok : ∀ a, host (.of call) = .ok a →
      Q (.ok a) ((i.dispatchMonitor host).next invoked (.of call) (.ok a)))
    (herror : ∀ f, host (.of call) = .error f →
      Q (.error (throw f)) ((i.dispatchMonitor host).next invoked (.of call) (.error f))) :
    Obeys (i.dispatchMonitor host) invoked (asking throw call) Q := by
  refine ⟨hallows, fun reply hreply => ?_⟩
  obtain rfl : reply = host (.of call) := hreply
  rcases hanswer : host (.of call) with f | a
  · exact herror f hanswer
  · exact hok a hanswer

/-- Before the adapter is invoked everything is allowed. -/
theorem obeys_before {ε α : Type} {x : Dialogue Question Question.Reply ε α}
    {Q : Except ε α → Bool → Prop} (h : x.Asks (· ≠ .of .invokeAdapter)) (hQ : ∀ r, Q r false) :
    Obeys (i.dispatchMonitor host) false x Q := by
  refine h.obeys (fun q _ => ?_) (fun q _ hq => ?_) hQ
  · unfold dispatchMonitor
    dsimp only
    split
    · exact fun _ h => nomatch h
    · trivial
  · unfold dispatchMonitor
    dsimp only
    split
    · exact absurd rfl hq
    · rfl

/-- A question behind the adapter that is answered with an exception. -/
theorem thrownBehind_of_late (hl : l.callId ≠ none ∧ l.dispatchStarted = true)
    {f : Failure} (hf : host (.of call) = .error f) (hlate : call.afterAdapter = true) :
    i.ThrownBehind host ⟨l, f⟩ :=
  ⟨hl.1, hl.2, fun hpre hno => by
    rw [show f.isPreDispatch = false from hno.asked call f hlate hf] at hpre
    cases hpre⟩

theorem walk_runAdapter (hl : l.callId ≠ none ∧ l.dispatchStarted = true) :
    Obeys (i.dispatchMonitor host) false (i.runAdapter l) (i.AdapterEnds host) := by
  unfold runAdapter
  refine .bind (obeys_before (.onlyIf (asks_ask (by simp))) fun r => ?_)
  rcases r with t | ⟨⟩
  · exact fun h => nomatch h
  refine .bind (obeys_asking trivial (fun result hresult => ?_) fun f hf => ?_)
  swap
  · exact fun _ => ⟨hl.1, hl.2, fun hpre _ => by rw [hf]; exact hpre⟩
  change Obeys _ true (if i.observes = true then _ else _) _
  have hobserved : ∀ {observed}, i.observation host result = .ok observed →
      i.observedResult host = .ok observed := fun h =>
    Refusal.bind_eq_ok.mpr ⟨result, hresult, h⟩
  by_cases hobserves : i.observes = true
  · -- the observation: its exceptions come behind the adapter
    have hl' : ({ l with dispatchedStatus := some result.callStatus } : Locals).callId ≠ none ∧
        l.dispatchStarted = true := hl
    unfold applyWorkspaceEffectObservation
    unfold observation at hobserved
    rw [if_pos hobserves] at hobserved ⊢
    refine .bind (.bind (obeys_asking trivial (fun evidence hevidence => ?_) fun f hf => ?_))
    swap
    · exact fun _ => thrownBehind_of_late hl' hf rfl
    replace hobserved := fun {observed} h => @hobserved observed
      (Refusal.bind_eq_ok.mpr ⟨evidence, hevidence, h⟩)
    dsimp only at hobserved ⊢
    by_cases hchanged : evidence.changedPaths ≠ [] ∧ i.artifactStore.isSome = true
    · rw [if_pos hchanged] at hobserved ⊢
      refine .bind (obeys_asking trivial (fun reference hreference => ?_) fun f hf => ?_)
      swap
      · exact fun _ => thrownBehind_of_late hl' hf rfl
      exact ⟨rfl, hl, hobserved (Refusal.bind_eq_ok.mpr ⟨reference, hreference, rfl⟩)⟩
    · rw [if_neg hchanged] at hobserved ⊢
      exact ⟨rfl, hl, hobserved rfl⟩
  · rw [if_neg hobserves]
    unfold observation at hobserved
    rw [if_neg hobserves] at hobserved
    exact ⟨rfl, hl, hobserved rfl⟩

/-- An observation makes no result a refused one. -/
theorem refused_of_observation {r result : AdapterResult} (h : i.observation host r = .ok result)
    (hrefused : result.callStatus = .refused) : r.callStatus = .refused := by
  have hobserved : ∀ {evidence reference}, i.observedStatus evidence reference r = .refused →
      r.callStatus = .refused := by
    intro evidence reference h
    unfold observedStatus at h
    split at h
    · split at h
      · cases h
      · split at h
        · cases h
        · exact h
    · exact h
  unfold observation at h
  split at h
  · obtain ⟨evidence, -, h⟩ := Refusal.bind_eq_ok.mp h
    split at h
    · obtain ⟨reference, -, h⟩ := Refusal.bind_eq_ok.mp h
      rw [← Refusal.pure_eq_ok.mp h] at hrefused
      exact hobserved hrefused
    · rw [← Refusal.pure_eq_ok.mp h] at hrefused
      exact hobserved hrefused
  · rwa [Refusal.pure_eq_ok.mp h]

variable {result : AdapterResult}

theorem refuses_of_observedResult
    (hresult : i.observedResult host = .ok result) (hrefused : result.callStatus = .refused) :
    AdapterRefuses (host (.of .invokeAdapter)) := by
  obtain ⟨r, hr, hobservation⟩ := Refusal.bind_eq_ok.mp hresult
  rw [hr]
  exact refused_of_observation hobservation hrefused

/-- Behind the adapter a step goes on, or throws what `ThrownBehind` says. -/
def Behind (i : Invocation) (host : ∀ q : Question, q.Reply) {α : Type} (r : Except Thrown α)
    (invoked : Bool) : Prop :=
  invoked = true ∧ ∀ thrown, r = .error thrown → i.ThrownBehind host thrown

theorem behind_ask (hl : l.callId ≠ none ∧ l.dispatchStarted = true)
    (hallows : (i.dispatchMonitor host).allows true (.of call)) (hlate : call.afterAdapter = true)
    (hcall : call ≠ .invokeAdapter) :
    Obeys (i.dispatchMonitor host) true (l.ask call) (Behind i host) := by
  have hnext : ∀ reply, (i.dispatchMonitor host).next true (.of call) reply = true := by
    intro reply
    cases call <;> rfl
  refine obeys_asking hallows (fun a _ => ⟨hnext _, fun _ h => nomatch h⟩) fun f hf => ?_
  refine ⟨hnext _, fun thrown h => ?_⟩
  rw [← Except.error.inj h]
  exact thrownBehind_of_late hl hf hlate

theorem bind_behind {α : Type} {x : Program α} {f : α → Program Returned}
    (hx : Obeys (i.dispatchMonitor host) true x (Behind i host))
    (hf : ∀ a, Obeys (i.dispatchMonitor host) true (f a) (i.Blames host)) :
    Obeys (i.dispatchMonitor host) true (x >>= f) (i.Blames host) := by
  refine .bind (hx.mono ?_)
  rintro (thrown | a) invoked ⟨rfl, hthrown⟩
  · exact fun _ => hthrown thrown rfl
  · exact hf a

/-- A step behind the adapter that may be left out. -/
theorem behind_onlyIf {p : Prop} [Decidable p] {x : Program Unit}
    (hx : Obeys (i.dispatchMonitor host) true x (Behind i host)) :
    Obeys (i.dispatchMonitor host) true (x.onlyIf p) (Behind i host) :=
  .onlyIf (fun _ => hx) fun _ => ⟨rfl, fun _ h => nomatch h⟩

/-! ### The result block -/

/-- No code of `preDispatchCodes`. -/
def Behaved (raised : Raised) : Prop := (Failure.raised raised).isPreDispatch = false

theorem behaved_inspect {inspector : Inspection.ContentInspector} {content : List Char}
    {secrets : List String} : Raises Behaved (inspector.inspect content secrets) := by
  refine .bind (.refuseIf rfl) fun _ _ => .foldlM (fun content rule => ?_) content
  unfold Inspection.ContentInspector.applyRule
  split
  · exact .ok content
  · exact .bind (.refuseIf rfl) fun _ _ => .ok _

theorem behaved_readResult {inspected : List Char} :
    Raises Behaved (DispatchedCall.readResult inspected) := by
  refine .bind (.require rfl) fun document _ => ?_
  repeat' split
  all_goals first | exact .ok _ | exact .error rfl

/-- The result block raises a code of `preDispatchCodes` only where a collaborator of it does. -/
theorem behaved_completeResult {answered : Sigma Question.Reply → Prop}
    (hno : i.NoLateRefusal answered) {credentials : List (String × String)} :
    Raises Behaved ((i.dispatchedCall credentials).completeResult result) := by
  have hevidence : ∀ output,
      Raises Behaved ((i.dispatchedCall credentials).withOperationEvidence output) := by
    intro output
    unfold DispatchedCall.withOperationEvidence
    split
    · exact .ok output
    · rename_i complete hcomplete
      exact .bind (.refuseIf rfl) fun _ _ => .bind
        (fun raised h => hno.evidence complete output raised hcomplete h) fun _ _ => .ok _
  have hstore : ∀ collected candidate,
      Raises Behaved ((i.dispatchedCall credentials).storeCandidate collected candidate) := by
    intro collected candidate
    refine .bind (.refuseIf rfl) fun _ _ => .bind behaved_inspect fun _ _ => ?_
    refine .bind (.require rfl) fun put hput => .bind (fun raised h => ?_) fun _ _ => .ok _
    exact hno.stored put candidate raised (Refusal.require_eq_ok.mp hput) h
  unfold DispatchedCall.completeResult
  refine .bind (.refuseIf rfl) fun _ _ => .bind (.refuseIf rfl) fun _ _ => ?_
  refine .bind (.mapM fun _ => behaved_inspect) fun _ _ => .bind (hevidence _) fun _ _ => ?_
  refine .bind (.foldlM hstore _) fun _ _ => .bind behaved_inspect fun _ _ => ?_
  exact .bind behaved_readResult fun _ _ => .bind (.refuseIf rfl) fun _ _ => .ok _

theorem status_of_completeResult {call : DispatchedCall}
    {envelope : InspectedEnvelope} (h : call.completeResult result = .ok envelope) :
    envelope.status = result.callStatus := by
  simp only [DispatchedCall.completeResult, bind_eq_ok] at h
  obtain ⟨_, _, _, _, _, _, _, _, _, _, _, _, _, _, _, _, h⟩ := h
  rw [← Except.ok.inj h]

/-- A settlement is absent where the result reports it. -/
theorem reported_of_absent {effects : List String} {result : ToolResultEnvelope}
    (h : effectSettlement effects result true = .absent) (heffects : effects ≠ []) :
    reportedSettlement result = some .absent := by
  rw [effectSettlement, if_neg heffects] at h
  cases hreported : reportedSettlement result with
  | some settlement =>
    simp only [hreported] at h
    rw [h]
  | none =>
    simp only [hreported] at h
    split at h <;> cases h

/-- **The result block**: what is completed behind the adapter reports an absent effect, and is
refused by the adapter. -/
theorem walk_settle (hl : l.callId ≠ none ∧ l.dispatchStarted = true)
    {credentials : List (String × String)} (hresult : i.observedResult host = .ok result) :
    Obeys (i.dispatchMonitor host) true (i.settle l credentials result) (i.Blames host) := by
  unfold settle
  refine bind_behind (behind_onlyIf ⟨rfl, fun thrown h => ?_⟩) fun _ => ?_
  · rw [← Except.error.inj h]
    exact ⟨hl.1, hl.2, fun h => nomatch h⟩
  refine bind_behind (behind_onlyIf (behind_ask hl trivial rfl (by simp))) fun _ => ?_
  split
  · rename_i raised hraised
    refine fun _ => ⟨hl.1, hl.2, fun hpre hno => ?_⟩
    rw [show (Failure.raised raised).isPreDispatch = false from
      behaved_completeResult hno raised hraised] at hpre
    cases hpre
  · rename_i envelope henvelope
    refine bind_behind (behind_ask hl trivial rfl (by simp)) fun _ => ?_
    have hallows : effectSettlement i.effects envelope.toToolResultEnvelope l.dispatchStarted =
        .absent → true = true → i.effects ≠ [] →
          i.ReportsAbsent host envelope.toToolResultEnvelope := by
      intro habsent _ heffects
      rw [hl.2] at habsent
      exact ⟨result, credentials, envelope, hresult, henvelope, rfl,
        reported_of_absent habsent heffects⟩
    refine bind_behind (behind_onlyIf (behind_ask hl hallows rfl (by simp))) fun _ => ?_
    refine fun _ hrefused _ => refuses_of_observedResult hresult ?_
    rw [← status_of_completeResult henvelope]
    exact hrefused

/-! ### The call -/

/-- Past a step from before the adapter was invoked. -/
theorem bind_before {α β : Type} {x : Program α} {f : α → Program β}
    {Q : Except Thrown β → Bool → Prop} (hx : x.Asks (· ≠ .of .invokeAdapter))
    (hf : ∀ a, Obeys (i.dispatchMonitor host) false (f a) Q) (herror : ∀ e, Q (.error e) false) :
    Obeys (i.dispatchMonitor host) false (x >>= f) Q := by
  refine .bind (obeys_before hx fun r => ?_)
  rcases r with e | a
  · exact herror e
  · exact hf a

theorem walk_withSlot (hl : l.callId ≠ none) :
    Obeys (i.dispatchMonitor host) false (i.withSlot l) (i.AdapterEnds host) := by
  unfold withSlot
  refine bind_before (.onlyIf (asks_ask (by simp))) (fun _ => ?_) fun _ h => nomatch h
  refine bind_before (.onlyIf (asks_ask (by simp))) (fun _ => ?_) fun _ h => nomatch h
  refine bind_before (asks_ask (by simp)) (fun _ => ?_) fun _ h => nomatch h
  refine .finally_ (.mono (walk_runAdapter (l := { l with dispatchStarted := true }) ⟨hl, rfl⟩) ?_)
  exact fun r invoked hends => ⟨trivial, fun _ _ => hends⟩

theorem walk_dispatch (hl : l.callId ≠ none) :
    Obeys (i.dispatchMonitor host) false (i.dispatch l) (i.Blames host) := by
  unfold dispatch
  refine bind_before (asks_ask (by simp)) (fun _ => ?_) fun _ h => nomatch h
  refine bind_before (asks_ask (by simp)) (fun _ => ?_) fun _ h => nomatch h
  refine bind_before (.onlyIf trivial) (fun _ => ?_) fun _ h => nomatch h
  refine bind_before (asks_ask (by simp)) (fun credentials => ?_) fun _ h => nomatch h
  refine bind_before (.onlyIf trivial) (fun _ => ?_) fun _ h => nomatch h
  refine .bind ⟨trivial, fun acquired _ => ?_⟩
  cases acquired with
  | false => exact fun h => nomatch h
  | true =>
    refine .bind ((walk_withSlot hl).mono ?_)
    rintro (thrown | ⟨l', result⟩) invoked hends
    · exact hends
    · obtain ⟨rfl, hl', hresult⟩ := hends
      exact walk_settle hl' hresult

theorem walk_attempt : Obeys (i.dispatchMonitor host) false i.attempt (i.Blames host) := by
  unfold attempt
  refine bind_before (asks_authorize (fun _ => by simp) (by simp)) (fun _ => ?_)
    fun _ h => nomatch h
  dsimp only
  split
  · refine bind_before (asks_ask (by simp)) (fun _ => ?_) fun _ h => nomatch h
    refine bind_before (asks_ask (by simp)) (fun replayed => ?_) fun _ h => nomatch h
    cases replayed with
    | none => exact walk_dispatch (by simp)
    | some replayed =>
      exact bind_before (asks_ask (by simp)) (fun _ h => nomatch h) fun _ h => nomatch h
  · exact walk_dispatch (by simp)

/-- What the end of a call says when the adapter was invoked. -/
def Concludes (i : Invocation) (host : ∀ q : Question, q.Reply) (r : Except Failure Returned)
    (invoked : Bool) : Prop :=
  invoked = true → ∀ returned, r = .ok returned → returned.status = .refused → i.Refusing host

/-- **A handler** settles a call whose adapter was invoked as uncertain. -/
theorem walk_conclude (hl : l.callId ≠ none ∧ l.dispatchStarted = true) {eventType reason : String}
    {status : CallStatus} {code : ErrorCode} (hstatus : status = .refused → i.Refusing host) :
    Obeys (i.dispatchMonitor host) true (i.conclude l eventType status code reason)
      (Concludes i host) := by
  unfold conclude
  refine .bind (obeys_asking trivial (fun _ _ => ?_) fun f _ _ _ h => nomatch h)
  obtain ⟨callId, hcallId⟩ := Option.ne_none_iff_exists'.mp hl.1
  simp only [terminal, hcallId, completeJournaledCall]
  refine .bind (.onlyIf (fun _ => obeys_asking ?_ (fun _ _ => ?_) fun f _ _ _ h => nomatch h)
    fun _ => ?_)
  · intro habsent _ heffects
    rw [if_pos ⟨hl.2, heffects⟩] at habsent
    cases habsent
  all_goals
    rintro _ returned h hrefused
    rw [← Except.ok.inj h] at hrefused
    exact hstatus hrefused

theorem walk_handler {thrown : Thrown} (h : i.ThrownBehind host thrown) :
    Obeys (i.dispatchMonitor host) true (i.handler thrown) (Concludes i host) := by
  obtain ⟨l, failure⟩ := thrown
  have hl : l.callId ≠ none ∧ l.dispatchStarted = true := ⟨h.issued, h.started⟩
  have hfail : ∀ code reason, (code ∈ preDispatchCodes → i.Refusing host) →
      Obeys (i.dispatchMonitor host) true (i.fail l code reason) (Concludes i host) := by
    intro code reason hcode
    refine walk_conclude hl fun hrefused => hcode ?_
    simp only [Locals.raisedStatus, if_neg h.issued] at hrefused
    split at hrefused
    · cases hrefused
    · cases hrefused
    · split at hrefused
      · assumption
      · cases hrefused
  unfold handler
  dsimp only
  split
  · exact walk_conclude hl fun h => nomatch h
  · exact walk_conclude hl fun h => nomatch h
  · exact hfail _ _ fun hcode => h.refusing (by simpa [Failure.isPreDispatch] using hcode)
  · exact hfail _ _ fun hcode => absurd hcode (by decide)
  · exact hfail _ _ fun hcode => absurd hcode (by decide)
  · exact fun _ _ h => nomatch h

theorem walk_invoke : Obeys (i.dispatchMonitor host) false i.invoke (Concludes i host) := by
  refine .handle (walk_attempt.mono ?_)
  rintro (thrown | returned) invoked hblames
  · cases invoked with
    | false =>
      exact obeys_before (asks_handler (fun _ _ => by simp) fun _ _ => by simp) fun _ h => nomatch h
    | true => exact walk_handler (hblames rfl)
  · intro hinvoked returned' h hrefused
    obtain rfl := Except.ok.inj h
    exact hblames hinvoked hrefused

/-- The monitor tells whether the adapter was invoked. -/
theorem follow_iff (log : List (Sigma Question.Reply)) (invoked : Bool) :
    log.foldl (i.dispatchMonitor host).follow invoked = true ↔ invoked = true ∨ Invoked log := by
  induction log generalizing invoked with
  | nil => simp [Invoked]
  | cons entry log ih =>
    rw [List.foldl_cons, ih]
    have hnext : (i.dispatchMonitor host).follow invoked entry = true ↔
        invoked = true ∨ entry.1 = .of .invokeAdapter := by
      obtain ⟨_ | _ | call, reply⟩ := entry
      · simp [Monitor.follow, dispatchMonitor]
      · simp [Monitor.follow, dispatchMonitor]
      · cases call <;> simp [Monitor.follow, dispatchMonitor]
    rw [hnext, or_assoc, Invoked, Invoked, List.exists_mem_cons_iff]

end Invocation

/-- Answers that refuse nothing. -/
def unasked : ∀ q : Question, q.Reply
  | .acquire .. => true
  | .release _ => ()
  | .of _ => .error (.raised (.valueError ""))

/-- What was not asked may be taken not to refuse. -/
theorem Invocation.refuses_of_refusing {i : Invocation} {host : ∀ q : Question, q.Reply}
    (hno : i.NoLateRefusal (· ∈ (i.invoke.run host).2)) (hinvoked : Invoked (i.invoke.run host).2)
    (h : ∀ host', i.invoke.run host' = i.invoke.run host → i.Refusing host') :
    AdapterRefuses (host (.of .invokeAdapter)) := by
  classical
  let host' : ∀ q : Question, q.Reply := fun q =>
    if ∃ entry ∈ (i.invoke.run host).2, entry.1 = q then host q else unasked q
  have hsame : ∀ entry ∈ (i.invoke.run host).2, host' entry.1 = host entry.1 :=
    fun entry hentry => if_pos ⟨entry, hentry, rfl⟩
  obtain ⟨entry, hentry, hadapter⟩ := hinvoked
  have hrefuses := h host' (run_congr hsame)
    ⟨fun call failure hlate (hanswer : host' (.of call) = .error failure) => ?_, hno.evidence,
      hno.stored⟩
  · have hagree := hsame entry hentry
    rw [hadapter] at hagree
    rwa [hagree] at hrefuses
  · by_cases hasked : ∃ entry ∈ (i.invoke.run host).2, entry.1 = .of call
    · obtain ⟨⟨_, reply⟩, hasked, rfl⟩ := hasked
      obtain rfl : reply = .error failure :=
        (reply_of_run hasked).trans ((hsame _ hasked).symm.trans hanswer)
      exact hno.asked call failure hlate hasked
    · obtain rfl := Except.error.inj ((if_neg hasked).symm.trans hanswer)
      rfl

/-- **A refused call and an absent effect.**  Where nothing behind the adapter refuses, a call that
returns as refused was refused by its adapter if its adapter was invoked at all; and a call whose
adapter was invoked with declared effects is settled as absent only when its inspected result, the
adapter's with what was observed, reports it. -/
theorem refused_by_adapter (i : Invocation) (host : ∀ q : Question, q.Reply) :
    (i.NoLateRefusal (· ∈ (i.invoke.run host).2) → ∀ returned,
      (i.invoke.run host).1 = .ok returned → returned.status = .refused →
      Invoked (i.invoke.run host).2 →
        AdapterRefuses (host (.of .invokeAdapter))) ∧
    ∀ before result reply after, (i.invoke.run host).2 =
        before ++ ⟨.of (.completePlannedCall result .absent), reply⟩ :: after →
      Invoked before → i.effects ≠ [] → i.ReportsAbsent host result := by
  have hwalk : ∀ host, Obeys (i.dispatchMonitor host) false i.invoke (i.Concludes host) :=
    fun _ => Invocation.walk_invoke
  constructor
  · intro hno returned hreturned hrefused hinvoked
    refine Invocation.refuses_of_refusing hno hinvoked fun host' hrun => ?_
    obtain ⟨hends, -⟩ := (hwalk host').run fun _ _ => rfl
    rw [hrun] at hends
    exact hends ((Invocation.follow_iff _ _).mpr (.inr hinvoked)) returned hreturned hrefused
  · intro before result reply after hlog hinvoked heffects
    obtain ⟨-, hallows⟩ := (hwalk host).run fun _ _ => rfl
    exact hallows before _ after hlog rfl ((Invocation.follow_iff _ _).mpr (.inr hinvoked)) heffects

/-- An adapter that finds what it needs unavailable refuses the push. -/
theorem push_refused_by_adapter :
    AdapterRefuses
      (.error (.raised (fault .toolUnavailable "bound executable is unavailable"))) := by
  have hstatus : ((pushInvocation.invoke.run (pushHost (.error (.raised
      (fault .toolUnavailable "bound executable is unavailable"))))).1.toOption.map (·.status)) =
      some .refused := by decide
  obtain ⟨returned, hreturned, hrefused⟩ := Option.map_eq_some_iff.mp hstatus
  refine (refused_by_adapter pushInvocation (pushHost (.error (.raised
    (fault .toolUnavailable "bound executable is unavailable"))))).1 ⟨?_, ?_, ?_⟩ returned
    (toOption_eq_some.mp hreturned) hrefused (by unfold Invoked; decide)
  · intro call failure hafter hasked
    have hanswer := (reply_of_run hasked).symm
    cases call <;> first | (cases hanswer; done) | (cases hanswer; rfl) | cases hafter
  · exact fun _ _ _ h => nomatch h
  · exact fun _ _ _ h => nomatch h

/-! ### A refusal behind the dispatch, and a rewritten settlement -/

/-- Replace every occurrence of a word; the first `skip` characters belong to the last one. -/
def replaceWord (word replacement : List Char) : Nat → List Char → List Char
  | _, [] => []
  | skip + 1, _ :: text => replaceWord word replacement skip text
  | 0, c :: text =>
    if word.isPrefixOf (c :: text) then
      replacement ++ replaceWord word replacement (word.length - 1) text
    else c :: replaceWord word replacement 0 text

/-- The expression that is a word without special characters. -/
def wordExpression (word : String) : Inspection.Expression where
  search text := decide (word.toList <:+: text)
  sub replacement := replaceWord word.toList replacement.toList 0

/-- A planned push that declares an effect, under a profile that rewrites a word. -/
def rewrittenPush : Invocation :=
  { pushInvocation with
    effects := ["remote"]
    planned := true
    inspector := ⟨"rewriting",
      [(⟨"settlement", "uncertain", .redact, "absent"⟩, wordExpression "uncertain")]⟩ }

/-- The result of a push that does not know what became of it. -/
def uncertainResult : AdapterResult where
  output := [("effect_settlement", .str "uncertain")]
  actualTargets := {}
  callStatus := .uncertain

set_option maxRecDepth 4000 in
/-- **A refused call may have been dispatched**: its adapter was invoked and refused it.  And a call
may be settled as absent without a proof: its adapter reported it as uncertain, and the inspection
rewrote the report. -/
theorem refused_after_dispatch :
    (∃ (i : Invocation) (host : ∀ q : Question, q.Reply) (returned : Returned),
      (i.invoke.run host).1 = .ok returned ∧ returned.status = .refused ∧
        Invoked (i.invoke.run host).2) ∧
    ∃ (i : Invocation) (host : ∀ q : Question, q.Reply) (observed : AdapterResult),
      i.effects ≠ [] ∧ i.observedResult host = .ok observed ∧
        Json.lookup observed.output "effect_settlement" = some (.str "uncertain") ∧
        Invoked (i.invoke.run host).2 ∧ ∃ entry ∈ (i.invoke.run host).2,
          ∃ result, entry.1 = .of (.completePlannedCall result .absent) := by
  constructor
  · have hstatus : ((pushInvocation.invoke.run (pushHost (.error (.raised
        (fault .toolUnavailable "bound executable is unavailable"))))).1.toOption.map
          (·.status)) = some .refused := by decide
    obtain ⟨returned, hreturned, hrefused⟩ := Option.map_eq_some_iff.mp hstatus
    exact ⟨_, _, returned, toOption_eq_some.mp hreturned, hrefused, by unfold Invoked; decide⟩
  · refine ⟨rewrittenPush, pushHost (.ok uncertainResult), uncertainResult, by decide, rfl, rfl,
      by unfold Invoked; decide, ?_⟩
    have hsettled : ((rewrittenPush.invoke.run (pushHost (.ok uncertainResult))).2.any fun entry =>
        match entry.1 with
        | .of (.completePlannedCall _ .absent) => true
        | _ => false) = true := by decide
    obtain ⟨entry, hentry, habsent⟩ := List.any_eq_true.mp hsettled
    refine ⟨entry, hentry, ?_⟩
    split at habsent
    · exact ⟨_, ‹_›⟩
    · cases habsent

end Mishkan
