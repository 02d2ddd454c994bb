import Mathlib.Algebra.GroupWithZero.Nat
import Mathlib.Algebra.Order.BigOperators.Group.List
import Mishkan.Edits.Expected
import Mishkan.Edits.Inverse
import Mishkan.Edits.Service

/-!
# Edits/Faults — what a change set is finished with when an effect fails

Below the directory of a path every operating-system error becomes a refusal, so the error an effect
ends with is an operating-system error exactly when its last system call failed: the call that
closes the directory.  `apply` finishes with the state `uncertain` then, and with `conflict` when
any call before it failed (`uncertain_iff`).
-/

namespace Mishkan.Edits

open Procedure Artifacts Lines

variable {α β : Type} {system : System} {path : Parts} {operation : ChangeOperation}

/-! ## Effects -/

/-- The errors of the operating system. -/
def Failure.IsOs (failure : Failure) : Prop := ∃ error, failure = .os error

theorem Fault.isOs (fault : Fault) : fault.failure.IsOs := by
  cases fault
  · exact ⟨_, rfl⟩
  · exact ⟨_, rfl⟩

theorem not_isOs_refusal {code : ErrorCode} {message : String} {details : JsonObject} :
    ¬ (refusal code message details).IsOs := by
  rintro ⟨error, h⟩
  cases h

/-- A program whose error tells whether its last system call failed. -/
abbrev Tells (x : FileAction α) : Prop := Settled Failure.IsOs x

theorem tells_systemCall {f : Files → Except Failure (α × Files)}
    (hf : ∀ files e, f files = .error e → e.IsOs) : Tells (systemCall f) := by
  refine .call Fault.isOs fun files _ e h => ?_
  rcases hres : f files with e' | ⟨a, files'⟩
  · rw [hres] at h
    cases h
    exact hf files _ hres
  · rw [hres] at h
    cases h

theorem tells_openDirectory : Tells (openDirectory path) := by
  refine tells_systemCall fun files e h => ?_
  split at h <;> cases h <;> exact ⟨_, rfl⟩

theorem tells_lstat : Tells (lstat path) := by
  refine tells_systemCall fun files e h => ?_
  split at h <;> cases h
  exact ⟨_, rfl⟩

theorem tells_refuseLinks {relative : String} (parts : Parts) :
    ∀ current, Tells (refuseLinks relative current parts) := by
  induction parts with
  | nil => exact fun _ => .pure
  | cons part parts ih =>
    intro current
    refine tells_lstat.bind fun node => ?_
    split
    · exact .raise not_isOs_refusal
    · exact ih _

theorem tells_safePath {relative : String} : Tells (safePath relative) := by
  rw [safePath]
  split
  · exact .raise not_isOs_refusal
  · exact (tells_refuseLinks _ _).bind fun _ => .pure

/-- The call that closes a directory. -/
theorem unseen_last (host : Host Files Fault) (m m' : Machine Files Unit)
    (r : Except (Stop Failure) Unit) (hm : m.Valid) (hrun : unseen.run host m = (r, m')) :
    m.calls < m'.calls ∧ Classified Failure.IsOs m (r, m') := by
  have htells : Tells unseen := tells_systemCall fun _ _ h => by cases h
  have hclassified := htells host m hm
  rw [hrun] at hclassified
  refine ⟨?_, hclassified⟩
  rcases hfault : host.fault m.calls with _ | fault | _
  · simp only [unseen, systemCall, call, hfault, bind, Except.bind, Prod.mk.injEq] at hrun
    rw [← hrun.2]
    exact Nat.lt_succ_self _
  · simp only [unseen, systemCall, call, hfault, Prod.mk.injEq] at hrun
    rw [← hrun.2]
    exact Nat.lt_succ_self _
  · simp only [unseen, systemCall, call, hfault, Prod.mk.injEq] at hrun
    rw [← hrun.2]
    exact Nat.lt_succ_self _

/-- Below the directory no error of the operating system is left. -/
theorem not_isOs_unopened {x : FileAction α} {host : Host Files Fault}
    {m m' : Machine Files Unit} {e : Failure}
    (hrun : (x.handle unopened).run host m = (.error (.raised e), m')) : ¬ e.IsOs := by
  rcases hx : x.run host m with ⟨(e' | _) | a, m1⟩
  · simp only [handle, hx] at hrun
    rcases e' with error | error | name
    · simp only [unopened, Prod.mk.injEq] at hrun
      cases hrun.1
      exact not_isOs_refusal
    · simp only [unopened, run_raise, Prod.mk.injEq] at hrun
      cases hrun.1
      exact not_isOs_refusal
    · simp only [unopened, Prod.mk.injEq] at hrun
      cases hrun.1
      rintro ⟨error, h⟩
      cases h
  · simp only [handle, hx, Prod.mk.injEq] at hrun
    cases hrun.1
  · simp only [handle, hx, Prod.mk.injEq] at hrun
    cases hrun.1

/-- **Whatever is done in the directory of a path, its error tells whether closing it failed.** -/
theorem tells_withParent {body : Parts → String → FileAction α} : Tells (withParent path body) := by
  rw [withParent]
  split
  · exact .raise not_isOs_refusal
  · split
    · exact .raise not_isOs_refusal
    · refine tells_openDirectory.bind fun _ => .finally_ unseen_last ?_
      exact fun host m e m' hrun => not_isOs_unopened hrun

theorem tells_resultMode : Tells (resultMode system operation path) := by
  rw [resultMode]
  split
  · exact .pure
  · refine tells_withParent.bind fun state => ?_
    split
    · exact .pure
    · exact .raise not_isOs_refusal

/-- **The error an effect ends with is one of the operating system exactly when its last system call
failed.** -/
theorem tells_applyOperation {content : Option Bytes} {before : OperationToken} :
    Tells (applyOperation system operation path content before) := by
  have hassertion : ¬ (Failure.other "AssertionError").IsOs := by
    rintro ⟨error, h⟩
    cases h
  unfold applyOperation
  split
  · exact tells_withParent
  any_goals
    split
    · exact .raise hassertion
    · exact tells_resultMode.bind fun _ => tells_withParent
  any_goals
    rw [moveOrCopyAt]
    split
    · exact .raise hassertion
    · exact tells_safePath.bind fun _ => tells_withParent
  exact tells_withParent

/-! ## Applying -/

section

variable {service : ChangeSetService} {host : Host Files Fault}
  {m m' m₁ m₂ m₃ m₄ : Machine Files ChangeStore} {position : Nat} {prepared : Prepared}
  {e : Failure} {result : ChangeSetResult}

/-- The run of `apply` from a machine comes to the effect of an operation: those before it are
through, it is not applied yet, and it was prepared. -/
def ComesToEffect (service : ChangeSetService) (host : Host Files Fault)
    (m : Machine Files ChangeStore) (position : Nat) (operation : ChangeOperation) (path : Parts)
    (prepared : Prepared) (m' : Machine Files ChangeStore) : Prop :=
  ∃ changeSet done rest diffs m₁ m₂ m₃,
    (beginApply service).run host m = (.ok changeSet, m₁) ∧
    changeSet.positioned = done ++ (position, operation) :: rest ∧
    (applyAll service done []).run host m₁ = (.ok (.inr diffs), m₂) ∧
    (openOperation service position operation).run host m₂ = (.ok (.perform path), m₃) ∧
    (prepareOperation service position operation path).run host m₃ = (.ok prepared, m')

/-- The effect of an operation that was prepared. -/
def effectOf (service : ChangeSetService) (operation : ChangeOperation) (path : Parts)
    (prepared : Prepared) : ServiceAction Unit :=
  within (applyOperation service.system operation path prepared.after prepared.beforeToken)

theorem run_bind_of_ok {x : ServiceAction α} {f : α → ServiceAction β} {a : α}
    (h : x.run host m = (.ok a, m')) : (x >>= f).run host m = (f a).run host m' := by
  rw [run_bind, h]

theorem run_bind_of_error {x : ServiceAction α} {f : α → ServiceAction β} {stop : Stop Failure}
    (h : x.run host m = (.error stop, m')) : (x >>= f).run host m = (.error stop, m') := by
  rw [run_bind, h]

/-- The loop goes on where a part of it has come through. -/
theorem applyAll_append (done rest : List (Nat × ChangeOperation)) : ∀ (diffs diffs' : List Text)
    (m m' : Machine Files ChangeStore),
    (applyAll service done diffs).run host m = (.ok (.inr diffs'), m') →
    (applyAll service (done ++ rest) diffs).run host m =
      (applyAll service rest diffs').run host m' := by
  induction done with
  | nil =>
    intro diffs diffs' m m' hrun
    rw [applyAll, run_pure, Prod.mk.injEq] at hrun
    obtain ⟨h, rfl⟩ := hrun
    cases h
    rfl
  | cons entry done ih =>
    intro diffs diffs' m m' hrun
    rw [applyAll, bind_eq_ok] at hrun
    obtain ⟨turn, m1, hone, hrun⟩ := hrun
    rw [List.cons_append, applyAll, run_bind_of_ok hone]
    cases turn with
    | returned result =>
      rw [run_pure, Prod.mk.injEq] at hrun
      cases hrun.1
    | skipped => exact ih _ _ _ _ hrun
    | recorded lines => exact ih _ _ _ _ hrun

/-- **An error of an effect goes through the loop to the handlers of `apply`.** -/
theorem apply_of_effect_raised (hcomes : ComesToEffect service host m position operation path
      prepared m') (hraised : (effectOf service operation path prepared).run host m' =
      (.error (.raised e), m₄)) : (apply service).run host m = match settleFailure e with
        | some settle => settle.run host m₄
        | none => (.error (.raised e), m₄) := by
  obtain ⟨changeSet, done, rest, diffs, m₁, m₂, m₃, hbegin, hsplit, hdone, hopen, hprepare⟩ :=
    hcomes
  have hperform : (performOperation service position operation path).run host m₃ =
      (.error (.raised e), m₄) := by
    rw [performOperation, run_bind_of_ok hprepare]
    exact run_bind_of_error hraised
  have hone : (applyOne service position operation).run host m₂ = (.error (.raised e), m₄) := by
    rw [applyOne, run_bind_of_ok hopen]
    exact hperform
  have hall : (applyAll service changeSet.positioned []).run host m₁ =
      (.error (.raised e), m₄) := by
    rw [hsplit, applyAll_append _ _ _ _ _ _ hdone, applyAll]
    exact run_bind_of_error hone
  have hoperations : (applyOperations service changeSet).run host m₁ =
      (.error (.raised e), m₄) := by
    rw [applyOperations]
    exact run_bind_of_error hall
  rw [apply, run_bind_of_ok hbegin]
  simp only [handle, hoperations]
  cases settleFailure e <;> rfl

/-- **A transaction returns exactly when nothing comes in its place and it does not fail.** -/
theorem transaction_eq_ok {f : ChangeStore → Except Failure (α × ChangeStore)} {a : α} :
    (transaction f).run host m = (.ok a, m') ↔ host.fault m.calls = none ∧
      ∃ store, f m.own = .ok (a, store) ∧
        m' = ⟨host.before m.calls m.state, store, m.calls + 1, m.failed⟩ := by
  rw [transaction, call_eq_ok]
  refine and_congr_right fun _ => ?_
  rcases hf : f m.own with e | ⟨b, store⟩
  · simp [bind, Except.bind]
  · simp only [bind, Except.bind, Except.ok.injEq, Prod.mk.injEq]
    constructor
    · rintro ⟨_, _, ⟨rfl, rfl, rfl⟩, rfl⟩
      exact ⟨store, ⟨rfl, rfl⟩, rfl⟩
    · rintro ⟨_, ⟨rfl, rfl⟩, rfl⟩
      exact ⟨_, _, ⟨rfl, rfl, rfl⟩, rfl⟩

theorem state_of_finish {state : ChangeSetState} {reason diffReference : Option String}
    {validationResults : Option (List ChangeValidationResult)}
    (hrun : (finish state reason diffReference validationResults).run host m = (.ok result, m')) :
    result.state = state := by
  obtain ⟨-, store, hstore, -⟩ := transaction_eq_ok.1 hrun
  rw [Refusal.bind_eq_ok] at hstore
  obtain ⟨row, -, hstore⟩ := hstore
  cases hstore
  rfl

theorem ComesToEffect.leads (h : ComesToEffect service host m position operation path prepared m') :
    m.Leads m' := by
  obtain ⟨changeSet, done, rest, diffs, m₁, m₂, m₃, hbegin, -, hdone, hopen, hprepare⟩ := h
  have hleads₁ := (beginApply service).leads host m
  have hleads₂ := (applyAll service done []).leads host m₁
  have hleads₃ := (openOperation service position operation).leads host m₂
  have hleads₄ := (prepareOperation service position operation path).leads host m₃
  rw [hbegin] at hleads₁
  rw [hdone] at hleads₂
  rw [hopen] at hleads₃
  rw [hprepare] at hleads₄
  exact ((hleads₁.trans hleads₂).trans hleads₃).trans hleads₄

theorem tells_effectOf : Settled Failure.IsOs (effectOf service operation path prepared) :=
  tells_applyOperation.within

/-- **When `apply` finishes as uncertain after an effect that failed**: exactly when the last system
call of the effect did, the one that closes the directory of its path. -/
theorem uncertain_iff (service : ChangeSetService) (host : Host Files Fault)
    (m : Machine Files ChangeStore) (hvalid : m.Valid) (position : Nat)
    (operation : ChangeOperation) (path : Parts) (prepared : Prepared)
    (m' m₄ m₅ : Machine Files ChangeStore) (e : Failure) (result : ChangeSetResult)
    (hcomes : ComesToEffect service host m position operation path prepared m')
    (hraised : (effectOf service operation path prepared).run host m' = (.error (.raised e), m₄))
    (hresult : (apply service).run host m = (.ok result, m₅)) :
    result.state = .uncertain ↔ m'.LastFailed m₄ := by
  have htells : Classified Failure.IsOs m'
      ((effectOf service operation path prepared).run host m') :=
    tells_effectOf host m' (hvalid.leads hcomes.leads)
  rw [hraised] at htells
  rw [apply_of_effect_raised hcomes hraised] at hresult
  refine Iff.trans ?_ htells
  rcases e with error | error | name
  · refine iff_of_false ?_ fun ⟨_, h⟩ => by cases h
    rw [state_of_finish hresult]
    exact ChangeSetState.noConfusion
  · exact iff_of_true (state_of_finish hresult) ⟨error, rfl⟩
  · cases (Prod.mk.inj hresult).1

end

/-! ## A move whose source cannot be taken away -/

/-- A name longer than all others. -/
def nextReference (artifacts : List (String × Bytes)) : String :=
  String.ofList (List.replicate ((artifacts.map (·.1.length)).sum + 1) 'r')

theorem nextReference_fresh (artifacts : List (String × Bytes)) :
    ∀ entry ∈ artifacts, entry.1 ≠ nextReference artifacts := by
  intro entry hentry heq
  have hle : entry.1.length ≤ (artifacts.map (·.1.length)).sum :=
    List.le_sum_of_mem (List.mem_map_of_mem hentry)
  rw [heq, nextReference, String.length_ofList, List.length_replicate] at hle
  omega

def plainService : ChangeSetService where
  system := plainSystem
  matcher := wholeMatcher
  reference := nextReference
  reference_fresh := nextReference_fresh

/-- The file of the workspace gets another name. -/
def moveFile : ChangeOperation := { copyWithMode 0 with kind := .move, resultMode := none }

/-- The move is planned. -/
def movePlanned : Machine Files ChangeStore :=
  ((plan plainService ⟨["."], [moveFile], []⟩).run calm ⟨oneFile.state, {}, 0, []⟩).2

/-- The host where one call is refused. -/
def refusing (call : Nat) : Host Files Fault where
  before _ files := files
  fault n := if n = call then some (.failure .permission) else none

/-- The run of `apply` before the effect of the move. -/
def moveOpened (call : Nat) : Machine Files ChangeStore :=
  ((openOperation plainService 0 moveFile).run (refusing call)
    ((beginApply plainService).run (refusing call) movePlanned).2).2

def movePrepared (call : Nat) : Machine Files ChangeStore :=
  ((prepareOperation plainService 0 moveFile ["a"]).run (refusing call) (moveOpened call)).2

/-- What is found and expected of the move. -/
def moveTokens : Prepared where
  before := some [104, 105]
  after := none
  expected := .transfer .absent (.file 0o644 "sha256:hi") ["b"]
  beforeToken := .transfer (.file 0o644 "sha256:hi") .absent ["b"]

theorem moveFile_comesToEffect (call : Nat) (hcall : call = 82 ∨ call = 85) :
    ComesToEffect plainService (refusing call) movePlanned 0 moveFile ["a"] moveTokens
      (movePrepared call) := by
  rcases hcall with rfl | rfl
  all_goals
    exact ⟨⟨["."], [moveFile], []⟩, [], [], [], _, _, _, Prod.ext (by decide +kernel) rfl, rfl, rfl,
      Prod.ext (by decide +kernel) rfl, Prod.ext (by decide +kernel) rfl⟩

/-- The file has its new name and has lost the old one, but the last call fails: uncertain. -/
theorem failed_close_uncertain : ∃ result, ((apply plainService).run (refusing 85) movePlanned).1 =
    .ok result ∧ result.state = .uncertain := by
  have hresult : ∃ result, ((apply plainService).run (refusing 85) movePlanned).1 = .ok result := by
    have hok : ((apply plainService).run (refusing 85) movePlanned).1.isOk = true := by
      decide +kernel
    rcases hrun : ((apply plainService).run (refusing 85) movePlanned).1 with stop | result
    · rw [hrun] at hok
      cases hok
    · exact ⟨result, rfl⟩
  obtain ⟨result, hresult⟩ := hresult
  refine ⟨result, hresult, ?_⟩
  exact (uncertain_iff plainService (refusing 85) movePlanned (by decide +kernel) 0 moveFile ["a"]
    moveTokens (movePrepared 85) _ _ (.os .permission) result
    (moveFile_comesToEffect 85 (.inr rfl)) (Prod.ext (by decide +kernel) rfl)
    (Prod.ext hresult rfl)).2 (by decide +kernel)

/-- **A move whose source cannot be taken away, with the file at its new name, is a conflict.** -/
theorem failed_unlink_conflict :
    ComesToEffect plainService (refusing 82) movePlanned 0 moveFile ["a"] moveTokens
      (movePrepared 82) ∧
    ((effectOf plainService moveFile ["a"] moveTokens).run (refusing 82) (movePrepared 82)).1 =
      .error (.raised (refusal .authorityNotGranted
        "change parent could not be opened without following links")) ∧
    (movePrepared 82).failed = [] ∧ (movePrepared 82).state.at? ["b"] = none ∧
    ((effectOf plainService moveFile ["a"] moveTokens).run (refusing 82)
      (movePrepared 82)).2.failed = [82] ∧
    ((effectOf plainService moveFile ["a"] moveTokens).run (refusing 82)
      (movePrepared 82)).2.state.at? ["b"] = some (.file [104, 105] 0o644) ∧
    ∃ result, ((apply plainService).run (refusing 82) movePlanned).1 = .ok result ∧
      result.state = .conflict := by
  refine ⟨moveFile_comesToEffect 82 (.inl rfl), by decide +kernel, by decide +kernel,
    by decide +kernel, by decide +kernel, by decide +kernel, ?_⟩
  have hstate : ((apply plainService).run (refusing 82) movePlanned).1.map (·.state) =
      .ok .conflict := by decide +kernel
  rcases hrun : ((apply plainService).run (refusing 82) movePlanned).1 with stop | result
  · rw [hrun] at hstate
    cases hstate
  · rw [hrun] at hstate
    exact ⟨result, rfl, Except.ok.inj hstate⟩

end Mishkan.Edits
