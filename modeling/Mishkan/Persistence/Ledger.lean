import Mishkan.Persistence.Application

/-!
# Persistence/Ledger — every command is accounted for once, under any order of transactions

A `LedgerOp` is one transaction of the ledger.  Whatever it is, `LedgerChange` says what it can have
done: nothing, or one receipt written over nothing or over a refused receipt — and with an accepted
receipt one more revision of its target and one event.  `Sound` is the invariant read off that; the
accounting of whole runs, `exactly_once_accounting`, is its consequence.
-/

namespace Mishkan

open Refusal Transition

/-! ## Transactions -/

inductive LedgerOp where
  | refuse (command : ApplicationCommand) (targetId : String) (error : MishkanError)
      (eventPayload : JsonObject) (draw : Draw)
  | accept (command : ApplicationCommand) (event : CommandEvent)
      (resultPayload eventPayload : JsonObject) (draw : Draw)
  | acceptWithMutation (command : ApplicationCommand) (event : CommandEvent) (mutation : Mutation)
      (draw : Draw)
  | reserve (command : ApplicationCommand) (targetId : String) (now : Instant)
  | completeReserved (command : ApplicationCommand) (event : CommandEvent)
      (resultPayload eventPayload : JsonObject) (draw : Draw)
  | failReserved (command : ApplicationCommand) (targetId : String) (error : MishkanError)
      (eventPayload : JsonObject) (sensitivity : String) (draw : Draw)

namespace LedgerOp

/-- The command a transaction is for. -/
def command : LedgerOp → ApplicationCommand
  | .refuse command .. | .accept command .. | .acceptWithMutation command .. | .reserve command ..
  | .completeReserved command .. | .failReserved command .. => command

/-- The target its caller passes. -/
def targetId : LedgerOp → String
  | .refuse _ targetId .. | .reserve _ targetId _ | .failReserved _ targetId .. => targetId
  | .accept _ event .. | .acceptWithMutation _ event .. | .completeReserved _ event .. =>
    event.targetId

/-- How a transaction ends: a result, or the reservation's `none`. -/
def outcome (s : ApplicationStore) :
    LedgerOp → Except Raised (Option CommandResult × ApplicationStore)
  | .refuse command targetId error eventPayload draw =>
    (s.refuse command targetId error eventPayload draw).map (Prod.map some id)
  | .accept command event resultPayload eventPayload draw =>
    (s.accept command event resultPayload eventPayload draw).map (Prod.map some id)
  | .acceptWithMutation command event mutation draw =>
    (s.acceptWithMutation command event mutation draw).map (Prod.map some id)
  | .reserve command targetId now => s.reserve command targetId now
  | .completeReserved command event resultPayload eventPayload draw =>
    (s.completeReserved command event resultPayload eventPayload draw).map (Prod.map some id)
  | .failReserved command targetId error eventPayload sensitivity draw =>
    (s.failReserved command targetId error eventPayload sensitivity draw).map (Prod.map some id)

end LedgerOp

/-- The store after one transaction of the ledger. -/
def ledgerStep (s : ApplicationStore) (op : LedgerOp) : ApplicationStore := commit s (op.outcome s)

/-- The store after any order of transactions. -/
def ledgerRun (s : ApplicationStore) (ops : List LedgerOp) : ApplicationStore :=
  run ledgerStep s ops

/-- Callers pass one target for one command. -/
def FixedTargets (ops : List LedgerOp) : Prop :=
  ∀ op ∈ ops, ∀ op' ∈ ops, op.command.commandId = op'.command.commandId →
    op.command.fingerprint = op'.command.fingerprint → op.targetId = op'.targetId

namespace ApplicationStore

variable {s s' : ApplicationStore} {command : ApplicationCommand} {targetId : String}
  {result : CommandResult} {row : CommandRow}

/-! ## What the steps of a transaction do -/

theorem command?_eq_some {id : Uuid} :
    s.command? id = some row ↔ row ∈ s.commands ∧ row.commandId = id := by
  unfold command?
  rw [Table.find_decide]
  simp +contextual [Keyed.clash, Keyed.key]

theorem existing_eq_ok : existing row command = .ok result ↔
      row.fingerprint = command.fingerprint ∧ row.result = result := by
  simp only [existing, bind_eq_ok, refuseIf_eq_ok, pure_eq_ok, not_not, exists_const]

@[simp] theorem isOf_iff {type id : String} {r : AggregateRevisionRow} :
    r.isOf type id = true ↔ r.entityType = type ∧ r.entityId = id := by
  simp [AggregateRevisionRow.isOf]

/-- **One revision is set**, and the rest of the store stays. -/
theorem setRevision_spec {targetType : String} {next : Nat}
    (h : s.setRevision targetType targetId next = .ok s') :
    s'.commands = s.commands ∧ s'.outbox = s.outbox ∧ s'.runs = s.runs ∧
      ∀ type id, s'.revision type id =
        if type = targetType ∧ id = targetId then next else s.revision type id := by
  unfold setRevision at h
  split at h
  · -- the aggregate had no row
    rename_i hnone
    simp only [bind_eq_ok, require_eq_ok, pure_eq_ok] at h
    obtain ⟨revisions, hinsert, rfl⟩ := h
    refine ⟨rfl, rfl, rfl, fun type id => ?_⟩
    unfold revision
    rw [Table.find_insert hinsert]
    by_cases hkey : type = targetType ∧ id = targetId
    · obtain ⟨rfl, rfl⟩ := hkey
      have hnew : AggregateRevisionRow.isOf type id ⟨type, id, next⟩ = true :=
        isOf_iff.mpr ⟨rfl, rfl⟩
      rw [hnone, if_pos hnew, if_pos (And.intro rfl rfl)]
      rfl
    · have hother : ¬ AggregateRevisionRow.isOf type id ⟨targetType, targetId, next⟩ = true :=
        fun h => hkey ⟨(isOf_iff.mp h).1.symm, (isOf_iff.mp h).2.symm⟩
      rw [if_neg hkey, if_neg hother, Option.or_none]
  · -- the row of the aggregate is rewritten
    rename_i r hsome
    simp only [pure_eq_ok] at h
    obtain rfl := h
    refine ⟨rfl, rfl, rfl, fun type id => ?_⟩
    unfold revision
    dsimp only
    have hq : ∀ r : AggregateRevisionRow,
        AggregateRevisionRow.isOf type id { r with revision := next } = r.isOf type id :=
      fun _ => rfl
    rw [Table.find_update hq]
    by_cases hkey : type = targetType ∧ id = targetId
    · obtain ⟨rfl, rfl⟩ := hkey
      rw [hsome, if_pos (And.intro rfl rfl), Option.map_some, if_pos (Table.of_find hsome)]
      rfl
    · rw [if_neg hkey]
      cases hfind : s.revisions.find (AggregateRevisionRow.isOf type id) with
      | none => rfl
      | some a =>
        have ha := isOf_iff.mp (Table.of_find hfind)
        have hother : ¬ a.isOf targetType targetId = true :=
          fun h => hkey ⟨ha.1 ▸ (isOf_iff.mp h).1, ha.2 ▸ (isOf_iff.mp h).2⟩
        rw [Option.map_some, if_neg hother]

theorem addEvent_spec {event : OutboxRow} (h : s.addEvent event = .ok s') :
    s' = { s with outbox := s.outbox.append event } := by
  simp only [addEvent, bind_eq_ok, refuseIf_eq_ok, pure_eq_ok] at h
  obtain ⟨_, _, rfl⟩ := h
  rfl

theorem addEvents_spec {events : List OutboxRow} (h : s.addEvents events = .ok s') :
    s' = { s with outbox := s.outbox.appendAll events } := by
  induction events generalizing s with
  | nil =>
    obtain rfl : s = s' := by simpa [addEvents] using h
    rfl
  | cons event events ih =>
    simp only [addEvents, bind_eq_ok] at h
    obtain ⟨s₁, h₁, h⟩ := h
    rw [ih h, addEvent_spec h₁]
    rfl

theorem revision_congr (h : s'.revisions = s.revisions) (type id : String) :
    s'.revision type id = s.revision type id := by
  unfold revision
  rw [h]

end ApplicationStore

/-! ## What one transaction can have done -/

/-- The result is one of the command, for the target its caller passed. -/
structure IsResult (command : ApplicationCommand) (targetId : String) (result : CommandResult) :
    Prop where
  commandId : result.commandId = command.commandId
  targetType : result.targetType = command.targetType
  targetId : result.targetId = some targetId

/-- The receipt of a command was written over nothing, or over a refused one of the same command. -/
inductive Written (t : Table CommandRow) (command : ApplicationCommand) (result : CommandResult) :
    Table CommandRow → Prop
  | inserted {t' : Table CommandRow} (h : t.insert (.of command result) = some t') :
      Written t command result t'
  | settled {row : CommandRow} (hrow : row ∈ t) (hid : row.commandId = command.commandId)
      (hcontent : row.fingerprint = command.fingerprint) (hopen : row.result.status = .refused) :
      Written t command result
        (t.update (·.commandId = result.commandId) (·.settle result) (CommandRow.settle_key result))

/-- **What one transaction can have done**: nothing, a refusal, or an acceptance. -/
inductive LedgerChange (s : ApplicationStore) (command : ApplicationCommand) (targetId : String)
    (s' : ApplicationStore) : Prop
  | unchanged (h : s' = s)
  | refused (result : CommandResult) (h : IsResult command targetId result)
      (status : result.status = .refused) (written : Written s.commands command result s'.commands)
      (revisions : s'.revisions = s.revisions) (outbox : ∃ vs, s'.outbox = s.outbox.appendAll vs)
  | accepted (result : CommandResult) (h : IsResult command targetId result)
      (status : result.status = .accepted) (written : Written s.commands command result s'.commands)
      (revision : result.revision = some (s.revision command.targetType targetId + 1))
      (revisions : ∀ type id, s'.revision type id =
        if type = command.targetType ∧ id = targetId then s.revision command.targetType targetId + 1
        else s.revision type id)
      (outbox : ∃ vs, s'.outbox = s.outbox.appendAll vs)
      (event : ∃ e ∈ s'.outbox, e.value.commandId = some command.commandId
        ∧ result.eventCursor = some e.cursor)

section

open ApplicationStore

variable {s s' s₁ s₂ : ApplicationStore} {command : ApplicationCommand} {event : CommandEvent}
  {result : CommandResult} {draw : Draw} {resultPayload eventPayload : JsonObject}

/-- **The tail of every acceptance**: with the receipt written, it is an acceptance. -/
theorem LedgerChange.of_acceptCommand (vs : List OutboxRow)
    (h : s₁.acceptCommand command event resultPayload eventPayload
      (s.revision command.targetType event.targetId + 1) draw = .ok (result, s₂))
    (hcommands : s₁.commands = s.commands) (hrevisions : s₁.revisions = s.revisions)
    (houtbox : s₁.outbox = s.outbox.appendAll vs)
    (written : Written s₂.commands command result s'.commands)
    (hrevisions' : s'.revisions = s₂.revisions) (houtbox' : s'.outbox = s₂.outbox) :
    LedgerChange s command event.targetId s' := by
  simp only [acceptCommand, bind_eq_ok, return_eq_ok] at h
  obtain ⟨s₃, h₃, s₄, h₄, hresult, rfl⟩ := h
  obtain ⟨hc₃, ho₃, -, hr₃⟩ := setRevision_spec h₃
  obtain rfl := addEvent_spec h₄
  have hcommands₃ : s₃.commands = s.commands := hc₃.trans hcommands
  have houtbox₃ : s₃.outbox = s.outbox.appendAll vs := ho₃.trans houtbox
  have hrevisions₃ : s'.revisions = s₃.revisions := hrevisions'
  have hissued : result.eventCursor = some (s₃.outbox.issued + 1) := by rw [← hresult]; rfl
  refine .accepted result ?_ ?_ (hcommands₃ ▸ written) ?_ (fun type id => ?_) ?_ ?_
  · rw [← hresult]
    exact ⟨rfl, rfl, rfl⟩
  · rw [← hresult]
  · rw [← hresult]
  · rw [revision_congr hrevisions₃, hr₃, revision_congr hrevisions]
  · rw [houtbox', houtbox₃]
    exact ⟨vs ++ [_], by rw [Log.appendAll_append]; rfl⟩
  · rw [houtbox']
    exact ⟨_, (Log.mem_append _).mpr (.inr rfl), rfl, hissued⟩

end

namespace ApplicationStore

variable {s s' : ApplicationStore} {command : ApplicationCommand} {event : CommandEvent}
  {targetId message : String} {result : CommandResult} {row : CommandRow} {draw : Draw}
  {resultPayload eventPayload : JsonObject}

theorem insertReceipt_spec (h : s.insertReceipt command result = .ok s') :
    ∃ t, s.commands.insert (.of command result) = some t ∧ s' = { s with commands := t } := by
  simp only [insertReceipt, bind_eq_ok, require_eq_ok, pure_eq_ok] at h
  obtain ⟨t, hinsert, rfl⟩ := h
  exact ⟨t, hinsert, rfl⟩

/-- A replay writes nothing. -/
theorem kept_of_existing {α : Type} {f : CommandResult → α} {a : α}
    (h : (do let r ← existing row command; return (f r, s)) = .ok (a, s')) : s' = s := by
  obtain ⟨_, -, h⟩ := bind_eq_ok.mp h
  cases h
  rfl

/-- A transaction that survives the integrity handler is one that returned, or a replay. -/
theorem of_afterIntegrityError {x : Except Raised (CommandResult × ApplicationStore)}
    (h : s.afterIntegrityError command message x = .ok (result, s')) :
    x = .ok (result, s') ∨ s' = s := by
  unfold afterIntegrityError at h
  split at h
  · split at h
    · exact .inr (kept_of_existing h)
    · cases h
  · exact .inl h

theorem refuse_change {error : MishkanError}
    (h : s.refuse command targetId error eventPayload draw = .ok (result, s')) :
    LedgerChange s command targetId s' := by
  unfold refuse at h
  split at h
  · exact .unchanged (kept_of_existing h)
  · simp only [bind_eq_ok, return_eq_ok] at h
    obtain ⟨s₁, h₁, s₂, h₂, -, rfl⟩ := h
    obtain rfl := addEvent_spec h₁
    obtain ⟨t, hinsert, rfl⟩ := insertReceipt_spec h₂
    exact .refused _ ⟨rfl, rfl, rfl⟩ rfl (.inserted hinsert) rfl ⟨[_], rfl⟩

theorem accept_change
    (h : s.accept command event resultPayload eventPayload draw = .ok (result, s')) :
    LedgerChange s command event.targetId s' := by
  rcases of_afterIntegrityError h with h | rfl
  · split at h
    · exact .unchanged (kept_of_existing h)
    · simp only [bind_eq_ok, return_eq_ok, Prod.exists] at h
      obtain ⟨-, -, result₁, s₁, h₁, s₂, h₂, -, rfl⟩ := h
      obtain ⟨t, hinsert, rfl⟩ := insertReceipt_spec h₂
      exact .of_acceptCommand [] h₁ rfl rfl rfl (.inserted hinsert) rfl rfl
  · exact .unchanged rfl

theorem acceptWithMutation_change {mutation : Mutation}
    (h : s.acceptWithMutation command event mutation draw = .ok (result, s')) :
    LedgerChange s command event.targetId s' := by
  rcases of_afterIntegrityError h with h | rfl
  · split at h
    · exact .unchanged (kept_of_existing h)
    · simp only [bind_eq_ok, return_eq_ok, Prod.exists] at h
      obtain ⟨-, -, mutated, -, s₁, h₁, result₁, s₂, h₂, s₃, h₃, -, rfl⟩ := h
      obtain rfl := addEvents_spec h₁
      obtain ⟨t, hinsert, rfl⟩ := insertReceipt_spec h₃
      exact .of_acceptCommand mutated.events h₂ rfl rfl rfl (.inserted hinsert) rfl rfl
  · exact .unchanged rfl

theorem reserve_change {now : Instant} {answer : Option CommandResult}
    (h : s.reserve command targetId now = .ok (answer, s')) :
    LedgerChange s command targetId s' := by
  unfold reserve at h
  split at h
  · exact .unchanged (kept_of_existing h)
  · simp only [bind_eq_ok, return_eq_ok] at h
    obtain ⟨-, -, s₁, h₁, -, rfl⟩ := h
    obtain ⟨t, hinsert, rfl⟩ := insertReceipt_spec h₁
    exact .refused _ ⟨rfl, rfl, rfl⟩ rfl (.inserted hinsert) rfl ⟨[], rfl⟩

theorem completeReserved_change
    (h : s.completeReserved command event resultPayload eventPayload draw = .ok (result, s')) :
    LedgerChange s command event.targetId s' := by
  simp only [completeReserved, bind_eq_ok, require_eq_ok, existing_eq_ok] at h
  obtain ⟨row, hrow, current, ⟨hcontent, rfl⟩, h⟩ := h
  obtain ⟨hmem, hid⟩ := command?_eq_some.mp hrow
  split at h
  · simp only [return_eq_ok] at h
    exact .unchanged h.2.symm
  · split at h
    · simp only [return_eq_ok] at h
      exact .unchanged h.2.symm
    · rename_i hawaits
      simp only [bind_eq_ok, return_eq_ok, Prod.exists] at h
      obtain ⟨-, -, result₁, s₁, h₁, -, rfl⟩ := h
      have hcommands : s₁.commands = s.commands := by
        simp only [acceptCommand, bind_eq_ok, return_eq_ok] at h₁
        obtain ⟨s₃, h₃, s₄, h₄, -, rfl⟩ := h₁
        rw [addEvent_spec h₄]
        exact (setRevision_spec h₃).1
      refine .of_acceptCommand [] h₁ rfl rfl rfl ?_ rfl rfl
      exact .settled (hcommands ▸ hmem) hid hcontent (not_not.mp hawaits).status

theorem failReserved_change {error : MishkanError} {sensitivity : String}
    (h : s.failReserved command targetId error eventPayload sensitivity draw = .ok (result, s')) :
    LedgerChange s command targetId s' := by
  simp only [failReserved, bind_eq_ok, require_eq_ok, refuseIf_eq_ok, not_not] at h
  obtain ⟨row, hrow, -, hcontent, h⟩ := h
  obtain ⟨hmem, hid⟩ := command?_eq_some.mp hrow
  split at h
  · simp only [return_eq_ok] at h
    exact .unchanged h.2.symm
  · rename_i hawaits
    simp only [bind_eq_ok, return_eq_ok] at h
    obtain ⟨s₁, h₁, -, rfl⟩ := h
    have hs₁ := addEvent_spec h₁
    have hcommands : s₁.commands = s.commands := by rw [hs₁]
    refine .refused (s₁.refusal command targetId error draw) ⟨rfl, rfl, rfl⟩ rfl ?_ ?_ ?_
    · rw [← hcommands]
      exact .settled (hcommands ▸ hmem) hid hcontent (not_not.mp hawaits).status
    · rw [hs₁]
      rfl
    · rw [hs₁]
      exact ⟨[_], rfl⟩

end ApplicationStore

/-- **Every transaction of the ledger is one of the three changes.** -/
theorem ledgerStep_change (s : ApplicationStore) (op : LedgerOp) :
    LedgerChange s op.command op.targetId (ledgerStep s op) := by
  refine commit_cases (R := fun s s' => LedgerChange s op.command op.targetId s')
    (.unchanged rfl) ?_
  intro answer s' h
  cases op with
  | refuse =>
    obtain ⟨⟨result, s₁⟩, hok, ⟨⟩⟩ := map_eq_ok.mp h
    exact ApplicationStore.refuse_change hok
  | accept =>
    obtain ⟨⟨result, s₁⟩, hok, ⟨⟩⟩ := map_eq_ok.mp h
    exact ApplicationStore.accept_change hok
  | acceptWithMutation =>
    obtain ⟨⟨result, s₁⟩, hok, ⟨⟩⟩ := map_eq_ok.mp h
    exact ApplicationStore.acceptWithMutation_change hok
  | reserve => exact ApplicationStore.reserve_change h
  | completeReserved =>
    obtain ⟨⟨result, s₁⟩, hok, ⟨⟩⟩ := map_eq_ok.mp h
    exact ApplicationStore.completeReserved_change hok
  | failReserved =>
    obtain ⟨⟨result, s₁⟩, hok, ⟨⟩⟩ := map_eq_ok.mp h
    exact ApplicationStore.failReserved_change hok

end Mishkan
