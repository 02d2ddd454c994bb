import Mishkan.Persistence.Ledger

/-!
# Persistence/Accounting — exactly one receipt, revision and event for every accepted command

`Accounted` says of a store that its receipts are those of their commands, that every accepted one
names an event, and that the accepted ones for a target carry the revisions from one to the target's
own. Every transaction keeps it, and keeps every accepted receipt as it is. -/

namespace Mishkan

open Refusal Transition List Table

/-! ## Accepted receipts -/

/-- The receipt was accepted for the target. -/
def CommandRow.isAcceptedFor (targetType targetId : String) (row : CommandRow) : Bool :=
  row.status = .accepted ∧ row.targetType = targetType ∧ row.targetId = some targetId

@[simp] theorem CommandRow.isAcceptedFor_iff {targetType targetId : String} {row : CommandRow} :
    row.isAcceptedFor targetType targetId = true ↔
      row.status = .accepted ∧ row.targetType = targetType ∧ row.targetId = some targetId := by
  simp [isAcceptedFor]

/-- The accepted receipts for a target. -/
def ApplicationStore.acceptedFor (s : ApplicationStore) (targetType targetId : String) :
    List CommandRow :=
  s.commands.select (CommandRow.isAcceptedFor targetType targetId)

/-- The target each command has, read off its identity and its content. -/
abbrev Targets := Uuid → Digest ApplicationCommand → String

/-- **The ledger's invariant.** -/
structure Accounted (target : Targets) (s : ApplicationStore) : Prop where
  /-- The target of a receipt is the one its command has. -/
  columns : ∀ row ∈ s.commands, row.targetType = row.fingerprint.of.targetType ∧
    row.targetId = some (target row.commandId row.fingerprint)
  /-- The columns of a receipt are those of its result. -/
  receipts : ∀ row ∈ s.commands, row.result.commandId = row.commandId ∧
    row.result.status = row.status ∧ row.result.targetType = row.targetType ∧
    row.result.targetId = row.targetId ∧ row.result.eventCursor = row.eventCursor
  /-- An accepted receipt names an event of its command. -/
  evidence : ∀ row ∈ s.commands, row.status = .accepted →
    ∃ e ∈ s.outbox, e.value.commandId = some row.commandId ∧ row.result.eventCursor = some e.cursor
  /-- The accepted receipts for a target carry the revisions from one to its own. -/
  revisions : ∀ type id, ((s.acceptedFor type id).map (·.result.revision)).Perm
    ((List.range' 1 (s.revision type id)).map some)

theorem Accounted.empty (target : Targets) : Accounted target .empty where
  columns _ h := absurd h not_mem_empty
  receipts _ h := absurd h not_mem_empty
  evidence _ h := absurd h not_mem_empty
  revisions _ _ := .nil

variable {target : Targets} {s s' : ApplicationStore} {command : ApplicationCommand}
  {targetId : String} {result : CommandResult}

/-! ## One receipt is written -/

/-- The row is the receipt of the command with the result. -/
structure IsReceipt (command : ApplicationCommand) (result : CommandResult) (row : CommandRow) :
    Prop where
  commandId : row.commandId = command.commandId
  fingerprint : row.fingerprint = command.fingerprint
  targetType : row.targetType = command.targetType
  targetId : row.targetId = result.targetId
  status : row.status = result.status
  eventCursor : row.eventCursor = result.eventCursor
  result : row.result = result

/-- **What the writing of a receipt leaves**: the receipt, every accepted one that was there, and
in every selection that refused receipts are not in, at most the receipt more. -/
theorem Written.spec {t' : Table CommandRow} (h : Written s.commands command result t')
    (hacc : Accounted target s) (hresult : IsResult command targetId result)
    (htarget : targetId = target command.commandId command.fingerprint) :
    ∃ row, IsReceipt command result row ∧ (∀ r ∈ t', r ∈ s.commands ∨ r = row) ∧
      (∀ r ∈ s.commands, r.status = .accepted → r ∈ t') ∧
      ∀ q : CommandRow → Bool, (∀ r, q r = true → r.status = .accepted) →
        (t'.select q).Perm ((if q row then [row] else []) ++ s.commands.select q) := by
  cases h with
  | inserted hinsert =>
    refine ⟨.of command result, ⟨rfl, rfl, rfl, rfl, rfl, rfl, rfl⟩, ?_, ?_, ?_⟩
    · exact fun r hr => (mem_of_insert hinsert).mp hr
    · exact fun r hr _ => (mem_of_insert hinsert).mpr (.inl hr)
    · intro q _
      rw [select_insert hinsert]
      exact perm_append_comm
  | @settled row hrow hid hcontent hopen =>
    obtain ⟨htype, htid⟩ := hacc.columns row hrow
    have hrefused : row.status = .refused := (hacc.receipts row hrow).2.1 ▸ hopen
    have hsame : ∀ r ∈ s.commands, r.commandId = result.commandId → r = row := fun r hr hrid =>
      eq_of_clash hr hrow (by
        simp [Keyed.clash, Keyed.key, hrid, hid, hresult.commandId])
    refine ⟨row.settle result, ⟨hid, hcontent, ?_, ?_, rfl, rfl, rfl⟩, ?_, ?_, ?_⟩
    · change row.targetType = _
      rw [htype, hcontent]
      rfl
    · change row.targetId = _
      rw [htid, hid, hcontent, ← htarget, hresult.targetId]
    · intro r hr
      obtain ⟨a, ha, rfl⟩ := mem_update.mp hr
      split
      · rename_i hmatch
        rw [hsame a ha (by simpa using hmatch)]
        exact .inr rfl
      · exact .inl ha
    · intro r hr haccepted
      refine mem_update_of_not hr fun hmatch => ?_
      rw [hsame r hr (by simpa using hmatch), hrefused] at haccepted
      cases haccepted
    · intro q hq
      have hrowq : q row = false := by
        by_contra hne
        have haccepted := hq row (by simpa using hne)
        rw [hrefused] at haccepted
        cases haccepted
      cases hnew : q (row.settle result) with
      | false =>
        rw [if_neg Bool.false_ne_true, nil_append, select_update_of_not]
        intro a ha hmatch
        rw [hsame a ha (by simpa using hmatch)]
        exact ⟨hrowq, hnew⟩
      | true =>
        rw [if_pos rfl]
        refine select_update_perm hrow ?_ ?_ hrowq hnew
        · simp [hid, hresult.commandId]
        · intro a _ hmatch
          simp only [decide_eq_true_eq] at hmatch
          simp [Keyed.clash, Keyed.key, hmatch, hid, hresult.commandId]

/-! ## One transaction -/

theorem Log.subset_of_appendAll {l l' : Log OutboxRow} (h : ∃ vs, l' = l.appendAll vs)
    {e : Stamped OutboxRow} (he : e ∈ l) : e ∈ l' := by
  obtain ⟨vs, rfl⟩ := h
  exact Log.mem_appendAll he vs

/-- **Every transaction keeps the invariant**, for callers that pass each command its target. -/
theorem LedgerChange.accounted (h : LedgerChange s command targetId s') (hacc : Accounted target s)
    (htarget : targetId = target command.commandId command.fingerprint) : Accounted target s' := by
  have hcolumns : ∀ {result row}, IsReceipt command result row → IsResult command targetId result →
      row.targetType = row.fingerprint.of.targetType ∧
        row.targetId = some (target row.commandId row.fingerprint) := by
    intro result row hrow hresult
    rw [hrow.targetType, hrow.fingerprint, hrow.targetId, hrow.commandId, hresult.targetId, htarget]
    exact ⟨rfl, rfl⟩
  have hreceipts : ∀ {result row}, IsReceipt command result row →
      IsResult command targetId result → row.result.commandId = row.commandId ∧
        row.result.status = row.status ∧ row.result.targetType = row.targetType ∧
        row.result.targetId = row.targetId ∧ row.result.eventCursor = row.eventCursor := by
    intro result row hrow hresult
    rw [hrow.result, hrow.commandId, hrow.status, hrow.targetType, hrow.targetId, hrow.eventCursor]
    exact ⟨hresult.commandId, rfl, hresult.targetType, rfl, rfl⟩
  have hevidence : (∃ vs, s'.outbox = s.outbox.appendAll vs) → ∀ row ∈ s.commands,
      row.status = .accepted → ∃ e ∈ s'.outbox, e.value.commandId = some row.commandId ∧
        row.result.eventCursor = some e.cursor := by
    intro houtbox row hrow haccepted
    obtain ⟨e, he, hid, hcursor⟩ := hacc.evidence row hrow haccepted
    exact ⟨e, Log.subset_of_appendAll houtbox he, hid, hcursor⟩
  cases h with
  | unchanged h => rwa [h]
  | refused result hresult status written revisions outbox =>
    obtain ⟨row, hrow, hmem, -, hselect⟩ := written.spec hacc hresult htarget
    have hrefused : row.status = .refused := hrow.status.trans status
    refine ⟨fun r hr => ?_, fun r hr => ?_, fun r hr haccepted => ?_, fun type id => ?_⟩
    · rcases hmem r hr with hr | rfl
      · exact hacc.columns r hr
      · exact hcolumns hrow hresult
    · rcases hmem r hr with hr | rfl
      · exact hacc.receipts r hr
      · exact hreceipts hrow hresult
    · rcases hmem r hr with hr | rfl
      · exact hevidence outbox r hr haccepted
      · rw [hrefused] at haccepted
        cases haccepted
    · have hnot : ¬ row.isAcceptedFor type id = true := fun h => by
        rw [CommandRow.isAcceptedFor_iff, hrefused] at h
        cases h.1
      have hsel := hselect (CommandRow.isAcceptedFor type id) fun r hr =>
        (CommandRow.isAcceptedFor_iff.mp hr).1
      rw [if_neg hnot, nil_append] at hsel
      rw [ApplicationStore.revision_congr revisions]
      exact (hsel.map _).trans (hacc.revisions type id)
  | accepted result hresult status written revision revisions outbox event =>
    obtain ⟨row, hrow, hmem, -, hselect⟩ := written.spec hacc hresult htarget
    have haccepted' : row.status = .accepted := hrow.status.trans status
    refine ⟨fun r hr => ?_, fun r hr => ?_, fun r hr haccepted => ?_, fun type id => ?_⟩
    · rcases hmem r hr with hr | rfl
      · exact hacc.columns r hr
      · exact hcolumns hrow hresult
    · rcases hmem r hr with hr | rfl
      · exact hacc.receipts r hr
      · exact hreceipts hrow hresult
    · rcases hmem r hr with hr | rfl
      · exact hevidence outbox r hr haccepted
      · obtain ⟨e, he, hid, hcursor⟩ := event
        exact ⟨e, he, by rw [hrow.commandId, hid], by rw [hrow.result, hcursor]⟩
    · have hsel := hselect (CommandRow.isAcceptedFor type id) fun r hr =>
        (CommandRow.isAcceptedFor_iff.mp hr).1
      have hiff : row.isAcceptedFor type id = true ↔ type = command.targetType ∧ id = targetId := by
        rw [CommandRow.isAcceptedFor_iff, hrow.targetType, hrow.targetId, hresult.targetId]
        simp only [haccepted', true_and, Option.some.injEq]
        exact ⟨fun h => ⟨h.1.symm, h.2.symm⟩, fun h => ⟨h.1.symm, h.2.symm⟩⟩
      have hold := hacc.revisions type id
      rw [revisions]
      by_cases hkey : type = command.targetType ∧ id = targetId
      · -- the new receipt carries the next revision
        rw [if_pos (hiff.mpr hkey), singleton_append] at hsel
        rw [if_pos hkey, ← hkey.1, ← hkey.2, List.range'_1_concat, map_append]
        refine (hsel.map _).trans ?_
        rw [map_cons, hrow.result, revision, ← hkey.1, ← hkey.2, Nat.add_comm]
        exact (hold.cons _).trans (perm_append_singleton _ _).symm
      · rw [if_neg (fun h => hkey (hiff.mp h)), nil_append] at hsel
        rw [if_neg hkey]
        exact (hsel.map _).trans hold

/-- **No transaction changes an accepted receipt.** -/
theorem LedgerChange.keeps (h : LedgerChange s command targetId s') (hacc : Accounted target s)
    (htarget : targetId = target command.commandId command.fingerprint) :
    ∀ row ∈ s.commands, row.status = .accepted → row ∈ s'.commands := by
  cases h with
  | unchanged h =>
    rw [h]
    exact fun row hrow _ => hrow
  | refused result hresult status written =>
    obtain ⟨_, _, _, hkeeps, _⟩ := written.spec hacc hresult htarget
    exact hkeeps
  | accepted result hresult status written =>
    obtain ⟨_, _, _, hkeeps, _⟩ := written.spec hacc hresult htarget
    exact hkeeps

/-! ## Replays and reuse -/

namespace ApplicationStore

variable {event : CommandEvent} {row : CommandRow} {draw : Draw} {message : String}
  {resultPayload eventPayload : JsonObject}

/-- The refusal of a command identity that was used for other content. -/
def reused (details : JsonObject) : Raised :=
  fault .duplicateResult "command identity was already used for different content" details

theorem existing_of_eq (h : row.fingerprint = command.fingerprint) :
    existing row command = .ok row.result := existing_eq_ok.mpr ⟨h, rfl⟩

theorem existing_of_ne (h : row.fingerprint ≠ command.fingerprint) :
    existing row command = .error (reused [("command_id", .str command.commandId.text)]) := by
  rw [existing, refuseIf_of h]
  rfl

variable {error : MishkanError}

/-- A command that has a receipt gets it, or is refused. -/
theorem refuse_of_row (h : s.command? command.commandId = some row) :
    s.refuse command targetId error eventPayload draw =
      (existing row command).map fun result => (result, s) := by
  unfold refuse
  rw [h]
  rfl

theorem afterIntegrityError_existing :
    s.afterIntegrityError command message (do return (← existing row command, s)) =
      (existing row command).map fun result => (result, s) := by
  by_cases h : row.fingerprint = command.fingerprint
  · rw [existing_of_eq h]
    rfl
  · rw [existing_of_ne h]
    rfl

theorem accept_of_row (h : s.command? command.commandId = some row) :
    s.accept command event resultPayload eventPayload draw =
      (existing row command).map fun result => (result, s) := by
  unfold accept
  rw [h]
  exact afterIntegrityError_existing

theorem acceptWithMutation_of_row {mutation : Mutation}
    (h : s.command? command.commandId = some row) :
    s.acceptWithMutation command event mutation draw =
      (existing row command).map fun result => (result, s) := by
  unfold acceptWithMutation
  rw [h]
  exact afterIntegrityError_existing

theorem reserve_of_row {now : Instant} (h : s.command? command.commandId = some row) :
    s.reserve command targetId now = (existing row command).map fun result => (some result, s) := by
  unfold reserve
  rw [h]
  rfl

theorem completeReserved_of_ne (h : s.command? command.commandId = some row)
    (hne : row.fingerprint ≠ command.fingerprint) :
    s.completeReserved command event resultPayload eventPayload draw =
      .error (reused [("command_id", .str command.commandId.text)]) := by
  unfold completeReserved
  rw [h]
  change (existing row command >>= _) = _
  rw [existing_of_ne hne]
  rfl

theorem completeReserved_of_accepted (h : s.command? command.commandId = some row)
    (heq : row.fingerprint = command.fingerprint) (haccepted : row.result.status = .accepted) :
    s.completeReserved command event resultPayload eventPayload draw = .ok (row.result, s) := by
  unfold completeReserved
  rw [h]
  change (existing row command >>= _) = _
  rw [existing_of_eq heq]
  exact if_pos haccepted

theorem failReserved_of_ne {sensitivity : String}
    (h : s.command? command.commandId = some row) (hne : row.fingerprint ≠ command.fingerprint) :
    s.failReserved command targetId error eventPayload sensitivity draw = .error (reused []) := by
  unfold failReserved
  rw [h]
  change (refuseIf (row.fingerprint ≠ command.fingerprint) _ >>= _) = _
  rw [refuseIf_of hne]
  rfl

theorem failReserved_of_accepted {sensitivity : String}
    (h : s.command? command.commandId = some row) (heq : row.fingerprint = command.fingerprint)
    (haccepted : row.result.status = .accepted) :
    s.failReserved command targetId error eventPayload sensitivity draw = .ok (row.result, s) := by
  have hnot : ¬ row.result.awaitsReconciliation := fun hawaits => by
    have hrefused := hawaits.status
    rw [haccepted] at hrefused
    cases hrefused
  unfold failReserved
  rw [h]
  change (refuseIf (row.fingerprint ≠ command.fingerprint) _ >>= _) = _
  rw [refuseIf_of_not (not_not.mpr heq)]
  exact if_pos hnot

end ApplicationStore

section

open ApplicationStore

variable {op : LedgerOp} {row : CommandRow}

/-- **Every replay of an accepted command returns its receipt** and changes nothing. -/
theorem LedgerOp.outcome_of_accepted (hrow : row ∈ s.commands)
    (haccepted : row.result.status = .accepted) (hid : row.commandId = op.command.commandId)
    (hcontent : row.fingerprint = op.command.fingerprint) :
    op.outcome s = .ok (some row.result, s) := by
  have hfind := command?_eq_some.mpr ⟨hrow, hid⟩
  cases op <;> dsimp only [command] at hfind hcontent <;> rw [outcome]
  case refuse => rw [refuse_of_row hfind, existing_of_eq hcontent]; rfl
  case accept => rw [accept_of_row hfind, existing_of_eq hcontent]; rfl
  case acceptWithMutation => rw [acceptWithMutation_of_row hfind, existing_of_eq hcontent]; rfl
  case reserve => rw [reserve_of_row hfind, existing_of_eq hcontent]; rfl
  case completeReserved => rw [completeReserved_of_accepted hfind hcontent haccepted]; rfl
  case failReserved => rw [failReserved_of_accepted hfind hcontent haccepted]; rfl

/-- **A command identity that was used for other content is refused.** -/
theorem LedgerOp.outcome_of_reused (hrow : row ∈ s.commands)
    (hid : row.commandId = op.command.commandId)
    (hcontent : row.fingerprint ≠ op.command.fingerprint) :
    ∃ details, op.outcome s = .error (reused details) := by
  have hfind := command?_eq_some.mpr ⟨hrow, hid⟩
  have href := existing_of_ne hcontent
  cases op <;> dsimp only [command] at hfind hcontent href
  case refuse => exact ⟨_, by rw [outcome, refuse_of_row hfind, href]; rfl⟩
  case accept => exact ⟨_, by rw [outcome, accept_of_row hfind, href]; rfl⟩
  case acceptWithMutation =>
    exact ⟨_, by rw [outcome, acceptWithMutation_of_row hfind, href]; rfl⟩
  case reserve => exact ⟨_, by rw [outcome, reserve_of_row hfind, href]; rfl⟩
  case completeReserved => exact ⟨_, by rw [outcome, completeReserved_of_ne hfind hcontent]; rfl⟩
  case failReserved => exact ⟨_, by rw [outcome, failReserved_of_ne hfind hcontent]; rfl⟩

/-- A transaction that raises leaves the store as it was. -/
theorem ledgerStep_of_error {e : Raised} (h : op.outcome s = .error e) : ledgerStep s op = s := by
  rw [ledgerStep, h, commit_error]

end

/-! ## Runs -/

/-- The target the operations of a run pass for a command. -/
def targetsOf (ops : List LedgerOp) : Targets := fun id content =>
  ((ops.find? fun op => op.command.commandId = id ∧ op.command.fingerprint = content).map
    (·.targetId)).getD ""

variable {ops : List LedgerOp}

theorem FixedTargets.targetId_eq (fixed : FixedTargets ops) {op : LedgerOp} (hop : op ∈ ops) :
    op.targetId = targetsOf ops op.command.commandId op.command.fingerprint := by
  unfold targetsOf
  cases hfind : ops.find? fun op' => op'.command.commandId = op.command.commandId
      ∧ op'.command.fingerprint = op.command.fingerprint with
  | none =>
    have hnot := List.find?_eq_none.mp hfind op hop
    simp at hnot
  | some op' =>
    obtain ⟨hid, hcontent⟩ : op'.command.commandId = op.command.commandId ∧
        op'.command.fingerprint = op.command.fingerprint := by simpa using List.find?_some hfind
    exact fixed op hop op' (mem_of_find?_eq_some hfind) hid.symm hcontent.symm

/-- Operations that pass every command its target. -/
def Passes (target : Targets) (op : LedgerOp) : Prop :=
  op.targetId = target op.command.commandId op.command.fingerprint

/-- A run of such operations keeps the invariant. -/
theorem Accounted.run (h : Accounted target s)
    (hops : ∀ op ∈ ops, Passes target op) : Accounted target (ledgerRun s ops) :=
  run_of_guarded (G := fun _ op => Passes target op)
    (fun s op hs hop => (ledgerStep_change s op).accounted hs hop) h
    (.of_forall (fun op hop _ => hops op hop) s)

/-- A run of such operations keeps every accepted receipt. -/
theorem Accounted.keeps_run (h : Accounted target s)
    (hops : ∀ op ∈ ops, Passes target op) {row : CommandRow} (hrow : row ∈ s.commands)
    (haccepted : row.status = .accepted) : row ∈ (ledgerRun s ops).commands := by
  induction ops generalizing s with
  | nil => exact hrow
  | cons op ops ih =>
    have hop := hops op mem_cons_self
    have hchange := ledgerStep_change s op
    exact ih (hchange.accounted h hop) (fun op' h' => hops op' (mem_cons_of_mem op h'))
      (hchange.keeps h hop row hrow haccepted)

/-- **Exactly-once accounting.**  After any order of transactions of the ledger, whose callers pass
one target for one command:

* every command identity has at most one receipt, and the columns of a receipt are its result's;
* a receipt that was accepted at any point of the run is still there, unchanged;
* any further transaction for a command with an accepted receipt returns it and changes nothing, and
  one that reuses an identity for other content is refused and changes nothing;
* the revision of a target is the number of accepted receipts for it, and these carry the revisions
  from one to it, each once;
* an accepted receipt has exactly one event that carries its command and its cursor;
* a transaction that raises changes nothing. -/
theorem exactly_once_accounting (ops : List LedgerOp) (fixed : FixedTargets ops) :
    let s := ledgerRun .empty ops
    ((s.commands.rows.map (·.commandId)).Nodup ∧
      ∀ row ∈ s.commands, row.result.commandId = row.commandId ∧
        row.result.status = row.status ∧ row.result.targetType = row.targetType ∧
        row.result.targetId = row.targetId ∧ row.result.eventCursor = row.eventCursor) ∧
    (∀ pre post, ops = pre ++ post → ∀ row ∈ (ledgerRun .empty pre).commands,
      row.status = .accepted → row ∈ s.commands) ∧
    (∀ row ∈ s.commands, ∀ op : LedgerOp, row.commandId = op.command.commandId →
      (row.status = .accepted → row.fingerprint = op.command.fingerprint →
        op.outcome s = .ok (some row.result, s) ∧ ledgerStep s op = s) ∧
      (row.fingerprint ≠ op.command.fingerprint →
        (∃ details, op.outcome s = .error (ApplicationStore.reused details)) ∧
          ledgerStep s op = s)) ∧
    (∀ type id, s.revision type id = (s.acceptedFor type id).length ∧
      ((s.acceptedFor type id).map (·.result.revision)).Perm
        ((List.range' 1 (s.revision type id)).map some)) ∧
    (∀ row ∈ s.commands, row.status = .accepted →
      ∃! e, e ∈ s.outbox ∧ e.value.commandId = some row.commandId ∧
        row.result.eventCursor = some e.cursor) ∧
    ∀ (op : LedgerOp) (e : Raised), op.outcome s = .error e → ledgerStep s op = s := by
  intro s
  have hpasses : ∀ op ∈ ops, Passes (targetsOf ops) op := fun op hop => fixed.targetId_eq hop
  have hacc : Accounted (targetsOf ops) s := (Accounted.empty _).run hpasses
  refine ⟨⟨?_, hacc.receipts⟩, ?_, fun row hrow op hid => ⟨?_, ?_⟩, fun type id => ⟨?_, ?_⟩, ?_,
    fun op e => ledgerStep_of_error⟩
  · rw [List.Nodup, pairwise_map]
    exact s.commands.unique.imp fun {a b} h heq => h (by simp [Keyed.clash, Keyed.key, heq])
  · rintro pre post rfl row hrow haccepted
    have hpre : Accounted (targetsOf (pre ++ post)) (ledgerRun .empty pre) :=
      (Accounted.empty _).run fun op hop => hpasses op (mem_append_left post hop)
    have hkept := hpre.keeps_run (fun op hop => hpasses op (mem_append_right pre hop)) hrow
      haccepted
    rwa [ledgerRun, ledgerRun, ← run_append] at hkept
  · intro haccepted hcontent
    have houtcome := LedgerOp.outcome_of_accepted hrow
      ((hacc.receipts row hrow).2.1.trans haccepted) hid hcontent
    exact ⟨houtcome, by rw [ledgerStep, houtcome, commit_ok]⟩
  · intro hcontent
    obtain ⟨details, houtcome⟩ := LedgerOp.outcome_of_reused hrow hid hcontent
    exact ⟨⟨details, houtcome⟩, ledgerStep_of_error houtcome⟩
  · simpa using (hacc.revisions type id).length_eq.symm
  · exact hacc.revisions type id
  · intro row hrow haccepted
    obtain ⟨e, he, hid, hcursor⟩ := hacc.evidence row hrow haccepted
    refine ⟨e, ⟨he, hid, hcursor⟩, fun e' ⟨he', _, hcursor'⟩ => ?_⟩
    rw [hcursor, Option.some.injEq] at hcursor'
    exact Log.eq_of_cursor he' he hcursor'.symm

/-- A mission is created while another command for it is reserved, and the reserved one completes.
-/
def sampleLedger : List LedgerOp :=
  let command := fun id kind => ({
    commandId := id
    commandType := kind
    actorId := "operator"
    targetType := "mission"
    issuedAt := 5 } : ApplicationCommand)
  let event : CommandEvent := { targetId := "m-1", eventType := "mission.changed" }
  [.reserve (command 1 "mission.start") "m-1" 6,
    .accept (command 2 "mission.create") event [] [] ⟨10, 7⟩,
    .completeReserved (command 1 "mission.start") event [] [] ⟨11, 8⟩,
    .accept (command 2 "mission.other") event [] [] ⟨12, 9⟩]

theorem exactly_once_accounting_sample :
    (ledgerRun .empty sampleLedger).revision "mission" "m-1" = 2 ∧
      ((ledgerRun .empty sampleLedger).acceptedFor "mission" "m-1").length = 2 := by
  have hfixed : FixedTargets sampleLedger := by
    intro op hop op' hop' _ _
    have htarget : ∀ op ∈ sampleLedger, op.targetId = "m-1" := by simp
    [sampleLedger, LedgerOp.targetId]
    rw [htarget op hop, htarget op' hop']
  have hcount := ((exactly_once_accounting sampleLedger hfixed).2.2.2.1 "mission" "m-1").1
  have hrevision : (ledgerRun .empty sampleLedger).revision "mission" "m-1" = 2 := by decide
  exact ⟨hrevision, hcount ▸ hrevision⟩

end Mishkan
