import Mishkan.Skills.Repository

/-!
# Skills/Activation — the pointer of a skill and the state of its versions

A skill has at most one active version, the one its pointer references, inspected and allowed by its
last decision, and the pointer moves only to a version whose decision names the active one.  Every
operation keeps this but one: a decision on the version at the pointer that does not activate it
leaves the pointer at a version that is no longer active.
-/

namespace Mishkan.SkillStore

open Refusal Transition Table Option

/-! ## Integrity -/

/-- The last decision recorded about a version. -/
def lastDecision (s : SkillStore) (versionId : Uuid) : Option SkillLifecycleDecision :=
  (s.decisions.select (·.versionId = versionId)).getLast?

/-- The active version of a skill. -/
def activeVersion (s : SkillStore) (skillName : String) : Option Uuid :=
  (s.versions.find fun v => v.skillName = skillName && v.state = .active).map (·.id)

/-- The version was inspected, its last decision allows it, and that decision carries the override
if it was quarantined. -/
def Authorized (s : SkillStore) (v : SkillVersionRecord) : Prop :=
  ∃ inspection ∈ v.inspection, ∃ decision ∈ s.lastDecision v.id, decision.disposition = .allow ∧
    (inspection.quarantined = true → decision.quarantineOverride = true)

instance (s : SkillStore) (v : SkillVersionRecord) : Decidable (s.Authorized v) :=
  inferInstanceAs (Decidable (∃ inspection ∈ v.inspection, ∃ decision ∈ s.lastDecision v.id, _))

/-- **Pointers and states agree.** -/
structure Integrity (s : SkillStore) : Prop where
  unique : ∀ v ∈ s.versions, ∀ w ∈ s.versions, v.state = .active → w.state = .active →
    v.skillName = w.skillName → v = w
  pointed : ∀ p ∈ s.pointers, ∃ v ∈ s.versions,
    v.id = p.versionId ∧ v.skillName = p.skillName ∧ v.state = .active
  active : ∀ v ∈ s.versions, v.state = .active →
    ∃ p ∈ s.pointers, p.skillName = v.skillName ∧ p.versionId = v.id
  authorized : ∀ v ∈ s.versions, v.state = .active → s.Authorized v

/-- A pointer that moves, moves to the version of a new decision that names the active one. -/
def PointerMoves (s s' : SkillStore) : Prop :=
  ∀ p' ∈ s'.pointers,
    (∃ p ∈ s.pointers, p.skillName = p'.skillName ∧ p.versionId = p'.versionId) ∨
    ∃ decision ∈ s'.decisions, decision ∉ s.decisions ∧ decision.versionId = p'.versionId ∧
      decision.expectedActiveVersionId = s.activeVersion p'.skillName

/-- **An operation leaves pointers and states in agreement**, and moves pointers only on a decision
that names the active version. -/
def ActivationHolds (s : SkillStore) (op : Operation) : Prop :=
  (s.step op).Integrity ∧ PointerMoves s (s.step op)

/-- The operation is not a new decision that takes the version at a pointer out of its state. -/
def Permitted (s : SkillStore) : Operation → Prop
  | .decide decision _ => s.decision? decision.decisionId = none →
    ∀ v ∈ s.versions.find (·.id = decision.versionId), ∀ inspection ∈ v.inspection,
      (∃ p ∈ s.pointers, p.versionId = v.id) → decisionTarget inspection decision = .active
  | _ => True

/-! ## Versions, pointers and decisions after a write -/

section Reads

variable {s : SkillStore} {v : SkillVersionRecord} {id : Uuid} {name : String}

def version? (s : SkillStore) (id : Uuid) : Option SkillVersionRecord :=
  s.versions.find (·.id = id)

theorem version?_eq_some : s.version? id = some v ↔ v ∈ s.versions ∧ v.id = id := by
  rw [version?, find_decide]
  simp +contextual [Keyed.clash, Keyed.key]

theorem pointer?_eq_some {p : SkillActiveVersionRow} :
    s.pointer? name = some p ↔ p ∈ s.pointers ∧ p.skillName = name := by
  rw [pointer?, find_decide]
  simp +contextual [Keyed.clash, Keyed.key]

theorem version?_updateRow {record : SkillVersionRecord} : (s.updateRow record).version? id =
    (s.version? id).map fun row => if row.id = record.id then record.over row else row := by
  have hfind : (s.updateRow record).version? id = (s.versions.find (·.id = id)).map
      fun row => if Decidable.decide (row.id = record.id) then record.over row else row :=
    @find_update _ _ s.versions _ record.over (fun _ => rfl) _ fun _ => rfl
  simpa [version?] using hfind

theorem lastDecision_insert {decision : SkillLifecycleDecision}
    {decisions : Table SkillLifecycleDecision} (h : s.decisions.insert decision = some decisions)
    (id : Uuid) : lastDecision { s with decisions := decisions } id =
      if decision.versionId = id then some decision else s.lastDecision id := by
  rw [lastDecision, select_insert h]
  by_cases hid : decision.versionId = id <;> simp [hid, lastDecision]

end Reads

/-! ## What an operation does -/

/-- What an operation makes of the store. -/
inductive Change (s : SkillStore) : Operation → SkillStore → Prop
  /-- Nothing. -/
  | kept {op : Operation} : Change s op s
  /-- A new candidate. -/
  | entered {op : Operation} {record : SkillVersionRecord} {versions : Table SkillVersionRecord} :
    s.versions.insert record = some versions → record.state = .candidate →
    Change s op { s with versions := versions }
  /-- A version written in its state, or between two states that are not active. -/
  | revised {op : Operation} (current : SkillVersionRecord) {updated : SkillVersionRecord} :
    s.version? updated.id = some current →
    (updated.state = current.state ∧ updated.inspection = current.inspection ∨
      current.state ≠ .active ∧ updated.state ≠ .active) →
    Change s op (s.updateRow updated)
  /-- A version decided on, and not activated. -/
  | demoted {now : Instant} (current : SkillVersionRecord) {updated : SkillVersionRecord}
    {inspection : SkillInspectionResult} {decision : SkillLifecycleDecision}
    {decisions : Table SkillLifecycleDecision} :
    s.version? updated.id = some current → current.inspection = some inspection →
    decision.versionId = updated.id → s.decision? decision.decisionId = none →
    updated.state = decisionTarget inspection decision → updated.state ≠ .active →
    s.decisions.insert decision = some decisions →
    Change s (.decide decision now) { s.updateRow updated with decisions := decisions }
  /-- A version archived, and the pointer at it removed. -/
  | archived {op : Operation} (current : SkillVersionRecord) {updated : SkillVersionRecord}
    {decision : SkillLifecycleDecision} {decisions : Table SkillLifecycleDecision} :
    s.version? updated.id = some current → updated.state = .archived →
    decision.versionId = updated.id → s.decisions.insert decision = some decisions →
    Change s op { (s.unpoint current).updateRow updated with decisions := decisions }
  /-- A version activated: the pointer moves to it. -/
  | activated {op : Operation} {now : Instant} {current : SkillVersionRecord}
    {inspection : SkillInspectionResult} {decision : SkillLifecycleDecision} {moved : SkillStore}
    {decisions : Table SkillLifecycleDecision} :
    s.version? current.id = some current → current.inspection = some inspection →
    decision.versionId = current.id → decision.disposition = .allow →
    (inspection.quarantined = true → decision.quarantineOverride = true) →
    s.activatePointer current decision now = .ok moved →
    s.decisions.insert decision = some decisions →
    Change s op { moved.updateRow (current.decided .active decision now) with
      decisions := decisions }

variable {v : SkillVersionRecord} {id : Uuid}

theorem requireRow_eq_ok {s : SkillStore} :
    s.requireRow id = .ok v ↔ s.version? id = some v := require_eq_ok

theorem id_of_version? {s : SkillStore}
    (h : s.version? id = some v) : v.id = id := (version?_eq_some.mp h).2

variable {inspection : SkillInspectionResult}

variable {decision : SkillLifecycleDecision}

theorem decisionTarget_eq_active (h : decisionTarget inspection decision = .active) :
    decision.disposition = .allow ∧
      (inspection.quarantined = true → decision.quarantineOverride = true) := by
  unfold decisionTarget at h
  split at h
  · cases h
  · rename_i hdeny
    split at h
    · cases h
    · rename_i hsafe
      split at h
      · cases h
      · rename_i hreview
        constructor
        · cases hdisposition : decision.disposition <;> simp_all
        · simpa using hsafe

variable {current : SkillVersionRecord}

variable {now : Instant}

theorem activatePointer_decisions {s moved : SkillStore}
    (h : s.activatePointer current decision now = .ok moved) : moved.decisions = s.decisions := by
  obtain ⟨_, -, h⟩ := bind_eq_ok.mp h
  split at h
  · obtain ⟨pointers, -, h⟩ := bind_eq_ok.mp h
    cases h
    rfl
  · obtain ⟨prior, -, h⟩ := bind_eq_ok.mp h
    cases h
    dsimp only
    split <;> rfl

/-- **Every operation makes one of these changes.** -/
theorem step_change (s : SkillStore) (op : Operation) : Change s op (s.step op) := by
  refine commit_cases (R := fun s s' => Change s op s') .kept fun record s' h => ?_
  cases op with
  | registerCandidate record =>
    obtain ⟨_, hguard, h⟩ := bind_eq_ok.mp h
    have hcandidate := not_or.mp (refuseIf_eq_ok.mp hguard)
    split at h
    · obtain ⟨_, -, h⟩ := bind_eq_ok.mp h
      cases h
      exact .kept
    · obtain ⟨versions, hinsert, h⟩ := bind_eq_ok.mp h
      cases h
      exact .entered (require_eq_ok.mp hinsert) (not_not.mp hcandidate.1)
  | recordInspection versionId inspection revision now =>
    obtain ⟨current, hrow, h⟩ := bind_eq_ok.mp h
    iterate 2 obtain ⟨_, -, h⟩ := bind_eq_ok.mp h
    obtain ⟨_, hstate, h⟩ := bind_eq_ok.mp h
    cases h
    rw [requireRow_eq_ok] at hrow
    refine .revised current ((id_of_version? hrow).symm ▸ hrow) (.inr ⟨?_, ?_⟩)
    · rintro hactive
      simp [hactive] at hstate
    · dsimp only
      split <;> simp
  | decide decision now =>
    change s.decide decision now = _ at h
    unfold SkillStore.decide at h
    split at h
    · obtain ⟨_, -, h⟩ := bind_eq_ok.mp h
      obtain ⟨_, -, h⟩ := bind_eq_ok.mp h
      cases h
      exact .kept
    · rename_i hnew
      obtain ⟨current, hrow, h⟩ := bind_eq_ok.mp h
      obtain ⟨inspection, hinspection, h⟩ := bind_eq_ok.mp h
      obtain ⟨moved, hmoved, h⟩ := bind_eq_ok.mp h
      obtain ⟨recorded, hrecorded, h⟩ := bind_eq_ok.mp h
      cases h
      rw [requireRow_eq_ok] at hrow
      rw [require_eq_ok] at hinspection
      obtain ⟨decisions, hinsert, hrecorded⟩ := bind_eq_ok.mp hrecorded
      cases hrecorded
      rw [require_eq_ok] at hinsert
      have hid := id_of_version? hrow
      unfold moveTo at hmoved
      split at hmoved
      · rename_i htarget
        rw [htarget]
        obtain ⟨hallow, hoverride⟩ := decisionTarget_eq_active htarget
        have hdecisions := activatePointer_decisions hmoved
        exact .activated (hid ▸ hrow) hinspection hid.symm hallow hoverride hmoved
          (hdecisions ▸ hinsert)
      · rename_i htarget
        cases hmoved
        exact .demoted current (hid.symm ▸ hrow) hinspection hid.symm hnew rfl htarget hinsert
  | archive versionId decision revision now =>
    obtain ⟨_, hversion, h⟩ := bind_eq_ok.mp h
    obtain ⟨_, -, h⟩ := bind_eq_ok.mp h
    obtain ⟨current, hrow, h⟩ := bind_eq_ok.mp h
    iterate 2 obtain ⟨_, -, h⟩ := bind_eq_ok.mp h
    obtain ⟨recorded, hrecorded, h⟩ := bind_eq_ok.mp h
    cases h
    rw [requireRow_eq_ok] at hrow
    obtain ⟨decisions, hinsert, hrecorded⟩ := bind_eq_ok.mp hrecorded
    cases hrecorded
    rw [require_eq_ok] at hinsert
    have hid := id_of_version? hrow
    have hversion := not_not.mp (refuseIf_eq_ok.mp hversion)
    exact .archived current (hid.symm ▸ hrow) rfl (hversion.trans hid.symm) hinsert
  | reactivate versionId decision revision operation now =>
    obtain ⟨_, -, h⟩ := bind_eq_ok.mp h
    obtain ⟨_, hversion, h⟩ := bind_eq_ok.mp h
    obtain ⟨_, hallow, h⟩ := bind_eq_ok.mp h
    split at h
    · obtain ⟨_, -, h⟩ := bind_eq_ok.mp h
      cases h
      exact .kept
    · obtain ⟨current, hrow, h⟩ := bind_eq_ok.mp h
      obtain ⟨_, -, h⟩ := bind_eq_ok.mp h
      obtain ⟨inspection, hinspection, h⟩ := bind_eq_ok.mp h
      obtain ⟨_, hsafe, h⟩ := bind_eq_ok.mp h
      obtain ⟨moved, hmoved, h⟩ := bind_eq_ok.mp h
      obtain ⟨recorded, hrecorded, h⟩ := bind_eq_ok.mp h
      cases h
      rw [requireRow_eq_ok] at hrow
      rw [require_eq_ok] at hinspection
      obtain ⟨decisions, hinsert, hrecorded⟩ := bind_eq_ok.mp hrecorded
      cases hrecorded
      rw [require_eq_ok] at hinsert
      have hid := id_of_version? hrow
      have hversion := not_not.mp (refuseIf_eq_ok.mp hversion)
      have hsafe := refuseIf_eq_ok.mp hsafe
      have hdecisions := activatePointer_decisions hmoved
      exact .activated (hid.symm ▸ hrow) hinspection (hversion.trans hid.symm)
        (not_not.mp (refuseIf_eq_ok.mp hallow)) (by simpa using hsafe) hmoved (hdecisions ▸ hinsert)
  | setPin versionId pinned revision now =>
    obtain ⟨current, hrow, h⟩ := bind_eq_ok.mp h
    obtain ⟨_, -, h⟩ := bind_eq_ok.mp h
    cases h
    rw [requireRow_eq_ok] at hrow
    exact .revised current ((id_of_version? hrow).symm ▸ hrow) (.inl ⟨rfl, rfl⟩)

/-! ## The invariant -/

/-- Pointers and states agree, read by name and by identifier. -/
structure Sound (s : SkillStore) : Prop where
  pointed : ∀ name p, s.pointer? name = some p →
    ∃ v, s.version? p.versionId = some v ∧ v.skillName = name ∧ v.state = .active
  active : ∀ id v, s.version? id = some v → v.state = .active →
    ∃ p, s.pointer? v.skillName = some p ∧ p.versionId = id
  authorized : ∀ id v, s.version? id = some v → v.state = .active → s.Authorized v

variable {s s' : SkillStore} {op : Operation}

theorem sound_iff : s.Sound ↔ s.Integrity := by
  constructor
  · intro h
    refine ⟨fun v hv w hw hva hwa hname => ?_, fun p hp => ?_, fun v hv hva => ?_,
      fun v hv hva => ?_⟩
    · obtain ⟨p, hp, hpv⟩ := h.active v.id v (version?_eq_some.mpr ⟨hv, rfl⟩) hva
      obtain ⟨q, hq, hqw⟩ := h.active w.id w (version?_eq_some.mpr ⟨hw, rfl⟩) hwa
      rw [hname, hq] at hp
      cases hp
      have hv' := version?_eq_some.mpr ⟨hv, rfl⟩
      rw [← hpv, hqw, version?_eq_some.mpr ⟨hw, rfl⟩] at hv'
      exact (Option.some.inj hv').symm
    · obtain ⟨v, hv, hname, hva⟩ := h.pointed p.skillName p (pointer?_eq_some.mpr ⟨hp, rfl⟩)
      obtain ⟨hv, hid⟩ := version?_eq_some.mp hv
      exact ⟨v, hv, hid, hname, hva⟩
    · obtain ⟨p, hp, hpv⟩ := h.active v.id v (version?_eq_some.mpr ⟨hv, rfl⟩) hva
      obtain ⟨hp, hname⟩ := pointer?_eq_some.mp hp
      exact ⟨p, hp, hname, hpv⟩
    · exact h.authorized v.id v (version?_eq_some.mpr ⟨hv, rfl⟩) hva
  · intro h
    refine ⟨fun name p hp => ?_, fun id v hv hva => ?_, fun id v hv hva => ?_⟩
    · obtain ⟨hmem, rfl⟩ := pointer?_eq_some.mp hp
      obtain ⟨v, hv, hid, hname, hva⟩ := h.pointed p hmem
      exact ⟨v, version?_eq_some.mpr ⟨hv, hid⟩, hname, hva⟩
    · obtain ⟨hmem, rfl⟩ := version?_eq_some.mp hv
      obtain ⟨p, hp, hname, hpv⟩ := h.active v hmem hva
      exact ⟨p, pointer?_eq_some.mpr ⟨hp, hname⟩, hpv⟩
    · exact h.authorized v (version?_eq_some.mp hv).1 hva

/-- The pointer of a skill is at its active version. -/
theorem Sound.activeVersion_eq (h : s.Sound) (name : String) :
    s.activeVersion name = (s.pointer? name).map (·.versionId) := by
  rw [activeVersion]
  cases hfind : s.versions.find fun v => v.skillName = name && v.state = .active with
  | none =>
    cases hp : s.pointer? name with
    | none => rfl
    | some p =>
      obtain ⟨v, hv, hname, hva⟩ := h.pointed name p hp
      have := find_eq_none.mp hfind v (version?_eq_some.mp hv).1
      simp [hname, hva] at this
  | some v =>
    have hmatch := of_find hfind
    simp only [Bool.and_eq_true, decide_eq_true_eq] at hmatch
    obtain ⟨p, hp, hpv⟩ := h.active v.id v
      (version?_eq_some.mpr ⟨mem_of_find hfind, rfl⟩) hmatch.2
    rw [← hmatch.1, hp, map_some, map_some, hpv]

theorem Authorized.of_eq {v v' : SkillVersionRecord} (h : s.Authorized v) (hid : v'.id = v.id)
    (hinspection : v'.inspection = v.inspection)
    (hlast : s'.lastDecision v.id = s.lastDecision v.id) : s'.Authorized v' := by
  rw [Authorized, hid, hinspection, hlast]
  exact h

/-- **A version that is not active any more**, and that no pointer is at, leaves the rest as it
is. -/
theorem Sound.retire (h : s.Sound) (hother : ∀ id' ≠ id, s'.version? id' = s.version? id')
    (hhere : ∀ v, s'.version? id = some v → v.state ≠ .active)
    (hpointer : ∀ name p, s'.pointer? name = some p ↔ s.pointer? name = some p ∧ p.versionId ≠ id)
    (hlast : ∀ id' ≠ id, s'.lastDecision id' = s.lastDecision id') : s'.Sound where
  pointed name p hp := by
    obtain ⟨hp, hne⟩ := (hpointer name p).mp hp
    rw [hother _ hne]
    exact h.pointed name p hp
  active id' v hv hva := by
    have hne : id' ≠ id := by
      rintro rfl
      exact hhere v hv hva
    rw [hother id' hne] at hv
    obtain ⟨p, hp, hpv⟩ := h.active id' v hv hva
    exact ⟨p, (hpointer _ p).mpr ⟨hp, hpv ▸ hne⟩, hpv⟩
  authorized id' v hv hva := by
    have hne : id' ≠ id := by
      rintro rfl
      exact hhere v hv hva
    rw [hother id' hne] at hv
    have hid := id_of_version? hv
    exact (h.authorized id' v hv hva).of_eq rfl rfl (hid ▸ hlast id' hne)

/-! ## One operation -/

theorem version?_updateRow_ne {record : SkillVersionRecord} (hne : id ≠ record.id) :
    (s.updateRow record).version? id = s.version? id := by
  rw [version?_updateRow]
  cases hv : s.version? id with
  | none => rfl
  | some v => rw [map_some, if_neg (id_of_version? hv ▸ hne)]

theorem version?_updateRow_self (record : SkillVersionRecord)
    (h : s.version? record.id = some current) :
    (s.updateRow record).version? record.id = some (record.over current) := by
  rw [version?_updateRow, h, map_some, if_pos (id_of_version? h)]

theorem version?_insert {record : SkillVersionRecord} {versions : Table SkillVersionRecord}
    (h : s.versions.insert record = some versions) (id : Uuid) :
    version? { s with versions := versions } id =
      (s.version? id).or (if record.id = id then some record else none) := by
  rw [version?, find_insert h]
  simp [version?]

theorem pointer?_unpoint (current : SkillVersionRecord) (name : String)
    (p : SkillActiveVersionRow) : (s.unpoint current).pointer? name = some p ↔
      s.pointer? name = some p ∧ ¬ (name = current.skillName ∧ p.versionId = current.id) := by
  rw [pointer?_eq_some, pointer?_eq_some, unpoint]
  dsimp only
  split
  · rename_i hat
    obtain ⟨q, hq, hqv⟩ := map_eq_some_iff.mp hat
    rw [mem_keep]
    simp only [ne_eq, decide_not, Bool.not_eq_true', decide_eq_false_iff_not]
    constructor
    · rintro ⟨⟨hp, hne⟩, rfl⟩
      exact ⟨⟨hp, rfl⟩, fun h => hne h.1⟩
    · rintro ⟨⟨hp, rfl⟩, hnot⟩
      refine ⟨⟨hp, fun hname => hnot ⟨hname, ?_⟩⟩, rfl⟩
      have hpq := pointer?_eq_some.mpr ⟨hp, hname⟩
      rw [hq] at hpq
      cases hpq
      exact hqv
  · rename_i hat
    constructor
    · rintro ⟨hp, rfl⟩
      refine ⟨⟨hp, rfl⟩, fun h => hat ?_⟩
      rw [pointer?_eq_some.mpr ⟨hp, h.1⟩, map_some, h.2]
    · rintro ⟨h, -⟩
      exact h

theorem pointer?_insert {pointer : SkillActiveVersionRow} {pointers : Table SkillActiveVersionRow}
    (h : s.pointers.insert pointer = some pointers) (name : String) :
    pointer? { s with pointers := pointers } name =
      (s.pointer? name).or (if pointer.skillName = name then some pointer else none) := by
  rw [pointer?, find_insert h]
  simp [pointer?]

/-- The pointers after the one of a skill has moved. -/
theorem pointer?_moved (skillName name : String) (versionId : Uuid) (now : Instant) :
    (s.pointers.update (·.skillName = skillName) (SkillActiveVersionRow.moved versionId now)
      (fun _ => rfl)).find (·.skillName = name) =
      (s.pointer? name).map fun row =>
        if name = skillName then row.moved versionId now else row := by
  refine (@find_update _ _ s.pointers _ (SkillActiveVersionRow.moved versionId now)
    (fun _ => rfl) _ fun _ => rfl).trans ?_
  rw [pointer?]
  cases hfind : s.pointers.find (·.skillName = name) with
  | none => rfl
  | some p =>
    have hname : p.skillName = name := by simpa using of_find hfind
    simp [hname]

/-- **Where an activation moves the pointer**, and what becomes of the versions. -/
theorem activatePointer_spec {moved : SkillStore}
    (h : s.activatePointer current decision now = .ok moved) :
    decision.expectedActiveVersionId = (s.pointer? current.skillName).map (·.versionId) ∧
      (∀ name p, moved.pointer? name = some p →
        name = current.skillName ∧ p.versionId = current.id ∨
          name ≠ current.skillName ∧ s.pointer? name = some p) ∧
      (∃ p, moved.pointer? current.skillName = some p) ∧
      (∀ name ≠ current.skillName, moved.pointer? name = s.pointer? name) ∧
      (∀ id, id = current.id ∨ (s.pointer? current.skillName).map (·.versionId) ≠ some id →
        moved.version? id = s.version? id) ∧
      ∀ id v', id ≠ current.id → (s.pointer? current.skillName).map (·.versionId) = some id →
        moved.version? id = some v' → v'.state = .superseded := by
  obtain ⟨_, hexpected, h⟩ := bind_eq_ok.mp h
  have hexpected := not_not.mp (refuseIf_eq_ok.mp hexpected)
  refine ⟨hexpected.symm, ?_⟩
  split at h
  · rename_i hnone
    obtain ⟨pointers, hinsert, h⟩ := bind_eq_ok.mp h
    cases h
    rw [require_eq_ok] at hinsert
    have hpointer := pointer?_insert hinsert
    rw [hnone]
    refine ⟨fun name p hp => ?_, ⟨⟨current.skillName, current.id, 1, decision.decidedAt⟩, ?_⟩,
      fun name hne => ?_, fun _ _ => rfl, fun id v' _ hat => by simp at hat⟩
    · rw [hpointer] at hp
      by_cases hname : name = current.skillName
      · rw [hname, hnone, none_or, if_pos rfl] at hp
        cases hp
        exact .inl ⟨hname, rfl⟩
      · rw [if_neg (Ne.symm hname), or_none] at hp
        exact .inr ⟨hname, hp⟩
    · rw [hpointer, hnone, none_or, if_pos rfl]
    · rw [hpointer, if_neg (Ne.symm hne), or_none]
  · rename_i pointer hpointer
    obtain ⟨prior, hprior, h⟩ := bind_eq_ok.mp h
    cases h
    rw [requireRow_eq_ok] at hprior
    have hpriorId := id_of_version? hprior
    have hmoved := fun name => pointer?_moved (s := s) current.skillName name current.id
      decision.decidedAt
    refine ⟨fun name p hp => ?_, ⟨_, (hmoved _).trans (by rw [hpointer]; rfl)⟩, fun name hne => ?_,
      fun id hid => ?_, fun id v' hne hat hv' => ?_⟩
    · have hp := (hmoved name).symm.trans hp
      by_cases hname : name = current.skillName
      · rw [hname, hpointer, map_some, if_pos rfl] at hp
        cases hp
        exact .inl ⟨hname, rfl⟩
      · simp only [if_neg hname, map_id'] at hp
        exact .inr ⟨hname, hp⟩
    · refine (hmoved name).trans ?_
      simp only [if_neg hne, map_id']
    · rw [hpointer, map_some, ne_eq, Option.some.injEq, ← hpriorId] at hid
      dsimp only
      split
      · rfl
      · rename_i hother
        refine version?_updateRow_ne (fun heq : id = prior.id => ?_)
        rcases hid with hid | hid
        · exact hother (heq.symm.trans hid)
        · exact hid heq.symm
    · rw [hpointer, map_some, Option.some.injEq, ← hpriorId] at hat
      subst hat
      dsimp only at hv'
      rw [if_neg hne] at hv'
      have hself := version?_updateRow_self { prior.revised now with state := .superseded }
        (show s.version? prior.id = some prior from hpriorId.symm ▸ hprior)
      rw [show v' = _ from Option.some.inj (hv'.symm.trans hself)]
      rfl

/-- A version written in its own state, with its inspection, changes nothing here. -/
theorem Sound.rewrite (h : s.Sound) {current updated : SkillVersionRecord}
    (hcurrent : s.version? updated.id = some current) (hstate : updated.state = current.state)
    (hinspection : updated.inspection = current.inspection) : (s.updateRow updated).Sound := by
  have hread : ∀ id v', (s.updateRow updated).version? id = some v' →
      ∃ v, s.version? id = some v ∧ v'.id = v.id ∧ v'.skillName = v.skillName ∧
        v'.state = v.state ∧ v'.inspection = v.inspection := by
    intro id v' hv'
    by_cases hid : id = updated.id
    · subst hid
      rw [version?_updateRow_self updated hcurrent] at hv'
      cases hv'
      exact ⟨current, hcurrent, rfl, rfl, hstate, hinspection⟩
    · rw [version?_updateRow_ne hid] at hv'
      exact ⟨v', hv', rfl, rfl, rfl, rfl⟩
  refine ⟨fun name p hp => ?_, fun id v' hv' hva => ?_, fun id v' hv' hva => ?_⟩
  · obtain ⟨v, hv, hname, hva⟩ := h.pointed name p hp
    by_cases hid : p.versionId = updated.id
    · rw [hid] at hv ⊢
      rw [hcurrent] at hv
      cases hv
      exact ⟨_, version?_updateRow_self updated hcurrent, hname, hstate.trans hva⟩
    · exact ⟨v, (version?_updateRow_ne hid).trans hv, hname, hva⟩
  · obtain ⟨v, hv, -, hname, hstate, -⟩ := hread id v' hv'
    rw [hname]
    exact h.active id v hv (hstate ▸ hva)
  · obtain ⟨v, hv, hid, -, hstate, hinspection⟩ := hread id v' hv'
    exact (h.authorized id v hv (hstate ▸ hva)).of_eq hid hinspection rfl

/-- **An activation keeps pointers and states in agreement.** -/
theorem Sound.activate (h : s.Sound) {moved : SkillStore}
    {decisions : Table SkillLifecycleDecision} (hcurrent : s.version? current.id = some current)
    (hinspection : current.inspection = some inspection)
    (hversion : decision.versionId = current.id) (hallow : decision.disposition = .allow)
    (hoverride : inspection.quarantined = true → decision.quarantineOverride = true)
    (hmoved : s.activatePointer current decision now = .ok moved)
    (hinsert : s.decisions.insert decision = some decisions) : Sound
    { moved.updateRow (current.decided .active decision now) with decisions := decisions } := by
  obtain ⟨-, hpointers, ⟨p₀, hp₀⟩, hothers, hkept, hprior⟩ := activatePointer_spec hmoved
  have hactivated : (moved.updateRow (current.decided .active decision now)).version? current.id =
      some ((current.decided .active decision now).over current) :=
    version?_updateRow_self (current.decided .active decision now)
      ((hkept _ (.inl rfl)).trans hcurrent)
  have hunwritten : ∀ id, id ≠ current.id →
      (moved.updateRow (current.decided .active decision now)).version? id = moved.version? id :=
    fun id hne => version?_updateRow_ne
    (show id ≠ (current.decided .active decision now).id from hne)
  have hlast := lastDecision_insert hinsert
  -- the version the pointer of another skill is at is neither this one nor the superseded one
  have hforeign : ∀ id v, s.version? id = some v → v.skillName ≠ current.skillName →
      id ≠ current.id ∧ (s.pointer? current.skillName).map (·.versionId) ≠ some id := by
    intro id v hv hname
    constructor
    · rintro rfl
      rw [hcurrent] at hv
      cases hv
      exact hname rfl
    · intro hat
      obtain ⟨q, hq, rfl⟩ := map_eq_some_iff.mp hat
      obtain ⟨w, hw, hwname, -⟩ := h.pointed _ q hq
      rw [hv] at hw
      cases hw
      exact hname hwname
  have hactive : ∀ id v', (moved.updateRow (current.decided .active decision now)).version? id =
      some v' → v'.state = .active → id ≠ current.id → s.version? id = some v' ∧
        (s.pointer? current.skillName).map (·.versionId) ≠ some id := by
    intro id v' hv' hva hne
    rw [hunwritten id hne] at hv'
    by_cases hat : (s.pointer? current.skillName).map (·.versionId) = some id
    · exact absurd (hva.symm.trans (hprior id v' hne hat hv')) (by decide)
    · exact ⟨(hkept id (.inr hat)).symm.trans hv', hat⟩
  refine ⟨fun name p hp => ?_, fun id v' hv' hva => ?_, fun id v' hv' hva => ?_⟩
  · rcases hpointers name p hp with ⟨rfl, hpv⟩ | ⟨hne, hp⟩
    · rw [hpv]
      exact ⟨_, hactivated, rfl, rfl⟩
    · obtain ⟨v, hv, hname, hva⟩ := h.pointed name p hp
      obtain ⟨hnew, hat⟩ := hforeign _ v hv (hname ▸ hne)
      exact ⟨v, (hunwritten _ hnew).trans ((hkept _ (.inr hat)).trans hv), hname, hva⟩
  · by_cases hid : id = current.id
    · subst hid
      rw [show v' = _ from Option.some.inj (hv'.symm.trans hactivated)]
      rcases hpointers _ p₀ hp₀ with ⟨-, hpv⟩ | ⟨hne, -⟩
      · exact ⟨p₀, hp₀, hpv⟩
      · exact absurd rfl hne
    · obtain ⟨hv, hat⟩ := hactive id v' hv' hva hid
      obtain ⟨p, hp, hpv⟩ := h.active id v' hv hva
      have hne : v'.skillName ≠ current.skillName := by
        intro hname
        rw [hname] at hp
        exact hat (by rw [hp, map_some, hpv])
      exact ⟨p, (hothers _ hne).trans hp, hpv⟩
  · by_cases hid : id = current.id
    · subst hid
      rw [show v' = _ from Option.some.inj (hv'.symm.trans hactivated)]
      refine ⟨inspection, hinspection, decision, ?_, hallow, hoverride⟩
      exact (hlast current.id).trans (if_pos hversion)
    · obtain ⟨hv, -⟩ := hactive id v' hv' hva hid
      refine (h.authorized id v' hv hva).of_eq rfl rfl ?_
      have hid' := id_of_version? hv
      exact (hlast v'.id).trans (if_neg (by rw [hversion, hid']; exact Ne.symm hid))

/-- **A permitted operation keeps pointers and states in agreement.** -/
theorem Change.sound (hchange : Change s op s') (h : s.Sound) (hpermitted : s.Permitted op) :
    s'.Sound := by
  cases hchange with
  | kept => exact h
  | @entered _ record versions hinsert hcandidate =>
    have hnew : s.version? record.id = none := by
      rw [eq_none_iff_forall_not_mem]
      intro v hv
      obtain ⟨hmem, hid⟩ := version?_eq_some.mp hv
      exact not_clash_of_insert hinsert hmem (by simp [Keyed.clash, Keyed.key, hid])
    refine h.retire (fun id' (hne : id' ≠ record.id) => ?_) (fun v hv => ?_) (fun name p => ?_)
      fun _ _ => rfl
    · rw [version?_insert hinsert, if_neg (Ne.symm hne), or_none]
    · rw [version?_insert hinsert, hnew, none_or, if_pos rfl] at hv
      cases hv
      simp [hcandidate]
    · refine ⟨fun hp => ⟨hp, fun hid => ?_⟩, fun hp => hp.1⟩
      obtain ⟨v, hv, -⟩ := h.pointed name p hp
      rw [hid, hnew] at hv
      cases hv
  | @revised _ current updated hcurrent hstates =>
    rcases hstates with ⟨hstate, hinspection⟩ | ⟨hbefore, hafter⟩
    · exact h.rewrite hcurrent hstate hinspection
    · refine h.retire (fun _ hne => version?_updateRow_ne hne) (fun v hv => ?_) (fun name p => ?_)
        fun _ _ => rfl
      · rw [version?_updateRow_self updated hcurrent] at hv
        cases hv
        exact hafter
      · refine ⟨fun hp => ⟨hp, fun hid => ?_⟩, fun hp => hp.1⟩
        obtain ⟨v, hv, -, hva⟩ := h.pointed name p hp
        rw [hid, hcurrent] at hv
        cases hv
        exact hbefore hva
  | @demoted _ current updated inspection decision decisions hcurrent hinspection hversion hnew
      htarget hne hinsert =>
    have hid := id_of_version? hcurrent
    refine h.retire (fun _ hne => version?_updateRow_ne hne) (fun v hv => ?_) (fun name p => ?_)
      fun id' hne => (lastDecision_insert hinsert id').trans (if_neg (hversion ▸ Ne.symm hne))
    · have hself := version?_updateRow_self updated hcurrent
      rw [show v = _ from Option.some.inj (hv.symm.trans hself)]
      exact hne
    · refine ⟨fun hp => ⟨hp, fun hat => hne ?_⟩, fun hp => hp.1⟩
      obtain ⟨hmem, -⟩ := pointer?_eq_some.mp hp
      rw [htarget]
      exact hpermitted hnew current (hversion ▸ hcurrent) inspection hinspection
        ⟨p, hmem, hat.trans hid.symm⟩
  | @archived _ current updated decision decisions hcurrent hstate hversion hinsert =>
    have hid := id_of_version? hcurrent
    refine h.retire (fun _ hne => version?_updateRow_ne hne) (fun v hv => ?_) (fun name p => ?_)
      fun id' hne => (lastDecision_insert hinsert id').trans (if_neg (hversion ▸ Ne.symm hne))
    · have hself := version?_updateRow_self updated hcurrent
      rw [show v = _ from Option.some.inj (hv.symm.trans hself)]
      exact fun hva => absurd (hva.symm.trans hstate) (by decide)
    · refine (pointer?_unpoint current name p).trans (and_congr_right fun hp => ?_)
      rw [← hid]
      refine ⟨fun hnot hat => hnot ⟨?_, hat⟩, fun hne hat => hne hat.2⟩
      obtain ⟨v, hv, hname, -⟩ := h.pointed name p hp
      rw [hat, hid, hcurrent] at hv
      cases hv
      exact hname.symm
  | activated hcurrent hinspection hversion hallow hoverride hmoved hinsert =>
    exact h.activate hcurrent hinspection hversion hallow hoverride hmoved hinsert

/-- A pointer that an operation moves, it moves on a decision that names the active version. -/
theorem Change.pointerMoves (hchange : Change s op s') (h : s.Sound) : PointerMoves s s' := by
  have hsame : ∀ p ∈ s.pointers,
      ∃ q ∈ s.pointers, q.skillName = p.skillName ∧ q.versionId = p.versionId :=
    fun p hp => ⟨p, hp, rfl, rfl⟩
  cases hchange with
  | kept | entered | revised | demoted => exact fun p hp => .inl (hsame p hp)
  | archived current =>
    intro p hp
    have hp := pointer?_eq_some.mpr ⟨hp, rfl⟩
    obtain ⟨hp, -⟩ := (pointer?_unpoint current p.skillName p).mp hp
    exact .inl (hsame p (pointer?_eq_some.mp hp).1)
  | @activated _ _ current _ decision _ _ _ _ hversion _ _ hmoved hinsert =>
    intro p hp
    obtain ⟨hexpected, hpointers, -⟩ := activatePointer_spec hmoved
    rcases hpointers p.skillName p (pointer?_eq_some.mpr ⟨hp, rfl⟩) with ⟨hname, hpv⟩ | ⟨-, hp⟩
    · refine .inr ⟨decision, (mem_of_insert hinsert).mpr (.inr rfl), ?_,
        hversion.trans hpv.symm, ?_⟩
      · exact not_mem_of_insert hinsert (by simp [Keyed.clash])
      · rw [h.activeVersion_eq, hname, hexpected]
    · exact .inl (hsame p (pointer?_eq_some.mp hp).1)

/-- A new decision that takes the version at a pointer out of its state breaks the agreement. -/
theorem not_integrity_of_demotion
    (hnew : s.decision? decision.decisionId = none) (hv : s.version? decision.versionId = some v)
    (hinspection : v.inspection = some inspection) {p : SkillActiveVersionRow}
    (hp : p ∈ s.pointers) (hpv : p.versionId = v.id)
    (htarget : decisionTarget inspection decision ≠ .active) :
    ¬ (s.step (.decide decision now)).Integrity := by
  obtain ⟨decisions, hinsert⟩ : ∃ decisions, s.decisions.insert decision = some decisions := by
    refine exists_insert fun a ha hclash => ?_
    exact absurd hclash (find_eq_none.mp hnew a ha)
  have hmove : s.moveTo
    (decisionTarget inspection decision) v decision now = .ok s := if_neg htarget
  have hstep : s.step (.decide decision now) =
      { s.updateRow (v.decided (decisionTarget inspection decision) decision now) with
        decisions := decisions } := by
    rw [step, result, SkillStore.decide, hnew]
    dsimp only
    rw [requireRow_eq_ok.mpr hv, ok_bind, require_eq_ok.mpr hinspection, ok_bind, hmove, ok_bind,
      recordDecision, require_eq_ok.mpr
    (show (s.updateRow _).decisions.insert decision = _ from hinsert)]
    rfl
  intro hintegrity
  rw [hstep] at hintegrity
  have hid := id_of_version? hv
  have hself := version?_updateRow_self
    (v.decided (decisionTarget inspection decision) decision now)
    (show s.version? v.id = some v from hid.symm ▸ hv)
  obtain ⟨w, hw, hwid, -, hwa⟩ := hintegrity.pointed p hp
  have hread := version?_eq_some.mpr ⟨hw, hwid.trans hpv⟩
  rw [show w = _ from Option.some.inj (hread.symm.trans hself)] at hwa
  exact htarget hwa

/-- **An operation keeps the agreement exactly when it is permitted.** -/
theorem activationHolds_iff (h : s.Integrity) (op : Operation) :
    s.ActivationHolds op ↔ s.Permitted op := by
  have hsound := sound_iff.mpr h
  constructor
  · rintro ⟨hintegrity, -⟩
    cases op with
    | decide decision now =>
      intro hnew v hv inspection hinspection hpointed
      obtain ⟨p, hp, hpv⟩ := hpointed
      by_contra htarget
      exact not_integrity_of_demotion hnew hv hinspection hp hpv htarget hintegrity
    | _ => trivial
  · intro hpermitted
    have hchange := step_change s op
    exact ⟨sound_iff.mp (hchange.sound hsound hpermitted), hchange.pointerMoves hsound⟩

theorem integrity_empty : ({} : SkillStore).Integrity := by
  constructor <;> intro _ hmem <;> exact absurd hmem not_mem_empty

/-- **Pointers and states agree along a run of the lifecycle operations** exactly when no new
decision takes the version at a pointer out of its state. -/
theorem activation_iff (ops : List Operation) :
    Along step ActivationHolds {} ops ↔ Along step Permitted {} ops :=
  Along.congr_of_guarded (I := Integrity) (F := fun _ _ => True)
    (fun _ op h _ hpermitted => ((activationHolds_iff h op).mpr hpermitted).1)
    (fun _ op h _ => activationHolds_iff h op) integrity_empty
    (Along.of_forall (fun _ _ _ => trivial) _)

/-! ## A denied version that stays at the pointer -/

/-- A candidate of a skill, inspected without findings, activated, and then denied. -/
def deniedAfterActivation : List Operation :=
  [.registerCandidate
      { id := 1, skillName := "review", skillVersion := "1.0.0", state := .candidate
        packageFingerprint := "sha256:1", content := .null, policyFingerprint := "policy"
        updatedAt := 0 },
    .recordInspection 1 ⟨"sha256:1", false, .null⟩ 1 1,
    .decide
      { decisionId := 2, versionId := 1, disposition := .allow, actorId := "operator"
        policyFingerprint := "policy", reason := "reviewed", decidedAt := 2 } 2,
    .decide
      { decisionId := 3, versionId := 1, disposition := .deny, actorId := "operator"
        policyFingerprint := "policy", reason := "withdrawn", decidedAt := 3 } 3]

/-- **The pointer stays at a version that has been rejected**, and the queries still give it. -/
theorem activation_broken :
    ¬ Along step ActivationHolds {} deniedAfterActivation ∧
      ∃ v, (run step {} deniedAfterActivation).active "review" = .ok (some v) ∧
        v.state = .rejected := by
  constructor
  · rintro ⟨-, -, -, hlast, -⟩
    have hpointed := hlast.1.pointed
    revert hpointed
    decide +kernel
  · have hread : ((run step {} deniedAfterActivation).active "review").toOption.bind
        (Option.map (·.state)) = some .rejected := by decide +kernel
    cases hactive : (run step {} deniedAfterActivation).active "review" with
    | error raised => simp [hactive, Except.toOption] at hread
    | ok found =>
      rw [hactive] at hread
      obtain ⟨v, hv, hstate⟩ := map_eq_some_iff.mp hread
      exact ⟨v, by rw [hv], hstate⟩

end Mishkan.SkillStore
