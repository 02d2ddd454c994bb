import Mishkan.Skills.Activation
import Mishkan.Skills.Agreement
import Mishkan.Skills.Learning

/-!
# Skills/LearnedVersions — the version a learned candidate gets

Every recorded version is a semantic version, in any history.  A request whose draft and review are
accepted ends in a proposed candidate that comes behind its base exactly when the version it would
get is not recorded already and its package can be published: the next patch is taken of the active
version alone, and rejected, pending or archived candidates may have it.
-/

namespace Mishkan

open Refusal Lines Transition Transactions List SkillStore Table Refusal Learning

/-! ## Versions are semantic versions -/

section Versioned

variable {s s' : SkillStore}

/-- Every recorded version is a semantic version. -/
def SkillStore.Versioned (s : SkillStore) : Prop :=
  ∀ v ∈ s.versions, isSkillVersion v.skillVersion = true

/-- Every version of the one store has the identifier and the semantic version of one of the
other. -/
def SkillStore.Rewrites (s s' : SkillStore) : Prop :=
  ∀ v' ∈ s'.versions, ∃ v ∈ s.versions, v'.id = v.id ∧ v'.skillVersion = v.skillVersion

theorem SkillStore.Rewrites.refl (s : SkillStore) : s.Rewrites s := fun v hv => ⟨v, hv, rfl, rfl⟩

theorem SkillStore.Rewrites.versioned (h : s.Rewrites s') (hs : s.Versioned) : s'.Versioned :=
  fun v' hv' => by
    obtain ⟨v, hv, -, hversion⟩ := h v' hv'
    exact hversion ▸ hs v hv

theorem SkillStore.Rewrites.updateRow (h : s.Rewrites s') (record : SkillVersionRecord) :
    s.Rewrites (s'.updateRow record) := by
  intro v' hv'
  obtain ⟨v, hv, rfl⟩ := mem_map.mp hv'
  obtain ⟨w, hw, hid, hversion⟩ := h v hv
  refine ⟨w, hw, ?_⟩
  split
  · exact ⟨hid, hversion⟩
  · exact ⟨hid, hversion⟩

theorem SkillStore.rewrites_activatePointer {current : SkillVersionRecord}
    {decision : SkillLifecycleDecision} {now : Instant} {moved : SkillStore}
    (h : s.activatePointer current decision now = .ok moved) : s.Rewrites moved := by
  obtain ⟨_, -, h⟩ := bind_eq_ok.mp h
  split at h
  · obtain ⟨pointers, -, h⟩ := bind_eq_ok.mp h
    cases h
    exact .refl s
  · obtain ⟨prior, -, h⟩ := bind_eq_ok.mp h
    cases h
    change s.Rewrites (if prior.id = current.id then s else _)
    split
    · exact .refl s
    · exact (SkillStore.Rewrites.refl s).updateRow _

theorem SkillStore.rewrites_recordDecision {decision : SkillLifecycleDecision}
    {recorded : SkillStore} (h : s'.recordDecision decision = .ok recorded)
    (hrewrites : s.Rewrites s') : s.Rewrites recorded := by
  obtain ⟨decisions, -, h⟩ := bind_eq_ok.mp h
  cases h
  exact hrewrites

/-- What registering a candidate writes. -/
theorem SkillStore.registerCandidate_ok {record registered : SkillVersionRecord}
    (h : s.registerCandidate record = .ok (registered, s')) :
    s'.pointers = s.pointers ∧ ∀ v ∈ s'.versions, v ∈ s.versions ∨ v = record := by
  obtain ⟨_, -, h⟩ := bind_eq_ok.mp h
  split at h
  · obtain ⟨_, -, h⟩ := bind_eq_ok.mp h
    cases h
    exact ⟨rfl, fun v hv => .inl hv⟩
  · obtain ⟨versions, hinsert, h⟩ := bind_eq_ok.mp h
    cases h
    exact ⟨rfl, fun v hv => (mem_of_insert (require_eq_ok.mp hinsert)).mp hv⟩

theorem SkillStore.versioned_registerCandidate {record registered : SkillVersionRecord}
    (h : s.registerCandidate record = .ok (registered, s')) (hs : s.Versioned)
    (hrecord : isSkillVersion record.skillVersion = true) : s'.Versioned := fun v hv => by
  rcases (registerCandidate_ok h).2 v hv with hv | rfl
  · exact hs v hv
  · exact hrecord

/-- What an inspection writes. -/
theorem SkillStore.recordInspection_ok {id : Uuid} {inspection : SkillInspectionResult}
    {revision : Nat} {now : Instant} {record : SkillVersionRecord}
    (h : s.recordInspection id inspection revision now = .ok (record, s')) :
    s'.pointers = s.pointers ∧ s.Rewrites s' := by
  obtain ⟨current, -, h⟩ := bind_eq_ok.mp h
  iterate 3 obtain ⟨_, -, h⟩ := bind_eq_ok.mp h
  cases h
  exact ⟨rfl, (SkillStore.Rewrites.refl s).updateRow _⟩

/-- **An operation on the versions keeps them semantic versions.** -/
theorem SkillStore.versioned_step (hs : s.Versioned) {op : SkillStore.Operation}
    (hvalid : (LearningOperation.lifecycle op).Valid) : (s.step op).Versioned := by
  refine commit_cases (R := fun _ (s' : SkillStore) => s'.Versioned) hs fun record s' h => ?_
  cases op with
  | registerCandidate record => exact versioned_registerCandidate h hs hvalid
  | recordInspection versionId inspection revision now =>
    exact (recordInspection_ok h).2.versioned hs
  | decide decision now =>
    change s.decide decision now = _ at h
    unfold SkillStore.decide at h
    split at h
    · obtain ⟨_, -, h⟩ := bind_eq_ok.mp h
      obtain ⟨_, -, h⟩ := bind_eq_ok.mp h
      cases h
      exact hs
    · obtain ⟨current, -, h⟩ := bind_eq_ok.mp h
      obtain ⟨inspection, -, h⟩ := bind_eq_ok.mp h
      obtain ⟨moved, hmoved, h⟩ := bind_eq_ok.mp h
      obtain ⟨recorded, hrecorded, h⟩ := bind_eq_ok.mp h
      cases h
      refine (rewrites_recordDecision hrecorded (.updateRow ?_ _)).versioned hs
      unfold SkillStore.moveTo at hmoved
      split at hmoved
      · exact rewrites_activatePointer hmoved
      · cases hmoved
        exact .refl s
  | archive versionId decision revision now =>
    iterate 2 obtain ⟨_, -, h⟩ := bind_eq_ok.mp h
    obtain ⟨current, -, h⟩ := bind_eq_ok.mp h
    iterate 2 obtain ⟨_, -, h⟩ := bind_eq_ok.mp h
    obtain ⟨recorded, hrecorded, h⟩ := bind_eq_ok.mp h
    cases h
    have hunpoint : s.Rewrites (s.unpoint current) := .refl s
    exact (rewrites_recordDecision hrecorded (hunpoint.updateRow _)).versioned hs
  | reactivate versionId decision revision operation now =>
    iterate 3 obtain ⟨_, -, h⟩ := bind_eq_ok.mp h
    split at h
    · obtain ⟨_, -, h⟩ := bind_eq_ok.mp h
      cases h
      exact hs
    · obtain ⟨current, -, h⟩ := bind_eq_ok.mp h
      obtain ⟨_, -, h⟩ := bind_eq_ok.mp h
      obtain ⟨inspection, -, h⟩ := bind_eq_ok.mp h
      obtain ⟨_, -, h⟩ := bind_eq_ok.mp h
      obtain ⟨moved, hmoved, h⟩ := bind_eq_ok.mp h
      obtain ⟨recorded, hrecorded, h⟩ := bind_eq_ok.mp h
      cases h
      exact (rewrites_recordDecision hrecorded
        ((rewrites_activatePointer hmoved).updateRow _)).versioned hs
  | setPin versionId pinned revision now =>
    obtain ⟨current, -, h⟩ := bind_eq_ok.mp h
    obtain ⟨_, -, h⟩ := bind_eq_ok.mp h
    cases h
    exact ((SkillStore.Rewrites.refl s).updateRow _).versioned hs

end Versioned

/-! ## What every learning call keeps -/

section Keeps

variable {services : LearningServices} {call : LearningCall} {s s' : Learning}
  {record record' : SkillLearningRecord} {draft : SkillPackageDraft}
  {review : SkillLearningReview} {base : Option SkillVersionRecord} {I : Learning → Prop}

/-- No write of a learning call takes the property away. -/
structure Stable (call : LearningCall) (I : Learning → Prop) : Prop where
  create : ∀ s record record' s', I s → record.request = call.request →
    s.create record = .ok (record', s') → I s'
  update : ∀ s record revision record' s', I s → s.update record revision = .ok (record', s') →
    I s'
  register : ∀ s candidate registered lifecycle, I s → candidate.id = call.candidateId →
    isSkillVersion candidate.skillVersion = true →
    s.lifecycle.registerCandidate candidate = .ok (registered, lifecycle) →
    I { s with lifecycle := lifecycle }
  inspect : ∀ s id inspection revision now inspected lifecycle, I s →
    s.lifecycle.recordInspection id inspection revision now = .ok (inspected, lifecycle) →
    I { s with lifecycle := lifecycle }

theorem Stable.keeps_advance (h : Stable call I) (record : SkillLearningRecord) (now : Instant) :
    Keeps I (advance record now) :=
  .transact fun s _ s' hs hupdate => h.update s _ _ _ s' hs hupdate

theorem Stable.keeps_markFailed (h : Stable call I) (requestId : Uuid) (code : String)
    (now : Instant) : Keeps I (markFailed requestId code now) := by
  refine .bind (.read _) fun current => ?_
  split
  · exact .pure _
  · exact .bind (h.keeps_advance _ _) fun _ => .pure _

theorem keeps_lifecycleStep {f : SkillStore → Except Raised (SkillVersionRecord × SkillStore)}
    (h : ∀ s record lifecycle, I s → f s.lifecycle = .ok (record, lifecycle) →
      I { s with lifecycle := lifecycle }) : Keeps I (lifecycleStep f) :=
  .transact fun s _ s' hs hf => by
    obtain ⟨⟨_, lifecycle⟩, hrecord, hpair⟩ := map_eq_ok.mp hf
    cases hpair
    exact h s _ lifecycle hs hrecord

/-- The candidate has the new identifier, and the version its metadata were validated with. -/
theorem candidate_of_materialize {candidate : SkillVersionRecord} {collection : Uuid}
    {content : List UInt8}
    (h : materializeCandidate services call draft base = .ok (candidate, collection, content)) :
    candidate.id = call.candidateId ∧ isSkillVersion candidate.skillVersion = true := by
  simp only [materializeCandidate, SkillMetadata.validate, Refusal.bind_eq_ok, refuseIf_eq_ok,
    Refusal.pure_eq_ok, Prod.mk.injEq, not_not] at h
  obtain ⟨version, -, _, ⟨-, haccepted, rfl⟩, -, -, -, -, _, -, rfl, -⟩ := h
  simp only [SkillMetadata.accepted, Bool.and_eq_true] at haccepted
  exact ⟨rfl, haccepted.1.1.1.1.1.1.1.1.1.2⟩

theorem Stable.keeps_settleDraft (h : Stable call I) :
    Keeps I (settleDraft services call record draft review base) := by
  refine .check_bind fun ⟨candidate, collection, content⟩ hcandidate => ?_
  obtain ⟨hid, hversion⟩ := candidate_of_materialize hcandidate
  refine .bind (keeps_lifecycleStep fun s _ _ hs hregister =>
    h.register s candidate _ _ hs hid hversion hregister) fun registered => ?_
  refine .bind (.check _) fun inspection => ?_
  refine .bind (keeps_lifecycleStep fun s _ _ hs hinspect =>
    h.inspect s _ _ _ _ _ _ hs hinspect) fun inspected => ?_
  exact h.keeps_advance _ _

theorem Stable.keeps_workOn (h : Stable call I) {fingerprints : List String} {name : String} :
    Keeps I (workOn services call fingerprints base name record) := by
  refine .bind (h.keeps_advance _ _) fun record => ?_
  refine .bind (.check _) fun draft => ?_
  refine .bind (.check _) fun _ => ?_
  refine .bind (h.keeps_advance _ _) fun record => ?_
  refine .bind (.check _) fun review => ?_
  refine .bind (.check _) fun _ => ?_
  split
  · exact h.keeps_settleDraft
  · exact h.keeps_advance _ _

/-- **A call keeps what none of its writes takes away**, whether it returns or raises. -/
theorem Stable.keeps_learn (h : Stable call I) : Keeps I (learn services call) := by
  refine .bind (.check _) fun fingerprints => ?_
  refine .bind (.read _) fun target => ?_
  refine .bind (.transact fun s _ s' hs hcreate => h.create s _ _ s' hs rfl hcreate)
    fun record => ?_
  exact .rescue h.keeps_workOn fun e => h.keeps_markFailed _ _ _

/-- Every recorded version is a semantic version. -/
def Learning.Versioned (s : Learning) : Prop := s.lifecycle.Versioned

/-- What creating a record writes. -/
theorem create_ok (h : s.create record = .ok (record', s')) : s'.lifecycle = s.lifecycle ∧
    ∀ r ∈ s'.requests, r ∈ s.requests ∨ r = record := by
  unfold create at h
  split at h
  · obtain ⟨_, -, h⟩ := bind_eq_ok.mp h
    cases h
    exact ⟨rfl, fun r hr => .inl hr⟩
  · obtain ⟨requests, hinsert, h⟩ := bind_eq_ok.mp h
    cases h
    exact ⟨rfl, fun r hr => (mem_of_insert (require_eq_ok.mp hinsert)).mp hr⟩

/-- What updating a record writes. -/
theorem update_ok {revision : Nat} (h : s.update record revision = .ok (record', s')) :
    s'.lifecycle = s.lifecycle ∧
      ∀ r' ∈ s'.requests, ∃ r ∈ s.requests, r'.request.requestId = r.request.requestId := by
  obtain ⟨_, -, h⟩ := bind_eq_ok.mp h
  obtain ⟨_, -, h⟩ := bind_eq_ok.mp h
  obtain ⟨_, -, h⟩ := bind_eq_ok.mp h
  cases h
  refine ⟨rfl, fun r' hr' => ?_⟩
  obtain ⟨r, hr, rfl⟩ := mem_map.mp hr'
  refine ⟨r, hr, ?_⟩
  split <;> rfl

theorem stable_versioned (call : LearningCall) : Stable call Learning.Versioned where
  create s record record' s' hs _ h := by
    rw [Learning.Versioned, (create_ok h).1]
    exact hs
  update s record revision record' s' hs h := by
    rw [Learning.Versioned, (update_ok h).1]
    exact hs
  register s candidate registered lifecycle hs _ hcandidate h :=
    versioned_registerCandidate h hs hcandidate
  inspect s id inspection revision now inspected lifecycle hs h :=
    (recordInspection_ok h).2.versioned hs

/-- **In every history the recorded versions are semantic versions.** -/
theorem versioned_run {ops : List LearningOperation} (hvalid : ∀ op ∈ ops, op.Valid) :
    (run (step services) {} ops).Versioned := by
  refine run_of_guarded (G := fun _ op => op.Valid) (fun s op hs hop => ?_)
    (fun v hv => absurd hv not_mem_nil) (.of_forall (fun op hop _ => hvalid op hop) _)
  cases op with
  | learn call => exact (stable_versioned call).keeps_learn s hs
  | lifecycle op => exact versioned_step hs hop

end Keeps

/-! ## The target and the next version -/

section Target

variable {s : SkillStore} {request : SkillLearningRequest} {limit : Nat} {base : SkillVersionRecord}
  {name version : String}

/-- The base is a recorded version. -/
theorem mem_of_resolveTarget (h : resolveTarget limit s request = .ok (some base, name)) :
    base ∈ s.versions := by
  unfold resolveTarget at h
  split at h
  · obtain ⟨found, hactive, hpair⟩ := map_eq_ok.mp h
    obtain ⟨rfl, -⟩ := Prod.mk.inj hpair
    unfold SkillStore.active at hactive
    split at hactive
    · cases hactive
    · obtain ⟨v, hv, hfound⟩ := map_eq_ok.mp hactive
      obtain rfl := Option.some.inj hfound
      exact mem_of_find (require_eq_ok.mp hv)
  · obtain ⟨candidates, hcandidates, h⟩ := bind_eq_ok.mp h
    obtain ⟨_, -, hcandidates⟩ := bind_eq_ok.mp hcandidates
    cases hcandidates
    split at h
    · rename_i found hfound
      cases h
      have hmem : base ∈ _ := hfound ▸ mem_singleton_self base
      have hactive := mem_mergeSort.mp (mem_of_mem_take (mem_filter.mp hmem).1)
      exact (mem_filter.mp hactive).1
    · cases h
    · cases h

/-- **The version a candidate gets is a semantic version behind that of its base.** -/
theorem nextVersion_ok {base : Option SkillVersionRecord}
    (hbase : ∀ b ∈ base, isSkillVersion b.skillVersion = true)
    (h : nextVersion base = .ok version) :
    isSkillVersion version = true ∧ ∀ b ∈ base, Precedes b.skillVersion version := by
  cases base with
  | none =>
    cases h
    exact ⟨by decide, by simp⟩
  | some b =>
    obtain ⟨hversion, hprecedes⟩ := nextPatch_precedes (hbase b rfl) h
    exact ⟨hversion, by simpa using hprecedes⟩

theorem exists_nextVersion_iff {base : Option SkillVersionRecord}
    (hbase : ∀ b ∈ base, isSkillVersion b.skillVersion = true) :
    (∃ version, nextVersion base = .ok version) ↔ ∀ b ∈ base, IsCountable b.skillVersion := by
  cases base with
  | none => simp [nextVersion]
  | some b => simpa [nextVersion] using exists_nextPatch_iff (hbase b rfl)

end Target

/-! ## The candidate -/

section Candidate

variable {services : LearningServices} {call : LearningCall} {draft : SkillPackageDraft}
  {base : Option SkillVersionRecord} {version : String}

theorem length_text_le (id : Uuid) : id.text.length ≤ 36 := by
  have hgroup : ∀ (digits : List Char) (start size : Nat),
      (String.ofList ((digits.drop start).take size)).length ≤ size := fun digits start size => by
    rw [String.length_ofList, length_take]
    exact Nat.min_le_left _ _
  have hdash : "-".length = 1 := by decide
  simp only [Uuid.text, String.length_append, hdash]
  have h := hgroup (List.replicate (32 - (Nat.toDigits 16 id).length) '0' ++ Nat.toDigits 16 id)
  have h₁ := h 0 8
  have h₂ := h 8 4
  have h₃ := h 12 4
  have h₄ := h 16 4
  have h₅ := h 20 12
  omega

/-- **The metadata of a candidate are accepted** when its draft and its version are. -/
theorem accepted_candidateMetadata {request : SkillLearningRequest} (hdraft : draft.accepted = true)
    (hversion : isSkillVersion version = true) :
    (candidateMetadata request draft version).accepted = true := by
  have hid := length_text_le request.requestId
  have hblank : isFingerprint blankFingerprint = true := by decide
  have hsource : bounded 128 "research-learning" = true := by decide
  have hauthor : bounded 512 "Research_Synthesizer" = true := by decide
  have hlearning : "learning:".length = 9 := by decide
  have hresearch : "research-learning:".length = 18 := by decide
  have hat : "@".length = 1 := by decide
  simp only [SkillPackageDraft.accepted, Bool.and_eq_true, decide_eq_true_eq] at hdraft
  obtain ⟨⟨⟨⟨⟨⟨⟨⟨⟨⟨⟨⟨hname, hlength⟩, hdescription⟩, -⟩, -⟩, -⟩, -⟩, -⟩, -⟩, -⟩, -⟩,
    hfallbacks⟩, -⟩ := hdraft
  have hrevision : bounded 512 ("learning:" ++ request.requestId.text) = true := by
    simp only [bounded, String.length_append, hlearning, Bool.and_eq_true, decide_eq_true_eq]
    omega
  have huri : bounded 4096
      ("research-learning:" ++ draft.skillName ++ "@" ++ request.requestId.text) = true := by
    simp only [bounded, String.length_append, hresearch, hat, Bool.and_eq_true, decide_eq_true_eq]
    omega
  simp only [SkillMetadata.accepted, candidateMetadata, hname, hlength, hdescription, hversion,
    hsource, hrevision, huri, hblank, hauthor, hfallbacks, Option.all_none, Option.all_some,
    decide_true, Bool.and_self]

/-- The document of a candidate. -/
def candidateDocument (services : LearningServices) (call : LearningCall)
    (draft : SkillPackageDraft) (version : String) : List UInt8 :=
  skillDocument services.yaml (candidateMetadata call.request draft version) draft

/-- The fingerprint of the package of a candidate. -/
def candidateFingerprint (services : LearningServices) (call : LearningCall)
    (draft : SkillPackageDraft) (version : String) : String :=
  filesFingerprint services.sha256 [("SKILL.md", candidateDocument services call draft version)]

/-- The document is accepted for the metadata it is written from. -/
def IsWritten (services : LearningServices) (call : LearningCall) (draft : SkillPackageDraft)
    (version : String) : Prop :=
  ∃ fingerprint, validateSkillMetadataDocument services.yaml services.sha256
    (candidateMetadata call.request draft version)
    (candidateDocument services call draft version) = .ok fingerprint

/-- The metadata of the package, whose fingerprint is known. -/
def packagedMetadata (services : LearningServices) (call : LearningCall)
    (draft : SkillPackageDraft) (version : String) : SkillMetadata :=
  { candidateMetadata call.request draft version with
    packageFingerprint := candidateFingerprint services call draft version }

/-- **What a candidate is made of.** -/
theorem materializeCandidate_eq_ok {candidate : SkillVersionRecord} {collection : Uuid}
    {content : List UInt8} (hdraft : draft.accepted = true)
    (hversion : ∀ version, nextVersion base = .ok version → isSkillVersion version = true) :
    materializeCandidate services call draft base = .ok (candidate, collection, content) ↔
    ∃ version, nextVersion base = .ok version ∧ IsWritten services call draft version ∧
      call.stored (candidateDocument services call draft version) = .ok collection ∧
      candidate = candidateRecord call base (packagedMetadata services call draft version)
        collection ∧ content = candidateDocument services call draft version := by
  simp only [materializeCandidate, SkillMetadata.validate, Refusal.bind_eq_ok, refuseIf_eq_ok,
    Refusal.pure_eq_ok, Prod.mk.injEq, not_not]
  constructor
  · rintro ⟨version, hnext, _, ⟨-, -, rfl⟩, -, -, fingerprint, hwritten, _, hstored, rfl, rfl, rfl⟩
    exact ⟨version, hnext, ⟨fingerprint, hwritten⟩, hstored, rfl, rfl⟩
  · rintro ⟨version, hnext, ⟨fingerprint, hwritten⟩, hstored, rfl, rfl⟩
    exact ⟨version, hnext, _, ⟨⟨⟩, accepted_candidateMetadata hdraft (hversion _ hnext), rfl⟩,
      ⟨⟩, rfl, fingerprint, hwritten, collection, hstored, rfl, rfl, rfl⟩

/-- A document within the bounds of the inspection. -/
def IsWithin (inspector : SkillPackageInspector) (content : List UInt8) : Prop :=
  1 ≤ inspector.maxScannedFiles ∧ content.length ≤ inspector.maxScannedFileBytes ∧
    content.length ≤ inspector.maxTotalBytes

/-- **What the inspection of a package of one document finds.** -/
theorem inspectEntries_eq_ok {content : List UInt8} {inspection : SkillInspectionResult} :
    services.inspector.inspectEntries services.sha256 [("SKILL.md", content)]
      (filesFingerprint services.sha256 [("SKILL.md", content)]) = .ok inspection ↔
    IsWithin services.inspector content ∧ inspection = {
      packageFingerprint := filesFingerprint services.sha256 [("SKILL.md", content)]
      quarantined := (services.inspector.findings "SKILL.md" content).any
        services.inspector.isSevere
      content := .arr (services.inspector.findings "SKILL.md" content) } := by
  have hpath : isLogicalPath "SKILL.md" = true := by decide
  simp only [SkillPackageInspector.inspectEntries, mergeSort_singleton, Refusal.bind_eq_ok,
    refuseIf_eq_ok, Refusal.pure_eq_ok, foldlM_cons, foldlM_nil, hpath, not_not,
    flatMap_cons, flatMap_nil, append_nil, IsWithin]
  constructor
  · rintro ⟨_, hfiles, _, ⟨_, ⟨-, -, -, hbytes, -, htotal, -⟩, -⟩, -, -, rfl⟩
    rw [not_lt] at hfiles hbytes htotal
    exact ⟨⟨hfiles, hbytes, by simpa using htotal⟩, rfl⟩
  · rintro ⟨⟨hfiles, hbytes, htotal⟩, rfl⟩
    exact ⟨⟨⟩, not_lt.mpr hfiles, _, ⟨_, ⟨⟨⟩, trivial, ⟨⟩, not_lt.mpr hbytes, ⟨⟩,
      not_lt.mpr (by simpa using htotal), rfl⟩, rfl⟩, ⟨⟩, trivial, rfl⟩

end Candidate

/-! ## Registering and inspecting -/

section Register

variable {s s' : SkillStore} {candidate registered : SkillVersionRecord}

/-- No recorded version of the skill has the semantic version. -/
def SkillStore.IsFree (s : SkillStore) (name version : String) : Prop :=
  ∀ v ∈ s.versions, v.skillName = name → v.skillVersion ≠ version

/-- **A new candidate is registered exactly when its version is free.** -/
theorem registerCandidate_eq_ok (hcandidate : candidate.state = .candidate)
    (hinspection : candidate.inspection = none) (hfresh : ∀ v ∈ s.versions, v.id ≠ candidate.id) :
    s.registerCandidate candidate = .ok (registered, s') ↔
      s.IsFree candidate.skillName candidate.skillVersion ∧ registered = candidate ∧
      ∃ versions, s.versions.insert candidate = some versions ∧
        s' = { s with versions := versions } := by
  have hguard : ¬ (candidate.state ≠ .candidate ∨ candidate.inspection ≠ none) := by
    simp [hcandidate, hinspection]
  rw [SkillStore.registerCandidate, refuseIf_of_not hguard, Refusal.ok_bind]
  split
  · rename_i observed hfind
    have hmatch := of_find hfind
    simp only [Bool.and_eq_true, decide_eq_true_eq] at hmatch
    have hmem := mem_of_find hfind
    have hne : observed ≠ candidate := fun h => hfresh observed hmem (congrArg (·.id) h)
    rw [refuseIf_of hne]
    refine iff_of_false (fun h => by cases h) fun h => ?_
    exact h.1 observed hmem hmatch.1 hmatch.2
  · rename_i hfind
    have hfree : s.IsFree candidate.skillName candidate.skillVersion :=
        fun v hv hname hversion => by
      have hnone := find_eq_none.mp hfind v hv
      simp [hname, hversion] at hnone
    simp only [Refusal.bind_eq_ok, require_eq_ok, Refusal.return_eq_ok, hfree, true_and]
    constructor
    · rintro ⟨versions, hinsert, rfl, rfl⟩
      exact ⟨rfl, versions, hinsert, rfl⟩
    · rintro ⟨rfl, versions, hinsert, rfl⟩
      exact ⟨versions, hinsert, rfl, rfl⟩

/-- A candidate with a free version and a new identifier goes in. -/
theorem exists_insert_candidate (candidate : SkillVersionRecord)
    (hfree : s.IsFree candidate.skillName candidate.skillVersion)
    (hfresh : ∀ v ∈ s.versions, v.id ≠ candidate.id) :
    ∃ versions, s.versions.insert candidate = some versions := by
  refine exists_insert fun v hv hclash => ?_
  simp only [Keyed.clash, Keyed.key, Bool.or_eq_true, decide_eq_true_eq, Prod.mk.injEq] at hclash
  rcases hclash with hid | ⟨hname, hversion⟩
  · exact hfresh v hv hid
  · exact hfree v hv hname hversion

/-- The candidate as an inspection leaves it. -/
def SkillVersionRecord.inspected (candidate : SkillVersionRecord)
    (inspection : SkillInspectionResult) (now : Instant) : SkillVersionRecord :=
  { candidate.revised now with
    inspection := some inspection
    state := if inspection.quarantined then .quarantined else .eligible }

/-- **What was just registered can be inspected.** -/
theorem recordInspection_of_insert {versions : Table SkillVersionRecord}
    (inspection : SkillInspectionResult) (hinsert : s.versions.insert candidate = some versions)
    (hcandidate : candidate.state = .candidate)
    (hfingerprint : inspection.packageFingerprint = candidate.packageFingerprint) (now : Instant) :
    ∃ s', SkillStore.recordInspection { s with versions := versions } candidate.id inspection
        candidate.revision now = .ok (candidate.inspected inspection now, s') ∧
      candidate.inspected inspection now ∈ s'.versions := by
  have hmem : candidate ∈ versions := (mem_of_insert hinsert).mpr (.inr rfl)
  have hrow : SkillStore.requireRow { s with versions := versions } candidate.id = .ok candidate :=
    requireRow_eq_ok.mpr (SkillStore.version?_eq_some.mpr ⟨hmem, rfl⟩)
  have hstate : ¬ candidate.state ∉
      [SkillVersionState.candidate, .validating, .quarantined] := by simp [hcandidate]
  refine ⟨SkillStore.updateRow { s with versions := versions } (candidate.inspected inspection now),
    ?_, ?_⟩
  · rw [SkillStore.recordInspection, hrow, ok_bind, refuseIf_of_not (not_not.mpr rfl),
      ok_bind, refuseIf_of_not (not_not.mpr hfingerprint), ok_bind,
      refuseIf_of_not hstate]
    rfl
  · exact mem_map.mpr ⟨candidate, hmem, if_pos (decide_eq_true rfl)⟩

end Register

/-! ## The record of a request -/

section Record

variable {s : Learning} {record : SkillLearningRecord}

/-- The record one revision further. -/
def SkillLearningRecord.advanced (record : SkillLearningRecord) (now : Instant) :
    SkillLearningRecord :=
  { record with revision := record.revision + 1, updatedAt := now }

/-- What is known of the request of a record is at its revision. -/
def Learning.IsCurrent (s : Learning) (record : SkillLearningRecord) : Prop :=
  ∃ row, s.request? record.request.requestId = some row ∧ row.revision = record.revision

/-- **A current record advances**, and is then what is known of its request. -/
theorem exists_advance (record : SkillLearningRecord) (h : s.IsCurrent record) (now : Instant) :
    ∃ s', advance record now s = (.ok (record.advanced now), s') ∧ s'.lifecycle = s.lifecycle ∧
      s'.request? record.request.requestId = some (record.advanced now) := by
  obtain ⟨row, hrow, hrevision⟩ := h
  have hid : row.request.requestId = record.request.requestId := by
    simpa using of_find hrow
  let requests := s.requests.update (·.request.requestId = record.request.requestId)
    (Learning.overwrite (record.advanced now)) (fun _ => rfl)
  refine ⟨{ s with requests := requests }, ?_, rfl, ?_⟩
  · refine transact_eq_ok.mpr ?_
    have hrequire : s.requireRequest record.request.requestId = .ok row := require_eq_ok.mpr hrow
    simp only [Learning.update, Refusal.bind_eq_ok, refuseIf_eq_ok, Refusal.pure_eq_ok, not_not]
    exact ⟨row, hrequire, ⟨⟩, hrevision, ⟨⟩, trivial, rfl⟩
  · have hfind := @find_update _ _ s.requests
      (fun r => decide (r.request.requestId = record.request.requestId))
      (Learning.overwrite (record.advanced now)) (fun _ => rfl)
      (fun r => decide (r.request.requestId = record.request.requestId)) fun _ => rfl
    rw [Learning.request?] at hrow ⊢
    rw [hfind, hrow, Option.map_some, if_pos (decide_eq_true hid), Learning.overwrite, hid]
    rfl

theorem exists_create (h : s.request? record.request.requestId = none) : ∃ s',
    s.create record = .ok (record, s') ∧ s'.lifecycle = s.lifecycle ∧ s'.IsCurrent record := by
  have hnone := find_eq_none.mp h
  obtain ⟨requests, hinsert⟩ := exists_insert (t := s.requests) (r := record)
    fun r hr hclash => by
      have hne := hnone r hr
      simp only [Keyed.clash, Keyed.key, decide_eq_true_eq] at hclash
      simp [hclash] at hne
  refine ⟨{ s with requests := requests }, ?_, rfl, record, ?_, rfl⟩
  · rw [create, h]
    simp only [Refusal.bind_eq_ok, require_eq_ok, Refusal.pure_eq_ok]
    exact ⟨requests, hinsert, rfl⟩
  · rw [request?, find_insert hinsert, find_eq_none.mpr hnone]
    simp

end Record

/-! ## Learning -/

section Learn

variable {services : LearningServices} {call : LearningCall} {s s' : Learning}
  {record result : SkillLearningRecord} {draft : SkillPackageDraft} {review : SkillLearningReview}
  {base : Option SkillVersionRecord} {name : String} {fingerprints : List String}

/-- **The draft and the review of a request are accepted**, and the request is a new one. -/
structure IsAccepted (services : LearningServices) (s : Learning) (call : LearningCall)
    (base : Option SkillVersionRecord) (name : String) (draft : SkillPackageDraft) : Prop where
  target : resolveTarget services.maxCatalogCandidates s.lifecycle call.request = .ok (base, name)
  isNew : s.request? call.request.requestId = none
  proposed : call.proposed = .ok draft
  accepted : draft.accepted = true
  valid : ∃ fingerprints, call.sources = .ok fingerprints ∧
    validateDraft call.request draft name fingerprints = .ok ()
  reviewed : ∃ review, call.reviewed = .ok review ∧ review.draftFingerprint = ⟨draft⟩ ∧
    review.accepted = true

/-- The version the candidate would get is free, and its package can be published. -/
structure Publishable (services : LearningServices) (s : Learning) (call : LearningCall)
    (name : String) (draft : SkillPackageDraft) (version : String) : Prop where
  free : s.lifecycle.IsFree name version
  written : IsWritten services call draft version
  stored : ∃ collection, call.stored (candidateDocument services call draft version) =
    .ok collection
  within : IsWithin services.inspector (candidateDocument services call draft version)

/-- What an accepted draft ends in: a proposed candidate of a version. -/
structure Proposes (call : LearningCall) (name version : String) (s' : Learning)
    (result : SkillLearningRecord) : Prop where
  state : result.state = .proposed
  recorded : s'.request? result.request.requestId = some result
  candidate : ∃ v ∈ s'.lifecycle.versions, result.candidateVersionId = some v.id ∧
    v.id = call.candidateId ∧ v.skillName = name ∧ v.skillVersion = version

theorem lifecycleStep_eq_ok {f : SkillStore → Except Raised (SkillVersionRecord × SkillStore)}
    {version : SkillVersionRecord} : lifecycleStep f s = (.ok version, s') ↔
      ∃ lifecycle, f s.lifecycle = .ok (version, lifecycle) ∧
        s' = { s with lifecycle := lifecycle } := by
  rw [lifecycleStep, transact_eq_ok, map_eq_ok]
  constructor
  · rintro ⟨⟨_, lifecycle⟩, hf, hpair⟩
    cases hpair
    exact ⟨lifecycle, hf, rfl⟩
  · rintro ⟨lifecycle, hf, rfl⟩
    exact ⟨_, hf, rfl⟩

/-- **A draft that is settled became a candidate**, which could be published. -/
theorem proposes_of_settleDraft
    (h : settleDraft services call record draft review base s = (.ok result, s'))
    (hcurrent : s.IsCurrent record) (hdraft : draft.accepted = true)
    (hversion : ∀ version, nextVersion base = .ok version → isSkillVersion version = true)
    (hfresh : ∀ v ∈ s.lifecycle.versions, v.id ≠ call.candidateId) :
    ∃ version, nextVersion base = .ok version ∧
      Publishable services s call draft.skillName draft version ∧
      Proposes call draft.skillName version s' result := by
  simp only [settleDraft, Transactions.bind_eq_ok, check_eq_ok, Prod.exists] at h
  obtain ⟨candidate, collection, content, _, ⟨hmaterial, rfl⟩, registered, _, hregister,
    inspection, _, ⟨hinspect, rfl⟩, inspected, _, hrecord, hadvance⟩ := h
  obtain ⟨version, hnext, hwritten, hstored, rfl, rfl⟩ :=
    (materializeCandidate_eq_ok hdraft hversion).mp hmaterial
  obtain ⟨_, hregistered, rfl⟩ := lifecycleStep_eq_ok.mp hregister
  obtain ⟨hfree, rfl, versions, hinsert, rfl⟩ :=
    (registerCandidate_eq_ok rfl rfl hfresh).mp hregistered
  obtain ⟨hwithin, hinspection⟩ := inspectEntries_eq_ok.mp hinspect
  obtain ⟨lifecycle, hrecorded, rfl⟩ := lifecycleStep_eq_ok.mp hrecord
  obtain ⟨_, hinspected, hmem⟩ :=
    recordInspection_of_insert inspection hinsert rfl (by rw [hinspection]; rfl) call.now
  obtain ⟨rfl, rfl⟩ := Prod.mk.inj (Except.ok.inj (hrecorded.symm.trans hinspected))
  obtain ⟨_, hadvanced, hlifecycle, hrequest⟩ :=
    @exists_advance (mk s.requests lifecycle) { record with
      state := .proposed
      review := some review
      packageCollectionId := some collection
      candidateVersionId := some call.candidateId } hcurrent call.now
  obtain ⟨hresult, rfl⟩ := Prod.mk.inj (hadvance.symm.trans hadvanced)
  obtain rfl := Except.ok.inj hresult
  exact ⟨version, hnext, ⟨hfree, hwritten, ⟨collection, hstored⟩, hwithin⟩, rfl, hrequest,
    _, by rw [hlifecycle]; exact hmem, rfl, rfl, rfl, rfl⟩

variable {version : String}

/-- **A draft that can be published is settled.** -/
theorem exists_settleDraft (hcurrent : s.IsCurrent record) (hdraft : draft.accepted = true)
    (hversion : ∀ version, nextVersion base = .ok version → isSkillVersion version = true)
    (hfresh : ∀ v ∈ s.lifecycle.versions, v.id ≠ call.candidateId)
    (hnext : nextVersion base = .ok version)
    (h : Publishable services s call draft.skillName draft version) :
    ∃ result s', settleDraft services call record draft review base s = (.ok result, s') := by
  obtain ⟨hfree, hwritten, ⟨collection, hstored⟩, hwithin⟩ := h
  have hmaterial := (materializeCandidate_eq_ok hdraft hversion).mpr
    ⟨version, hnext, hwritten, hstored, rfl, rfl⟩
  let candidate := candidateRecord call base
    (packagedMetadata services call draft version) collection
  obtain ⟨versions, hinsert⟩ := exists_insert_candidate candidate hfree hfresh
  have hregister : s.lifecycle.registerCandidate candidate =
      .ok (candidate, { s.lifecycle with versions := versions }) :=
    (registerCandidate_eq_ok rfl rfl hfresh).mpr ⟨hfree, rfl, versions, hinsert, rfl⟩
  obtain ⟨inspection, hinspect⟩ : ∃ inspection, services.inspector.inspectEntries services.sha256
      [("SKILL.md", candidateDocument services call draft version)]
      (candidateFingerprint services call draft version) = .ok inspection :=
    ⟨_, inspectEntries_eq_ok.mpr ⟨hwithin, rfl⟩⟩
  have hfingerprint : inspection.packageFingerprint = candidate.packageFingerprint := by
    rw [(inspectEntries_eq_ok.mp hinspect).2]
    rfl
  obtain ⟨lifecycle, hrecorded, -⟩ :=
    recordInspection_of_insert inspection hinsert rfl hfingerprint call.now
  let proposed : SkillLearningRecord := { record with
    state := .proposed
    review := some review
    packageCollectionId := some collection
    candidateVersionId := some call.candidateId }
  obtain ⟨s', hadvance, -⟩ :=
    @exists_advance (mk s.requests lifecycle) proposed hcurrent call.now
  refine ⟨proposed.advanced call.now, s', ?_⟩
  rw [settleDraft, bind_of_ok (check_of_ok hmaterial s)]
  refine (bind_of_ok (lifecycleStep_eq_ok.mpr ⟨_, hregister, rfl⟩)).trans ?_
  refine (bind_of_ok (check_of_ok hinspect _)).trans ?_
  exact (bind_of_ok (lifecycleStep_eq_ok.mpr ⟨_, hrecorded, rfl⟩)).trans hadvance

/-- **An accepted draft is worked on up to its candidate**, without a change of the versions. -/
theorem workOn_of_accepted (h : IsAccepted services s call base name draft)
    (hvalid : validateDraft call.request draft name fingerprints = .ok ())
    (hcurrent : s'.IsCurrent record) : ∃ s'' record' review, s''.lifecycle = s'.lifecycle ∧
      s''.IsCurrent record' ∧
      workOn services call fingerprints base name record s' =
        settleDraft services call record' draft review base s'' := by
  obtain ⟨review, hreviewed, hsame, haccepted⟩ := h.reviewed
  let researching : SkillLearningRecord := { record with state := .researching }
  obtain ⟨s₁, hadvance₁, hlifecycle₁, hrow₁⟩ := @exists_advance s' researching hcurrent call.now
  let reviewing : SkillLearningRecord :=
    { researching.advanced call.now with state := .reviewing, draft := some draft }
  obtain ⟨s₂, hadvance₂, hlifecycle₂, hrow₂⟩ :=
    @exists_advance s₁ reviewing ⟨_, hrow₁, rfl⟩ call.now
  refine ⟨s₂, reviewing.advanced call.now, review, hlifecycle₂.trans hlifecycle₁,
    ⟨_, hrow₂, rfl⟩, ?_⟩
  have hcheck : refuseIf (review.draftFingerprint ≠ ⟨draft⟩)
      (fault .skillTrust "Research evaluation belongs to another skill draft") = .ok () :=
    refuseIf_of_not (not_not.mpr hsame)
  rw [workOn, bind_of_ok hadvance₁, bind_of_ok (check_of_ok h.proposed s₁),
    bind_of_ok (check_of_ok hvalid s₁), bind_of_ok hadvance₂,
    bind_of_ok (check_of_ok hreviewed s₂), bind_of_ok (check_of_ok hcheck s₂), if_pos haccepted]

/-- **A learning request that is accepted is settled as its draft is.** -/
theorem learn_of_accepted (h : IsAccepted services s call base name draft) :
    ∃ s' record review, s'.lifecycle = s.lifecycle ∧ s'.IsCurrent record ∧
      ∀ result s'', learn services call s = (.ok result, s'') ↔
        settleDraft services call record draft review base s' = (.ok result, s'') := by
  obtain ⟨fingerprints, hfingerprints, hvalid⟩ := h.valid
  let requested : SkillLearningRecord := {
    request := call.request
    state := .requested
    sourceFingerprints := fingerprints
    baseVersionId := base.map (·.id)
    policyFingerprint := call.policyFingerprint
    updatedAt := call.now }
  obtain ⟨s₁, hcreate, hlifecycle₁, hcurrent⟩ := @exists_create s requested h.isNew
  obtain ⟨s₂, record, review, hlifecycle₂, hcurrent₂, hwork⟩ := workOn_of_accepted h hvalid hcurrent
  refine ⟨s₂, record, review, hlifecycle₂.trans hlifecycle₁, hcurrent₂, fun result s'' => ?_⟩
  have htarget : Transactions.read (fun s => resolveTarget services.maxCatalogCandidates s.lifecycle
      call.request) s = (.ok (base, name), s) := read_of_ok h.target
  have hcreated : transact (·.create requested) s = (.ok requested, s₁) :=
    transact_eq_ok.mpr hcreate
  rw [learn, bind_of_ok (check_of_ok hfingerprints s), bind_of_ok htarget]
  dsimp only
  rw [bind_of_ok hcreated, rescue_eq_ok, hwork]

/-- **What learning is to do**: a new candidate, with a version that no version of the skill has and
that comes behind the base, and a request that is proposed. -/
def Learned (services : LearningServices) (s : Learning) (call : LearningCall)
    (base : Option SkillVersionRecord) (name : String) : Prop :=
  ∃ result s' version, learn services call s = (.ok result, s') ∧
    Proposes call name version s' result ∧ s.lifecycle.IsFree name version ∧
    ∀ b ∈ base, Precedes b.skillVersion version

/-- A draft that is valid has the name that was resolved. -/
theorem skillName_of_accepted (h : IsAccepted services s call base name draft) :
    draft.skillName = name := by
  obtain ⟨fingerprints, -, hvalid⟩ := h.valid
  obtain ⟨_, hname, -⟩ := bind_eq_ok.mp hvalid
  exact not_not.mp (refuseIf_eq_ok.mp hname)

theorem Publishable.of_lifecycle
    (h : Publishable services s call name draft version) (hlifecycle : s.lifecycle = s'.lifecycle) :
    Publishable services s' call name draft version :=
  ⟨hlifecycle ▸ h.free, h.written, h.stored, h.within⟩

/-- **A request whose package can be published is proposed** with the next version. -/
theorem exists_learn (h : IsAccepted services s call base name draft)
    (hversion : ∀ version, nextVersion base = .ok version → isSkillVersion version = true)
    (hfresh : ∀ v ∈ s.lifecycle.versions, v.id ≠ call.candidateId)
    (hnext : nextVersion base = .ok version)
    (hpublishable : Publishable services s call name draft version) :
    ∃ result s', learn services call s = (.ok result, s') ∧
        Proposes call name version s' result := by
  obtain ⟨s', record, review, hlifecycle, hcurrent, hlearn⟩ := learn_of_accepted h
  obtain rfl := skillName_of_accepted h
  have hfresh' : ∀ v ∈ s'.lifecycle.versions, v.id ≠ call.candidateId := hlifecycle ▸ hfresh
  obtain ⟨result, s'', hresult⟩ := exists_settleDraft hcurrent h.accepted hversion hfresh' hnext
    (hpublishable.of_lifecycle hlifecycle.symm)
  obtain ⟨version', hnext', -, hproposes⟩ := proposes_of_settleDraft hresult hcurrent h.accepted
    hversion hfresh'
  obtain rfl := Except.ok.inj (hnext.symm.trans hnext')
  exact ⟨result, s'', (hlearn _ _).mpr hresult, hproposes⟩

/-- **When learning does it**: the numbers of the base have a successor that can be written, no
recorded version of the skill has it, and the package can be published. -/
structure Learnable (services : LearningServices) (s : Learning) (call : LearningCall)
    (base : Option SkillVersionRecord) (name : String) (draft : SkillPackageDraft) : Prop where
  countable : ∀ b ∈ base, IsCountable b.skillVersion
  publishable : ∀ version, nextVersion base = .ok version →
    Publishable services s call name draft version

theorem learned_iff (hs : s.Versioned) (h : IsAccepted services s call base name draft)
    (hfresh : ∀ v ∈ s.lifecycle.versions, v.id ≠ call.candidateId) :
    Learned services s call base name ↔ Learnable services s call base name draft := by
  have hbase : ∀ b ∈ base, isSkillVersion b.skillVersion = true := by
    rintro b hb
    obtain rfl : base = some b := hb
    exact hs b (mem_of_resolveTarget h.target)
  have hversion : ∀ version, nextVersion base = .ok version → isSkillVersion version = true :=
    fun version hnext => (nextVersion_ok hbase hnext).1
  constructor
  · rintro ⟨result, s'', -, hresult, -⟩
    obtain ⟨s', record, review, hlifecycle, hcurrent, hlearn⟩ := learn_of_accepted h
    obtain rfl := skillName_of_accepted h
    obtain ⟨version, hnext, hpublished, -⟩ := proposes_of_settleDraft ((hlearn _ _).mp hresult)
      hcurrent h.accepted hversion (hlifecycle ▸ hfresh)
    refine ⟨(exists_nextVersion_iff hbase).mp ⟨version, hnext⟩, fun version' hnext' => ?_⟩
    obtain rfl := Except.ok.inj (hnext.symm.trans hnext')
    exact hpublished.of_lifecycle hlifecycle
  · rintro ⟨hcountable, hall⟩
    obtain ⟨version, hnext⟩ := (exists_nextVersion_iff hbase).mpr hcountable
    obtain ⟨result, s', hlearn, hproposes⟩ :=
      exists_learn h hversion hfresh hnext (hall version hnext)
    exact ⟨result, s', version, hlearn, hproposes, (hall version hnext).free,
      (nextVersion_ok hbase hnext).2⟩

/-- **In every history, an accepted learning request gets a new version exactly when the next one is
not taken.** -/
theorem learn_registers_iff (services : LearningServices) (ops : List LearningOperation)
    (hvalid : ∀ op ∈ ops, op.Valid) (call : LearningCall) (base : Option SkillVersionRecord)
    (name : String) (draft : SkillPackageDraft)
    (h : IsAccepted services (run (step services) {} ops) call base name draft)
    (hfresh : ∀ v ∈ (run (step services) {} ops).lifecycle.versions,
      v.id ≠ call.candidateId) :
    Learned services (run (step services) {} ops) call base name ↔
      Learnable services (run (step services) {} ops) call base name draft :=
  learned_iff (versioned_run hvalid) h hfresh

end Learn

/-! ## A second candidate of a skill -/

namespace LearningSample

/-- A request to learn the skill, from a text. -/
def request (requestId : Uuid) : SkillLearningRequest where
  requestId := requestId
  taskClass := "deploy"
  suggestedName := some "deploy"
  sources := [⟨.text, "Run it."⟩]
  platform := "linux"
  organizationVersion := "1"

def draft : SkillPackageDraft := { Sample.draft with description := "Ship it" }

/-- A call whose draft is proposed and accepted. -/
def call (requestId candidateId : Uuid) : LearningCall where
  request := request requestId
  policyFingerprint := "sha256:2"
  sources := .ok ["sha256:1"]
  proposed := .ok draft
  reviewed := .ok ⟨⟨draft⟩, true⟩
  stored _ := .ok 7
  candidateId := candidateId
  now := 0

/-- The header of a version as it is written, less its last line feed. -/
def written (version : String) : Text := Sample.lines
  ["name: deploy", "description: Ship it", "metadata:", "  version: " ++ version,
    "  author: Research_Synthesizer", "  mishkan:", "    platforms:", "    - linux",
    "    required_tools: []", "    fallback_tools: \x7b\x7d", "    organization_versions:",
    "    - '1'", "    task_classes:", "    - deploy"]

/-- The versions whose headers are read. -/
def versions : List String := ["0.1.0", "0.3.1"]

/-- Writes a header by its version, and reads what it has written. -/
def yaml : Yaml.Codec where
  dump
    | .map (_ :: _ :: (_, .map ((_, .str version) :: _)) :: _) => written version ++ ['\n']
    | _ => []
  load text := (versions.find? fun version => written version ++ ['\n'] = text).map fun version =>
    (candidateMetadata (request 1) draft version).header

/-- The document of a candidate. -/
def document (version : String) : List UInt8 :=
  encode (Frontmatter.fenced (written version ++ ['\n']) draft.body)

/-- Services whose inspection admits the documents. -/
def services : LearningServices where
  yaml := yaml
  sha256 := Sample.sha256
  inspector := ⟨"strict", 16, 4096, 4096, fun _ _ => [], fun _ => true⟩
  maxCatalogCandidates := 64

variable {version : String}

theorem trims (requestId : Uuid) (h : version ∈ versions) :
    services.yaml.Trims (candidateMetadata (request requestId) draft version).header := by
  have hends : ∀ version ∈ versions, (written version).head?.any isSpace = false ∧
      (written version).getLast?.any isSpace = false := by
    decide +kernel
  exact Yaml.Codec.trims_of_line rfl (hends version h).1 (hends version h).2

theorem inverts (requestId : Uuid) (h : version ∈ versions) :
    services.yaml.Inverts (candidateMetadata (request requestId) draft version).header := by
  have hfind : ∀ version ∈ versions,
      (versions.find? fun v => written v ++ ['\n'] = written version ++ ['\n']) = some version := by
    decide +kernel
  have hdumps : services.yaml.dump (candidateMetadata (request requestId) draft version).header =
      written version ++ ['\n'] := rfl
  rw [Yaml.Codec.Inverts, hdumps]
  change Option.map _ (versions.find? _) = _
  rw [hfind version h]
  simp only [Option.map_some, SkillMetadata.header, candidateMetadata, request]

theorem frontmatter_eq (requestId : Uuid) (h : version ∈ versions) :
    (candidateMetadata (request requestId) draft version).frontmatter services.yaml =
      written version ++ ['\n'] :=
  trims requestId h

theorem isWritten (requestId candidateId : Uuid) (h : version ∈ versions) :
    IsWritten services (call requestId candidateId) draft version := by
  have hlines : ∀ version ∈ versions, ∀ line ∈ splitLines (written version ++ ['\n']),
      Frontmatter.isMarker line = false := by
    decide +kernel
  have hwritable :
      Writable services.yaml (candidateMetadata (request requestId) draft version) draft := by
    refine ⟨?_, (declares_header (inverts requestId h) (trims requestId h)).mpr ⟨rfl, rfl, rfl⟩,
      .inl (by decide)⟩
    rw [frontmatter_eq requestId h]
    exact hlines version h
  exact (writerAgrees_iff.mpr hwritable).1

theorem isWithin (requestId candidateId : Uuid) (h : version ∈ versions) : IsWithin
    services.inspector (candidateDocument services (call requestId candidateId) draft version) := by
  have hdocument : candidateDocument services (call requestId candidateId) draft version =
      document version := by
    rw [candidateDocument, skillDocument, document]
    exact congrArg (fun header => encode (Frontmatter.fenced header draft.body))
      (frontmatter_eq requestId h)
  have hlength : ∀ version ∈ versions, (document version).length ≤ 4096 := by decide +kernel
  rw [hdocument]
  exact ⟨by decide, hlength version h, hlength version h⟩

/-- Nothing is active, and only the first request and its candidate are recorded. -/
structure Confined (s : Learning) : Prop where
  unpointed : s.lifecycle.pointers = ∅
  requests : ∀ r ∈ s.requests, r.request.requestId = 1
  versions : ∀ v ∈ s.lifecycle.versions, v.id = 11

theorem stable_confined : Stable (call 1 11) Confined where
  create s record record' s' hs hrequest h := by
    obtain ⟨hlifecycle, hrequests⟩ := create_ok h
    refine ⟨hlifecycle ▸ hs.unpointed, fun r hr => ?_, hlifecycle ▸ hs.versions⟩
    rcases hrequests r hr with hr | rfl
    · exact hs.requests r hr
    · rw [hrequest]
      rfl
  update s record revision record' s' hs h := by
    obtain ⟨hlifecycle, hrequests⟩ := update_ok h
    refine ⟨hlifecycle ▸ hs.unpointed, fun r' hr' => ?_, hlifecycle ▸ hs.versions⟩
    obtain ⟨r, hr, hid⟩ := hrequests r' hr'
    exact hid.trans (hs.requests r hr)
  register s candidate registered lifecycle hs hid _ h := by
    obtain ⟨hpointers, hversions⟩ := registerCandidate_ok h
    refine ⟨hpointers.trans hs.unpointed, hs.requests, fun v hv => ?_⟩
    rcases hversions v hv with hv | rfl
    · exact hs.versions v hv
    · exact hid
  inspect s id inspection revision now inspected lifecycle hs h := by
    obtain ⟨hpointers, hrewrites⟩ := recordInspection_ok h
    refine ⟨hpointers.trans hs.unpointed, hs.requests, fun v' hv' => ?_⟩
    obtain ⟨v, hv, hid, -⟩ := hrewrites v' hv'
    exact hid.trans (hs.versions v hv)

theorem isAccepted {s : Learning} {requestId : Uuid} {base : Option SkillVersionRecord}
    (candidateId : Uuid) (hactive : s.lifecycle.active "deploy" = .ok base)
    (hnew : ∀ r ∈ s.requests, r.request.requestId ≠ requestId) :
    IsAccepted services s (call requestId candidateId) base "deploy" draft where
  target := by
    change (s.lifecycle.active "deploy").map (fun base => (base, "deploy")) = _
    rw [hactive]
    rfl
  isNew := find_eq_none.mpr fun r hr => by
    change ¬ decide (r.request.requestId = requestId) = true
    simpa using hnew r hr
  proposed := rfl
  accepted := by decide
  valid := ⟨["sha256:1"], rfl, by
    have htools : ¬ draft.requiredTools.filter (· ∉ (request 1).availableTools) ≠ [] := by decide
    have hreferences : ¬ ¬ (draft.retrievalReferences ⊆ ((request 1).sources.filter
          (·.kind = .url)).map (·.locator) ∧
        ((request 1).sources.filter (·.kind = .url)).map (·.locator) ⊆
          draft.retrievalReferences) := by decide
    simp only [validateDraft, Refusal.bind_eq_ok, refuseIf_eq_ok]
    exact ⟨⟨⟩, not_not.mpr rfl, ⟨⟩, not_not.mpr (mem_singleton_self _), ⟨⟩, not_not.mpr rfl,
      ⟨⟩, hreferences, htools⟩⟩
  reviewed := ⟨_, rfl, rfl, rfl⟩

theorem publishable {s : Learning} (requestId candidateId : Uuid) (h : version ∈ versions)
    (hfree : s.lifecycle.IsFree "deploy" version) :
    Publishable services s (call requestId candidateId) "deploy" draft version :=
  ⟨hfree, isWritten requestId candidateId h, ⟨7, rfl⟩, isWithin requestId candidateId h⟩

/-- In a store without pointers nothing is active. -/
theorem active_of_unpointed {s : SkillStore} (h : s.pointers = ∅) :
    s.active "deploy" = .ok none := by
  rw [SkillStore.active, SkillStore.pointer?, h]
  rfl

/-- The skill is learned once. -/
def history : List LearningOperation := [.learn (call 1 11)]

theorem valid_history : ∀ op ∈ history, op.Valid := by
  intro op hop
  obtain rfl := mem_singleton.mp hop
  trivial

theorem run_history :
    run (step services) {} history = (learn services (call 1 11) {}).2 := by
  rw [history, run_cons, run_nil, step_learn]

theorem history_confined : Confined (run (step services) {} history) := by
  rw [run_history]
  exact stable_confined.keeps_learn {} ⟨rfl, fun _ hr => absurd hr not_mem_nil,
    fun _ hv => absurd hv not_mem_nil⟩

/-- The first candidate is recorded, with the version a second one gets. -/
theorem not_isFree :
    ¬ (run (step services) {} history).lifecycle.IsFree "deploy" "0.1.0" := fun hfree => by
  have hnew : IsAccepted services {} (call 1 11) none "deploy" draft :=
    isAccepted 11 (active_of_unpointed rfl) fun r hr => absurd hr not_mem_nil
  obtain ⟨result, s', hlearn, hproposes⟩ := exists_learn hnew
    (fun version hnext => (nextVersion_ok (by simp) hnext).1)
    (fun v hv => absurd hv not_mem_nil) rfl
    (publishable 1 11 mem_cons_self fun v hv => absurd hv not_mem_nil)
  obtain ⟨v, hv, -, -, hname, hversion⟩ := hproposes.candidate
  rw [run_history, hlearn] at hfree
  exact hfree v hv hname hversion

/-- A version of the skill, with an empty lock. -/
def locked (id : Uuid) (skillVersion : String) : SkillVersionRecord where
  id := id
  skillName := "deploy"
  skillVersion := skillVersion
  state := .candidate
  packageFingerprint := "sha256:3"
  content := .null
  policyFingerprint := "sha256:2"
  updatedAt := 1

/-- The version is registered, inspected and decided on. -/
def decided (id : Uuid) (skillVersion : String) (disposition : SkillMutationDisposition) :
    List LearningOperation :=
  [.lifecycle (.registerCandidate (locked id skillVersion)),
    .lifecycle (.recordInspection id ⟨"sha256:3", false, .null⟩ 1 2),
    .lifecycle
      (.decide ⟨id, id, disposition, "operator", "sha256:2", none, false, "Reviewed.", 3⟩ 3)]

/-- A candidate is rejected, another version is active, and a third one is pending. -/
def released : List LearningOperation :=
  decided 11 "0.1.0" .deny ++ decided 12 "0.3.0" .allow ++
    [.lifecycle (.registerCandidate (locked 13 "0.4.0"))]

theorem valid_released : ∀ op ∈ released, op.Valid := by
  simp only [released, decided, cons_append, nil_append, forall_mem_cons, LearningOperation.Valid,
    not_mem_nil, false_imp_iff, implies_true, and_true, true_and]
  decide

/-- The version that is active. -/
def active : SkillVersionRecord :=
  { locked 12 "0.3.0" with
    state := .active, inspection := some ⟨"sha256:3", false, .null⟩
    activationDecisionId := some 12, revision := 3, updatedAt := 3 }

end LearningSample

open LearningSample in
/-- With a version that is rejected, one that is pending and one that is active, the skill gets the
version behind the active one. -/
theorem learn_registers_released :
    Learned services (run (step services) {} released) (call 1 14) (some active)
      "deploy" := by
  have haccepted : IsAccepted services (run (step services) {} released) (call 1 14)
      (some active) "deploy" draft := isAccepted 14 (by decide +kernel) (by decide +kernel)
  refine (learn_registers_iff services released valid_released (call 1 14) (some active) "deploy"
    draft haccepted (by decide +kernel)).mpr ⟨?_, fun version hnext => ?_⟩
  · exact (exists_nextVersion_iff (by simp; decide)).mp ⟨"0.3.1", by decide +kernel⟩
  · obtain rfl : "0.3.1" = version := Except.ok.inj hnext
    refine publishable 1 14 (by decide) ?_
    unfold SkillStore.IsFree
    decide +kernel

open LearningSample in
/-- A second request, made while the first candidate is not active, gets the version it has. -/
theorem learn_runs_out_of_versions :
    ¬ ∀ (services : LearningServices) (ops : List LearningOperation), (∀ op ∈ ops, op.Valid) →
      ∀ call base name draft,
        IsAccepted services (run (step services) {} ops) call base name draft →
        (∀ v ∈ (run (step services) {} ops).lifecycle.versions,
          v.id ≠ call.candidateId) →
        Learned services (run (step services) {} ops) call base name := fun h => by
  have hnew : ∀ r ∈ (run (step services) {} history).requests, r.request.requestId ≠ 2 :=
    fun r hr hid => absurd ((history_confined.requests r hr).symm.trans hid) (by decide)
  have haccepted : IsAccepted services (run (step services) {} history) (call 2 12) none
      "deploy" draft := isAccepted 12 (active_of_unpointed history_confined.unpointed) hnew
  have hfresh : ∀ v ∈ (run (step services) {} history).lifecycle.versions,
      v.id ≠ (call 2 12).candidateId :=
    fun v hv hid => absurd ((history_confined.versions v hv).symm.trans hid) (by decide)
  have hlearned := h services history valid_history (call 2 12) none "deploy" draft haccepted hfresh
  have hlearnable := (learned_iff (versioned_run valid_history) haccepted hfresh).mp hlearned
  exact not_isFree (hlearnable.publishable _ rfl).free

end Mishkan
