import Mishkan.Workers.Certificates

/-!
# Workers/CertificateAuthority — what holds of identities and certificates in every state

The invariant of the certificate authority has four parts, each over the tables it ties together:

* `TokensKept` — a token enrolls once, before it expires, and is not revoked then;
* `CertificatesKept` — the current certificate of an active worker, and none of a revoked one;
* `RevisionsKept` — the aggregate revision of a worker is the worker's;
* `RotationsKept` — a certificate is superseded by at most one rotation.

An operation moves a few of the tables, so each part has one lemma per change of its own tables.
-/

namespace Mishkan.Certificates

open Refusal Transition Table Keyed

/-! ## The invariant -/

/-- The tokens, and the enrollments made by them. -/
structure TokensKept (tokens : Table EnrollmentTokenRow) (enrollments : List Enrollment) :
    Prop where
  unrevoked : ∀ t ∈ tokens, t.state ≠ .revoked → t.revokedAt = none
  enrolled : ∀ e ∈ enrollments, ∃ t ∈ tokens, t.id = e.tokenId ∧ t.state = .consumed ∧
    t.workerId = some e.workerId ∧ e.at_ < t.expiresAt
  once : (enrollments.map (·.tokenId)).Nodup

/-- The certificates of the workers. -/
structure CertificatesKept (workers : Table IdentityRow) (certificates : Table CertificateRow) :
    Prop where
  owned : ∀ c ∈ certificates, ∃ w ∈ workers, w.id = c.workerId
  active : ∀ w ∈ workers, w.state = .active → ∃ c ∈ certificates,
    c.workerId = w.id ∧ c.state = .current ∧ w.currentCertificateSerial = some c.serial
  current : ∀ w ∈ workers, ∀ c ∈ certificates, c.workerId = w.id → c.state = .current →
    w.currentCertificateSerial = some c.serial
  revoked : ∀ w ∈ workers, w.state = .revoked → ∀ c ∈ certificates, c.workerId = w.id →
    c.state = .revoked

/-- The aggregate revisions of the workers. -/
structure RevisionsKept (workers : Table IdentityRow) (revisions : Table AggregateRevisionRow) :
    Prop where
  kept : ∀ w ∈ workers, ⟨"worker", w.id.text, w.revision⟩ ∈ revisions
  apart : ∀ w ∈ workers, ∀ w' ∈ workers, w.id.text = w'.id.text → w.id = w'.id

/-- The rotations, and the certificates they superseded. -/
structure RotationsKept (certificates : Table CertificateRow)
    (rotations : Table CertificateRotationRow) : Prop where
  prior : ∀ r ∈ rotations, ∃ c ∈ certificates, c.serial = r.priorSerial ∧ c.state ≠ .current
  once : ∀ r ∈ rotations, ∀ r' ∈ rotations, r.priorSerial = r'.priorSerial → r = r'

/-- **What every state of the authority has.** -/
structure Authority.Kept (s : Authority) : Prop where
  tokens : TokensKept s.tokens s.enrollments
  workers : s.enrollments.map (·.workerId) = s.workers.rows.map (·.id)
  certificates : CertificatesKept s.workers s.certificates
  revisions : RevisionsKept s.workers s.revisions
  rotations : RotationsKept s.certificates s.rotations

theorem Authority.Kept.empty : Authority.Kept {} where
  tokens := by constructor <;> simp
  workers := rfl
  certificates := by constructor <;> simp
  revisions := by constructor <;> simp
  rotations := by constructor <;> simp

/-! ## Rows that share a key -/

section Keys

variable {tokens : Table EnrollmentTokenRow} {workers : Table IdentityRow}
  {certificates : Table CertificateRow}

theorem token_eq {t t' : EnrollmentTokenRow} (ht : t ∈ tokens) (ht' : t' ∈ tokens)
    (hid : t.id = t'.id) : t = t' :=
  eq_of_clash ht ht' (by simp [clash, key, hid])

theorem identity_eq {w w' : IdentityRow} (hw : w ∈ workers) (hw' : w' ∈ workers)
    (hid : w.id = w'.id) : w = w' :=
  eq_of_clash hw hw' (by simpa [clash, key] using hid)

theorem certificate_eq {c c' : CertificateRow} (hc : c ∈ certificates) (hc' : c' ∈ certificates)
    (hserial : c.serial = c'.serial) : c = c' :=
  eq_of_clash hc hc' (by simp [clash, key, hserial])

variable {s : Authority}

theorem mem_of_worker? {id : Uuid} {w : IdentityRow} (h : s.worker? id = some w) :
    w ∈ s.workers ∧ w.id = id := ⟨mem_of_find h, by simpa using of_find h⟩

theorem mem_of_certificate? {serial : String} {c : CertificateRow}
    (h : s.certificate? serial = some c) : c ∈ s.certificates ∧ c.serial = serial :=
  ⟨mem_of_find h, by simpa using of_find h⟩

theorem certificate?_eq_some {c : CertificateRow} (h : c ∈ s.certificates) :
    s.certificate? c.serial = some c := by
  refine (find_eq_some fun a b ha hb => ?_).mpr ⟨h, by simp⟩
  simp only [decide_eq_true_eq] at ha hb
  simp [clash, key, ha, hb]

theorem mem_of_rotation? {id : Uuid} {r : CertificateRotationRow} (h : s.rotation? id = some r) :
    r ∈ s.rotations ∧ r.id = id := ⟨mem_of_find h, by simpa using of_find h⟩

end Keys

/-! ## Tokens -/

section Tokens

variable {tokens tokens' : Table EnrollmentTokenRow} {enrollments : List Enrollment}

theorem TokensKept.insert (h : TokensKept tokens enrollments) {t : EnrollmentTokenRow}
    (hins : tokens.insert t = some tokens') (ht : t.revokedAt = none) :
    TokensKept tokens' enrollments where
  unrevoked t' ht' hstate := by
    rcases (mem_of_insert hins).mp ht' with hold | rfl
    · exact h.unrevoked t' hold hstate
    · exact ht
  enrolled e he := by
    obtain ⟨t', ht', hrest⟩ := h.enrolled e he
    exact ⟨t', (mem_of_insert hins).mpr (.inl ht'), hrest⟩
  once := h.once

/-- A token that enrolled no worker may be rewritten. -/
theorem TokensKept.update (h : TokensKept tokens enrollments) {id : Uuid}
    {f : EnrollmentTokenRow → EnrollmentTokenRow} (hf : ∀ t, key (f t) = key t)
    (hconsumed : ∀ t ∈ tokens, t.id = id → t.state ≠ .consumed)
    (hrevoked : ∀ t ∈ tokens, t.id = id → (f t).state ≠ .revoked → (f t).revokedAt = none) :
    TokensKept (tokens.update (·.id = id) f hf) enrollments where
  unrevoked t' ht' hstate := by
    obtain ⟨t, ht, rfl⟩ := mem_update.mp ht'
    by_cases hid : t.id = id
    · simp only [hid, decide_true, if_true] at hstate ⊢
      exact hrevoked t ht hid hstate
    · simp only [hid, decide_false] at hstate ⊢
      exact h.unrevoked t ht hstate
  enrolled e he := by
    obtain ⟨t, ht, htid, hstate, hrest⟩ := h.enrolled e he
    refine ⟨t, mem_update_of_not ht ?_, htid, hstate, hrest⟩
    simp only [decide_eq_true_eq]
    exact fun hid => hconsumed t ht hid hstate
  once := h.once

/-- A live token enrolls one worker. -/
theorem TokensKept.consume (h : TokensKept tokens enrollments) {token : EnrollmentTokenRow}
    (htoken : token ∈ tokens) (hactive : token.state = .active) {workerId : Uuid} {now : Instant}
    (hnow : now < token.expiresAt) : TokensKept (tokens.update (·.id = token.id) (fun t => { t with
          state := .consumed, workerId := some workerId, consumedAt := some now }) fun _ => rfl)
      (enrollments ++ [⟨token.id, workerId, now⟩]) := by
  have hsame : ∀ t ∈ tokens, t.id = token.id → t = token := fun t ht => token_eq ht htoken
  have hfresh : ∀ e ∈ enrollments, e.tokenId ≠ token.id := by
    intro e he hid
    obtain ⟨t, ht, htid, hstate, -⟩ := h.enrolled e he
    rw [hsame t ht (htid.trans hid), hactive] at hstate
    cases hstate
  have hupdate := h.update
    (fun _ => rfl : ∀ t : EnrollmentTokenRow, key { t with
      state := .consumed, workerId := some workerId, consumedAt := some now } = key t)
    (fun t ht hid => by rw [hsame t ht hid, hactive]; decide)
    (fun t ht hid _ => h.unrevoked t ht (by rw [hsame t ht hid, hactive]; decide))
  exact {
    unrevoked := hupdate.unrevoked
    enrolled := by
      intro e he
      rcases List.mem_append.mp he with hold | hnew
      · exact hupdate.enrolled e hold
      · obtain rfl := List.mem_singleton.mp hnew
        exact ⟨_, mem_update_of htoken (by simp), rfl, rfl, rfl, hnow⟩
    once := by
      rw [List.map_append, List.nodup_append]
      refine ⟨h.once, List.nodup_singleton _, ?_⟩
      simpa using fun e he => hfresh e he }

end Tokens

/-! ## Certificates -/

section Certificates

variable {workers workers' : Table IdentityRow} {certificates certificates' : Table CertificateRow}

/-- A worker is enrolled with its first certificate. -/
theorem CertificatesKept.enroll (h : CertificatesKept workers certificates) {w : IdentityRow}
    {c : CertificateRow} (hw : workers.insert w = some workers')
    (hc : certificates.insert c = some certificates') (howner : c.workerId = w.id)
    (hstate : c.state = .current) (hactive : w.state = .active)
    (hserial : w.currentCertificateSerial = some c.serial) :
    CertificatesKept workers' certificates' := by
  have hfresh : ∀ w' ∈ workers, w'.id ≠ w.id := fun w' hw' hid =>
    not_clash_of_insert hw hw' (by simpa [clash, key] using hid)
  have hfree : ∀ c' ∈ certificates, c'.workerId ≠ w.id := by
    intro c' hc' hid
    obtain ⟨w', hw', hwid⟩ := h.owned c' hc'
    exact hfresh w' hw' (hwid.trans hid)
  have hmw : ∀ w', w' ∈ workers' ↔ w' ∈ workers ∨ w' = w := fun _ => mem_of_insert hw
  have hmc : ∀ c', c' ∈ certificates' ↔ c' ∈ certificates ∨ c' = c := fun _ =>
    mem_of_insert hc
  constructor
  · intro c' hc'
    rcases (hmc c').mp hc' with hold | rfl
    · obtain ⟨w', hw', hid⟩ := h.owned c' hold
      exact ⟨w', (hmw w').mpr (.inl hw'), hid⟩
    · exact ⟨w, (hmw w).mpr (.inr rfl), howner.symm⟩
  · intro w' hw' hactive'
    rcases (hmw w').mp hw' with hold | rfl
    · obtain ⟨c', hc', hrest⟩ := h.active w' hold hactive'
      exact ⟨c', (hmc c').mpr (.inl hc'), hrest⟩
    · exact ⟨c, (hmc c).mpr (.inr rfl), howner, hstate, hserial⟩
  · intro w' hw' c' hc' hid hcurrent
    rcases (hmw w').mp hw' with holdw | rfl <;> rcases (hmc c').mp hc' with holdc | rfl
    · exact h.current w' holdw c' holdc hid hcurrent
    · exact absurd (hid.symm.trans howner) (hfresh w' holdw)
    · exact absurd hid (hfree c' holdc)
    · exact hserial
  · intro w' hw' hrevoked c' hc' hid
    rcases (hmw w').mp hw' with holdw | rfl
    · rcases (hmc c').mp hc' with holdc | rfl
      · exact h.revoked w' holdw hrevoked c' holdc hid
      · exact absurd (hid.symm.trans howner) (hfresh w' holdw)
    · rw [hactive] at hrevoked
      cases hrevoked

/-- The current certificate of a worker is replaced. -/
theorem CertificatesKept.rotate (h : CertificatesKept workers certificates) {w : IdentityRow}
    {c : CertificateRow} {prior : String} {now : Instant} (hw : w ∈ workers)
    (hactive : w.state = .active) (hprior : w.currentCertificateSerial = some prior)
    (hins : (certificates.update (·.serial = prior)
      (fun c => { c with state := .superseded, supersededAt := some now }) fun _ => rfl).insert c
        = some certificates')
    (howner : c.workerId = w.id) (hstate : c.state = .current) :
    CertificatesKept
      (workers.update (·.id = w.id)
        (fun w => { w with
          currentCertificateSerial := some c.serial, revision := w.revision + 1 }) fun _ => rfl)
      certificates' := by
  -- the superseded certificate is the worker's own
  obtain ⟨c₀, hc₀, hown₀, -, hserial₀⟩ := h.active w hw hactive
  rw [hprior, Option.some.injEq] at hserial₀
  have hsuperseded : ∀ c' ∈ certificates, c'.serial = prior → c'.workerId = w.id := by
    intro c' hc' hserial
    rw [certificate_eq hc' hc₀ (hserial.trans hserial₀), hown₀]
  have hold : ∀ c' ∈ certificates', c' = c ∨ ∃ c₁ ∈ certificates, c'.workerId = c₁.workerId ∧
      c'.serial = c₁.serial ∧
      (c' = c₁ ∧ c₁.serial ≠ prior ∨ c₁.serial = prior ∧ c'.state = .superseded) := by
    intro c' hc'
    rcases (mem_of_insert hins).mp hc' with hupd | rfl
    · obtain ⟨c₁, hc₁, rfl⟩ := mem_update.mp hupd
      right
      refine ⟨c₁, hc₁, ?_⟩
      by_cases hs : c₁.serial = prior <;> simp [hs]
    · exact .inl rfl
  have hkept : ∀ c₁ ∈ certificates, c₁.serial ≠ prior → c₁ ∈ certificates' := fun c₁ hc₁ hne =>
    (mem_of_insert hins).mpr (.inl (mem_update_of_not hc₁ (by simpa using hne)))
  have hworker : ∀ w' ∈ workers.update (·.id = w.id)
      (fun w => { w with
        currentCertificateSerial := some c.serial, revision := w.revision + 1 }) fun _ => rfl,
      ∃ w₁ ∈ workers, w'.id = w₁.id ∧ w'.state = w₁.state ∧
        (w₁.id = w.id ∧ w'.currentCertificateSerial = some c.serial ∨
          w₁.id ≠ w.id ∧ w'.currentCertificateSerial = w₁.currentCertificateSerial) := by
    intro w' hw'
    obtain ⟨w₁, hw₁, rfl⟩ := mem_update.mp hw'
    refine ⟨w₁, hw₁, ?_⟩
    by_cases hid : w₁.id = w.id <;> simp [hid]
  constructor
  · intro c' hc'
    have hheld : ∃ w₁ ∈ workers, w₁.id = c'.workerId := by
      rcases hold c' hc' with rfl | ⟨c₁, hc₁, hid, -⟩
      · exact ⟨w, hw, howner.symm⟩
      · rw [hid]
        exact h.owned c₁ hc₁
    exact exists_mem_update _ hheld fun w₁ hid => hid
  · intro w' hw' hactive'
    obtain ⟨w₁, hw₁, hid, hst, ⟨hself, hser⟩ | ⟨hother, hser⟩⟩ := hworker w' hw'
    · exact ⟨c, (mem_of_insert hins).mpr (.inr rfl), howner.trans (hself.symm.trans hid.symm),
        hstate, hser⟩
    · obtain ⟨c₁, hc₁, hown, hcur, hs⟩ := h.active w₁ hw₁ (hst ▸ hactive')
      have hne : c₁.serial ≠ prior := fun hp =>
        hother (hown.symm.trans (hsuperseded c₁ hc₁ hp))
      exact ⟨c₁, hkept c₁ hc₁ hne, hown.trans hid.symm, hcur, hser.trans hs⟩
  · intro w' hw' c' hc' hown hcur
    obtain ⟨w₁, hw₁, hid, -, hser⟩ := hworker w' hw'
    rcases hold c' hc' with rfl | ⟨c₁, hc₁, hown₁, -, ⟨rfl, hne⟩ | ⟨-, hsup⟩⟩
    · rcases hser with ⟨-, hser⟩ | ⟨hother, -⟩
      · exact hser
      · exact absurd (hid.symm.trans (hown.symm.trans howner)) hother
    · have hcurrent := h.current w₁ hw₁ c' hc₁ (hown.trans hid) hcur
      rcases hser with ⟨hself, -⟩ | ⟨-, hser⟩
      · rw [identity_eq hw₁ hw hself, hprior, Option.some.injEq] at hcurrent
        exact absurd hcurrent.symm hne
      · exact hser.trans hcurrent
    · rw [hsup] at hcur
      cases hcur
  · intro w' hw' hrevoked c' hc' hown
    obtain ⟨w₁, hw₁, hid, hst, -⟩ := hworker w' hw'
    have hrev₁ : w₁.state = .revoked := hst ▸ hrevoked
    have hne : w₁.id ≠ w.id := by
      intro hself
      rw [identity_eq hw₁ hw hself, hactive] at hrev₁
      cases hrev₁
    rcases hold c' hc' with rfl | ⟨c₁, hc₁, hown₁, -, ⟨rfl, -⟩ | ⟨hp, -⟩⟩
    · exact absurd (hid.symm.trans (hown.symm.trans howner)) hne
    · exact h.revoked w₁ hw₁ hrev₁ c' hc₁ (hown.trans hid)
    · exact absurd (hid.symm.trans (hown.symm.trans (hown₁.trans (hsuperseded c₁ hc₁ hp)))) hne

/-- A worker is revoked with all its certificates. -/
theorem CertificatesKept.revoke (h : CertificatesKept workers certificates) {id : Uuid}
    {now : Instant} : CertificatesKept (workers.update (·.id = id) (fun w => { w with
          state := .revoked, revision := w.revision + 1, revokedAt := some now }) fun _ => rfl)
      (certificates.update (fun c => c.workerId = id ∧ c.state ≠ .revoked)
        (fun c => { c with state := .revoked, revokedAt := some now }) fun _ => rfl) := by
  have hworker : ∀ w' ∈ workers.update (·.id = id)
      (fun w => { w with
        state := .revoked, revision := w.revision + 1, revokedAt := some now }) fun _ => rfl,
      ∃ w ∈ workers, w'.id = w.id ∧ w'.currentCertificateSerial = w.currentCertificateSerial ∧
        (w.id ≠ id → w' = w) ∧ (w.id = id → w'.state = .revoked) := by
    intro w' hw'
    obtain ⟨w, hw, rfl⟩ := mem_update.mp hw'
    refine ⟨w, hw, ?_⟩
    by_cases hid : w.id = id <;> simp [hid]
  have hcertificate : ∀ c' ∈ certificates.update (fun c => c.workerId = id ∧ c.state ≠ .revoked)
      (fun c => { c with state := .revoked, revokedAt := some now }) fun _ => rfl,
      ∃ c ∈ certificates, c'.workerId = c.workerId ∧ (c.workerId ≠ id → c' = c) ∧
        (c.workerId = id → c'.state = .revoked) := by
    intro c' hc'
    obtain ⟨c, hc, rfl⟩ := mem_update.mp hc'
    refine ⟨c, hc, ?_⟩
    by_cases hid : c.workerId = id <;> by_cases hst : c.state = .revoked <;> simp [hid, hst]
  constructor
  · intro c' hc'
    obtain ⟨c, hc, hown, -⟩ := hcertificate c' hc'
    rw [hown]
    exact exists_mem_update _ (h.owned c hc) fun w hid => hid
  · intro w' hw' hactive
    obtain ⟨w, hw, -, -, hother, hself⟩ := hworker w' hw'
    have hne : w.id ≠ id := by
      intro hid
      rw [hself hid] at hactive
      cases hactive
    obtain rfl := hother hne
    obtain ⟨c, hc, hown, hrest⟩ := h.active w' hw hactive
    exact ⟨c, mem_update_of_not hc (by simp [hown, hne]), hown, hrest⟩
  · intro w' hw' c' hc' hown hcur
    obtain ⟨w, hw, hid, -, hother, -⟩ := hworker w' hw'
    obtain ⟨c, hc, hown₁, hsame, hrevoked⟩ := hcertificate c' hc'
    have hne : c.workerId ≠ id := by
      intro hself
      rw [hrevoked hself] at hcur
      cases hcur
    obtain rfl := hsame hne
    obtain rfl := hother fun hself => hne (hown.trans (hid.trans hself))
    exact h.current w' hw c' hc hown hcur
  · intro w' hw' hrevoked c' hc' hown
    obtain ⟨w, hw, hid, -, hother, -⟩ := hworker w' hw'
    obtain ⟨c, hc, hown₁, hsame, hself⟩ := hcertificate c' hc'
    by_cases hne : c.workerId = id
    · exact hself hne
    · obtain rfl := hsame hne
      obtain rfl := hother fun hself => hne (hown.trans (hid.trans hself))
      exact h.revoked w' hw hrevoked c' hc hown

end Certificates

/-! ## Aggregate revisions -/

section Revisions

variable {workers workers' : Table IdentityRow} {revisions revisions' : Table AggregateRevisionRow}

theorem RevisionsKept.enroll (h : RevisionsKept workers revisions) {w : IdentityRow}
    (hw : workers.insert w = some workers')
    (hr : revisions.insert ⟨"worker", w.id.text, w.revision⟩ = some revisions') :
    RevisionsKept workers' revisions' := by
  have hapart : ∀ w' ∈ workers, w'.id.text ≠ w.id.text := fun w' hw' htext =>
    not_clash_of_insert hr (h.kept w' hw') (by simp [clash, key, htext])
  constructor
  · intro w' hw'
    rw [mem_of_insert hr]
    rcases (mem_of_insert hw).mp hw' with hold | rfl
    · exact .inl (h.kept w' hold)
    · exact .inr rfl
  · intro w₁ hw₁ w₂ hw₂ htext
    rcases (mem_of_insert hw).mp hw₁ with hold₁ | rfl <;>
      rcases (mem_of_insert hw).mp hw₂ with hold₂ | rfl
    · exact h.apart w₁ hold₁ w₂ hold₂ htext
    · exact absurd htext (hapart w₁ hold₁)
    · exact absurd htext.symm (hapart w₂ hold₂)
    · rfl

/-- A worker and its aggregate move to the next revision together. -/
theorem RevisionsKept.move (h : RevisionsKept workers revisions) {w : IdentityRow}
    (hw : w ∈ workers) {f : IdentityRow → IdentityRow} (hf : ∀ w, key (f w) = key w)
    (hnext : (f w).revision = w.revision + 1) : RevisionsKept (workers.update (·.id = w.id) f hf)
      (revisions.update (AggregateRevisionRow.isOf "worker" w.id.text)
        (fun r => { r with revision := w.revision + 1 }) fun _ => rfl) := by
  have hid : ∀ w' ∈ workers, (f w').id = w'.id := fun w' _ => hf w'
  constructor
  · intro w' hw'
    obtain ⟨w₁, hw₁, rfl⟩ := mem_update.mp hw'
    by_cases hself : w₁.id = w.id
    · obtain rfl := identity_eq hw₁ hw hself
      simp only [decide_true, if_true, hid w₁ hw₁, hnext]
      exact mem_update_of (h.kept w₁ hw₁) (by simp [AggregateRevisionRow.isOf])
    · simp only [hself, decide_false]
      refine mem_update_of_not (h.kept w₁ hw₁) ?_
      simp only [AggregateRevisionRow.isOf, decide_eq_true_eq, not_and]
      exact fun _ htext => hself (h.apart w₁ hw₁ w hw htext)
  · intro w₁ hw₁ w₂ hw₂ htext
    obtain ⟨v₁, hv₁, rfl⟩ := mem_update.mp hw₁
    obtain ⟨v₂, hv₂, rfl⟩ := mem_update.mp hw₂
    have hkeep : ∀ v ∈ workers, (if decide (v.id = w.id) = true then f v else v).id = v.id := by
      intro v hv
      split
      · exact hid v hv
      · rfl
    rw [hkeep v₁ hv₁, hkeep v₂ hv₂] at htext ⊢
    exact h.apart v₁ hv₁ v₂ hv₂ htext

theorem RevisionsKept.revision? {s : Authority} (h : RevisionsKept s.workers s.revisions)
    {w : IdentityRow} (hw : w ∈ s.workers) : s.revision? w.id = some w.revision := by
  have hfind : s.revisions.find (AggregateRevisionRow.isOf "worker" w.id.text)
      = some ⟨"worker", w.id.text, w.revision⟩ := by
    refine (find_eq_some fun a b ha hb => ?_).mpr
      ⟨h.kept w hw, by simp [AggregateRevisionRow.isOf]⟩
    simp only [AggregateRevisionRow.isOf, decide_eq_true_eq] at ha hb
    simp [clash, key, ha, hb]
  rw [Authority.revision?, hfind]
  rfl

end Revisions

/-! ## Rotations -/

section Rotations

variable {certificates certificates' : Table CertificateRow}
  {rotations rotations' : Table CertificateRotationRow}

/-- Certificates that are not current may change, as long as they stay so. -/
theorem RotationsKept.mono (h : RotationsKept certificates rotations)
    (hkeep : ∀ c ∈ certificates, c.state ≠ .current →
      ∃ c' ∈ certificates', c'.serial = c.serial ∧ c'.state ≠ .current) :
    RotationsKept certificates' rotations where
  prior r hr := by
    obtain ⟨c, hc, hserial, hstate⟩ := h.prior r hr
    obtain ⟨c', hc', hserial', hstate'⟩ := hkeep c hc hstate
    exact ⟨c', hc', hserial'.trans hserial, hstate'⟩
  once := h.once

/-- A rotation supersedes a current certificate, which no other rotation superseded. -/
theorem RotationsKept.rotate (h : RotationsKept certificates rotations) {prior : CertificateRow}
    {c : CertificateRow} {r : CertificateRotationRow} {now : Instant} (hp : prior ∈ certificates)
    (hcurrent : prior.state = .current) (hc : (certificates.update (·.serial = prior.serial)
      (fun c => { c with state := .superseded, supersededAt := some now }) fun _ => rfl).insert c
        = some certificates')
    (hr : rotations.insert r = some rotations') (hprior : r.priorSerial = prior.serial) :
    RotationsKept certificates' rotations' := by
  have hkept : RotationsKept certificates' rotations := h.mono fun c₁ hc₁ hstate => by
    refine ⟨_, (mem_of_insert hc).mpr (.inl (mem_update.mpr ⟨c₁, hc₁, rfl⟩)), ?_⟩
    split <;> simp [hstate]
  have hfresh : ∀ r' ∈ rotations, r'.priorSerial ≠ prior.serial := by
    intro r' hr' hserial
    obtain ⟨c₁, hc₁, hs, hstate⟩ := h.prior r' hr'
    exact hstate (certificate_eq hc₁ hp (hs.trans hserial) ▸ hcurrent)
  constructor
  · intro r' hr'
    rcases (mem_of_insert hr).mp hr' with hold | rfl
    · exact hkept.prior r' hold
    · refine ⟨_, (mem_of_insert hc).mpr (.inl (mem_update_of hp (by simp))),
        hprior.symm, ?_⟩
      simp
  · intro r₁ hr₁ r₂ hr₂ hserial
    rcases (mem_of_insert hr).mp hr₁ with hold₁ | rfl <;>
      rcases (mem_of_insert hr).mp hr₂ with hold₂ | rfl
    · exact h.once r₁ hold₁ r₂ hold₂ hserial
    · exact absurd (hserial.trans hprior) (hfresh r₁ hold₁)
    · exact absurd (hserial.symm.trans hprior) (hfresh r₂ hold₂)
    · rfl

end Rotations

/-! ## The operations -/

namespace Authority

variable {s : Authority}

/-- Rewriting a worker keeps the identities of the workers. -/
theorem map_id_update {workers : Table IdentityRow} {p : IdentityRow → Bool}
    {f : IdentityRow → IdentityRow} (hf : ∀ w, key (f w) = key w) :
    (workers.update p f hf).rows.map (·.id) = workers.rows.map (·.id) := by
  simp only [Table.update, List.map_map]
  refine List.map_congr_left fun w _ => ?_
  by_cases hp : p w = true
  · simp only [Function.comp_apply, hp, if_true]
    exact hf w
  · simp [hp]

theorem moveRevision_ok {s' : Authority} {workerId : Uuid} {expected next : Nat}
    (h : s.moveRevision workerId expected next = .ok s') : s' = { s with
      revisions := s.revisions.update (AggregateRevisionRow.isOf "worker" workerId.text)
        (fun r => { r with revision := next }) fun _ => rfl } := by
  obtain ⟨_, -, hs'⟩ := bind_eq_ok.mp h
  exact (pure_eq_ok.mp hs').symm

theorem createEnrollmentToken_kept (h : s.Kept) (tokenId : Uuid) (tokenDigest actorId : String)
    (expiresAt now : Instant) :
    Leaves Kept (s.createEnrollmentToken tokenId tokenDigest actorId expiresAt now) := by
  refine .skip fun _ => .skip fun _ => .skip fun _ => .after fun tokens htokens => .done ?_
  exact { h with tokens := h.tokens.insert (require_eq_ok.mp htokens) rfl }

theorem revokeEnrollmentToken_kept (h : s.Kept) (tokenId : Uuid) (now : Instant) :
    Leaves Kept (s.revokeEnrollmentToken tokenId now) := by
  refine .after fun token htoken => .after fun _ hconsumed => .branch (fun _ => .done h) fun _ =>
    .done ?_
  have hfind := require_eq_ok.mp htoken
  have hid : token.id = tokenId := by simpa using of_find hfind
  refine { h with
    tokens := h.tokens.update (fun _ => by rfl) (fun t ht heq => ?_)
      fun t _ _ hne => absurd rfl hne }
  rw [token_eq ht (mem_of_find hfind) (heq.trans hid.symm)]
  exact refuseIf_eq_ok.mp hconsumed

theorem enroll_kept (h : s.Kept) (tokenDigest : String) (workerId : Uuid) (displayName : String)
    (certificate : SignedWorkerCertificate) (now : Instant) :
    Leaves Kept (s.enroll tokenDigest workerId displayName certificate now) := by
  refine .after fun token htoken => .after fun _ hactive => ?_
  have hmem := mem_of_find (require_eq_ok.mp htoken)
  have hstate : token.state = .active := not_not.mp (refuseIf_eq_ok.mp hactive)
  refine .branch (fun _ => .done ?_) fun hexpiry => .skip fun _ => .after fun workers hworkers =>
    .after fun revisions hrevisions => .after fun certificates hcertificates => .done ?_
  · have hsame : ∀ t ∈ s.tokens, t.id = token.id → t.state = .active := fun t ht hid =>
      token_eq ht hmem hid ▸ hstate
    refine { h with
      tokens := h.tokens.update (fun _ => by rfl) (fun t ht hid => ?_)
        fun t ht hid _ => h.tokens.unrevoked t ht ?_ }
    · rw [hsame t ht hid]
      decide
    · rw [hsame t ht hid]
      decide
  · have hworkers := require_eq_ok.mp hworkers
    exact {
      tokens := h.tokens.consume hmem hstate (not_le.mp hexpiry)
      workers := by
        rw [(insert_eq_some.mp hworkers).1]
        simp [updateTokens, h.workers]
      certificates := h.certificates.enroll hworkers (require_eq_ok.mp hcertificates) rfl rfl rfl
        rfl
      revisions := h.revisions.enroll hworkers (require_eq_ok.mp hrevisions)
      rotations := h.rotations.mono fun c hc hne =>
        ⟨c, (mem_of_insert (require_eq_ok.mp hcertificates)).mpr (.inl hc), rfl, hne⟩ }

theorem rotate_kept (h : s.Kept) (rotationId workerId : Uuid)
    (currentSerial requestFingerprint : String) (certificate : SignedWorkerCertificate)
    (now : Instant) : Leaves Kept
      (s.rotate rotationId workerId currentSerial requestFingerprint certificate now) := by
  refine .after fun worker hworker => ?_
  obtain ⟨hfind, hactive⟩ := Option.filter_eq_some_iff.mp (require_eq_ok.mp hworker)
  obtain ⟨hw, rfl⟩ := mem_of_worker? hfind
  cases s.rotation? rotationId with
  | some existing => exact .skip fun _ => .skip fun _ => .done h
  | none =>
    refine .after fun _ hcurrent => .after fun prior hprior =>
      .after fun certificates hcertificates => .after fun rotations hrotations =>
      .after fun s' hs' => .done ?_
    obtain ⟨hfind', hstate⟩ := Option.filter_eq_some_iff.mp (require_eq_ok.mp hprior)
    obtain ⟨hp, rfl⟩ := mem_of_certificate? hfind'
    have hserial := not_not.mp (refuseIf_eq_ok.mp hcurrent)
    obtain rfl := moveRevision_ok hs'
    exact {
      tokens := h.tokens
      workers := h.workers.trans (map_id_update fun _ => by rfl).symm
      certificates := h.certificates.rotate hw (of_decide_eq_true hactive) hserial
        (require_eq_ok.mp hcertificates) rfl rfl
      revisions := h.revisions.move hw (fun _ => by rfl) rfl
      rotations := h.rotations.rotate hp (of_decide_eq_true hstate)
        (require_eq_ok.mp hcertificates) (require_eq_ok.mp hrotations) rfl }

theorem revokeWorker_kept (h : s.Kept) (workerId : Uuid) (expectedRevision : Nat)
    (now : Instant) : Leaves Kept (s.revokeWorker workerId expectedRevision now) := by
  intro identity s' hs'
  obtain ⟨⟨identity₁, s₁⟩, hin, hrest⟩ := bind_eq_ok.mp hs'
  obtain ⟨worker, hworker, hin⟩ := bind_eq_ok.mp hin
  obtain ⟨_, hrevision, hin⟩ := bind_eq_ok.mp hin
  obtain ⟨hw, rfl⟩ := mem_of_worker? (require_eq_ok.mp hworker)
  have hexpected := not_not.mp (refuseIf_eq_ok.mp hrevision)
  by_cases hstate : worker.state = .revoked
  · -- the worker was revoked before: nothing moves
    rw [if_pos hstate, return_eq_ok] at hin
    obtain ⟨rfl, rfl⟩ := hin
    dsimp only at hrest
    rw [if_pos ⟨hstate, hexpected⟩, return_eq_ok] at hrest
    exact hrest.2 ▸ h
  · rw [if_neg hstate, return_eq_ok] at hin
    obtain ⟨rfl, rfl⟩ := hin
    dsimp only at hrest
    rw [if_neg (by simp [← hexpected])] at hrest
    obtain ⟨s₂, hs₂, hrest⟩ := bind_eq_ok.mp hrest
    obtain rfl := (Prod.mk.inj (pure_eq_ok.mp hrest)).2
    obtain rfl := moveRevision_ok hs₂
    exact {
      tokens := h.tokens
      workers := h.workers.trans (map_id_update fun _ => by rfl).symm
      certificates := h.certificates.revoke
      revisions := h.revisions.move hw (fun _ => by rfl) rfl
      rotations := h.rotations.mono fun c hc hne =>
        exists_mem_update (fun _ => by rfl) ⟨c, hc, rfl, hne⟩ fun c₁ h₁ => ⟨h₁.1, by simp⟩ }

theorem step_kept (h : s.Kept) (op : AuthorityOp) : (s.step op).Kept := by
  cases op with
  | createToken => exact Leaves.commit (createEnrollmentToken_kept h _ _ _ _ _) h
  | revokeToken => exact Leaves.commit (revokeEnrollmentToken_kept h _ _) h
  | enroll => exact Leaves.commit (enroll_kept h _ _ _ _ _) h
  | rotate => exact Leaves.commit (rotate_kept h _ _ _ _ _ _) h
  | revokeWorker => exact Leaves.commit (revokeWorker_kept h _ _ _) h

theorem run_kept (ops : List AuthorityOp) : (run step {} ops).Kept :=
  run_induction (I := Kept) (fun _ op h => step_kept h op) .empty ops

end Authority

/-! ## The authority -/

/-- What is asked of the certificate authority in every state. -/
structure Authority.Accountable (s : Authority) : Prop where
  /-- An active worker has one current certificate, the one its identity names. -/
  active : ∀ w ∈ s.workers, w.state = .active → ∃ c,
    s.certificates.select (fun c => c.workerId = w.id ∧ c.state = .current) = [c] ∧
      w.currentCertificateSerial = some c.serial
  /-- Every certificate of a revoked worker is revoked. -/
  revoked : ∀ w ∈ s.workers, w.state = .revoked → ∀ c ∈ s.certificates, c.workerId = w.id →
    c.state = .revoked
  /-- Every worker was enrolled, each by a token of its own. -/
  enrollments : s.enrollments.map (·.workerId) = s.workers.rows.map (·.id) ∧
    (s.enrollments.map (·.tokenId)).Nodup
  /-- A token that enrolled was neither expired nor revoked, and never is revoked after. -/
  tokens : ∀ e ∈ s.enrollments, ∃ t, s.token? e.tokenId = some t ∧
    t.workerId = some e.workerId ∧ e.at_ < t.expiresAt ∧ t.state = .consumed ∧ t.revokedAt = none
  /-- The aggregate revision of a worker is the revision of its identity. -/
  revisions : ∀ w ∈ s.workers, s.revision? w.id = some w.revision
  /-- A superseded certificate is authenticated for the rotation that superseded it, and only while
  the certificate that rotation signed is current. -/
  rotations : ∀ workerId serial fingerprint rotationId now w c,
    s.authenticateRotation workerId serial fingerprint rotationId now = .ok w →
    s.certificate? serial = some c → c.state = .superseded →
    ∃ r, s.rotation? rotationId = some r ∧ r.workerId = workerId ∧ r.priorSerial = serial ∧
      (∀ r' ∈ s.rotations, r'.priorSerial = serial → r' = r) ∧
      ∃ c', s.certificate? r.certificateSerial = some c' ∧ c'.workerId = workerId ∧
        c'.state = .current

/-- What a superseded certificate needs to be authenticated. -/
theorem Authority.authenticateRotation_superseded {s : Authority} {workerId : Uuid}
    {serial fingerprint : String} {rotationId : Uuid} {now : Instant} {w : IdentityRow}
    {c : CertificateRow}
    (h : s.authenticateRotation workerId serial fingerprint rotationId now = .ok w)
    (hc : s.certificate? serial = some c) (hstate : c.state = .superseded) :
    s.worker? workerId = some w ∧ w.state = .active ∧
      ∃ r, s.rotation? rotationId = some r ∧ r.workerId = workerId ∧ r.priorSerial = serial ∧
        w.currentCertificateSerial = some r.certificateSerial := by
  obtain ⟨worker, hworker, h⟩ := bind_eq_ok.mp h
  obtain ⟨certificate, hcertificate, h⟩ := bind_eq_ok.mp h
  obtain ⟨hfind, hactive⟩ := Option.filter_eq_some_iff.mp (require_eq_ok.mp hworker)
  obtain rfl : c = certificate := by
    rw [require_eq_ok, hc, Option.some.injEq] at hcertificate
    exact hcertificate
  replace h := of_bind h
  rw [if_neg (by simp [hstate])] at h
  replace h := of_bind h
  obtain ⟨rotation, hrotation, h⟩ := bind_eq_ok.mp h
  obtain ⟨_, hguard, h⟩ := bind_eq_ok.mp h
  obtain rfl := pure_eq_ok.mp h
  have hrest := refuseIf_eq_ok.mp hguard
  simp only [not_or, not_not] at hrest
  exact ⟨hfind, of_decide_eq_true hactive, rotation, require_eq_ok.mp hrotation, hrest.1,
    hrest.2.1, hrest.2.2.symm⟩

theorem Authority.Kept.accountable {s : Authority} (h : s.Kept) : s.Accountable where
  active w hw hactive := by
    obtain ⟨c, hc, hown, hcur, hserial⟩ := h.certificates.active w hw hactive
    refine ⟨c, select_eq_singleton hc (by simp [hown, hcur]) fun c' hc' hp => ?_, hserial⟩
    obtain ⟨hown', hcur'⟩ := of_decide_eq_true hp
    have hserial' := h.certificates.current w hw c' hc' hown' hcur'
    rw [hserial, Option.some.injEq] at hserial'
    simp [clash, key, hserial']
  revoked := h.certificates.revoked
  enrollments := ⟨h.workers, h.tokens.once⟩
  tokens e he := by
    obtain ⟨t, ht, hid, hstate, hworker, hlive⟩ := h.tokens.enrolled e he
    refine ⟨t, ?_, hworker, hlive, hstate, h.tokens.unrevoked t ht (by simp [hstate])⟩
    refine (find_eq_some fun a b ha hb => ?_).mpr ⟨ht, by simpa using hid⟩
    simp only [decide_eq_true_eq] at ha hb
    simp [clash, key, ha, hb]
  revisions _ := h.revisions.revision?
  rotations workerId serial fingerprint rotationId now w c hok hc hstate := by
    obtain ⟨hfind, hactive, r, hr, hworker, hprior, hcurrent⟩ :=
      authenticateRotation_superseded hok hc hstate
    obtain ⟨hw, rfl⟩ := mem_of_worker? hfind
    obtain ⟨c', hc', hown', hcur', hserial'⟩ := h.certificates.active w hw hactive
    have hnew : r.certificateSerial = c'.serial := Option.some.inj (hcurrent.symm.trans hserial')
    refine ⟨r, hr, hworker, hprior, fun r' hr' hp => ?_, c', ?_, hown', hcur'⟩
    · exact h.rotations.once r' hr' r (mem_of_rotation? hr).1 (hp.trans hprior.symm)
    · rw [hnew]
      exact certificate?_eq_some hc'

/-- **The certificate authority is accountable in every state it reaches.** -/
theorem authority_accountable (ops : List AuthorityOp) :
    (run Authority.step {} ops).Accountable := (Authority.run_kept ops).accountable

end Mishkan.Certificates
