import Mishkan.Persistence.Application

/-!
# Workers/Certificates — enrollment tokens, worker identities and their certificates

The repository of `workers/repository.py`: a token enrolls a worker with its first certificate, a
rotation supersedes the current certificate by a new one, and a revocation revokes the worker with
all its certificates.  The state is spread over the rows of five tables; each operation is one
transaction, and `enroll` commits the expiry of a token before it refuses.

`enrollments` records every enrollment.  Nothing reads it but the properties.
-/

namespace Mishkan.Certificates

open Refusal Transition

/-! ## Rows -/

inductive EnrollmentState where
  | active | consumed | revoked | expired
deriving DecidableEq

def EnrollmentState.value : EnrollmentState → String
  | .active => "active"
  | .consumed => "consumed"
  | .revoked => "revoked"
  | .expired => "expired"

inductive CertificateState where
  | current | superseded | revoked
deriving DecidableEq

structure EnrollmentTokenRow where
  id : Uuid
  tokenDigest : String
  state : EnrollmentState := .active
  createdBy : String
  workerId : Option Uuid := none
  expiresAt : Instant
  consumedAt : Option Instant := none
  revokedAt : Option Instant := none
deriving DecidableEq

instance : Keyed EnrollmentTokenRow := .ofKeys fun t => (t.id, t.tokenDigest)

structure IdentityRow where
  id : Uuid
  displayName : String
  state : WorkerState := .active
  currentCertificateSerial : Option String
  revision : Nat := 1
  revokedAt : Option Instant := none
deriving DecidableEq

instance : Keyed IdentityRow := .ofKey IdentityRow.id

structure CertificateRow where
  serial : String
  workerId : Uuid
  state : CertificateState := .current
  fingerprint : String
  notBefore : Instant
  notAfter : Instant
  supersededAt : Option Instant := none
  revokedAt : Option Instant := none
deriving DecidableEq

instance : Keyed CertificateRow := .ofKeys fun c => (c.serial, c.fingerprint)

structure CertificateRotationRow where
  id : Uuid
  workerId : Uuid
  priorSerial : String
  certificateSerial : String
  requestFingerprint : String
  certificatePem : String
  certificateAuthorityPem : String
deriving DecidableEq

instance : Keyed CertificateRotationRow := .ofKeys fun r => (r.id, r.certificateSerial)

/-- A certificate as the authority signs it. -/
structure SignedWorkerCertificate where
  certificatePem : String
  certificateAuthorityPem : String
  serial : String
  fingerprintSha256 : String
  notBefore : Instant
  notAfter : Instant
deriving DecidableEq

/-- The row of a signed certificate. -/
def SignedWorkerCertificate.row (certificate : SignedWorkerCertificate) (workerId : Uuid) :
    CertificateRow where
  serial := certificate.serial
  workerId := workerId
  fingerprint := certificate.fingerprintSha256
  notBefore := certificate.notBefore
  notAfter := certificate.notAfter

/-- A token enrolled a worker at an instant. -/
structure Enrollment where
  tokenId : Uuid
  workerId : Uuid
  at_ : Instant
deriving DecidableEq

structure Authority where
  tokens : Table EnrollmentTokenRow := ∅
  workers : Table IdentityRow := ∅
  certificates : Table CertificateRow := ∅
  rotations : Table CertificateRotationRow := ∅
  revisions : Table AggregateRevisionRow := ∅
  enrollments : List Enrollment := []

namespace Authority

variable (s : Authority)

/-! ## Lookups -/

def token? (id : Uuid) : Option EnrollmentTokenRow := s.tokens.find (·.id = id)

def worker? (id : Uuid) : Option IdentityRow := s.workers.find (·.id = id)

def certificate? (serial : String) : Option CertificateRow :=
  s.certificates.find (·.serial = serial)

def rotation? (id : Uuid) : Option CertificateRotationRow := s.rotations.find (·.id = id)

/-- The aggregate revision of a worker. -/
def revision? (workerId : Uuid) : Option Nat :=
  (s.revisions.find (AggregateRevisionRow.isOf "worker" workerId.text)).map (·.revision)

/-! ## Updates -/

def updateTokens (id : Uuid) (f : EnrollmentTokenRow → EnrollmentTokenRow)
    (hf : ∀ t, Keyed.key (f t) = Keyed.key t) : Authority :=
  { s with tokens := s.tokens.update (·.id = id) f hf }

def updateWorker (id : Uuid) (f : IdentityRow → IdentityRow)
    (hf : ∀ w, Keyed.key (f w) = Keyed.key w) : Authority :=
  { s with workers := s.workers.update (·.id = id) f hf }

def updateCertificates (p : CertificateRow → Bool) (f : CertificateRow → CertificateRow)
    (hf : ∀ c, Keyed.key (f c) = Keyed.key c) : Authority :=
  { s with certificates := s.certificates.update p f hf }

/-- Move the aggregate revision of a worker, if it stands where it is expected. -/
def moveRevision (workerId : Uuid) (expected next : Nat) : Except Raised Authority := do
  refuseIf (s.revision? workerId ≠ some expected)
    (fault .worker "worker aggregate revision is inconsistent")
  return { s with
    revisions := s.revisions.update (AggregateRevisionRow.isOf "worker" workerId.text)
      (fun r => { r with revision := next }) (AggregateRevisionRow.key_setRevision next) }

/-! ## Tokens -/

/-- A token digest is a lower-case SHA-256 text. -/
def isDigest (digest : String) : Bool :=
  digest.length = 64 ∧ digest.toList.all (· ∈ "0123456789abcdef".toList)

def createEnrollmentToken (tokenId : Uuid) (tokenDigest actorId : String)
    (expiresAt now : Instant) : Except Raised (Unit × Authority) := do
  refuseIf (expiresAt ≤ now) (fault .worker "worker enrollment token expiry is invalid")
  refuseIf (¬ isDigest tokenDigest) (fault .worker "worker enrollment token digest is invalid")
  refuseIf (s.token? tokenId).isSome (fault .worker "worker enrollment token already exists")
  let tokens ← require
    (s.tokens.insert
      { id := tokenId, tokenDigest := tokenDigest, createdBy := actorId, expiresAt := expiresAt })
    (fault .worker "worker enrollment token identity or digest already exists")
  return ((), { s with tokens := tokens })

def revokeEnrollmentToken (tokenId : Uuid) (now : Instant) :
    Except Raised (Unit × Authority) := do
  let token ← require (s.token? tokenId)
    (fault .worker "worker enrollment token does not exist")
  refuseIf (token.state = .consumed)
    (fault .worker "consumed enrollment token cannot be revoked")
  if token.state = .revoked then return ((), s)
  else return ((), s.updateTokens tokenId
    (fun t => { t with state := .revoked, revokedAt := some now }) fun _ => rfl)

/-! ## Enrollment -/

/-- Enroll a worker by a token.  A token that has expired is marked so, and that is committed with
the refusal. -/
def enroll (tokenDigest : String) (workerId : Uuid) (displayName : String)
    (certificate : SignedWorkerCertificate) (now : Instant) :
    Except Raised (Except Raised IdentityRow × Authority) := do
  let token ← require (s.tokens.find (·.tokenDigest = tokenDigest))
    (fault .worker "worker enrollment token is invalid")
  refuseIf (token.state ≠ .active) (fault .worker "worker enrollment token is not active"
    [("state", .str token.state.value)])
  if token.expiresAt ≤ now then
    return (.error (fault .worker "worker enrollment token has expired"),
      s.updateTokens token.id (fun t => { t with state := .expired }) fun _ => rfl)
  else
    refuseIf (s.worker? workerId).isSome (fault .worker "worker identity already exists")
    let worker : IdentityRow :=
      { id := workerId
        displayName := displayName
        currentCertificateSerial := some certificate.serial }
    let workers ← require (s.workers.insert worker) .integrityError
    let revisions ← require (s.revisions.insert ⟨"worker", workerId.text, 1⟩) .integrityError
    let certificates ← require (s.certificates.insert (certificate.row workerId)) .integrityError
    let s := s.updateTokens token.id
      (fun t => { t with state := .consumed, workerId := some workerId, consumedAt := some now })
      fun _ => rfl
    return (.ok worker, { s with
      workers := workers
      revisions := revisions
      certificates := certificates
      enrollments := s.enrollments ++ [⟨token.id, workerId, now⟩] })

/-! ## Rotation -/

/-- The certificate a rotation signed. -/
def signedRotation (rotation : CertificateRotationRow) :
    Except Raised SignedWorkerCertificate := do
  let certificate ← require (s.certificate? rotation.certificateSerial)
    (fault .worker "worker rotation certificate is missing")
  return {
    certificatePem := rotation.certificatePem
    certificateAuthorityPem := rotation.certificateAuthorityPem
    serial := certificate.serial
    fingerprintSha256 := certificate.fingerprint
    notBefore := certificate.notBefore
    notAfter := certificate.notAfter }

/-- Replace the current certificate; a rotation that was made is replayed. -/
def rotate (rotationId workerId : Uuid) (currentSerial requestFingerprint : String)
    (certificate : SignedWorkerCertificate) (now : Instant) :
    Except Raised (SignedWorkerCertificate × Authority) := do
  let worker ← require ((s.worker? workerId).filter (·.state = .active))
    (fault .worker "worker identity is not active")
  match s.rotation? rotationId with
  | some existing =>
    refuseIf (existing.workerId ≠ workerId ∨ existing.priorSerial ≠ currentSerial ∨
        existing.requestFingerprint ≠ requestFingerprint)
      (fault .duplicateResult "worker rotation identity was reused for different content")
    let signed ← s.signedRotation existing
    return (signed, s)
  | none =>
    refuseIf (worker.currentCertificateSerial ≠ some currentSerial)
      (fault .worker "worker certificate is no longer current")
    let _ ← require ((s.certificate? currentSerial).filter (·.state = .current))
      (fault .worker "worker certificate state is inconsistent")
    let s := s.updateCertificates (·.serial = currentSerial)
      (fun c => { c with state := .superseded, supersededAt := some now }) fun _ => rfl
    let certificates ← require (s.certificates.insert (certificate.row workerId)) .integrityError
    let rotations ← require
      (s.rotations.insert
        { id := rotationId
          workerId := workerId
          priorSerial := currentSerial
          certificateSerial := certificate.serial
          requestFingerprint := requestFingerprint
          certificatePem := certificate.certificatePem
          certificateAuthorityPem := certificate.certificateAuthorityPem })
      .integrityError
    let s := { s with certificates := certificates, rotations := rotations }
    let s := s.updateWorker workerId (fun w => { w with
      currentCertificateSerial := some certificate.serial, revision := w.revision + 1 })
      fun _ => rfl
    let s ← s.moveRevision workerId worker.revision (worker.revision + 1)
    return (certificate, s)

/-- Allow a current certificate, or the exact prior certificate of one rotation to replay it. -/
def authenticateRotation (workerId : Uuid) (serial fingerprint : String) (rotationId : Uuid)
    (now : Instant) : Except Raised IdentityRow := do
  let inactive := fault .worker "worker certificate is not active"
  let worker ← require ((s.worker? workerId).filter (·.state = .active)) inactive
  let certificate ← require (s.certificate? serial) inactive
  refuseIf (certificate.workerId ≠ workerId ∨ certificate.fingerprint ≠ fingerprint ∨
    now < certificate.notBefore ∨ certificate.notAfter ≤ now) inactive
  if worker.currentCertificateSerial = some serial ∧ certificate.state = .current then
    return worker
  else
    let unauthorized := fault .worker "worker rotation certificate is not authorized"
    refuseIf (certificate.state ≠ .superseded) unauthorized
    let rotation ← require (s.rotation? rotationId) unauthorized
    refuseIf (rotation.workerId ≠ workerId ∨ rotation.priorSerial ≠ serial ∨
      some rotation.certificateSerial ≠ worker.currentCertificateSerial) unauthorized
    return worker

/-! ## Revocation -/

/-- Revoke a worker and its certificates; the aggregate revision is left to the caller. -/
def revokeWorkerInSession (workerId : Uuid) (expectedRevision : Nat) (now : Instant) :
    Except Raised (IdentityRow × Authority) := do
  let worker ← require (s.worker? workerId) (fault .worker "worker identity does not exist")
  refuseIf (worker.revision ≠ expectedRevision)
    (fault .revisionMismatch "worker identity revision changed"
      [("expected", .int expectedRevision), ("current", .int worker.revision)])
  if worker.state = .revoked then return (worker, s)
  else
    let f := fun w : IdentityRow =>
      { w with state := .revoked, revision := w.revision + 1, revokedAt := some now }
    let s := s.updateWorker workerId f fun _ => rfl
    let s := s.updateCertificates (fun c => c.workerId = workerId ∧ c.state ≠ .revoked)
      (fun c => { c with state := .revoked, revokedAt := some now }) fun _ => rfl
    return (f worker, s)

def revokeWorker (workerId : Uuid) (expectedRevision : Nat) (now : Instant) :
    Except Raised (IdentityRow × Authority) := do
  let (identity, s) ← s.revokeWorkerInSession workerId expectedRevision now
  if identity.state = .revoked ∧ identity.revision = expectedRevision then return (identity, s)
  else
    let s ← s.moveRevision workerId expectedRevision identity.revision
    return (identity, s)

end Authority

/-! ## The system -/

inductive AuthorityOp where
  | createToken (tokenId : Uuid) (tokenDigest actorId : String) (expiresAt now : Instant)
  | revokeToken (tokenId : Uuid) (now : Instant)
  | enroll (tokenDigest : String) (workerId : Uuid) (displayName : String)
      (certificate : SignedWorkerCertificate) (now : Instant)
  | rotate (rotationId workerId : Uuid) (currentSerial requestFingerprint : String)
      (certificate : SignedWorkerCertificate) (now : Instant)
  | revokeWorker (workerId : Uuid) (expectedRevision : Nat) (now : Instant)

/-- One transaction, committed or rolled back. -/
def Authority.step (s : Authority) : AuthorityOp → Authority
  | .createToken tokenId tokenDigest actorId expiresAt now =>
    commit s (s.createEnrollmentToken tokenId tokenDigest actorId expiresAt now)
  | .revokeToken tokenId now => commit s (s.revokeEnrollmentToken tokenId now)
  | .enroll tokenDigest workerId displayName certificate now =>
    commit s (s.enroll tokenDigest workerId displayName certificate now)
  | .rotate rotationId workerId currentSerial requestFingerprint certificate now =>
    commit s (s.rotate rotationId workerId currentSerial requestFingerprint certificate now)
  | .revokeWorker workerId expectedRevision now =>
    commit s (s.revokeWorker workerId expectedRevision now)

end Mishkan.Certificates
