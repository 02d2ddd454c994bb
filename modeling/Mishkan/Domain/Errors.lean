import Mishkan.Foundations.Json

/-!
# Domain/Errors — identities, instants, digests and the failure contract

Record identifiers are UUIDs; instants are counted in microseconds.  A SHA-256 digest of a canonical
serialization is read collision-free, as the value it was taken of (`Digest`).

`Raised` is everything a modelled function may end in besides a result: the typed `MishkanError`,
and the exceptions of the language and the database layer that are not one.
-/

namespace Mishkan

/-- A UUID, as its 128-bit number. -/
abbrev Uuid := Nat

/-- The canonical text of a UUID: 32 hexadecimal digits in groups of 8, 4, 4, 4 and 12. -/
def Uuid.text (id : Uuid) : String :=
  let digits := Nat.toDigits 16 id
  let padded := List.replicate (32 - digits.length) '0' ++ digits
  let group := fun start size => String.ofList ((padded.drop start).take size)
  group 0 8 ++ "-" ++ group 8 4 ++ "-" ++ group 12 4 ++ "-" ++ group 16 4 ++ "-" ++ group 20 12

/-- An instant, in microseconds. -/
abbrev Instant := Nat

/-- One second. -/
def second : Instant := 1000000

/-- The SHA-256 of a canonical serialization, read collision-free. -/
structure Digest (α : Type) where
  of : α
deriving DecidableEq

/-- Stable machine-readable failure codes. -/
inductive ErrorCode where
  | configuration | project | plan | authorizationMissing | decisionInsufficient
  | decisionValidation | authorityNotGranted | policyConflict | roleConflict | outputContract
  | revisionMismatch | runInterrupted | duplicateResult | optionalDependency | requiredDependency
  | secretContent | skillContract | skillTrust | skillSelection | toolContract | toolUnavailable
  | toolSchema | toolEffect | toolDrift | context | mission | file | edit | execution | web
  | browser | artifact | mcp | engineering | schedule | worker | version
deriving DecidableEq

def ErrorCode.value : ErrorCode → String
  | .configuration => "ERR-CFG-001"
  | .project => "ERR-PRJ-001"
  | .plan => "ERR-PLN-001"
  | .authorizationMissing => "ERR-PLN-002"
  | .decisionInsufficient => "ERR-DEC-001"
  | .decisionValidation => "ERR-DEC-002"
  | .authorityNotGranted => "ERR-POL-001"
  | .policyConflict => "ERR-POL-002"
  | .roleConflict => "ERR-ROL-001"
  | .outputContract => "ERR-OUT-001"
  | .revisionMismatch => "ERR-REV-001"
  | .runInterrupted => "ERR-RUN-001"
  | .duplicateResult => "ERR-RUN-002"
  | .optionalDependency => "ERR-DEP-001"
  | .requiredDependency => "ERR-DEP-002"
  | .secretContent => "ERR-SEC-001"
  | .skillContract => "ERR-SKL-001"
  | .skillTrust => "ERR-SKL-002"
  | .skillSelection => "ERR-SKL-003"
  | .toolContract => "ERR-TOL-001"
  | .toolUnavailable => "ERR-TOL-002"
  | .toolSchema => "ERR-TOL-003"
  | .toolEffect => "ERR-TOL-004"
  | .toolDrift => "ERR-TOL-005"
  | .context => "ERR-CTX-001"
  | .mission => "ERR-MSN-001"
  | .file => "ERR-FIL-001"
  | .edit => "ERR-EDT-001"
  | .execution => "ERR-EXE-001"
  | .web => "ERR-WEB-001"
  | .browser => "ERR-BRW-001"
  | .artifact => "ERR-ART-001"
  | .mcp => "ERR-MCP-001"
  | .engineering => "ERR-ENG-001"
  | .schedule => "ERR-SCH-001"
  | .worker => "ERR-WRK-001"
  | .version => "ERR-VER-001"

/-- The stable error envelope an expected failure carries. -/
structure MishkanError where
  code : ErrorCode
  message : String
  details : JsonObject := []
deriving DecidableEq

/-- How a function that does not return ends. -/
inductive Raised where
  /-- The expected failure every interface can report. -/
  | mishkan (error : MishkanError)
  /-- A unique constraint of the database is hit. -/
  | integrityError
  /-- A mapping has no such key. -/
  | keyError (key : String)
  /-- A value is rejected by the language or by a validated model. -/
  | valueError (message : String)
  /-- A timeout raised while a capability runs. -/
  | timeoutError
  /-- An operating-system failure. -/
  | osError
deriving DecidableEq

/-- Fail with a typed error. -/
def fault (code : ErrorCode) (message : String) (details : JsonObject := []) : Raised :=
  .mishkan ⟨code, message, details⟩

/-- The typed error a failure is, if it is one. -/
def Raised.envelope? : Raised → Option MishkanError
  | .mishkan error => some error
  | _ => none

end Mishkan
