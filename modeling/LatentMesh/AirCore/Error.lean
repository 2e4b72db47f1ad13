import LatentMesh.Lib.Guards

/-!
# Air errors

The error type of `latentmesh-air-core` and the `Result` that every fallible operation of the
Rust crates returns.
-/

namespace LatentMesh.AirCore

/-- Errors that are coarse enough to expose over an untrusted link. -/
inductive AirError where
  | invalidMarker
  | unsupportedVersion
  | invalidProfile
  | invalidClass
  | invalidFlags
  | invalidLength
  | limitExceeded
  | truncated
  | trailingBytes
  | crcMismatch
  | invalidFragment
  | fragmentConflict
  | reassemblyFull
  | replay
  | tooOld
  | invalidSemanticValue
  | baseStateMismatch
  | resultStateMismatch
  | authenticationRequired
  | authenticationFailed
  | invalidFec
  | decodeFailed
  deriving DecidableEq, Repr

/-- The result of a fallible operation. -/
abbrev Result (α : Type) := Except AirError α

end LatentMesh.AirCore
