import LatentMesh.Lib.Guards

/-!
# Errors of the latent stream

`StreamError` of `latentmesh-stream`.
-/

namespace LatentMesh.Stream

/-- The errors of a stream. -/
inductive StreamError where
  | frameTooLarge (declared max : Nat)
  | malformed (why : String)
  | rejected (reason : String)
  | duplicateSequence (sequence : UInt64)
  | regressedSequence (got watermark : UInt64)
  | transport (why : String)
  deriving DecidableEq, Repr

/-- A result of the stream. -/
abbrev Result := Except StreamError

end LatentMesh.Stream
