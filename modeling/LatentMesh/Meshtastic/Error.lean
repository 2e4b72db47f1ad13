import LatentMesh.AirCore.Error

/-!
# Meshtastic errors

The error type of `latentmesh-meshtastic`, which carries the errors of the air core.
-/

namespace LatentMesh.Meshtastic

open LatentMesh.AirCore (AirError)

/-- The errors of the adapter. -/
inductive Error where
  | air (error : AirError)
  | truncated
  | invalidLength
  | invalidWireType
  | noPacket
  | noDecodedData
  | frameTooLarge
  | frameCorrupt
  deriving DecidableEq, Repr

/-- The result of a fallible operation of the Meshtastic crate. -/
abbrev Result (α : Type) := Except Error α

variable {α : Type}

/-- `From<AirError>`: what `?` makes of a result of the air core. -/
def fromAir (result : AirCore.Result α) : Result α :=
  result.mapError .air

/-- Wrapping an error keeps success. -/
theorem from_air_eq_ok_iff {result : AirCore.Result α} {value : α} :
    fromAir result = .ok value ↔ result = .ok value := by
  cases result <;> simp [fromAir, Except.mapError]

end LatentMesh.Meshtastic
