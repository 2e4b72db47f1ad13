import Mathlib.Data.List.Basic

/-!
# Constants and statuses of the C core

The definitions of `common.h`. A C function that returns a status and writes out-parameters is
modelled by a function that returns the status together with the values it writes. Pointers are
modelled by the values they point to, so the `NULL` checks have no counterpart here.
-/

namespace LatentMesh.AirC

/-- `LM_AIR_VERSION`. -/
def lmAirVersion : UInt8 := 1

/-- `LM_AIR_MAX_WIRE_BYTES`. -/
def lmAirMaxWireBytes : Nat := 256

/-- `LM_AIR_FRAME_HEADER_BYTES`. -/
def lmAirFrameHeaderBytes : Nat := 12

/-- `LM_AIR_FRAME_CRC_BYTES`. -/
def lmAirFrameCrcBytes : Nat := 4

/-- `LM_AIR_MAX_FRAME_PAYLOAD`. -/
def lmAirMaxFramePayload : Nat := 240

/-- `LM_AIR_MAX_FRAGMENTS`. -/
def lmAirMaxFragments : Nat := 32

/-- `LM_AIR_MAX_ASSEMBLED_BYTES`. -/
def lmAirMaxAssembledBytes : Nat := lmAirMaxFramePayload * lmAirMaxFragments

/-- `LM_AIR_SEMANTIC_HEADER_BYTES`. -/
def lmAirSemanticHeaderBytes : Nat := 48

/-- `LM_AIR_SIGNATURE_BYTES`. -/
def lmAirSignatureBytes : Nat := 64

/-- `lm_air_status_t`. -/
inductive LmAirStatus where
  | ok
  | more
  | complete
  | errArgument
  | errCapacity
  | errFormat
  | errCrc
  | errVersion
  | errReplay
  | errDuplicate
  | errAuth
  | errState
  | errFec
  | errCallback
  deriving DecidableEq, Repr

/-- The integer value of a status. -/
def LmAirStatus.value : LmAirStatus → Int
  | .ok => 0
  | .more => 1
  | .complete => 2
  | .errArgument => -1
  | .errCapacity => -2
  | .errFormat => -3
  | .errCrc => -4
  | .errVersion => -5
  | .errReplay => -6
  | .errDuplicate => -7
  | .errAuth => -8
  | .errState => -9
  | .errFec => -10
  | .errCallback => -11

/-- The test `status < 0` that the callers make. -/
def LmAirStatus.isError (status : LmAirStatus) : Bool := status.value < 0

/-- An early return is passed exactly when its condition does not hold. -/
theorem guard_eq_iff {α : Type} {condition : Prop} [Decidable condition] {early rest result : α}
    (h : early ≠ result) :
    (if condition then early else rest) = result ↔ ¬ condition ∧ rest = result := by
  by_cases hc : condition <;> simp [hc, h]

end LatentMesh.AirC
