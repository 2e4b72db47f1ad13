import LatentMesh.AirC.Fec
import LatentMesh.AirC.Frame

/-!
# The types of the C message layer

The constants, the records and the 64-bit accessors that the transmitter and the receiver of `air.c`
share.
-/

namespace LatentMesh.AirC

/-- `LM_AIR_RX_REASSEMBLY_SLOTS`. -/
def lmAirRxReassemblySlots : Nat := 2

/-- `LM_AIR_RX_REPLAY_STREAMS`. -/
def lmAirRxReplayStreams : Nat := 8

/-- `LM_AIR_SEMANTIC_FLAG_AUTH`. -/
def lmAirSemanticFlagAuth : UInt8 := 0x01

/-- `put_u64_be`: the eight bytes written. -/
def putU64Be (value : UInt64) : List UInt8 :=
  (List.range 8).map fun i => (value >>> UInt64.ofNat (56 - i * 8)).toUInt8

/-- `get_u64_be` of the eight bytes at `src`. -/
def getU64Be (src : List UInt8) : UInt64 :=
  (List.range 8).foldl (fun value i => (value <<< 8) ||| (src.getD i 0).toUInt64) 0

/-- `lm_air_profile_config_t`. -/
structure LmAirProfileConfig where
  profile : UInt8
  fragmentPayloadBytes : UInt8
  useFec : UInt8
  interleaveRows : UInt8
  deriving DecidableEq, Repr

/-- `lm_air_message_t`. The body is the `body_len` bytes at `body`. -/
structure LmAirMessage where
  sourceId : UInt32
  epoch : UInt32
  messageId : UInt32
  logicalSequence : UInt64
  classId : UInt8
  priority : UInt8
  stateHash : Vector UInt8 16
  body : List UInt8
  authenticated : UInt8
  body_lt : body.length < 2 ^ 16
  deriving DecidableEq

/-- `body_len`. -/
def LmAirMessage.bodyLen (message : LmAirMessage) : UInt16 := UInt16.ofNat message.body.length

/-- `lm_air_block_t`. -/
structure LmAirBlock where
  rawLen : UInt16
  bitLen : UInt16
  fec : UInt8
  interleaveRows : UInt8
  data : List UInt8
  data_size : data.length = lmAirFecMaxCodedBytes
  deriving DecidableEq

end LatentMesh.AirC
