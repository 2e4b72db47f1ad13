import LatentMesh.AirC.Common
import LatentMesh.AirCore.Wire

/-!
# The C frame codec

`lm_air_crc32c`, `validate_frame`, `lm_air_frame_encode` and `lm_air_frame_decode` of `frame.c`.
-/

namespace LatentMesh.AirC

open LatentMesh.Lib

/-! ## Big-endian accessors -/

/-- `put_u16_be`: the two bytes written. -/
def putU16Be (value : UInt16) : List UInt8 :=
  [(value >>> 8).toUInt8, value.toUInt8]

/-- `get_u16_be` of the two bytes at `src`. -/
def getU16Be (src : List UInt8) : UInt16 :=
  ((src.getD 0 0).toUInt16 <<< 8) ||| (src.getD 1 0).toUInt16

/-- `put_u32_be`: the four bytes written. -/
def putU32Be (value : UInt32) : List UInt8 :=
  [(value >>> 24).toUInt8, (value >>> 16).toUInt8, (value >>> 8).toUInt8, value.toUInt8]

/-- `get_u32_be` of the four bytes at `src`. -/
def getU32Be (src : List UInt8) : UInt32 :=
  ((src.getD 0 0).toUInt32 <<< 24) ||| ((src.getD 1 0).toUInt32 <<< 16) |||
    ((src.getD 2 0).toUInt32 <<< 8) ||| (src.getD 3 0).toUInt32

/-! ## CRC-32C -/

/-- `nibble_table`. -/
def nibbleTable : List UInt32 :=
  [0x00000000, 0x105ec76f, 0x20bd8ede, 0x30e349b1, 0x417b1dbc, 0x5125dad3, 0x61c69362, 0x7198540d,
    0x82f63b78, 0x92a8fc17, 0xa24bb5a6, 0xb21572c9, 0xc38d26c4, 0xd3d3e1ab, 0xe330a81a, 0xf36e6f75]

/-- One table step: `crc = (crc >> 4) ^ nibble_table[crc & 0x0f]`. -/
def crcNibble (crc : UInt32) : UInt32 :=
  (crc >>> 4) ^^^ nibbleTable.getD (crc &&& 0x0f).toNat 0

/-- The loop body of `lm_air_crc32c`. -/
def crcByte (crc : UInt32) (byte : UInt8) : UInt32 :=
  crcNibble (crcNibble (crc ^^^ byte.toUInt32))

/-- `lm_air_crc32c`. -/
def lmAirCrc32c (data : List UInt8) : UInt32 :=
  ~~~ data.foldl crcByte 0xffffffff

/-! ## Frames -/

/-- `LM_AIR_PROFILE_MESHTASTIC`, the greatest profile. -/
def lmAirProfileMeshtastic : UInt8 := 9

/-- `LM_AIR_CLASS_DIAGNOSTIC`, the greatest class. -/
def lmAirClassDiagnostic : UInt8 := 4

/-- `LM_AIR_FLAG_FEC`. -/
def lmAirFlagFec : UInt8 := 0x2

/-- `LM_AIR_FLAG_AUTHENTICATED`. -/
def lmAirFlagAuthenticated : UInt8 := 0x8

/-- `lm_air_frame_t`. The payload is an array of 240 bytes whatever `payloadLen` says. -/
structure LmAirFrame where
  profile : UInt8
  flags : UInt8
  streamId : UInt16
  sequence : UInt16
  fragmentIndex : UInt8
  fragmentCount : UInt8
  classId : UInt8
  priority : UInt8
  stateTag : UInt16
  payloadLen : UInt8
  payload : List UInt8
  payload_size : payload.length = lmAirMaxFramePayload
  deriving DecidableEq, Repr

/-- A zeroed payload array with the given bytes copied to its start. -/
def payloadArray (bytes : List UInt8) : List UInt8 :=
  (bytes ++ List.replicate lmAirMaxFramePayload 0).take lmAirMaxFramePayload

/-- The payload array has a fixed length. -/
theorem payload_array_length (bytes : List UInt8) :
    (payloadArray bytes).length = lmAirMaxFramePayload := by
  simp [payloadArray]

/-- The bytes `memcpy` reads when it copies `payload_len` bytes out of the payload array. Bytes
past the end of the array come from the memory `adjacent` to it. -/
def LmAirFrame.payloadBytes (frame : LmAirFrame) (adjacent : Nat → UInt8) : List UInt8 :=
  (List.range frame.payloadLen.toNat).map fun i =>
    if i < lmAirMaxFramePayload then frame.payload.getD i 0
    else adjacent (i - lmAirMaxFramePayload)

/-- `validate_frame`. -/
def validateFrame (frame : LmAirFrame) : LmAirStatus :=
  if lmAirProfileMeshtastic < frame.profile ∨ 0x0f < frame.flags ∨
      lmAirClassDiagnostic < frame.classId ∨ 0x0f < frame.priority then .errFormat
  else if frame.fragmentCount = 0 ∨ lmAirMaxFragments < frame.fragmentCount.toNat ∨
      frame.fragmentCount ≤ frame.fragmentIndex then .errFormat
  else .ok

/-- `lm_air_frame_wire_size`. -/
def lmAirFrameWireSize (frame : LmAirFrame) : Nat :=
  if validateFrame frame ≠ .ok then 0
  else lmAirFrameHeaderBytes + frame.payloadLen.toNat + lmAirFrameCrcBytes

/-- The bytes that `lm_air_frame_encode` writes before it computes the checksum. -/
def frameCheckedBytes (frame : LmAirFrame) (adjacent : Nat → UInt8) : List UInt8 :=
  [0xa0 ||| lmAirVersion, (frame.flags <<< 4) ||| frame.profile] ++ putU16Be frame.streamId ++
    putU16Be frame.sequence ++ [frame.fragmentIndex, frame.fragmentCount,
    (frame.classId <<< 4) ||| frame.priority, frame.payloadLen] ++ putU16Be frame.stateTag ++
    frame.payloadBytes adjacent

/-- `lm_air_frame_encode` into a buffer of `capacity` bytes: the status and the bytes written. -/
def lmAirFrameEncode (frame : LmAirFrame) (adjacent : Nat → UInt8) (capacity : Nat) :
    LmAirStatus × List UInt8 :=
  let status := validateFrame frame
  if status ≠ .ok then (status, [])
  else
    let required := lmAirFrameWireSize frame
    if capacity < required then (.errCapacity, [])
    else
      let wire := frameCheckedBytes frame adjacent
      (.ok, wire ++ putU32Be (lmAirCrc32c wire))

/-- `lm_air_frame_decode`: the status, and the frame when the status is `LM_AIR_OK`. -/
def lmAirFrameDecode (wire : List UInt8) : LmAirStatus × Option LmAirFrame :=
  if wire.length < lmAirFrameHeaderBytes + lmAirFrameCrcBytes ∨ lmAirMaxWireBytes < wire.length then
    (.errFormat, none)
  else if wire.getD 0 0 ≠ 0xa0 ||| lmAirVersion then
    (if wire.getD 0 0 &&& 0xf0 = 0xa0 then .errVersion else .errFormat, none)
  else
    let expected := lmAirFrameHeaderBytes + (wire.getD 9 0).toNat + lmAirFrameCrcBytes
    if wire.length ≠ expected then (.errFormat, none)
    else
      let expectedCrc := getU32Be (wire.drop (wire.length - lmAirFrameCrcBytes))
      let actualCrc := lmAirCrc32c (wire.take (wire.length - lmAirFrameCrcBytes))
      if expectedCrc ≠ actualCrc then (.errCrc, none)
      else
        let payloadLen := wire.getD 9 0
        let frame : LmAirFrame :=
          { profile := wire.getD 1 0 &&& 0x0f
            flags := wire.getD 1 0 >>> 4
            streamId := getU16Be (wire.drop 2)
            sequence := getU16Be (wire.drop 4)
            fragmentIndex := wire.getD 6 0
            fragmentCount := wire.getD 7 0
            classId := wire.getD 8 0 >>> 4
            priority := wire.getD 8 0 &&& 0x0f
            payloadLen
            stateTag := getU16Be (wire.drop 10)
            payload := payloadArray ((wire.drop lmAirFrameHeaderBytes).take payloadLen.toNat)
            payload_size := payload_array_length _ }
        if validateFrame frame ≠ .ok then (.errFormat, none) else (.ok, some frame)

end LatentMesh.AirC
