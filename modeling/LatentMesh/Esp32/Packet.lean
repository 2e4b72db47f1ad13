/-!
# Packets of the ESP32 firmware

`lm_air_packet_t` of `lm_air_packet.h`. The `len` bytes of a packet are its `data`.
-/

namespace LatentMesh.Esp32

/-- `LM_AIR_MAX_FRAME_SIZE`. -/
def lmAirMaxFrameSize : Nat := 512

/-- `LM_AIR_PAYLOAD_PUBLIC_CODEC`. -/
def lmAirPayloadPublicCodec : UInt8 := 0x01

/-- `LM_AIR_PAYLOAD_IDENTIFICATION`. -/
def lmAirPayloadIdentification : UInt8 := 0x02

/-- `LM_AIR_PAYLOAD_ENCRYPTED`. -/
def lmAirPayloadEncrypted : UInt8 := 0x04

/-- `lm_air_packet_t`. -/
structure LmAirPacket where
  data : List UInt8
  sourceLink : UInt8
  flags : UInt8
  deriving DecidableEq, Repr

end LatentMesh.Esp32
