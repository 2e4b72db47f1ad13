import LatentMesh.Meshtastic.ProtobufCodec

/-!
# Device-API messages

The subset of `Data`, `MeshPacket`, `ToRadio` and `FromRadio` that `data.rs` reads and writes.
-/

namespace LatentMesh.Meshtastic

/-- `PRIVATE_APP_PORTNUM`. -/
def privateAppPortnum : UInt32 := 256

/-- `DATA_FIELD_PORTNUM`. -/
def dataFieldPortnum : UInt32 := 1

/-- `DATA_FIELD_PAYLOAD`. -/
def dataFieldPayload : UInt32 := 2

/-- `MESH_PACKET_FIELD_FROM`. -/
def meshPacketFieldFrom : UInt32 := 1

/-- `MESH_PACKET_FIELD_TO`. -/
def meshPacketFieldTo : UInt32 := 2

/-- `MESH_PACKET_FIELD_DECODED`. -/
def meshPacketFieldDecoded : UInt32 := 4

/-- `MESH_PACKET_FIELD_ENCRYPTED`. -/
def meshPacketFieldEncrypted : UInt32 := 5

/-- `TO_RADIO_FIELD_PACKET`. -/
def toRadioFieldPacket : UInt32 := 1

/-- `FROM_RADIO_FIELD_PACKET`. -/
def fromRadioFieldPacket : UInt32 := 2

/-- `BROADCAST_ADDR`. -/
def broadcastAddr : UInt32 := 0xffffffff

/-! ## Encoding -/

/-- `encode_data`. -/
def encodeData (portnum : UInt32) (payload : List UInt8) : List UInt8 :=
  encodeVarintField dataFieldPortnum portnum.toUInt64 ++ encodeBytesField dataFieldPayload payload

/-- A `MeshPacket`, with `from` left to the radio. -/
def encodeMeshPacket (destination portnum : UInt32) (payload : List UInt8) : List UInt8 :=
  encodeFixed32Field meshPacketFieldTo destination ++
    encodeBytesField meshPacketFieldDecoded (encodeData portnum payload)

/-- `encode_to_radio_data`. -/
def encodeToRadioData (destination portnum : UInt32) (payload : List UInt8) : List UInt8 :=
  encodeBytesField toRadioFieldPacket (encodeMeshPacket destination portnum payload)

/-! ## Decoding -/

/-- What the closure of `decode_data` does with a field. -/
def visitData (state : Option UInt32 × List UInt8) (field : UInt32) (value : FieldValue) :
    Result (Option UInt32 × List UInt8) :=
  match value with
  | .varint value =>
      if field = dataFieldPortnum then
        if 2 ^ 32 ≤ value.toNat then .error .invalidLength
        else .ok (some value.toUInt32, state.2)
      else .ok state
  | .bytes inner => if field = dataFieldPayload then .ok (state.1, inner) else .ok state
  | _ => .ok state

/-- The port number and the payload of a `Data` body. -/
def decodeData (bytes : List UInt8) : Result (UInt32 × List UInt8) :=
  (forEachField visitData (none, []) bytes).bind fun (portnum, payload) =>
  .ok (portnum.getD 0, payload)

/-- One payload from a `FromRadio` body. The field `from` of the source is `sender`. -/
structure ReceivedData where
  sender : UInt32
  portnum : UInt32
  payload : List UInt8
  deriving DecidableEq, Repr

/-- What the closure of `decode_mesh_packet` has seen. -/
structure MeshPacketFields where
  sender : UInt32
  decodedBytes : Option (List UInt8)
  sawEncrypted : Bool

/-- What the decoder of a packet does with a field. -/
def visitMeshPacket (state : MeshPacketFields) (field : UInt32) (value : FieldValue) :
    Result MeshPacketFields :=
  match value with
  | .fixed32 value =>
      if field = meshPacketFieldFrom then .ok { state with sender := value } else .ok state
  | .bytes inner =>
      if field = meshPacketFieldDecoded then .ok { state with decodedBytes := some inner }
      else if field = meshPacketFieldEncrypted then .ok { state with sawEncrypted := true }
      else .ok state
  | _ => .ok state

/-- `decode_mesh_packet`. -/
def decodeMeshPacket (bytes : List UInt8) : Result (Option ReceivedData) :=
  (forEachField visitMeshPacket ⟨0, none, false⟩ bytes).bind fun fields =>
  match fields.decodedBytes with
  | none => if fields.sawEncrypted then .error .noDecodedData else .ok none
  | some decodedBytes =>
      (decodeData decodedBytes).bind fun (portnum, payload) =>
      .ok (some { sender := fields.sender, portnum, payload })

/-- The closure that keeps the bytes of a packet field. -/
def visitPacket (packetField : UInt32) (state : Option (List UInt8)) (field : UInt32)
    (value : FieldValue) : Result (Option (List UInt8)) :=
  match value with
  | .bytes inner => if field = packetField then .ok (some inner) else .ok state
  | _ => .ok state

/-- The data that a `FromRadio` body carries, if it carries a plaintext packet. -/
def decodeFromRadio (bytes : List UInt8) : Result (Option ReceivedData) :=
  (forEachField (visitPacket fromRadioFieldPacket) none bytes).bind fun packetBytes =>
  match packetBytes with
  | none => .ok none
  | some packetBytes => decodeMeshPacket packetBytes

/-- The `FromRadio` body that a node echoes for a `ToRadio` body. A malformed body panics, which is
`none`. -/
def simulateNodeEchoAsFromRadio (toRadio : List UInt8) : Option (List UInt8) :=
  match forEachField (visitPacket toRadioFieldPacket) none toRadio with
  | .error _ => none
  | .ok packetBytes => some (encodeBytesField fromRadioFieldPacket (packetBytes.getD []))

/-! ## Round trips -/

/-- An encoded payload is read back. -/
theorem decode_data_encode (portnum : UInt32) {payload : List UInt8}
    (h : (encodeData portnum payload).length < 2 ^ 64) :
    decodeData (encodeData portnum payload) = .ok (portnum, payload) := by
  rw [encodeData, List.length_append] at h
  have hpayload := @read_bytes_field dataFieldPayload payload []
    (Nat.lt_of_le_of_lt (Nat.le_add_left _ _) h)
  have hport : ¬ 2 ^ 32 ≤ portnum.toUInt64.toNat := by
    rw [UInt32.toNat_toUInt64]
    exact Nat.not_le.mpr portnum.toNat_lt
  rw [decodeData, encodeData, for_each_append (read_varint_field _ _)]
  simp only [visitData, if_true, hport, if_false, Except.bind]
  rw [for_each_single hpayload]
  simp [visitData]

/-- An encoded packet is read back. -/
theorem decode_mesh_packet_encode (destination portnum : UInt32) {payload : List UInt8}
    (h : (encodeMeshPacket destination portnum payload).length < 2 ^ 64) :
    decodeMeshPacket (encodeMeshPacket destination portnum payload) =
      .ok (some { sender := 0, portnum, payload }) := by
  rw [encodeMeshPacket, List.length_append] at h
  have hbytes : (encodeBytesField meshPacketFieldDecoded (encodeData portnum payload)).length <
      2 ^ 64 := Nat.lt_of_le_of_lt (Nat.le_add_left _ _) h
  have hdecoded := @read_bytes_field meshPacketFieldDecoded _ [] hbytes
  have hdata : (encodeData portnum payload).length < 2 ^ 64 := by
    rw [encodeBytesField, List.length_append] at hbytes
    exact Nat.lt_of_le_of_lt (Nat.le_add_left _ _) hbytes
  rw [decodeMeshPacket, encodeMeshPacket, for_each_append (read_fixed32_field _ _)]
  have hto : visitMeshPacket ⟨0, none, false⟩ meshPacketFieldTo (.fixed32 destination) =
      .ok ⟨0, none, false⟩ := rfl
  rw [hto]
  dsimp only [Except.bind]
  rw [for_each_single hdecoded]
  simp only [visitMeshPacket, if_true]
  rw [decode_data_encode portnum hdata]

/-- A packet field on its own. -/
theorem for_each_packet {field : UInt32} {packet : List UInt8}
    (h : (encodeBytesField field packet).length < 2 ^ 64) :
    forEachField (visitPacket field) none (encodeBytesField field packet) = .ok (some packet) := by
  rw [for_each_single (@read_bytes_field field _ [] h)]
  simp [visitPacket]

/-- The echo of an encoded body carries its packet. -/
theorem simulate_node_echo_encode (destination portnum : UInt32) {payload : List UInt8}
    (h : (encodeToRadioData destination portnum payload).length < 2 ^ 64) :
    simulateNodeEchoAsFromRadio (encodeToRadioData destination portnum payload) = some
      (encodeBytesField fromRadioFieldPacket (encodeMeshPacket destination portnum payload)) := by
  rw [simulateNodeEchoAsFromRadio, encodeToRadioData, for_each_packet h]
  rfl

/-- A packet in a message of the radio is read back. -/
theorem decode_from_radio_encode (destination portnum : UInt32) {payload : List UInt8}
    (h : (encodeBytesField fromRadioFieldPacket
      (encodeMeshPacket destination portnum payload)).length < 2 ^ 64) :
    decodeFromRadio
        (encodeBytesField fromRadioFieldPacket (encodeMeshPacket destination portnum payload)) =
      .ok (some { sender := 0, portnum, payload }) := by
  have hpacket : (encodeMeshPacket destination portnum payload).length < 2 ^ 64 := by
    rw [encodeBytesField, List.length_append] at h
    exact Nat.lt_of_le_of_lt (Nat.le_add_left _ _) h
  rw [decodeFromRadio, for_each_packet h]
  exact decode_mesh_packet_encode destination portnum hpacket

/-! ## Lengths -/

/-- A short bytes field takes at most three bytes more than its content. -/
theorem encode_bytes_field_length {field : UInt32} {bytes : List UInt8} (hfield : field.toNat < 16)
    (hbytes : bytes.length < 16384) :
    (encodeBytesField field bytes).length ≤ 3 + bytes.length := by
  have htag : ((field.toUInt64 <<< 3) ||| wireLen.toUInt64).toNat < 128 ^ (0 + 1) := by
    rw [UInt64.toNat_or, UInt64.toNat_shiftLeft, UInt32.toNat_toUInt64]
    show (field.toNat <<< 3) % 2 ^ 64 ||| 2 < 2 ^ 7
    rw [Nat.shiftLeft_eq]
    exact Nat.or_lt_two_pow (by omega) (by decide)
  have hlen : (UInt64.ofNat bytes.length).toNat < 128 ^ (1 + 1) := by
    rw [UInt64.toNat_ofNat_of_lt' (show bytes.length < 2 ^ 64 by omega)]
    exact hbytes
  have htagLength := encode_varint_length htag
  have hlenLength := encode_varint_length hlen
  simp only [encodeBytesField, encodeTag, List.length_append]
  omega

/-- A `Data` body of the private port takes at most six bytes more than its payload. -/
theorem encode_data_length {payload : List UInt8} (h : payload.length < 16384) :
    (encodeData privateAppPortnum payload).length ≤ 6 + payload.length := by
  have hport : (encodeVarintField dataFieldPortnum privateAppPortnum.toUInt64).length ≤ 3 := by
    have htag := @encode_varint_length 0
      ((dataFieldPortnum.toUInt64 <<< 3) ||| wireVarint.toUInt64) (by decide)
    have hvalue := @encode_varint_length 1 privateAppPortnum.toUInt64 (by decide)
    simp only [encodeVarintField, encodeTag, List.length_append]
    omega
  have hpayload := @encode_bytes_field_length dataFieldPayload _ (by decide) h
  rw [encodeData, List.length_append]
  omega

/-- The length of a packet is bounded by that of its payload. -/
theorem encode_mesh_packet_length (destination : UInt32) {payload : List UInt8}
    (h : payload.length < 16000) :
    (encodeMeshPacket destination privateAppPortnum payload).length ≤ 14 + payload.length := by
  have hto : (encodeFixed32Field meshPacketFieldTo destination).length ≤ 5 := by
    have htag := @encode_varint_length 0
      ((meshPacketFieldTo.toUInt64 <<< 3) ||| wireFixed32.toUInt64) (by decide)
    simp only [encodeFixed32Field, encodeTag, u32Le, List.length_append, List.length_reverse,
      Lib.u32_be_length]
    omega
  have hdata := @encode_data_length payload (by omega)
  have hdecoded := @encode_bytes_field_length meshPacketFieldDecoded
    (encodeData privateAppPortnum payload) (by decide) (by omega)
  rw [encodeMeshPacket, List.length_append]
  omega

end LatentMesh.Meshtastic
