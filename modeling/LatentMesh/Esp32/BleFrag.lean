import Mathlib.Logic.Function.Iterate
import LatentMesh.Lib.Buffer
import LatentMesh.Esp32.Packet

/-!
# BLE fragments

`lm_air_ble_frag.c`: the fragments of a packet and their reassembly. `size_t` has the 32 bits of the
target. The `memcpy` of the reassembly is checked, and no fragment makes it fail
(`LmAirBleReassembly.ingest_all_is_some`).
-/

namespace LatentMesh.Esp32

open LatentMesh.Lib

/-- `LM_AIR_BLE_FRAG_MAGIC`. -/
def lmAirBleFragMagic : UInt8 := 0xa1

/-- `LM_AIR_BLE_FRAG_VERSION`. -/
def lmAirBleFragVersion : UInt8 := 1

/-- `LM_AIR_BLE_FRAG_HEADER_SIZE`. -/
def lmAirBleFragHeaderSize : Nat := 10

/-- `LM_AIR_BLE_MAX_FRAGMENTS`. -/
def lmAirBleMaxFragments : Nat := 64

/-! ## Bytes and the checksum -/

/-- `read_le16`. -/
def readLe16 (bytes : List UInt8) (offset : Nat) : UInt16 :=
  (bytes.getD offset 0).toUInt16 ||| (bytes.getD (offset + 1) 0).toUInt16 <<< 8

/-- The bytes that `write_le16` writes. -/
def writeLe16 (value : UInt16) : List UInt8 := [value.toUInt8, (value >>> 8).toUInt8]

/-- One bit of `lm_air_crc16_ccitt`. -/
def crc16Bit (crc : UInt16) : UInt16 :=
  if crc &&& 0x8000 ≠ 0 then (crc <<< 1) ^^^ 0x1021 else crc <<< 1

/-- The loop of `lm_air_crc16_ccitt` for one byte. -/
def crc16Byte (crc : UInt16) (byte : UInt8) : UInt16 :=
  crc16Bit^[8] (crc ^^^ byte.toUInt16 <<< (8 : UInt16))

/-- `lm_air_crc16_ccitt`. -/
def lmAirCrc16Ccitt (data : List UInt8) : UInt16 := data.foldl crc16Byte 0xffff

/-- `test_crc`: the check value of "123456789". -/
example : lmAirCrc16Ccitt [0x31, 0x32, 0x33, 0x34, 0x35, 0x36, 0x37, 0x38, 0x39] = 0x29b1 := by
  decide +kernel

/-! ## Fragments -/

/-- `lm_air_ble_fragment_count`. -/
def lmAirBleFragmentCount (messageLen attPayloadCapacity : UInt32) : UInt32 :=
  if messageLen = 0 ∨ attPayloadCapacity ≤ UInt32.ofNat lmAirBleFragHeaderSize then 0
  else
    let capacity := attPayloadCapacity - UInt32.ofNat lmAirBleFragHeaderSize
    let count := (messageLen + capacity - 1) / capacity
    if count ≤ UInt32.ofNat lmAirBleMaxFragments then count else 0

/-- The bytes of a fragment. -/
def lmAirBleMakeFragment (packet : LmAirPacket) (messageId : UInt16) (fragmentIndex : UInt8)
    (attPayloadCapacity outCapacity : UInt32) : Option (List UInt8) :=
  if packet.data = [] ∨ lmAirMaxFrameSize < packet.data.length ∨
      outCapacity < attPayloadCapacity then none
  else
    let len := UInt32.ofNat packet.data.length
    let count := lmAirBleFragmentCount len attPayloadCapacity
    if count = 0 ∨ count ≤ fragmentIndex.toUInt32 then none
    else
      let unit := (len + count - 1) / count
      let offset := fragmentIndex.toUInt32 * unit
      let remaining := len - offset
      let payloadLen := if remaining < unit then remaining else unit
      if attPayloadCapacity < UInt32.ofNat lmAirBleFragHeaderSize + payloadLen then none
      else
        some ([lmAirBleFragMagic, lmAirBleFragVersion] ++ writeLe16 messageId ++
          [fragmentIndex, count.toUInt8] ++ writeLe16 len.toUInt16 ++
          writeLe16 (lmAirCrc16Ccitt packet.data) ++
          readAt packet.data offset.toNat payloadLen.toNat)

/-! ## Reassembly -/

/-- The `data` of a packet, which always has its 512 bytes. -/
structure PacketBuffer where
  bytes : List UInt8
  size : bytes.length = lmAirMaxFrameSize
  deriving DecidableEq, Repr

namespace PacketBuffer

/-- `memset`. -/
def zero : PacketBuffer := ⟨.replicate lmAirMaxFrameSize 0, List.length_replicate⟩

/-- `memcpy` into the buffer; `none` is a write outside it. -/
def copyTo (self : PacketBuffer) (offset : Nat) (items : List UInt8) : Option PacketBuffer :=
  if offset + items.length ≤ lmAirMaxFrameSize then
    some ⟨writeAt self.bytes offset items, (write_at_length _ _ _).trans self.size⟩
  else none

end PacketBuffer

/-- What `lm_air_ble_reassembly_ingest` reads from the header of a fragment. -/
structure BleHeader where
  messageId : UInt16
  index : UInt8
  count : UInt8
  total : UInt16
  crc : UInt16
  deriving DecidableEq, Repr

/-- The header of a fragment. -/
def bleHeader (fragment : List UInt8) : BleHeader where
  messageId := readLe16 fragment 2
  index := fragment.getD 4 0
  count := fragment.getD 5 0
  total := readLe16 fragment 6
  crc := readLe16 fragment 8

/-- The header is one that a fragment can have. -/
def BleHeader.Plausible (self : BleHeader) : Prop :=
  self.count ≠ 0 ∧ self.count.toNat ≤ lmAirBleMaxFragments ∧ self.index < self.count ∧
    self.total ≠ 0 ∧ self.total.toNat ≤ lmAirMaxFrameSize

instance (header : BleHeader) : Decidable header.Plausible :=
  inferInstanceAs (Decidable (_ ∧ _))

/-- The size of the chunks that a packet is cut into. -/
def BleHeader.unit (self : BleHeader) : Nat :=
  (self.total.toNat + self.count.toNat - 1) / self.count.toNat

/-- Where a fragment begins in the message. -/
def BleHeader.offset (self : BleHeader) : Nat := self.index.toNat * self.unit

/-- The length that the payload must have. At an offset behind the end of the packet the code wraps
around here, and refuses the fragment because of the offset. -/
def BleHeader.expectedLen (self : BleHeader) : Nat :=
  if self.index.toNat + 1 = self.count.toNat then self.total.toNat - self.offset else self.unit

/-- `lm_air_ble_reassembly_t`. The other fields of its packet are set only in the one that is
handed over. -/
structure LmAirBleReassembly where
  active : Bool
  messageId : UInt16
  totalLen : UInt16
  expectedCrc : UInt16
  fragmentCount : UInt8
  receivedBitmap : UInt64
  flags : UInt8
  data : PacketBuffer
  deriving DecidableEq, Repr

/-- `lm_air_ble_result_t`. -/
inductive LmAirBleResult where
  | more
  | complete (packet : LmAirPacket)
  | rejected
  deriving DecidableEq, Repr

namespace LmAirBleReassembly

/-- `lm_air_ble_reassembly_reset`. -/
def reset : LmAirBleReassembly := ⟨false, 0, 0, 0, 0, 0, 0, .zero⟩

/-- A fragment of another message starts that message. -/
def start (self : LmAirBleReassembly) (header : BleHeader) : LmAirBleReassembly :=
  if ¬ self.active ∨ self.messageId ≠ header.messageId then
    { reset with
      active := true
      messageId := header.messageId
      totalLen := header.total
      expectedCrc := header.crc
      fragmentCount := header.count }
  else self

/-- The header says the same of the packet as the first one did. -/
def Matches (self : LmAirBleReassembly) (header : BleHeader) : Prop :=
  self.totalLen = header.total ∧ self.expectedCrc = header.crc ∧
    self.fragmentCount = header.count

instance (state : LmAirBleReassembly) (header : BleHeader) : Decidable (state.Matches header) :=
  inferInstanceAs (Decidable (_ ∧ _))

/-- The bitmap of all fragments. -/
def wanted (count : UInt8) : UInt64 :=
  if count = 64 then 0xffffffffffffffff else (1 <<< count.toUInt64) - 1

/-- What happens after the payload is in its place. -/
def receive (self : LmAirBleReassembly) (header : BleHeader) :
    LmAirBleReassembly × LmAirBleResult :=
  let self := { self with receivedBitmap := self.receivedBitmap ||| 1 <<< header.index.toUInt64 }
  if self.receivedBitmap ≠ wanted header.count then (self, .more)
  else if lmAirCrc16Ccitt (self.data.bytes.take header.total.toNat) ≠ self.expectedCrc then
    (reset, .rejected)
  else
    (reset, .complete
      { data := self.data.bytes.take header.total.toNat
        sourceLink := 0xff
        flags := self.flags })

/-- `lm_air_ble_reassembly_ingest`; `none` is a write outside the packet buffer. -/
def ingest (self : LmAirBleReassembly) (fragment : List UInt8) :
    Option (LmAirBleReassembly × LmAirBleResult) :=
  if fragment.length ≤ lmAirBleFragHeaderSize ∨ fragment.getD 0 0 ≠ lmAirBleFragMagic ∨
      fragment.getD 1 0 ≠ lmAirBleFragVersion then some (self, .rejected)
  else
    let header := bleHeader fragment
    let payload := fragment.drop lmAirBleFragHeaderSize
    if ¬ header.Plausible then some (reset, .rejected)
    else if ¬ (self.start header).Matches header then some (reset, .rejected)
    else if header.total.toNat ≤ header.offset ∨ payload.length ≠ header.expectedLen ∨
        header.total.toNat < header.offset + payload.length then some (reset, .rejected)
    else do
      let data ← (self.start header).data.copyTo header.offset payload
      some ({ self.start header with data }.receive header)

/-- Ingest a sequence of fragments: the result of every call. -/
def ingestAll (self : LmAirBleReassembly) :
    List (List UInt8) → Option (LmAirBleReassembly × List LmAirBleResult)
  | [] => some (self, [])
  | fragment :: fragments => do
      let (self, result) ← self.ingest fragment
      let (self, results) ← self.ingestAll fragments
      some (self, result :: results)

/-- What the guards let through is inside the packet buffer. -/
theorem ingest_is_some (state : LmAirBleReassembly) (fragment : List UInt8) :
    (state.ingest fragment).isSome = true := by
  unfold ingest
  split
  · rfl
  dsimp only
  split
  · rfl
  rename_i hplausible
  obtain ⟨-, -, -, -, htotal⟩ := not_not.mp hplausible
  split
  · rfl
  split
  · rfl
  rename_i hplace
  simp only [not_or, Nat.not_lt] at hplace
  obtain ⟨-, -, hend⟩ := hplace
  rw [PacketBuffer.copyTo, if_pos (Nat.le_trans hend htotal)]
  rfl

/-- No sequence of fragments writes outside the packet buffer. -/
theorem ingest_all_is_some (state : LmAirBleReassembly) (fragments : List (List UInt8)) :
    (state.ingestAll fragments).isSome = true := by
  induction fragments generalizing state with
  | nil => rfl
  | cons fragment fragments ih =>
      obtain ⟨⟨next, result⟩, hfragment⟩ :=
        Option.isSome_iff_exists.mp (ingest_is_some state fragment)
      obtain ⟨⟨last, results⟩, hrest⟩ := Option.isSome_iff_exists.mp (ih next)
      rw [ingestAll, hfragment, Option.bind_eq_bind, Option.bind_some]
      dsimp only
      rw [hrest]
      rfl

end LmAirBleReassembly

end LatentMesh.Esp32
