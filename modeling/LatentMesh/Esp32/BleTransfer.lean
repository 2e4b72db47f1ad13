import LatentMesh.Lib.Bitmap
import LatentMesh.Lib.Chunks
import LatentMesh.Esp32.BleFrag

/-!
# A packet over BLE

The fragments of a packet, and their reassembly in any order. The reassembly holds the bytes of the
fragments that it has seen (`BleTransfer.Holds`), so it hands the packet over at the last one that
is missing (`ble_round_trip`).
-/

namespace LatentMesh.Esp32

open LatentMesh.Lib

/-- A packet that is cut into fragments, none of them empty. -/
structure BleTransfer where
  packet : LmAirPacket
  messageId : UInt16
  count : Nat
  fits : packet.data.length ≤ lmAirMaxFrameSize
  count_pos : 0 < count
  count_le : count ≤ lmAirBleMaxFragments
  last_lt : (count - 1) * divCeil packet.data.length count < packet.data.length

namespace BleTransfer

variable (transfer : BleTransfer) {index : Nat}

/-- The bytes that are cut into fragments. -/
def data : List UInt8 := transfer.packet.data

/-- The bytes of every fragment but the last. -/
def unit : Nat := divCeil transfer.data.length transfer.count

/-- The header of a fragment. -/
def header (index : Nat) : BleHeader where
  messageId := transfer.messageId
  index := UInt8.ofNat index
  count := UInt8.ofNat transfer.count
  total := UInt16.ofNat transfer.data.length
  crc := lmAirCrc16Ccitt transfer.data

/-- A fragment with its header. -/
def fragment (index : Nat) : List UInt8 :=
  [lmAirBleFragMagic, lmAirBleFragVersion] ++ writeLe16 transfer.messageId ++
    [UInt8.ofNat index, UInt8.ofNat transfer.count] ++
    writeLe16 (UInt16.ofNat transfer.data.length) ++
    writeLe16 (lmAirCrc16Ccitt transfer.data) ++ chunk transfer.unit transfer.data index

/-- There are bytes to send. -/
theorem length_pos : 0 < transfer.data.length :=
  Nat.lt_of_le_of_lt (Nat.zero_le _) transfer.last_lt

/-- A fragment has a byte. -/
theorem unit_pos : 0 < transfer.unit := div_ceil_pos transfer.count_pos transfer.length_pos

/-- The fragments have room for all bytes. -/
theorem length_le : transfer.data.length ≤ transfer.count * transfer.unit := by
  rw [Nat.mul_comm]
  exact le_div_ceil_mul transfer.count_pos

/-- Every fragment begins within the bytes. -/
theorem offset_lt (h : index < transfer.count) :
    index * transfer.unit < transfer.data.length :=
  Nat.lt_of_le_of_lt (Nat.mul_le_mul_right _ (Nat.le_sub_one_of_lt h)) transfer.last_lt

/-- Every index fits into its byte. -/
theorem index_to_nat (h : index < transfer.count) : (UInt8.ofNat index).toNat = index := by
  have hle := transfer.count_le
  rw [lmAirBleMaxFragments] at hle
  exact UInt8.toNat_ofNat_of_lt' (Nat.lt_of_lt_of_le h (Nat.le_trans hle (by decide)))

/-- The count fits into its byte. -/
theorem count_to_nat : (UInt8.ofNat transfer.count).toNat = transfer.count := by
  have hle := transfer.count_le
  rw [lmAirBleMaxFragments] at hle
  exact UInt8.toNat_ofNat_of_lt' (Nat.lt_of_le_of_lt hle (by decide))

/-- The length fits into two bytes. -/
theorem total_to_nat : (UInt16.ofNat transfer.data.length).toNat = transfer.data.length :=
  UInt16.toNat_ofNat_of_lt' (Nat.lt_of_le_of_lt transfer.fits (by decide))

end BleTransfer

/-! ## What the sender makes -/

/-- A length of a frame fits into a word. -/
theorem of_nat_to_nat {n : Nat} (h : n ≤ lmAirMaxFrameSize) : (UInt32.ofNat n).toNat = n :=
  UInt32.toNat_ofNat_of_lt' (Nat.lt_of_le_of_lt h (by decide))

/-- The dividend of a rounded-up division in 32 bits. -/
theorem ble_sum_to_nat {length : Nat} (hfits : length ≤ lmAirMaxFrameSize) (count : UInt32) :
    (UInt32.ofNat length + count - 1).toNat =
      (4294967295 + (length + count.toNat) % 4294967296) % 4294967296 := by
  rw [UInt32.toNat_sub, UInt32.toNat_add, of_nat_to_nat hfits]
  rfl

/-- The count that is computed, unless the sum wraps around. -/
theorem ble_count_to_nat {length : Nat} {capacity : UInt32} (hlength : 0 < length)
    (hfits : length ≤ lmAirMaxFrameSize) (hcapacity : 0 < capacity.toNat)
    (hcount : (UInt32.ofNat length + capacity - 1) / capacity ≠ 0) :
    ((UInt32.ofNat length + capacity - 1) / capacity).toNat = divCeil length capacity.toNat := by
  have hmax : capacity.toNat < 4294967296 := capacity.toNat_lt
  have hsum := ble_sum_to_nat hfits capacity
  rw [lmAirMaxFrameSize] at hfits
  rw [UInt32.toNat_div, hsum, ← div_ceil_eq hcapacity]
  by_cases hwrap : length + capacity.toNat ≤ 4294967296
  · congr 1
    omega
  · -- the sum has lost more than the length, so the quotient is zero
    refine absurd (UInt32.toNat_inj.mp ?_) hcount
    rw [UInt32.toNat_div, hsum, UInt32.toNat_zero]
    exact Nat.div_eq_of_lt (by omega)

/-- A count that is not zero is that of chunks as large as the capacity. -/
theorem ble_fragment_count_spec {length : Nat} {att : UInt32} (hlength : 0 < length)
    (hfits : length ≤ lmAirMaxFrameSize)
    (hcount : lmAirBleFragmentCount (UInt32.ofNat length) att ≠ 0) :
    ∃ capacity, 0 < capacity ∧ att.toNat = lmAirBleFragHeaderSize + capacity ∧
      (lmAirBleFragmentCount (UInt32.ofNat length) att).toNat = divCeil length capacity ∧
      divCeil length capacity ≤ lmAirBleMaxFragments := by
  unfold lmAirBleFragmentCount at hcount ⊢
  split at hcount
  · exact absurd rfl hcount
  rename_i hguard
  rw [if_neg hguard]
  dsimp only at hcount ⊢
  split at hcount
  · rename_i hmax
    rw [if_pos hmax]
    have hatt := UInt32.lt_iff_toNat_lt.mp (UInt32.not_le.mp (not_or.mp hguard).2)
    have hheader : (UInt32.ofNat lmAirBleFragHeaderSize).toNat = lmAirBleFragHeaderSize := rfl
    have hsub := UInt32.toNat_sub_of_le att _ (UInt32.le_of_lt (UInt32.lt_iff_toNat_lt.mpr hatt))
    rw [hheader] at hatt hsub
    have hcapacity : 0 < (att - UInt32.ofNat lmAirBleFragHeaderSize).toNat := by omega
    have hnat := ble_count_to_nat hlength hfits hcapacity hcount
    refine ⟨_, hcapacity, by omega, hnat, ?_⟩
    rw [← hnat]
    exact UInt32.le_iff_toNat_le.mp hmax
  · exact absurd rfl hcount

/-- The transfer of a packet whose count of fragments is not zero. -/
def BleTransfer.ofCount (packet : LmAirPacket) (messageId : UInt16) (att : UInt32)
    (hlength : 0 < packet.data.length) (hfits : packet.data.length ≤ lmAirMaxFrameSize)
    (hcount : lmAirBleFragmentCount (UInt32.ofNat packet.data.length) att ≠ 0) : BleTransfer where
  packet := packet
  messageId := messageId
  count := (lmAirBleFragmentCount (UInt32.ofNat packet.data.length) att).toNat
  fits := hfits
  count_pos := Nat.pos_of_ne_zero fun hzero => hcount (UInt32.toNat_inj.mp hzero)
  count_le := by
    obtain ⟨capacity, -, -, hnat, hmax⟩ := ble_fragment_count_spec hlength hfits hcount
    rw [hnat]
    exact hmax
  last_lt := by
    obtain ⟨capacity, hcapacity, -, hnat, -⟩ := ble_fragment_count_spec hlength hfits hcount
    rw [hnat]
    exact pred_mul_div_ceil_lt hcapacity hlength

/-- The unit is computed without overflow. -/
theorem ble_unit_to_nat {length : Nat} {count : UInt32} (hfits : length ≤ lmAirMaxFrameSize)
    (hpos : 0 < count.toNat) (hmax : count.toNat ≤ lmAirBleMaxFragments) :
    ((UInt32.ofNat length + count - 1) / count).toNat = divCeil length count.toNat := by
  have hsum := ble_sum_to_nat hfits count
  rw [lmAirMaxFrameSize] at hfits
  rw [lmAirBleMaxFragments] at hmax
  rw [UInt32.toNat_div, hsum, ← div_ceil_eq hpos]
  congr 1
  omega

/-- The offset of a fragment inside a packet. -/
theorem ble_offset_to_nat {length index : Nat} {unit : UInt32} (hfits : length ≤ lmAirMaxFrameSize)
    (hindex : (UInt8.ofNat index).toNat = index) (hoffset : index * unit.toNat < length) :
    ((UInt8.ofNat index).toUInt32 * unit).toNat = index * unit.toNat := by
  rw [lmAirMaxFrameSize] at hfits
  rw [UInt32.toNat_mul, UInt8.toNat_toUInt32, hindex]
  omega

/-- What a fragment carries from its offset: a unit, or what remains. -/
theorem ble_payload_to_nat {length : Nat} {offset unit : UInt32}
    (hfits : length ≤ lmAirMaxFrameSize) (hoffset : offset.toNat < length) :
    (if UInt32.ofNat length - offset < unit then UInt32.ofNat length - offset
      else unit).toNat = min (length - offset.toNat) unit.toNat := by
  have hremaining : (UInt32.ofNat length - offset).toNat = length - offset.toNat := by
    have hlen := of_nat_to_nat hfits
    rw [UInt32.toNat_sub_of_le, hlen]
    rw [UInt32.le_iff_toNat_le, hlen]
    exact Nat.le_of_lt hoffset
  split
  · rename_i hlt
    rw [UInt32.lt_iff_toNat_lt, hremaining] at hlt
    rw [hremaining, Nat.min_eq_left (Nat.le_of_lt hlt)]
  · rename_i hge
    rw [UInt32.lt_iff_toNat_lt, hremaining] at hge
    rw [Nat.min_eq_right (Nat.le_of_not_lt hge)]

/-- The length of a packet in the 16 bits of the header. -/
theorem ble_length_word {length : Nat} (hfits : length ≤ lmAirMaxFrameSize) :
    (UInt32.ofNat length).toUInt16 = UInt16.ofNat length := by
  apply UInt16.toNat_inj.mp
  rw [UInt32.toNat_toUInt16, of_nat_to_nat hfits, UInt16.toNat_ofNat']

/-- The bytes of a chunk, and no more than there are. -/
theorem read_at_eq_chunk {size : Nat} (items : List UInt8) (index : Nat) :
    readAt items (index * size) (min (items.length - index * size) size) =
      chunk size items index := by
  rw [readAt, chunk, List.take_eq_take_iff, List.length_drop]
  omega

/-- Every fragment of a transfer is made. -/
theorem ble_make_fragment_eq {packet : LmAirPacket} {messageId : UInt16} {att out : UInt32}
    (hlength : 0 < packet.data.length) (hfits : packet.data.length ≤ lmAirMaxFrameSize)
    (hcount : lmAirBleFragmentCount (UInt32.ofNat packet.data.length) att ≠ 0) (hout : att ≤ out)
    {index : Nat}
    (hindex : index < (lmAirBleFragmentCount (UInt32.ofNat packet.data.length) att).toNat) :
    lmAirBleMakeFragment packet messageId (UInt8.ofNat index) att out =
      some ((BleTransfer.ofCount packet messageId att hlength hfits hcount).fragment index) := by
  obtain ⟨capacity, hcapacity, hatt, hnat, hmax⟩ := ble_fragment_count_spec hlength hfits hcount
  have hunitLe := div_ceil_div_ceil_le hcapacity hlength
  have hoffset := (BleTransfer.ofCount packet messageId att hlength hfits hcount).offset_lt hindex
  have hindexNat :=
    (BleTransfer.ofCount packet messageId att hlength hfits hcount).index_to_nat hindex
  rw [← hnat] at hmax hunitLe
  have hunit := ble_unit_to_nat hfits (Nat.lt_of_le_of_lt (Nat.zero_le _) hindex) hmax
  rw [← hunit] at hunitLe
  change index * divCeil packet.data.length (lmAirBleFragmentCount _ att).toNat <
    packet.data.length at hoffset
  rw [← hunit] at hoffset
  unfold lmAirBleMakeFragment BleTransfer.fragment
  change _ = some ([lmAirBleFragMagic, lmAirBleFragVersion] ++ writeLe16 messageId ++
    [UInt8.ofNat index, UInt8.ofNat (lmAirBleFragmentCount _ att).toNat] ++
    writeLe16 (UInt16.ofNat packet.data.length) ++ writeLe16 (lmAirCrc16Ccitt packet.data) ++
    chunk (divCeil packet.data.length (lmAirBleFragmentCount _ att).toNat) packet.data index)
  rw [← hunit]
  dsimp only
  generalize lmAirBleFragmentCount (UInt32.ofNat packet.data.length) att = count at *
  generalize (UInt32.ofNat packet.data.length + count - 1) / count = unit at *
  have hindex32 : (UInt8.ofNat index).toUInt32.toNat = index := by
    rw [UInt8.toNat_toUInt32, hindexNat]
  have hoffset32 := ble_offset_to_nat hfits hindexNat hoffset
  have hpayload := @ble_payload_to_nat packet.data.length
    ((UInt8.ofNat index).toUInt32 * unit) unit hfits (hoffset32.trans_lt hoffset)
  rw [hoffset32] at hpayload
  have hheader : (UInt32.ofNat lmAirBleFragHeaderSize).toNat = 10 := rfl
  have hroom : att.toNat = 10 + capacity := hatt
  have hattMax := att.toNat_lt
  have hcountByte : count.toUInt8 = UInt8.ofNat count.toNat := rfl
  have hnonempty : ¬ (packet.data = [] ∨ lmAirMaxFrameSize < packet.data.length ∨ out < att) := by
    rintro (hempty | hlong | hsmall)
    · exact List.length_pos_iff.mp hlength hempty
    · exact Nat.not_lt.mpr hfits hlong
    · exact UInt32.not_lt.mpr hout hsmall
  have hbelow : ¬ (count = 0 ∨ count ≤ (UInt8.ofNat index).toUInt32) := by
    rintro (hzero | hle)
    · exact hcount hzero
    · rw [UInt32.le_iff_toNat_le, hindex32] at hle
      exact Nat.not_lt.mpr hle hindex
  rw [if_neg hnonempty, if_neg hbelow, if_neg, hoffset32, hpayload, read_at_eq_chunk, hcountByte,
    ble_length_word hfits]
  -- a chunk is not larger than the capacity
  rw [UInt32.lt_iff_toNat_lt, UInt32.toNat_add, hheader, hpayload]
  omega

/-! ## What the receiver reads -/

/-- The two bytes of a little-endian number. -/
theorem le16_of_bytes (value : UInt16) :
    value.toUInt8.toUInt16 ||| (value >>> 8).toUInt8.toUInt16 <<< 8 = value := by
  have hvalue := value.toNat_lt
  have hhigh : value.toNat >>> 8 < 256 := by
    rw [Nat.shiftRight_eq_div_pow]
    omega
  apply UInt16.toNat_inj.mp
  rw [UInt16.toNat_or, UInt16.toNat_shiftLeft, UInt8.toNat_toUInt16, UInt8.toNat_toUInt16,
    UInt16.toNat_toUInt8, UInt16.toNat_toUInt8, UInt16.toNat_shiftRight]
  show value.toNat % 256 ||| (value.toNat >>> 8 % 256) <<< 8 % 65536 = value.toNat
  have hshift : (value.toNat >>> 8) <<< 8 % 65536 = (value.toNat >>> 8) <<< 8 := by
    rw [Nat.shiftLeft_eq]
    omega
  rw [Nat.mod_eq_of_lt hhigh, hshift, Nat.or_comm,
    ← Nat.shiftLeft_add_eq_or_of_lt (Nat.mod_lt value.toNat (by decide)), Nat.shiftLeft_eq,
    Nat.shiftRight_eq_div_pow]
  exact Nat.div_add_mod' value.toNat 256

namespace BleTransfer

variable (transfer : BleTransfer) {index : Nat}

/-- The header of a fragment is read back. -/
theorem header_fragment (index : Nat) :
    bleHeader (transfer.fragment index) = transfer.header index := by
  have hid := le16_of_bytes transfer.messageId
  have htotal := le16_of_bytes (UInt16.ofNat transfer.data.length)
  have hcrc := le16_of_bytes (lmAirCrc16Ccitt transfer.data)
  show BleHeader.mk (_ ||| _) _ _ (_ ||| _) (_ ||| _) = _
  exact (BleHeader.mk.injEq ..).mpr ⟨hid, rfl, rfl, htotal, hcrc⟩

/-- The payload of a fragment is its chunk. -/
theorem payload_fragment (index : Nat) :
    (transfer.fragment index).drop lmAirBleFragHeaderSize =
      chunk transfer.unit transfer.data index := rfl

/-- The receiver computes the unit from the header. -/
theorem header_unit (index : Nat) : (transfer.header index).unit = transfer.unit := by
  show ((UInt16.ofNat transfer.data.length).toNat + (UInt8.ofNat transfer.count).toNat - 1) /
    (UInt8.ofNat transfer.count).toNat = _
  rw [transfer.total_to_nat, transfer.count_to_nat, div_ceil_eq transfer.count_pos]
  rfl

/-- The receiver computes the offset from the header. -/
theorem header_offset (h : index < transfer.count) :
    (transfer.header index).offset = index * transfer.unit := by
  rw [BleHeader.offset, header_unit]
  exact congrArg (· * transfer.unit) (transfer.index_to_nat h)

/-- All chunks but the last one are full. -/
theorem header_expected_len (h : index < transfer.count) :
    (transfer.header index).expectedLen = (chunk transfer.unit transfer.data index).length := by
  rw [BleHeader.expectedLen, header_unit, transfer.header_offset h, chunk_length]
  have htotal : (transfer.header index).total.toNat = transfer.data.length :=
    transfer.total_to_nat
  have hindex : (transfer.header index).index.toNat = index := transfer.index_to_nat h
  have hcount : (transfer.header index).count.toNat = transfer.count := transfer.count_to_nat
  have hle := transfer.length_le
  rw [htotal, hindex, hcount]
  split
  · rename_i hlast
    rw [← hlast, Nat.succ_mul] at hle
    omega
  · have hnext := transfer.offset_lt (show index + 1 < transfer.count by omega)
    rw [Nat.succ_mul] at hnext
    omega

/-- The header of a fragment is plausible. -/
theorem header_plausible (h : index < transfer.count) : (transfer.header index).Plausible := by
  have htotal : (transfer.header index).total.toNat = transfer.data.length :=
    transfer.total_to_nat
  have hindex : (transfer.header index).index.toNat = index := transfer.index_to_nat h
  have hcount : (transfer.header index).count.toNat = transfer.count := transfer.count_to_nat
  refine ⟨fun hzero => ?_, ?_, ?_, fun hzero => ?_, ?_⟩
  · rw [hzero] at hcount
    exact Nat.ne_of_lt transfer.count_pos hcount
  · rw [hcount]
    exact transfer.count_le
  · rw [UInt8.lt_iff_toNat_lt, hindex, hcount]
    exact h
  · rw [hzero] at htotal
    exact Nat.ne_of_lt transfer.length_pos htotal
  · rw [htotal]
    exact transfer.fits

/-- The state has seen these fragments of the transfer: the bitmap says so, and their bytes are in
the buffer. -/
structure Holds (seen : List Nat) (state : LmAirBleReassembly) : Prop where
  active : state.active = true
  messageId_eq : state.messageId = transfer.messageId
  agrees : ∀ index, state.Matches (transfer.header index)
  flags_eq : state.flags = 0
  bits : ∀ j, state.receivedBitmap.toNat.testBit j = true ↔ j ∈ seen
  bytes : ∀ k < transfer.data.length, k / transfer.unit ∈ seen →
    state.data.bytes[k]? = transfer.data[k]?

/-- The state is as it was reset, or it has seen fragments of the transfer. -/
def Ready (seen : List Nat) (state : LmAirBleReassembly) : Prop :=
  (seen = [] ∧ state = .reset) ∨ transfer.Holds seen state

variable {transfer} {seen : List Nat} {state : LmAirBleReassembly}

/-- A fragment of the transfer does not start another message. -/
theorem Ready.start (h : transfer.Ready seen state) (index : Nat) :
    transfer.Holds seen (state.start (transfer.header index)) := by
  rcases h with ⟨rfl, rfl⟩ | h
  · rw [LmAirBleReassembly.start, if_pos (Or.inl (by decide))]
    refine ⟨rfl, rfl, fun _ => ⟨rfl, rfl, rfl⟩, rfl, fun j => ?_, fun k _ hmem => ?_⟩
    · show (0 : UInt64).toNat.testBit j = true ↔ _
      rw [UInt64.toNat_zero, Nat.zero_testBit]
      exact iff_of_false Bool.false_ne_true List.not_mem_nil
    · exact absurd hmem List.not_mem_nil
  · rw [LmAirBleReassembly.start, if_neg]
    · exact h
    · rintro (hinactive | hother)
      · exact hinactive h.active
      · exact hother h.messageId_eq

/-- A fragment ends within the bytes. -/
theorem chunk_fits (h : index < transfer.count) :
    index * transfer.unit + (chunk transfer.unit transfer.data index).length ≤
      transfer.data.length := by
  have hoffset := transfer.offset_lt h
  rw [chunk_length]
  omega

/-- The bytes of a chunk are those of the packet. -/
theorem chunk_get? (items : List UInt8) {size k : Nat} (index : Nat)
    (h : index * size ≤ k ∧ k < index * size + (chunk size items index).length) :
    (chunk size items index)[k - index * size]? = items[k]? := by
  obtain ⟨hle, hlt⟩ := h
  rw [chunk_length] at hlt
  rw [chunk, List.getElem?_take, if_pos (by omega), List.getElem?_drop, Nat.add_sub_cancel' hle]

/-- A fragment that is stored has been seen. -/
theorem Holds.store (h : transfer.Holds seen state) (hindex : index < transfer.count)
    {buffer : PacketBuffer} (hbuffer : buffer.bytes =
      writeAt state.data.bytes (index * transfer.unit)
        (chunk transfer.unit transfer.data index)) :
    transfer.Holds (seen ++ [index])
      { state with
        data := buffer
        receivedBitmap := state.receivedBitmap ||| 1 <<< (UInt8.ofNat index).toUInt64 } := by
  have hfits := chunk_fits hindex
  have hsize : state.data.bytes.length = lmAirMaxFrameSize := state.data.size
  have hpacket := transfer.fits
  have hnat : (UInt8.ofNat index).toUInt64.toNat = index :=
    (UInt8.toNat_toUInt64 _).trans (transfer.index_to_nat hindex)
  have hbit : (UInt8.ofNat index).toUInt64.toNat < 64 := by
    rw [hnat]
    exact Nat.lt_of_lt_of_le hindex transfer.count_le
  refine ⟨h.active, h.messageId_eq, h.agrees, h.flags_eq, fun j => ?_, fun k hk hmem => ?_⟩
  · show (_ ||| _ : UInt64).toNat.testBit j = true ↔ _
    rw [or_bit_iff _ hbit, hnat, h.bits, List.mem_append, List.mem_singleton]
  · show buffer.bytes[k]? = _
    rw [hbuffer, write_at_get? (by rw [hsize]; exact Nat.le_trans hfits hpacket)]
    split
    · rename_i hinside
      exact chunk_get? transfer.data index hinside
    · rename_i hbeside
      rcases List.mem_append.mp hmem with hold | hnew
      · exact h.bytes k hk hold
      · -- a byte of this fragment lies in its chunk
        have hquotient : k / transfer.unit = index := List.mem_singleton.mp hnew
        have hdivide := Nat.div_add_mod' k transfer.unit
        have hrest := Nat.mod_lt k transfer.unit_pos
        rw [hquotient] at hdivide
        refine absurd ⟨by omega, ?_⟩ hbeside
        rw [chunk_length]
        omega

/-- The buffer of a state that has seen all fragments. -/
theorem Holds.packet (h : transfer.Holds seen state) (hall : ∀ j < transfer.count, j ∈ seen) :
    state.data.bytes.take transfer.data.length = transfer.data := by
  apply List.ext_getElem?
  intro k
  rw [List.getElem?_take]
  split
  · rename_i hk
    refine h.bytes k hk (hall _ ?_)
    rw [Nat.div_lt_iff_lt_mul transfer.unit_pos]
    exact Nat.lt_of_lt_of_le hk transfer.length_le
  · rename_i hk
    exact (List.getElem?_eq_none (Nat.not_lt.mp hk)).symm

/-- The wanted bitmap has a bit for every fragment. -/
theorem wanted_test_bit (j : Nat) :
    (LmAirBleReassembly.wanted (UInt8.ofNat transfer.count)).toNat.testBit j =
      decide (j < transfer.count) := by
  have hnat := transfer.count_to_nat
  have hmax : transfer.count ≤ 64 := transfer.count_le
  unfold LmAirBleReassembly.wanted
  split
  · rename_i hall
    have hcount : transfer.count = 64 := by
      rw [← hnat, hall]
      rfl
    rw [hcount]
    exact Nat.testBit_two_pow_sub_one 64 j
  · rename_i hless
    have hlt : transfer.count < 64 := by
      refine Nat.lt_of_le_of_ne hmax fun heq => hless ?_
      rw [heq]
      rfl
    have hnat64 : (UInt8.ofNat transfer.count).toUInt64.toNat = transfer.count :=
      (UInt8.toNat_toUInt64 _).trans hnat
    rw [low_mask_test_bit (by rw [hnat64]; exact hlt), hnat64]

/-- The bitmap of a state is the wanted one when no fragment is missing. -/
theorem Holds.bitmap_iff (h : transfer.Holds seen state)
    (hseen : ∀ j ∈ seen, j < transfer.count) :
    state.receivedBitmap = LmAirBleReassembly.wanted (UInt8.ofNat transfer.count) ↔
      ∀ j < transfer.count, j ∈ seen := by
  constructor
  · intro heq j hj
    rw [← h.bits, heq, wanted_test_bit, decide_eq_true hj]
  · intro hall
    refine bitmap_ext fun j => ?_
    rw [Bool.eq_iff_iff, h.bits, wanted_test_bit, decide_eq_true_iff]
    exact ⟨hseen j, hall j⟩

/-- A fragment passes the first check. -/
theorem fragment_guard (h : index < transfer.count) :
    ¬ ((transfer.fragment index).length ≤ lmAirBleFragHeaderSize ∨
      (transfer.fragment index).getD 0 0 ≠ lmAirBleFragMagic ∨
      (transfer.fragment index).getD 1 0 ≠ lmAirBleFragVersion) := by
  have hlength : (transfer.fragment index).length =
      10 + (chunk transfer.unit transfer.data index).length := List.length_append
  have hoffset := transfer.offset_lt h
  have hunit := transfer.unit_pos
  rintro (hshort | hmagic | hversion)
  · rw [hlength, chunk_length, lmAirBleFragHeaderSize] at hshort
    omega
  · exact hmagic rfl
  · exact hversion rfl

/-- The call copies the bytes of a fragment of the transfer to their place. -/
theorem Ready.ingest_eq (h : transfer.Ready seen state) (hindex : index < transfer.count) :
    ∃ buffer : PacketBuffer,
      buffer.bytes = writeAt (state.start (transfer.header index)).data.bytes
        (index * transfer.unit) (chunk transfer.unit transfer.data index) ∧
      state.ingest (transfer.fragment index) =
        some (LmAirBleReassembly.receive
          { state.start (transfer.header index) with data := buffer }
          (transfer.header index)) := by
  have hfits := chunk_fits hindex
  have htotal : (transfer.header index).total.toNat = transfer.data.length :=
    transfer.total_to_nat
  have hplace : ¬ ((transfer.header index).total.toNat ≤ (transfer.header index).offset ∨
      (chunk transfer.unit transfer.data index).length ≠ (transfer.header index).expectedLen ∨
      (transfer.header index).total.toNat <
        (transfer.header index).offset + (chunk transfer.unit transfer.data index).length) := by
    rw [htotal, transfer.header_offset hindex, transfer.header_expected_len hindex]
    rintro (hbehind | hlength | hend)
    · exact Nat.not_lt.mpr hbehind (transfer.offset_lt hindex)
    · exact hlength rfl
    · exact Nat.not_lt.mpr hfits hend
  unfold LmAirBleReassembly.ingest
  rw [if_neg (fragment_guard hindex)]
  dsimp only
  rw [transfer.header_fragment, transfer.payload_fragment,
    if_neg (not_not.mpr (transfer.header_plausible hindex)),
    if_neg (not_not.mpr ((h.start index).agrees index)), if_neg hplace,
    transfer.header_offset hindex, PacketBuffer.copyTo,
    if_pos (Nat.le_trans hfits transfer.fits)]
  exact ⟨_, rfl, rfl⟩

/-- What the call does with a fragment: it is stored, and the packet is handed over when no fragment
is missing any more. -/
theorem Ready.ingest (h : transfer.Ready seen state) (hindex : index < transfer.count)
    (hseen : ∀ j ∈ seen, j < transfer.count) :
    ∃ next, transfer.Holds (seen ++ [index]) next ∧
      state.ingest (transfer.fragment index) =
        some (if ∀ j < transfer.count, j ∈ seen ++ [index] then
          (.reset, .complete ⟨transfer.data, 0xff, 0⟩) else (next, .more)) := by
  obtain ⟨buffer, hbuffer, hingest⟩ := h.ingest_eq hindex
  have hstored := (h.start index).store hindex hbuffer
  have hseen' : ∀ j ∈ seen ++ [index], j < transfer.count := by
    intro j hmem
    rcases List.mem_append.mp hmem with hold | hnew
    · exact hseen j hold
    · rw [List.mem_singleton.mp hnew]
      exact hindex
  refine ⟨_, hstored, ?_⟩
  rw [hingest]
  generalize state.start (transfer.header index) = started at *
  have hbitmap : started.receivedBitmap ||| 1 <<< (transfer.header index).index.toUInt64 =
      LmAirBleReassembly.wanted (transfer.header index).count ↔
        ∀ j < transfer.count, j ∈ seen ++ [index] := hstored.bitmap_iff hseen'
  refine congrArg some ?_
  unfold LmAirBleReassembly.receive
  dsimp only
  by_cases hall : ∀ j < transfer.count, j ∈ seen ++ [index]
  · have hpacket : buffer.bytes.take transfer.data.length = transfer.data := hstored.packet hall
    have htotal : (transfer.header index).total.toNat = transfer.data.length :=
      transfer.total_to_nat
    have hcrc : started.expectedCrc = lmAirCrc16Ccitt transfer.data := (hstored.agrees index).2.1
    have hflags : started.flags = 0 := hstored.flags_eq
    rw [if_pos hall, if_neg (not_not.mpr (hbitmap.mpr hall)), htotal, hpacket, hcrc, hflags,
      if_neg (not_not.mpr rfl)]
  · rw [if_neg hall, if_pos (mt hbitmap.mp hall)]
    rfl

/-- The fragments in any order: every call asks for more until the last one that is missing. -/
theorem Ready.ingest_all {before : List Nat} {last : Nat} (h : transfer.Ready seen state)
    (hseen : ∀ j ∈ seen, j < transfer.count) (hbefore : ∀ j ∈ before, j < transfer.count)
    (hlast : last < transfer.count) (hmissing : last ∉ seen ++ before)
    (hall : ∀ j < transfer.count, j ∈ seen ++ before ∨ j = last) :
    state.ingestAll ((before ++ [last]).map transfer.fragment) =
      some (.reset, .replicate before.length .more ++ [.complete ⟨transfer.data, 0xff, 0⟩]) := by
  induction before generalizing seen state with
  | nil =>
      obtain ⟨next, -, hingest⟩ := h.ingest hlast hseen
      rw [List.append_nil] at hall
      rw [if_pos fun j hj => by
        rw [List.mem_append, List.mem_singleton]
        exact hall j hj] at hingest
      show (state.ingest (transfer.fragment last)).bind _ = _
      rw [hingest]
      rfl
  | cons index before ih =>
      obtain ⟨hindex, hbefore⟩ := List.forall_mem_cons.mp hbefore
      obtain ⟨next, hnext, hingest⟩ := h.ingest hindex hseen
      have happend : seen ++ index :: before = seen ++ [index] ++ before := by
        rw [List.append_assoc, List.singleton_append]
      rw [happend] at hmissing hall
      rw [if_neg fun hcomplete =>
        hmissing (List.mem_append_left _ (hcomplete last hlast))] at hingest
      have hrest := ih (Or.inr hnext) (List.forall_mem_append.mpr
        ⟨hseen, List.forall_mem_singleton.mpr hindex⟩) hbefore hmissing hall
      show (state.ingest (transfer.fragment index)).bind _ = _
      rw [hingest]
      show (next.ingestAll ((before ++ [last]).map transfer.fragment)).bind _ = _
      rw [hrest]
      rfl

end BleTransfer

/-- Every fragment of a packet is made, a fresh reassembly hands the packet over exactly at the last
fragment that is missing, and no fragments at all make it write outside its buffer. -/
theorem ble_round_trip (packet : LmAirPacket) (messageId : UInt16) (att out : UInt32)
    (hlength : 1 ≤ packet.data.length ∧ packet.data.length ≤ lmAirMaxFrameSize)
    (hcount : 1 ≤ lmAirBleFragmentCount (UInt32.ofNat packet.data.length) att ∧
      lmAirBleFragmentCount (UInt32.ofNat packet.data.length) att ≤ 64) (hout : att ≤ out) :
    ∃ fragment : Nat → List UInt8,
      (∀ index < (lmAirBleFragmentCount (UInt32.ofNat packet.data.length) att).toNat,
        lmAirBleMakeFragment packet messageId (UInt8.ofNat index) att out =
          some (fragment index)) ∧
      (∀ before last,
        (∀ index ∈ before ++ [last],
          index < (lmAirBleFragmentCount (UInt32.ofNat packet.data.length) att).toNat) →
        (∀ index < (lmAirBleFragmentCount (UInt32.ofNat packet.data.length) att).toNat,
          index ∈ before ++ [last]) → last ∉ before →
        LmAirBleReassembly.reset.ingestAll ((before ++ [last]).map fragment) =
          some (.reset, .replicate before.length .more ++ [.complete ⟨packet.data, 0xff, 0⟩])) ∧
      ∀ fragments, (LmAirBleReassembly.reset.ingestAll fragments).isSome = true := by
  have hnonzero : lmAirBleFragmentCount (UInt32.ofNat packet.data.length) att ≠ 0 := by
    intro hzero
    rw [hzero] at hcount
    exact absurd hcount.1 (by decide)
  refine ⟨(BleTransfer.ofCount packet messageId att hlength.1 hlength.2 hnonzero).fragment,
    fun index hindex => ble_make_fragment_eq hlength.1 hlength.2 hnonzero hout hindex,
    fun before last hvalid hall hmissing => ?_,
    fun fragments => LmAirBleReassembly.ingest_all_is_some _ fragments⟩
  obtain ⟨hbefore, hlast⟩ := List.forall_mem_append.mp hvalid
  have hready : (BleTransfer.ofCount packet messageId att hlength.1 hlength.2 hnonzero).Ready []
      .reset := Or.inl ⟨rfl, rfl⟩
  refine hready.ingest_all (fun _ hmem => absurd hmem List.not_mem_nil) hbefore
    (hlast last (List.mem_singleton.mpr rfl)) hmissing fun index hindex => ?_
  exact (List.mem_append.mp (hall index hindex)).imp_right List.mem_singleton.mp

/-- Five bytes in notifications with room for two: a fragment comes twice, and the last one is
short. -/
theorem ble_round_trip_sample : ∃ fragment : Nat → List UInt8,
    lmAirBleMakeFragment ⟨[1, 2, 3, 4, 5], 0, 0x01⟩ 42 2 12 12 = some (fragment 2) ∧
      LmAirBleReassembly.reset.ingestAll ([2, 0, 2, 1].map fragment) =
        some (.reset, [.more, .more, .more, .complete ⟨[1, 2, 3, 4, 5], 0xff, 0⟩]) := by
  obtain ⟨fragment, hmade, hrun, -⟩ := ble_round_trip ⟨[1, 2, 3, 4, 5], 0, 0x01⟩ 42 12 12
    (by decide) (by decide) (by decide)
  exact ⟨fragment, hmade 2 (by decide), hrun [2, 0, 2] 1 (by decide) (by decide) (by decide)⟩

end LatentMesh.Esp32
