import LatentMesh.Lib.Bytes
import LatentMesh.Meshtastic.Error

/-!
# The protobuf wire format

The encoder and decoder of `protobuf.rs`: varints, `fixed32` and length-delimited fields. An encoder
is the bytes that it appends to its output, and `usize` has 64 bits.
-/

namespace LatentMesh.Meshtastic

open LatentMesh.Lib

/-- `WIRE_VARINT`. -/
def wireVarint : UInt8 := 0

/-- `WIRE_FIXED64`. -/
def wireFixed64 : UInt8 := 1

/-- `WIRE_LEN`. -/
def wireLen : UInt8 := 2

/-- `WIRE_FIXED32`. -/
def wireFixed32 : UInt8 := 5

/-- The four little-endian bytes of a 32-bit word. -/
def u32Le (value : UInt32) : List UInt8 := (u32Be value).reverse

/-- The 32-bit word that a four-byte string denotes. -/
def u32OfLe (bytes : List UInt8) : UInt32 := u32OfBe bytes.reverse

/-- The 64-bit word that an eight-byte string denotes. -/
def u64OfLe (bytes : List UInt8) : UInt64 := u64OfBe bytes.reverse

/-! ## Encoding -/

/-- A shift by seven divides by 128. -/
theorem shift_seven_to_nat (value : UInt64) : (value >>> 7).toNat = value.toNat / 128 := by
  rw [UInt64.toNat_shiftRight]
  exact Nat.shiftRight_eq_div_pow _ _

/-- Base-128 varint, low group first, with a continuation bit. -/
def encodeVarint (value : UInt64) : List UInt8 :=
  let byte := (value &&& 0x7f).toUInt8
  let rest := value >>> 7
  if _hmore : rest = 0 then [byte] else (byte ||| 0x80) :: encodeVarint rest
termination_by value.toNat
decreasing_by
  have hrest : (value >>> 7).toNat ≠ 0 := fun hzero => _hmore (UInt64.toNat_inj.mp hzero)
  show (value >>> 7).toNat < value.toNat
  rw [shift_seven_to_nat] at hrest ⊢
  omega

/-- `encode_tag`. -/
def encodeTag (field : UInt32) (wireType : UInt8) : List UInt8 :=
  encodeVarint ((field.toUInt64 <<< 3) ||| wireType.toUInt64)

/-- `encode_varint_field`. -/
def encodeVarintField (field : UInt32) (value : UInt64) : List UInt8 :=
  encodeTag field wireVarint ++ encodeVarint value

/-- `encode_fixed32_field`. -/
def encodeFixed32Field (field value : UInt32) : List UInt8 :=
  encodeTag field wireFixed32 ++ u32Le value

/-- `encode_bytes_field`. -/
def encodeBytesField (field : UInt32) (bytes : List UInt8) : List UInt8 :=
  encodeTag field wireLen ++ encodeVarint (UInt64.ofNat bytes.length) ++ bytes

/-! ## Decoding -/

/-- The loop of `decode_varint` from an index on. -/
def decodeVarintFrom (index : Nat) (value : UInt64) : List UInt8 → Result (UInt64 × Nat)
  | [] => .error .truncated
  | byte :: input =>
      let value := value ||| ((byte &&& 0x7f).toUInt64 <<< UInt64.ofNat (7 * index))
      if byte &&& 0x80 = 0 then .ok (value, index + 1) else decodeVarintFrom (index + 1) value input

/-- The value and the number of bytes it takes, at most ten. -/
def decodeVarint (input : List UInt8) : Result (UInt64 × Nat) :=
  decodeVarintFrom 0 0 (input.take 10)

/-- The value of a field, by its wire type. -/
inductive FieldValue where
  | varint (value : UInt64)
  | fixed64 (value : UInt64)
  | bytes (value : List UInt8)
  | fixed32 (value : UInt32)
  deriving DecidableEq, Repr

/-- The field at the front of the input, and how many bytes it takes. -/
def readField (input : List UInt8) : Result (UInt32 × FieldValue × Nat) :=
  (decodeVarint input).bind fun (tag, offset) =>
  let field := (tag >>> 3).toUInt32
  let wireType := (tag &&& 0x7).toUInt8
  if wireType = wireVarint then
    (decodeVarint (input.drop offset)).bind fun (value, len) =>
    .ok (field, .varint value, offset + len)
  else if wireType = wireFixed64 then
    if input.length < offset + 8 then .error .truncated
    else .ok (field, .fixed64 (u64OfLe ((input.drop offset).take 8)), offset + 8)
  else if wireType = wireLen then
    (decodeVarint (input.drop offset)).bind fun (len, lenBytes) =>
    let offset := offset + lenBytes
    -- `checked_add`, then the bounds of the slice
    if 2 ^ 64 ≤ offset + len.toNat ∨ input.length < offset + len.toNat then .error .invalidLength
    else .ok (field, .bytes ((input.drop offset).take len.toNat), offset + len.toNat)
  else if wireType = wireFixed32 then
    if input.length < offset + 4 then .error .truncated
    else .ok (field, .fixed32 (u32OfLe ((input.drop offset).take 4)), offset + 4)
  else .error .invalidWireType

/-- A varint takes no more bytes than there are. -/
theorem decode_varint_from_length {index : Nat} {value result : UInt64} {input : List UInt8}
    {consumed : Nat} (h : decodeVarintFrom index value input = .ok (result, consumed)) :
    index < consumed := by
  induction input generalizing index value with
  | nil => cases h
  | cons byte input ih =>
      rw [decodeVarintFrom] at h
      split at h
      · cases h
        exact Nat.lt_succ_self _
      · exact Nat.lt_of_succ_lt (ih h)

/-- A field takes at least a byte. -/
theorem read_field_consumed {input : List UInt8} {field : UInt32} {value : FieldValue}
    {consumed : Nat} (h : readField input = .ok (field, value, consumed)) : 0 < consumed := by
  obtain ⟨⟨tag, offset⟩, htag, h⟩ := Lib.bind_eq_ok_iff.mp h
  have hoffset : 0 < offset := decode_varint_from_length htag
  dsimp only at h
  split at h
  · obtain ⟨⟨_, _⟩, -, hfield⟩ := Lib.bind_eq_ok_iff.mp h
    cases hfield
    omega
  · split at h
    · split at h <;> cases h
      omega
    · split at h
      · obtain ⟨⟨_, _⟩, -, hfield⟩ := Lib.bind_eq_ok_iff.mp h
        dsimp only at hfield
        split at hfield <;> cases hfield
        omega
      · split at h
        · split at h <;> cases h
          omega
        · cases h

/-- `for_each_field`: the fields of the input in order, with the state that `visit` captures. -/
def forEachField {σ : Type} (visit : σ → UInt32 → FieldValue → Result σ) (state : σ)
    (input : List UInt8) : Result σ :=
  if _hempty : input = [] then .ok state
  else
    match _hfield : readField input with
    | .error error => .error error
    | .ok (field, value, consumed) =>
        (visit state field value).bind fun state => forEachField visit state (input.drop consumed)
termination_by input.length
decreasing_by
  have hconsumed := read_field_consumed _hfield
  have hlength := List.length_pos_iff.mpr _hempty
  rw [List.length_drop]
  omega

end LatentMesh.Meshtastic
