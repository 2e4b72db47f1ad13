import LatentMesh.Meshtastic.Varint

/-!
# Protobuf round trips

The decoder reads back every field that the encoder writes, whatever follows (`read_bytes_field`,
`for_each_append`).
-/

namespace LatentMesh.Meshtastic

open LatentMesh.Lib

/-! ## Fields -/

/-- The tag of a field gives its number and its wire type back. -/
theorem tag_sections (field : UInt32) (wireType : UInt8) (h : wireType.toNat < 8) :
    (((field.toUInt64 <<< 3) ||| wireType.toUInt64) >>> 3).toUInt32 = field ∧
      (((field.toUInt64 <<< 3) ||| wireType.toUInt64) &&& 0x7).toUInt8 = wireType := by
  have hfield := field.toNat_lt
  have htag : ((field.toUInt64 <<< 3) ||| wireType.toUInt64).toNat =
      2 ^ 3 * field.toNat + wireType.toNat := by
    rw [UInt64.toNat_or, UInt64.toNat_shiftLeft, UInt8.toNat_toUInt64, UInt32.toNat_toUInt64]
    show (field.toNat <<< 3) % 2 ^ 64 ||| wireType.toNat = _
    rw [Nat.shiftLeft_eq, Nat.mod_eq_of_lt (by omega), Nat.mul_comm,
      Nat.two_pow_add_eq_or_of_lt h]
  constructor
  · refine UInt32.toNat_inj.mp ?_
    rw [UInt64.toNat_toUInt32, UInt64.toNat_shiftRight, htag]
    show ((2 ^ 3 * field.toNat + wireType.toNat) >>> 3) % 2 ^ 32 = _
    rw [Nat.shiftRight_eq_div_pow]
    omega
  · refine UInt8.toNat_inj.mp ?_
    rw [UInt64.toNat_toUInt8, UInt64.toNat_and, htag]
    show (2 ^ 3 * field.toNat + wireType.toNat &&& 2 ^ 3 - 1) % 2 ^ 8 = _
    rw [Nat.and_two_pow_sub_one_eq_mod]
    omega

variable {field : UInt32}

/-- A varint field is read back. -/
theorem read_varint_field (value : UInt64) (rest : List UInt8) :
    readField (encodeVarintField field value ++ rest) =
      .ok (field, .varint value, (encodeVarintField field value).length) := by
  obtain ⟨hfield, hwire⟩ := tag_sections field wireVarint (by decide)
  rw [encodeVarintField, encodeTag, List.append_assoc, readField, decode_varint_encode]
  dsimp only [Except.bind]
  rw [hfield, hwire, if_pos rfl, List.drop_left, decode_varint_encode]
  simp [List.length_append]

/-- A field of four bytes is read back. -/
theorem read_fixed32_field (value : UInt32) (rest : List UInt8) :
    readField (encodeFixed32Field field value ++ rest) =
      .ok (field, .fixed32 value, (encodeFixed32Field field value).length) := by
  obtain ⟨hfield, hwire⟩ := tag_sections field wireFixed32 (by decide)
  have hlength : (u32Le value).length = 4 := by simp [u32Le]
  have hvalue : u32OfLe (u32Le value) = value := by simp [u32OfLe, u32Le]
  rw [encodeFixed32Field, encodeTag, List.append_assoc, readField, decode_varint_encode]
  dsimp only [Except.bind]
  rw [hfield, hwire, if_neg (by decide), if_neg (by decide), if_neg (by decide), if_pos rfl,
    if_neg (by simp only [List.length_append, hlength]; omega), List.drop_left,
    List.take_left' hlength, hvalue]
  simp [List.length_append, hlength]

/-- A field of bytes is read back. -/
theorem read_bytes_field {bytes : List UInt8} (rest : List UInt8)
    (h : (encodeBytesField field bytes).length < 2 ^ 64) :
    readField (encodeBytesField field bytes ++ rest) =
      .ok (field, .bytes bytes, (encodeBytesField field bytes).length) := by
  obtain ⟨hfield, hwire⟩ := tag_sections field wireLen (by decide)
  rw [encodeBytesField, List.length_append, List.length_append] at h
  have hlen : (UInt64.ofNat bytes.length).toNat = bytes.length :=
    UInt64.toNat_ofNat_of_lt' (show bytes.length < 2 ^ 64 by omega)
  rw [encodeBytesField, encodeTag, List.append_assoc, List.append_assoc, readField,
    decode_varint_encode]
  rw [encodeTag] at h
  dsimp only [Except.bind]
  rw [hfield, hwire, if_neg (by decide), if_neg (by decide), if_pos rfl, List.drop_left,
    decode_varint_encode]
  dsimp only [Except.bind]
  rw [hlen, if_neg (by simp only [List.length_append]; omega), ← List.drop_drop, List.drop_left,
    List.drop_left, List.take_left]
  simp [List.length_append, Nat.add_assoc]

/-! ## Messages -/

variable {σ : Type} {visit : σ → UInt32 → FieldValue → Result σ} {state : σ}

/-- A message without fields leaves the state as it is. -/
theorem for_each_nil : forEachField visit state [] = .ok state := by
  rw [forEachField, dif_pos rfl]

/-- A field at the front is visited, and then the rest. -/
theorem for_each_append {written rest : List UInt8} {value : FieldValue}
    (h : readField (written ++ rest) = .ok (field, value, written.length)) :
    forEachField visit state (written ++ rest) =
      (visit state field value).bind fun state => forEachField visit state rest := by
  have hwritten := read_field_consumed h
  have hne : written ++ rest ≠ [] := List.append_ne_nil_of_left_ne_nil
    (List.ne_nil_of_length_pos hwritten) _
  rw [forEachField, dif_neg hne]
  split
  · rename_i herror
    rw [h] at herror
    cases herror
  · rename_i hok
    rw [h] at hok
    cases hok
    rw [List.drop_left]

/-- A message of one field. -/
theorem for_each_single {written : List UInt8} {value : FieldValue}
    (h : readField (written ++ []) = .ok (field, value, written.length)) :
    forEachField visit state written = visit state field value := by
  have hwhole : forEachField visit state (written ++ []) =
      (visit state field value).bind fun state => forEachField visit state [] :=
    for_each_append h
  rw [List.append_nil] at hwhole
  rw [hwhole]
  cases visit state field value with
  | error error => rfl
  | ok next =>
      dsimp only [Except.bind]
      rw [for_each_nil]

end LatentMesh.Meshtastic
