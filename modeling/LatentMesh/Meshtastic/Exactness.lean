import LatentMesh.Meshtastic.ProtobufCodec

/-!
# What the decoder loses

`decode_varint` shifts the tenth byte of a varint out of its 64 bits, and `read_field` narrows the
field number to 32 bits. The varint at the front is read exactly when its tenth byte, if it has one,
is at most one (`varint_exact_iff`), and the field number of a tag when it fits 32 bits
(`tag_exact_iff`).
-/

namespace LatentMesh.Meshtastic

open LatentMesh.Lib

/-! ## Varints -/

/-- On this input, `decode_varint` returns the number of at most ten bytes at the front, when there
is one and it fits 64 bits, and an error otherwise. -/
def VarintExact (input : List UInt8) : Prop :=
  ∀ value consumed, decodeVarint input = .ok (value, consumed) ↔
    ∃ front rest, input = front ++ rest ∧ Terminated front ∧ front.length = consumed ∧
      consumed ≤ 10 ∧ base128Nat front < 2 ^ 64 ∧ value.toNat = base128Nat front

/-- A tenth byte that ends a varint is 0 or 1. -/
def TenthFits (input : List UInt8) : Prop :=
  (∀ byte ∈ input.take 9, ¬ byte < 128) →
    ∀ byte, input[9]? = some byte → byte < 2 ∨ ¬ byte < 128

variable {front rest input tag : List UInt8}

/-- A number of at most ten bytes fits 64 bits exactly when its tenth byte does. -/
theorem base128_fits_iff (hfront : Terminated front) (hcount : front.length ≤ 10) :
    base128Nat front < 2 ^ 64 ↔ TenthFits (front ++ rest) := by
  obtain rfl | ⟨init, last, rfl⟩ := List.eq_nil_or_concat front
  · exact hfront.elim
  · rw [List.concat_eq_append] at hfront hcount ⊢
    obtain ⟨hinit, hlast⟩ := Terminated.append_singleton_iff.mp hfront
    rw [List.length_append, List.length_singleton] at hcount
    have hbound := base128_nat_lt init
    by_cases hten : init.length = 9
    · have htake : (init ++ [last] ++ rest).take 9 = init := by
        rw [List.append_assoc, List.take_left' hten]
      have hget : (init ++ [last] ++ rest)[9]? = some last := by
        rw [← hten, List.append_assoc]
        simp
      rw [hten] at hbound
      have hvalue : base128Nat (init ++ [last]) < 2 ^ 64 ↔ last.toNat < 2 := by
        have hgroup : last.toNat % 128 = last.toNat :=
          Nat.mod_eq_of_lt (UInt8.lt_iff_toNat_lt.mp hlast)
        rw [base128_nat_append, hten, base128Nat, base128Nat, hgroup]
        omega
      rw [hvalue, TenthFits, htake, hget]
      constructor
      · rintro hsmall - byte hbyte
        cases hbyte
        exact Or.inl (UInt8.lt_iff_toNat_lt.mpr hsmall)
      · intro hfits
        rcases hfits hinit last rfl with hsmall | hmore
        · exact UInt8.lt_iff_toNat_lt.mp hsmall
        · exact absurd hlast hmore
    · -- a shorter number always fits, and ends before the tenth byte
      have hshort : init.length + 1 ≤ 9 := by omega
      refine iff_of_true ?_ fun hgo => absurd hlast (hgo last ?_)
      · refine Nat.lt_of_lt_of_le (base128_nat_lt _) ?_
        rw [List.length_append, List.length_singleton]
        exact Nat.le_trans (Nat.pow_le_pow_right (by decide) hshort) (by decide)
      · have hlength : (init ++ [last]).length ≤ 9 := by simpa using hshort
        rw [List.take_append, List.take_of_length_le hlength]
        exact List.mem_append_left _ (List.mem_append_right _ (List.mem_singleton_self last))

/-- A varint is read exactly when its tenth byte fits. -/
theorem varint_exact_iff : VarintExact input ↔ TenthFits input := by
  constructor
  · intro hexact hgo byte hbyte
    by_contra hwide
    rw [not_or, not_not] at hwide
    obtain ⟨hten, hget⟩ := List.getElem?_eq_some_iff.mp hbyte
    have hsplit : input = (input.take 9 ++ [byte]) ++ input.drop 10 := by
      rw [← hget, List.take_append_getElem, List.take_append_drop]
    have hfront : Terminated (input.take 9 ++ [byte]) :=
      Terminated.append_singleton_iff.mpr ⟨hgo, hwide.2⟩
    have hlength : (input.take 9 ++ [byte]).length = 10 := by
      rw [List.length_append, List.length_take_of_le (by omega), List.length_singleton]
    have hread : decodeVarint input =
        .ok (UInt64.ofNat (base128Nat (input.take 9 ++ [byte])), 10) :=
      decode_varint_eq_ok_iff.mpr
        ⟨_, _, hsplit, hfront, hlength, Nat.le_refl _, UInt64.toNat_ofNat'⟩
    obtain ⟨front, rest, hinput, hterminated, -, -, hfits, -⟩ := (hexact _ _).mp hread
    rw [← hfront.eq_of_append hterminated (hsplit.symm.trans hinput),
      base128_fits_iff hfront (Nat.le_of_eq hlength), ← hsplit] at hfits
    exact (hfits hgo byte hbyte).elim hwide.1 (absurd hwide.2)
  · intro hfits value consumed
    rw [decode_varint_eq_ok_iff]
    constructor
    · rintro ⟨front, rest, rfl, hfront, hlength, hcount, hvalue⟩
      have hsmall := (base128_fits_iff hfront (hlength ▸ hcount)).mpr hfits
      exact ⟨front, rest, rfl, hfront, hlength, hcount, hsmall,
        hvalue.trans (Nat.mod_eq_of_lt hsmall)⟩
    · rintro ⟨front, rest, rfl, hfront, hlength, hcount, hsmall, hvalue⟩
      exact ⟨front, rest, rfl, hfront, hlength, hcount,
        hvalue.trans (Nat.mod_eq_of_lt hsmall).symm⟩

/-! ## Field numbers -/

/-- Whatever follows the tag, `read_field` reports its number without the wire type, or an error. -/
def TagExact (tag : List UInt8) : Prop :=
  ∀ rest field value consumed, readField (tag ++ rest) = .ok (field, value, consumed) →
    field.toNat = base128Nat tag / 8

/-- The tag takes too many bytes, its field number fits 32 bits, or its wire type is unknown. -/
def TagFits (tag : List UInt8) : Prop :=
  10 < tag.length ∨ base128Nat tag / 8 < 2 ^ 32 ∨ base128Nat tag % 8 ∉ [0, 1, 2, 5]

/-- The two tags can be read as tags of one field. -/
def SameField (tag other : List UInt8) : Prop :=
  ∃ rest more field value read otherValue otherRead,
    readField (tag ++ rest) = .ok (field, value, read) ∧
      readField (other ++ more) = .ok (field, otherValue, otherRead)

/-- The field number and the wire type that `read_field` takes from a decoded tag. -/
theorem tag_parts_to_nat (tag : UInt64) :
    (tag >>> 3).toUInt32.toNat = tag.toNat / 8 % 2 ^ 32 ∧
      (tag &&& 0x7).toUInt8.toNat = tag.toNat % 8 := by
  constructor
  · rw [UInt64.toNat_toUInt32, UInt64.toNat_shiftRight]
    show (tag.toNat >>> 3) % 2 ^ 32 = _
    rw [Nat.shiftRight_eq_div_pow]
  · rw [UInt64.toNat_toUInt8, UInt64.toNat_and]
    show (tag.toNat &&& 2 ^ 3 - 1) % 2 ^ 8 = _
    rw [Nat.and_two_pow_sub_one_eq_mod]
    omega

variable {field : UInt32} {value : FieldValue} {consumed : Nat}

/-- What `read_field` takes from a tag that it accepts. -/
theorem read_field_tag (htag : Terminated tag)
    (h : readField (tag ++ rest) = .ok (field, value, consumed)) :
    tag.length ≤ 10 ∧ field.toNat = base128Nat tag / 8 % 2 ^ 32 ∧
      base128Nat tag % 8 ∈ [0, 1, 2, 5] := by
  obtain ⟨⟨number, offset⟩, hdecode, h⟩ := Lib.bind_eq_ok_iff.mp h
  obtain ⟨front, more, hinput, hfront, rfl, hcount, hvalue⟩ := decode_varint_eq_ok_iff.mp hdecode
  obtain rfl := htag.eq_of_append hfront hinput
  obtain ⟨hfield, hwire⟩ := tag_parts_to_nat number
  rw [hvalue] at hfield hwire
  have hknown : field = (number >>> 3).toUInt32 ∧
      (number &&& 0x7).toUInt8 ∈ [wireVarint, wireFixed64, wireLen, wireFixed32] := by
    dsimp only at h
    split at h
    · rename_i heq
      obtain ⟨⟨_, _⟩, -, hresult⟩ := Lib.bind_eq_ok_iff.mp h
      cases hresult
      exact ⟨rfl, by simp [heq]⟩
    · split at h
      · rename_i heq
        split at h <;> cases h
        exact ⟨rfl, by simp [heq]⟩
      · split at h
        · rename_i heq
          obtain ⟨⟨_, _⟩, -, hresult⟩ := Lib.bind_eq_ok_iff.mp h
          dsimp only at hresult
          split at hresult <;> cases hresult
          exact ⟨rfl, by simp [heq]⟩
        · split at h
          · rename_i heq
            split at h <;> cases h
            exact ⟨rfl, by simp [heq]⟩
          · cases h
  obtain ⟨rfl, hmem⟩ := hknown
  refine ⟨hcount, hfield.trans (by omega), ?_⟩
  have hmod : base128Nat tag % 2 ^ 64 % 8 = base128Nat tag % 8 := by omega
  rw [← hmod, ← hwire]
  exact List.mem_map_of_mem (f := UInt8.toNat) hmem

/-- A tag of a known wire type is accepted before eight zero bytes. -/
theorem read_field_known (htag : Terminated tag) (hcount : tag.length ≤ 10)
    (hwire : base128Nat tag % 8 ∈ [0, 1, 2, 5]) :
    ∃ field value consumed,
      readField (tag ++ List.replicate 8 0) = .ok (field, value, consumed) := by
  have hdecode : decodeVarint (tag ++ List.replicate 8 0) =
      .ok (UInt64.ofNat (base128Nat tag), tag.length) :=
    decode_varint_eq_ok_iff.mpr ⟨tag, _, rfl, htag, rfl, hcount, UInt64.toNat_ofNat'⟩
  have htype := (tag_parts_to_nat (UInt64.ofNat (base128Nat tag))).2
  have hmod : base128Nat tag % 2 ^ 64 % 8 = base128Nat tag % 8 := by omega
  have hlength : (tag ++ List.replicate 8 (0 : UInt8)).length = tag.length + 8 := by simp
  have hzero : decodeVarint (List.replicate 8 0) = .ok (0, 1) := rfl
  rw [UInt64.toNat_ofNat', hmod] at htype
  rw [readField, hdecode]
  dsimp only [Except.bind]
  generalize (UInt64.ofNat (base128Nat tag) &&& 0x7).toUInt8 = wire at htype ⊢
  generalize (UInt64.ofNat (base128Nat tag) >>> 3).toUInt32 = field
  rw [← htype] at hwire
  simp only [List.mem_cons, List.not_mem_nil, or_false] at hwire
  rw [List.drop_left, hzero, hlength]
  dsimp only
  rcases hwire with h | h | h | h
  · obtain rfl : wire = wireVarint := UInt8.toNat_inj.mp h
    exact ⟨field, _, _, rfl⟩
  · obtain rfl : wire = wireFixed64 := UInt8.toNat_inj.mp h
    rw [if_neg (by decide), if_pos rfl, if_neg (by omega)]
    exact ⟨field, _, _, rfl⟩
  · obtain rfl : wire = wireLen := UInt8.toNat_inj.mp h
    rw [if_neg (by decide), if_neg (by decide), if_pos rfl, if_neg (by simp; omega)]
    exact ⟨field, _, _, rfl⟩
  · obtain rfl : wire = wireFixed32 := UInt8.toNat_inj.mp h
    rw [if_neg (by decide), if_neg (by decide), if_neg (by decide), if_pos rfl,
      if_neg (by omega)]
    exact ⟨field, _, _, rfl⟩

/-- A tag is read exactly when its value fits. -/
theorem tag_exact_iff (htag : Terminated tag) : TagExact tag ↔ TagFits tag := by
  constructor
  · intro hexact
    by_cases hcount : tag.length ≤ 10
    · by_cases hwire : base128Nat tag % 8 ∈ [0, 1, 2, 5]
      · obtain ⟨field, value, consumed, hread⟩ := read_field_known htag hcount hwire
        refine Or.inr (Or.inl ?_)
        rw [← hexact _ _ _ _ hread]
        exact field.toNat_lt
      · exact Or.inr (Or.inr hwire)
    · exact Or.inl (Nat.not_le.mp hcount)
  · intro hfits rest field value consumed hread
    obtain ⟨hcount, hfield, hwire⟩ := read_field_tag htag hread
    rcases hfits with hlong | hsmall | hunknown
    · exact absurd hcount (Nat.not_le.mpr hlong)
    · rw [hfield, Nat.mod_eq_of_lt hsmall]
    · exact absurd hwire hunknown

/-- Exact tags of one wire type that are not the same number are not tags of one field. -/
theorem not_same_field {other : List UInt8} (htag : TagExact tag) (hother : TagExact other)
    (hwire : base128Nat tag % 8 = base128Nat other % 8) (hne : base128Nat tag ≠ base128Nat other) :
    ¬ SameField tag other := by
  rintro ⟨rest, more, field, value, read, otherValue, otherRead, hread, hmore⟩
  have hfield := htag _ _ _ _ hread
  have hsame := hother _ _ _ _ hmore
  omega

/-- When the protobuf primitives are exact: a varint when its tenth byte fits, a field number when
it fits 32 bits; the encoding of a value always. -/
theorem protobuf_exact_iff (input rest tag other : List UInt8) (value : UInt64) :
    (VarintExact input ↔ TenthFits input) ∧
    decodeVarint (encodeVarint value ++ rest) = .ok (value, (encodeVarint value).length) ∧
    (Terminated tag → (TagExact tag ↔ TagFits tag)) ∧
    (Terminated tag → Terminated other → TagFits tag → TagFits other →
      base128Nat tag % 8 = base128Nat other % 8 → base128Nat tag ≠ base128Nat other →
      ¬ SameField tag other) := by
  refine ⟨varint_exact_iff, decode_varint_encode value rest, tag_exact_iff, ?_⟩
  intro htag hother hfits hotherFits hwire hne
  exact not_same_field ((tag_exact_iff htag).mpr hfits) ((tag_exact_iff hother).mpr hotherFits)
    hwire hne

/-- A varint of ten bytes for `2 ^ 63 - 1 + 2 * 2 ^ 63`. -/
def wideVarint : List UInt8 := List.replicate 9 0xff ++ [0x02]

/-- The tag of field `2 ^ 32 + 1`, wire type 0. -/
def wideTag : List UInt8 := [0x88, 0x80, 0x80, 0x80, 0x80, 0x01]

/-- The over-wide tenth byte is accepted, and two tags are read as field 1. -/
theorem protobuf_not_exact :
    (decodeVarint wideVarint = .ok (0x7fffffffffffffff, 10) ∧
      base128Nat wideVarint = 2 ^ 63 - 1 + 2 * 2 ^ 63) ∧
    (base128Nat wideTag = (2 ^ 32 + 1) * 8 ∧
      readField (wideTag ++ [0x07]) = .ok (1, .varint 7, 7) ∧
      readField ([0x08] ++ [0x07]) = .ok (1, .varint 7, 2)) ∧
    ¬ ((∀ input, VarintExact input) ∨ (∀ tag, Terminated tag → TagExact tag)) := by
  have hwide : ¬ TenthFits wideVarint := by
    intro hfits
    have hmore : ∀ byte ∈ wideVarint.take 9, ¬ byte < 128 := by
      intro byte hbyte
      obtain rfl := List.eq_of_mem_replicate (show byte ∈ List.replicate 9 0xff from hbyte)
      decide
    exact absurd (hfits hmore 2 rfl) (by decide)
  have htag : Terminated wideTag := by simp [wideTag, Terminated]
  have hread : readField (wideTag ++ [0x07]) = .ok (1, .varint 7, 7) := by decide
  refine ⟨⟨by decide, by decide⟩, ⟨by decide, hread, by decide⟩, ?_⟩
  rintro (hexact | hexact)
  · exact hwide (varint_exact_iff.mp (hexact wideVarint))
  · exact absurd (hexact wideTag htag _ _ _ _ hread) (by decide)

end LatentMesh.Meshtastic
