import Mathlib.Data.Nat.Bitwise
import LatentMesh.Lib.Base128
import LatentMesh.Meshtastic.Protobuf

/-!
# Varints

`encode_varint` writes the base-128 bytes of a value (`encode_varint_eq`). `decode_varint` reads the
number at the front of its input modulo `2 ^ 64`, when that takes at most ten bytes
(`decode_varint_eq_ok_iff`): the tenth byte has room for one bit, and the others are shifted out.
-/

namespace LatentMesh.Meshtastic

open LatentMesh.Lib

/-! ## Encoding -/

/-- The low seven bits are the rest by 128. -/
theorem low_seven_to_nat (value : UInt64) :
    ((value &&& 0x7f).toUInt8).toNat = value.toNat % 128 := by
  rw [UInt64.toNat_toUInt8, UInt64.toNat_and]
  show (value.toNat &&& 2 ^ 7 - 1) % 2 ^ 8 = _
  rw [Nat.and_two_pow_sub_one_eq_mod]
  omega

/-- The encoder writes the base-128 bytes of the value. -/
theorem encode_varint_eq (value : UInt64) : encodeVarint value = base128Bytes value.toNat := by
  induction hvalue : value.toNat using Nat.strong_induction_on generalizing value with
  | _ size ih =>
      subst hvalue
      have hshift := shift_seven_to_nat value
      have hbyte := low_seven_to_nat value
      rw [encodeVarint, base128Bytes]
      by_cases hsmall : value.toNat < 128
      · have hzero : value >>> 7 = 0 := UInt64.toNat_inj.mp (by
          rw [hshift, Nat.div_eq_of_lt hsmall]
          rfl)
        rw [if_pos hsmall, dif_pos hzero]
        refine congrArg (fun byte => [byte]) (UInt8.toNat_inj.mp ?_)
        rw [hbyte, UInt8.toNat_ofNat_of_lt' (Nat.lt_trans hsmall (by decide)),
          Nat.mod_eq_of_lt hsmall]
      · have hmore : value >>> 7 ≠ 0 := by
          intro hzero
          rw [hzero, UInt64.toNat_zero] at hshift
          omega
        have hor : (value.toNat % 128) ||| 2 ^ 7 * 1 = 2 ^ 7 * 1 + value.toNat % 128 := by
          rw [Nat.or_comm, Nat.two_pow_add_eq_or_of_lt (Nat.mod_lt _ (by decide))]
        rw [if_neg hsmall, dif_neg hmore, ih _ (by omega) (value >>> 7) rfl, hshift]
        refine congrArg (· :: _) (UInt8.toNat_inj.mp ?_)
        rw [UInt8.toNat_or, hbyte]
        show value.toNat % 128 ||| 2 ^ 7 * 1 = _
        rw [hor, UInt8.toNat_ofNat_of_lt' (show value.toNat % 128 + 128 < 2 ^ 8 by omega)]
        omega

/-- A value below `128 ^ (count + 1)` takes at most `count + 1` groups. -/
theorem encode_varint_length {count : Nat} {value : UInt64} (h : value.toNat < 128 ^ (count + 1)) :
    (encodeVarint value).length ≤ count + 1 := by
  rw [encode_varint_eq]
  exact base128_bytes_length h

/-- A varint has at most ten bytes. -/
theorem encode_varint_length_le (value : UInt64) : (encodeVarint value).length ≤ 10 :=
  encode_varint_length (Nat.lt_trans value.toNat_lt (by decide))

/-! ## Decoding -/

/-- A group that is joined above the accumulated bits, as far as 64 bits reach. -/
theorem join_group_to_nat {acc : UInt64} {byte : UInt8} {index : Nat} (hindex : index ≤ 9)
    (hacc : acc.toNat < 2 ^ (7 * index)) :
    (acc ||| ((byte &&& 0x7f).toUInt64 <<< UInt64.ofNat (7 * index))).toNat =
      (acc.toNat + byte.toNat % 128 * 2 ^ (7 * index)) % 2 ^ 64 := by
  have hgroup : (byte &&& 0x7f).toNat = byte.toNat % 128 := by
    rw [UInt8.toNat_and]
    exact Nat.and_two_pow_sub_one_eq_mod byte.toNat 7
  have hshift : (UInt64.ofNat (7 * index)).toNat % 64 = 7 * index := by
    rw [UInt64.toNat_ofNat_of_lt' (show 7 * index < 2 ^ 64 by omega)]
    exact Nat.mod_eq_of_lt (by omega)
  have hwidth : 2 ^ 64 = 2 ^ (64 - 7 * index) * 2 ^ (7 * index) := by
    rw [← Nat.pow_add, Nat.sub_add_cancel (by omega)]
  -- what is left of the group after the shift, and the accumulated bits below it
  have hkept : byte.toNat % 128 * 2 ^ (7 * index) % 2 ^ 64 =
      2 ^ (7 * index) * (byte.toNat % 128 % 2 ^ (64 - 7 * index)) := by
    rw [hwidth, Nat.mul_mod_mul_right, Nat.mul_comm]
  have hroom : 2 ^ (7 * index) * (byte.toNat % 128 % 2 ^ (64 - 7 * index)) + 2 ^ (7 * index) ≤
      2 ^ 64 := by
    rw [← Nat.mul_succ, hwidth, Nat.mul_comm]
    exact Nat.mul_le_mul_right _ (Nat.mod_lt _ (Nat.two_pow_pos _))
  have hsum : (acc.toNat + byte.toNat % 128 * 2 ^ (7 * index)) % 2 ^ 64 =
      acc.toNat + 2 ^ (7 * index) * (byte.toNat % 128 % 2 ^ (64 - 7 * index)) := by
    rw [Nat.add_mod, hkept, Nat.mod_eq_of_lt acc.toNat_lt]
    exact Nat.mod_eq_of_lt (by omega)
  rw [hsum, UInt64.toNat_or, UInt64.toNat_shiftLeft, UInt8.toNat_toUInt64, hgroup, hshift,
    Nat.shiftLeft_eq, hkept, Nat.or_comm, ← Nat.two_pow_add_eq_or_of_lt hacc, Nat.add_comm]

/-- The continuation bit is the one of weight 128. -/
theorem continuation_bit (byte : UInt8) : byte &&& 0x80 = 0 ↔ byte < 128 := by
  have hbit : (byte &&& 0x80).toNat = (byte.toNat.testBit 7).toNat * 2 ^ 7 := by
    rw [UInt8.toNat_and]
    exact Nat.and_two_pow byte.toNat 7
  have hbyte := byte.toNat_lt
  rw [← UInt8.toNat_inj, hbit, Nat.testBit_eq_decide_div_mod_eq, UInt8.lt_iff_toNat_lt]
  show _ ↔ byte.toNat < 128
  by_cases hsmall : byte.toNat < 128
  · simp [hsmall, Nat.div_eq_of_lt hsmall]
  · have hone : byte.toNat / 128 % 2 = 1 := by omega
    simp [hsmall, hone]

/-- The loop reads the number at the front on top of the groups that it has read. -/
theorem decode_varint_from_eq_ok_iff {index : Nat} {acc value : UInt64} {input : List UInt8}
    {consumed : Nat} (hindex : index + input.length ≤ 10) (hacc : acc.toNat < 2 ^ (7 * index)) :
    decodeVarintFrom index acc input = .ok (value, consumed) ↔
      ∃ front rest, input = front ++ rest ∧ Terminated front ∧ consumed = index + front.length ∧
        value.toNat = (acc.toNat + base128Nat front * 2 ^ (7 * index)) % 2 ^ 64 := by
  induction input generalizing index acc with
  | nil =>
      refine iff_of_false (fun h => by cases h) ?_
      rintro ⟨front, rest, hinput, hfront, -⟩
      rw [(List.append_eq_nil_iff.mp hinput.symm).1] at hfront
      exact hfront
  | cons byte input ih =>
      rw [List.length_cons] at hindex
      have hjoin := @join_group_to_nat acc byte index (by omega) hacc
      rw [decodeVarintFrom]
      by_cases hlast : byte < 128
      · rw [if_pos ((continuation_bit byte).mpr hlast)]
        constructor
        · intro h
          cases h
          exact ⟨[byte], input, rfl, (terminated_cons_of_lt hlast).mpr rfl, rfl,
            by rw [hjoin]; simp [base128Nat]⟩
        · rintro ⟨front, rest, hinput, hfront, rfl, hvalue⟩
          cases front with
          | nil => exact hfront.elim
          | cons _ front =>
              obtain ⟨rfl, -⟩ := List.cons.inj hinput
              obtain rfl := (terminated_cons_of_lt hlast).mp hfront
              refine congrArg _ (Prod.ext (UInt64.toNat_inj.mp ?_) rfl)
              rw [hvalue, hjoin]
              simp [base128Nat]
      · have hpow : 2 ^ (7 * (index + 1)) = 128 * 2 ^ (7 * index) := by
          rw [Nat.mul_succ, Nat.pow_add, Nat.mul_comm]
        have hgroup : byte.toNat % 128 * 2 ^ (7 * index) + 2 ^ (7 * index) ≤
            128 * 2 ^ (7 * index) := by
          rw [← Nat.succ_mul]
          exact Nat.mul_le_mul_right _ (Nat.mod_lt _ (by decide))
        have hnext : (acc ||| ((byte &&& 0x7f).toUInt64 <<< UInt64.ofNat (7 * index))).toNat <
            2 ^ (7 * (index + 1)) := by
          rw [hjoin, hpow]
          exact Nat.lt_of_le_of_lt (Nat.mod_le _ _) (by omega)
        have htotal : ∀ front : List UInt8,
            ((acc ||| ((byte &&& 0x7f).toUInt64 <<< UInt64.ofNat (7 * index))).toNat +
              base128Nat front * 2 ^ (7 * (index + 1))) % 2 ^ 64 =
            (acc.toNat + base128Nat (byte :: front) * 2 ^ (7 * index)) % 2 ^ 64 := by
          intro front
          rw [hjoin, Nat.mod_add_mod, hpow, base128Nat]
          congr 1
          ring
        rw [if_neg fun hbit => hlast ((continuation_bit byte).mp hbit), ih (by omega) hnext]
        constructor
        · rintro ⟨front, rest, rfl, hfront, rfl, hvalue⟩
          refine ⟨byte :: front, rest, rfl, (terminated_cons_of_le hlast).mpr hfront, ?_, ?_⟩
          · rw [List.length_cons, Nat.add_assoc, Nat.add_comm 1]
          · rw [hvalue, htotal]
        · rintro ⟨front, rest, hinput, hfront, rfl, hvalue⟩
          cases front with
          | nil => exact hfront.elim
          | cons _ front =>
              obtain ⟨rfl, rfl⟩ := List.cons.inj hinput
              refine ⟨front, rest, rfl, (terminated_cons_of_le hlast).mp hfront, ?_, ?_⟩
              · rw [List.length_cons, Nat.add_assoc, Nat.add_comm 1]
              · rw [hvalue, htotal]

/-- `decode_varint` reads the number at the front modulo `2 ^ 64`, when it takes at most ten
bytes. -/
theorem decode_varint_eq_ok_iff {input : List UInt8} {value : UInt64} {consumed : Nat} :
    decodeVarint input = .ok (value, consumed) ↔
      ∃ front rest, input = front ++ rest ∧ Terminated front ∧ front.length = consumed ∧
        consumed ≤ 10 ∧ value.toNat = base128Nat front % 2 ^ 64 := by
  rw [decodeVarint, decode_varint_from_eq_ok_iff (by simp) (by decide)]
  simp only [UInt64.toNat_zero, Nat.zero_add, Nat.mul_zero, Nat.pow_zero, Nat.mul_one]
  constructor
  · rintro ⟨front, rest, hinput, hfront, rfl, hvalue⟩
    have hlength := congrArg List.length hinput
    rw [List.length_append] at hlength
    refine ⟨front, rest ++ input.drop 10, ?_, hfront, rfl, ?_, hvalue⟩
    · rw [← List.append_assoc, ← hinput, List.take_append_drop]
    · have htake := List.length_take_le 10 input
      omega
  · rintro ⟨front, rest, rfl, hfront, rfl, hcount, hvalue⟩
    refine ⟨front, rest.take (10 - front.length), ?_, hfront, rfl, hvalue⟩
    rw [List.take_append, List.take_of_length_le hcount]

/-- The decoder reads back every varint, whatever follows. -/
theorem decode_varint_encode (value : UInt64) (rest : List UInt8) :
    decodeVarint (encodeVarint value ++ rest) = .ok (value, (encodeVarint value).length) := by
  refine decode_varint_eq_ok_iff.mpr
    ⟨encodeVarint value, rest, rfl, ?_, rfl, encode_varint_length_le value, ?_⟩
  · rw [encode_varint_eq]
    exact base128_bytes_terminated _
  · rw [encode_varint_eq, base128_nat_bytes, Nat.mod_eq_of_lt value.toNat_lt]

end LatentMesh.Meshtastic
