import Mathlib.Data.Nat.Bitwise

/-!
# Bitmaps of 64 bits

The bits of a `UInt64` that is used as a set of numbers below 64: a bit that is added
(`or_bit_iff`), and the bitmap of the first numbers (`low_mask_test_bit`).
-/

namespace LatentMesh.Lib

/-- A bit of the word as a power of two. -/
theorem bit_to_nat {i : UInt64} (h : i.toNat < 64) :
    ((1 : UInt64) <<< i).toNat = 2 ^ i.toNat := by
  rw [UInt64.toNat_shiftLeft, Nat.mod_eq_of_lt h, UInt64.toNat_one, Nat.one_shiftLeft]
  exact Nat.mod_eq_of_lt (Nat.pow_lt_pow_right (by decide) h)

/-- Adding a bit. -/
theorem or_bit_iff (bitmap : UInt64) {i : UInt64} (h : i.toNat < 64) (j : Nat) :
    (bitmap ||| (1 <<< i)).toNat.testBit j = true ↔
      bitmap.toNat.testBit j = true ∨ j = i.toNat := by
  rw [UInt64.toNat_or, bit_to_nat h, Nat.testBit_or, Nat.testBit_two_pow, Bool.or_eq_true,
    decide_eq_true_eq, eq_comm (a := j)]

/-- The bits below a number. -/
theorem low_mask_test_bit {count : UInt64} (h : count.toNat < 64) (j : Nat) :
    ((1 <<< count) - 1 : UInt64).toNat.testBit j = decide (j < count.toNat) := by
  rw [UInt64.toNat_sub_of_le, bit_to_nat h, UInt64.toNat_one, Nat.testBit_two_pow_sub_one]
  rw [UInt64.le_iff_toNat_le, bit_to_nat h, UInt64.toNat_one]
  exact Nat.one_le_two_pow

/-- Two words with the same bits are equal. -/
theorem bitmap_ext {first second : UInt64}
    (h : ∀ j, first.toNat.testBit j = second.toNat.testBit j) : first = second :=
  UInt64.toNat_inj.mp (Nat.eq_of_testBit_eq h)

end LatentMesh.Lib
