import Mathlib.Data.List.Basic
import LatentMesh.Lib.Crc

/-!
# CRC-32C

The table-free Castagnoli CRC of `crc32c.rs`: a reflected 32-bit register, one bit at a time,
with the conventional initial and final complement.
-/

namespace LatentMesh.AirCore

open LatentMesh.Lib

/-- The reflected Castagnoli polynomial. -/
def castagnoli : UInt32 := 0x82f63b78

/-- One iteration of the inner loop of `crc32c`. -/
def crc32cBit (crc : UInt32) : UInt32 :=
  let mask := 0 - (crc &&& 1)
  (crc >>> 1) ^^^ (castagnoli &&& mask)

/-- The body of the outer loop of `crc32c`: absorb one byte in eight bit steps. -/
def crc32cByte (crc : UInt32) (byte : UInt8) : UInt32 :=
  (List.range 8).foldl (fun crc _ => crc32cBit crc) (crc ^^^ byte.toUInt32)

/-- `crc32c`: the CRC-32C of a byte string. -/
def crc32c (bytes : List UInt8) : UInt32 :=
  ~~~ bytes.foldl crc32cByte (~~~ 0)

/-- The wrapping mask of `crc32cBit` is all ones when the low bit is set, and zero otherwise. -/
theorem crc_mask (x : BitVec 32) :
    0 - (x &&& 1#32) = if x.getLsbD 0 then BitVec.allOnes 32 else 0 := by
  rw [BitVec.and_one_eq_setWidth_ofBool_getLsbD]
  cases x.getLsbD 0 <;> rfl

/-- The inner loop of `crc32c` is a step of the reflected CRC register. -/
theorem crc32c_bit_eq_step (crc : UInt32) :
    (crc32cBit crc).toBitVec = crcStep castagnoli.toBitVec crc.toBitVec := by
  have hmask : (0 - (crc &&& 1)).toBitVec =
      if crc.toBitVec.getLsbD 0 then BitVec.allOnes 32 else 0 := crc_mask crc.toBitVec
  simp only [crc32cBit, crcStep, UInt32.toBitVec_xor, UInt32.toBitVec_and, hmask]
  cases crc.toBitVec.getLsbD 0 with
  | false => simp
  | true =>
      rw [if_pos rfl, if_pos rfl, BitVec.and_allOnes]
      simp

/-- Eight iterations of the inner loop are eight steps of the register. -/
theorem crc32c_byte_eq_steps (crc : UInt32) (byte : UInt8) :
    (crc32cByte crc byte).toBitVec =
      (crcStep castagnoli.toBitVec)^[8] (crc ^^^ byte.toUInt32).toBitVec := by
  simp [crc32cByte, List.range_succ, crc32c_bit_eq_step, Function.iterate_succ_apply']

example : crc32c [0x31, 0x32, 0x33, 0x34, 0x35, 0x36, 0x37, 0x38, 0x39] = 0xe3069283 := by
  decide +kernel

end LatentMesh.AirCore
