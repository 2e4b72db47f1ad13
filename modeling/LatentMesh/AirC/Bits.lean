import LatentMesh.AirC.Fec
import LatentMesh.AirCore.Correction
import LatentMesh.Lib.Bytes

/-!
# Packed bits

A buffer as a bit string (`bitsOf`), the accessors `getBit` and `setBit` on it, and the packing of
the Rust side, `bytesToBitsMsb` and `packBits`, in the same terms.
-/

namespace LatentMesh.AirC

open LatentMesh.Lib LatentMesh.AirCore

/-- Bit `i` of a buffer, most significant bit of each byte first. -/
def byteBit (data : List UInt8) (i : Nat) : Bool :=
  (data.getD (i / 8) 0).toBitVec.getMsbD (i % 8)

/-- The first `count` bits of a buffer. -/
def bitsOf (data : List UInt8) (count : Nat) : List Bool :=
  (List.range count).map (byteBit data)

@[simp] theorem bits_of_length (data : List UInt8) (count : Nat) :
    (bitsOf data count).length = count := by
  simp [bitsOf]

/-- One bit more of some bytes. -/
theorem bits_of_succ (data : List UInt8) (count : Nat) :
    bitsOf data (count + 1) = bitsOf data count ++ [byteBit data count] := by
  simp [bitsOf, List.range_succ]

/-- A bit among the first bits of some bytes. -/
theorem bits_of_get (data : List UInt8) {count i : Nat} (h : i < count) :
    (bitsOf data count)[i]? = some (byteBit data i) := by
  simp [bitsOf, h]

/-- The first bits of two buffers are equal when every one of them is. -/
theorem bits_of_eq_iff {data data' : List UInt8} {count : Nat} :
    bitsOf data count = bitsOf data' count ↔ ∀ i < count, byteBit data i = byteBit data' i := by
  simp [bitsOf]

/-! ## One byte -/

/-- The place of a bit in its byte. -/
theorem and_seven (i : Nat) : i &&& 7 = i % 8 := Nat.and_two_pow_sub_one_eq_mod i 3

/-- The shift and mask of `get_bit` read a bit of a byte. -/
theorem get_byte_bit (byte : UInt8) {i : Nat} (h : i < 8) :
    (byte.toNat >>> (7 - i)) &&& 1 = (byte.toBitVec.getMsbD i).toNat := by
  have hget : byte.toBitVec.getMsbD i = byte.toNat.testBit (7 - i) := by
    rw [BitVec.getMsbD, decide_eq_true h, Bool.true_and]
    rfl
  rw [hget, Nat.toNat_testBit, Nat.shiftRight_eq_div_pow]
  exact Nat.and_one_is_mod _

/-- The mask of a bit has that bit only. -/
theorem mask_byte_bit : ∀ i < 8, ∀ j < 8,
    (UInt8.ofNat (1 <<< (7 - i))).toBitVec.getMsbD j = (i == j) := by
  decide

/-- Setting a bit of a byte changes no other. -/
theorem set_byte_bit (byte : UInt8) {i j : Nat} (hi : i < 8) (hj : j < 8) :
    (byte ||| UInt8.ofNat (1 <<< (7 - i))).toBitVec.getMsbD j =
      (byte.toBitVec.getMsbD j || i == j) := by
  rw [UInt8.toBitVec_or, BitVec.getMsbD_or, mask_byte_bit i hi j hj]

/-- Clearing a bit of a byte changes no other. -/
theorem clear_byte_bit (byte : UInt8) {i j : Nat} (hi : i < 8) (hj : j < 8) :
    (byte &&& ~~~ UInt8.ofNat (1 <<< (7 - i))).toBitVec.getMsbD j =
      (byte.toBitVec.getMsbD j && i != j) := by
  rw [UInt8.toBitVec_and, UInt8.toBitVec_not, BitVec.getMsbD_and, BitVec.getMsbD_not,
    mask_byte_bit i hi j hj]
  simp [hj, bne]

/-- A byte is determined by its bits. -/
theorem byte_ext {byte byte' : UInt8}
    (h : ∀ i < 8, byte.toBitVec.getMsbD i = byte'.toBitVec.getMsbD i) : byte = byte' :=
  UInt8.toBitVec_inj.mp (BitVec.eq_of_getMsbD_eq h)

/-! ## Accessors -/

/-- `get_bit` reads a bit. -/
theorem get_bit_eq (data : List UInt8) (i : Nat) : getBit data i = (byteBit data i).toNat := by
  rw [getBit, and_seven, get_byte_bit _ (Nat.mod_lt i (by decide)), byteBit,
    Nat.shiftRight_eq_div_pow]

@[simp] theorem set_bit_length (data : List UInt8) (i value : Nat) :
    (setBit data i value).length = data.length := List.length_modify _ _ _

/-- `setBit` changes one bit. -/
theorem byte_bit_set_bit (data : List UInt8) {i : Nat} (h : i < 8 * data.length) (value : Bool)
    (j : Nat) :
    byteBit (setBit data i value.toNat) j = if i = j then value else byteBit data j := by
  have hi : i / 8 < data.length := by omega
  have hindex : i >>> 3 = i / 8 := Nat.shiftRight_eq_div_pow i 3
  have hmask : bitMask i = UInt8.ofNat (1 <<< (7 - i % 8)) := by rw [bitMask, and_seven]
  rw [byteBit, setBit, hindex, hmask]
  by_cases hbyte : i / 8 = j / 8
  · have hj : j / 8 < data.length := by omega
    have hsame : i = j ↔ i % 8 = j % 8 := by omega
    have hi8 := Nat.mod_lt i (show 0 < 8 by decide)
    have hj8 := Nat.mod_lt j (show 0 < 8 by decide)
    rw [List.getD_eq_getElem _ _ (by simpa using hj), List.getElem_modify, if_pos hbyte, byteBit,
      List.getD_eq_getElem data 0 hj, if_congr hsame rfl rfl]
    cases value with
    | false =>
        rw [if_neg (by decide), clear_byte_bit _ hi8 hj8]
        by_cases hbit : i % 8 = j % 8 <;> simp [hbit]
    | true =>
        rw [if_pos (by decide), set_byte_bit _ hi8 hj8]
        by_cases hbit : i % 8 = j % 8 <;> simp [hbit]
  · rw [if_neg fun hij => hbyte (by rw [hij]), byteBit, List.getD_eq_getElem?_getD,
      List.getElem?_modify_ne _ _ hbyte, ← List.getD_eq_getElem?_getD]

/-- Writing the next bit appends it. -/
theorem bits_of_set_bit_next (data : List UInt8) {i : Nat} (h : i < 8 * data.length)
    (value : Bool) : bitsOf (setBit data i value.toNat) (i + 1) = bitsOf data i ++ [value] := by
  rw [bits_of_succ, byte_bit_set_bit data h, if_pos rfl]
  congr 1
  refine bits_of_eq_iff.mpr fun j hj => ?_
  rw [byte_bit_set_bit data h, if_neg (by omega)]

/-- Writing one bit replaces it. -/
theorem bits_of_set_bit (data : List UInt8) {i : Nat} (h : i < 8 * data.length) (value : Bool)
    (count : Nat) : bitsOf (setBit data i value.toNat) count = (bitsOf data count).set i value := by
  apply List.ext_getElem?
  intro j
  by_cases hj : j < count
  · rw [bits_of_get _ hj, byte_bit_set_bit data h, List.getElem?_set]
    by_cases hij : i = j
    · subst hij
      simp [hj]
    · rw [if_neg hij, if_neg hij, bits_of_get _ hj]
  · rw [List.getElem?_eq_none (by simpa using hj), List.getElem?_eq_none (by simpa using hj)]

@[simp] theorem clear_bytes_length (data : List UInt8) (count : Nat) :
    (clearBytes data count).length = data.length := by
  simp only [clearBytes, List.length_append, List.length_replicate, List.length_drop]
  omega

/-- A buffer is determined by its bits. -/
theorem bytes_ext {data data' : List UInt8} (hlength : data.length = data'.length)
    (h : bitsOf data (8 * data.length) = bitsOf data' (8 * data.length)) : data = data' := by
  apply List.ext_getElem hlength
  intro i hi hi'
  refine byte_ext fun j hj => ?_
  have hbit := bits_of_eq_iff.mp h (8 * i + j) (by omega)
  rw [byteBit, byteBit, show (8 * i + j) / 8 = i by omega, show (8 * i + j) % 8 = j by omega,
    List.getD_eq_getElem data 0 hi, List.getD_eq_getElem data' 0 hi'] at hbit
  exact hbit

/-! ## Bit strings of the Rust side -/

/-- The bits behind the first byte. -/
theorem byte_bit_cons (byte : UInt8) (data : List UInt8) (i : Nat) :
    byteBit (byte :: data) (8 + i) = byteBit data i := by
  have hindex : (8 + i) / 8 = i / 8 + 1 := by omega
  rw [byteBit, hindex, List.getD_cons_succ, Nat.add_mod_left, byteBit]

/-- The bits of a byte, the most significant first. -/
theorem byte_bits_msb_eq (byte : UInt8) :
    byteBitsMsb byte = (bitsOf [byte] 8).map Bool.toUInt8 := by
  rw [byte_bits_msb_word]
  rfl

/-- The bits of bytes on both sides. -/
theorem bytes_to_bits_msb_eq (bytes : List UInt8) :
    bytesToBitsMsb bytes = (bitsOf bytes (8 * bytes.length)).map Bool.toUInt8 := by
  induction bytes with
  | nil => rfl
  | cons byte bytes ih =>
      have hsplit : bitsOf (byte :: bytes) (8 * (bytes.length + 1)) =
          bitsOf [byte] 8 ++ bitsOf bytes (8 * bytes.length) := by
        rw [show 8 * (bytes.length + 1) = 8 + 8 * bytes.length by omega, bitsOf, List.range_add,
          List.map_append, List.map_map]
        congr 1
        refine List.map_congr_left fun i _ => byte_bit_cons byte bytes i
      rw [List.length_cons, hsplit, List.map_append, ← byte_bits_msb_eq, ← ih]
      rfl

/-- Packing the bits of bytes gives the bytes back. -/
theorem bits_to_bytes_msb_bits_of (bytes : List UInt8) :
    bitsToBytesMsb ((bitsOf bytes (8 * bytes.length)).map Bool.toUInt8) = .ok bytes := by
  rw [← bytes_to_bits_msb_eq, bits_to_bytes_msb_bytes]

/-- Every bit string fits into a large enough buffer. -/
theorem exists_buffer (word : List Bool) {size : Nat} (h : word.length ≤ 8 * size) :
    ∃ data : List UInt8, data.length = size ∧ bitsOf data word.length = word := by
  induction word using List.reverseRecOn with
  | nil => exact ⟨List.replicate size 0, List.length_replicate, rfl⟩
  | append_singleton word bit ih =>
      rw [List.length_append, List.length_singleton] at h
      obtain ⟨data, hsize, hword⟩ := ih (by omega)
      refine ⟨setBit data word.length bit.toNat, by rw [set_bit_length, hsize], ?_⟩
      rw [List.length_append, List.length_singleton,
        bits_of_set_bit_next data (by omega), hword]

/-- The first bits of a buffer are the bits of its first bytes. -/
theorem bits_of_take (data : List UInt8) {bytes count : Nat} (h : count ≤ 8 * bytes) :
    bitsOf (data.take bytes) count = bitsOf data count := by
  refine bits_of_eq_iff.mpr fun i hi => ?_
  have hbyte : i / 8 < bytes := by omega
  rw [byteBit, byteBit, List.getD_eq_getElem?_getD, List.getElem?_take_of_lt hbyte,
    List.getD_eq_getElem?_getD]

end LatentMesh.AirC
