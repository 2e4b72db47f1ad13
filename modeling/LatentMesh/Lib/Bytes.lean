import Mathlib.Data.List.Basic
import Mathlib.Tactic.Ring

/-!
# Big-endian byte strings

`beBytes width value` writes the low-order bytes of a number, most significant first, and
`beNat` reads a byte string back as a number. The two are inverse on the byte strings of a
given width (`be_nat_be_bytes`, `be_bytes_be_nat`), which is all that a codec with fixed-width
big-endian fields needs.
-/

namespace LatentMesh.Lib

/-- The `width` low-order bytes of `value`, most significant first. -/
def beBytes : Nat → Nat → List UInt8
  | 0, _ => []
  | width + 1, value => UInt8.ofNat (value / 256 ^ width) :: beBytes width value

/-- The number denoted by a big-endian byte string. -/
def beNat : List UInt8 → Nat
  | [] => 0
  | byte :: bytes => byte.toNat * 256 ^ bytes.length + beNat bytes

@[simp] theorem be_bytes_length (width value : Nat) : (beBytes width value).length = width := by
  induction width with
  | zero => rfl
  | succ width ih => simp [beBytes, ih]

/-- A byte string of length `n` denotes a number below `256 ^ n`. -/
theorem be_nat_lt (bytes : List UInt8) : beNat bytes < 256 ^ bytes.length := by
  induction bytes with
  | nil => simp [beNat]
  | cons byte bytes ih =>
      have hbyte : byte.toNat + 1 ≤ 256 := byte.toNat_lt
      have hmul := Nat.mul_le_mul_right (256 ^ bytes.length) hbyte
      simp only [beNat, List.length_cons, Nat.pow_succ]
      rw [Nat.add_mul, Nat.one_mul] at hmul
      omega

/-- Reading back written bytes gives the value modulo the width. -/
theorem be_nat_be_bytes_mod (width value : Nat) :
    beNat (beBytes width value) = value % 256 ^ width := by
  induction width with
  | zero => simp [beBytes, beNat, Nat.mod_one]
  | succ width ih =>
      have hsplit : value % 256 ^ (width + 1) =
          value % 256 ^ width + 256 ^ width * (value / 256 ^ width % 256) := Nat.mod_mul
      have hbyte : (UInt8.ofNat (value / 256 ^ width)).toNat = value / 256 ^ width % 256 := by
        simp
      rw [beBytes, beNat, be_bytes_length, ih, hbyte, hsplit]
      ring

/-- Reading back written bytes gives the value, when it fits the width. -/
theorem be_nat_be_bytes {width value : Nat} (h : value < 256 ^ width) :
    beNat (beBytes width value) = value := by
  rw [be_nat_be_bytes_mod, Nat.mod_eq_of_lt h]

/-- Only the low-order bytes of the value are written. -/
theorem be_bytes_add_mul (width value high : Nat) :
    beBytes width (high * 256 ^ width + value) = beBytes width value := by
  induction width generalizing high with
  | zero => rfl
  | succ width ih =>
      have hdiv : (high * 256 ^ (width + 1) + value) / 256 ^ width =
          value / 256 ^ width + 256 * high := by
        rw [show high * 256 ^ (width + 1) + value = value + 256 ^ width * (256 * high) by ring]
        exact Nat.add_mul_div_left _ _ (Nat.pow_pos (by decide))
      have htail : beBytes width (high * 256 ^ (width + 1) + value) = beBytes width value := by
        rw [show high * 256 ^ (width + 1) = high * 256 * 256 ^ width by ring]
        exact ih (high * 256)
      rw [beBytes, hdiv, htail, beBytes]
      congr 1
      exact UInt8.toNat_inj.mp (by simp)

/-- Writing the number denoted by a byte string gives the byte string back. -/
theorem be_bytes_be_nat (bytes : List UInt8) : beBytes bytes.length (beNat bytes) = bytes := by
  induction bytes with
  | nil => rfl
  | cons byte bytes ih =>
      have hdiv : (byte.toNat * 256 ^ bytes.length + beNat bytes) / 256 ^ bytes.length =
          byte.toNat := by
        rw [Nat.mul_comm, Nat.mul_add_div (Nat.pow_pos (by decide)),
          Nat.div_eq_of_lt (be_nat_lt bytes), Nat.add_zero]
      rw [List.length_cons, beBytes, beNat, hdiv, be_bytes_add_mul, ih]
      simp

/-! ## Fixed-width words -/

/-- The two big-endian bytes of a 16-bit word. -/
def u16Be (value : UInt16) : List UInt8 := beBytes 2 value.toNat

/-- The four big-endian bytes of a 32-bit word. -/
def u32Be (value : UInt32) : List UInt8 := beBytes 4 value.toNat

/-- The eight big-endian bytes of a 64-bit word. -/
def u64Be (value : UInt64) : List UInt8 := beBytes 8 value.toNat

/-- The 16-bit word a two-byte string denotes. -/
def u16OfBe (bytes : List UInt8) : UInt16 := UInt16.ofNat (beNat bytes)

/-- The 32-bit word a four-byte string denotes. -/
def u32OfBe (bytes : List UInt8) : UInt32 := UInt32.ofNat (beNat bytes)

/-- The 64-bit word an eight-byte string denotes. -/
def u64OfBe (bytes : List UInt8) : UInt64 := UInt64.ofNat (beNat bytes)

@[simp] theorem u16_be_length (value : UInt16) : (u16Be value).length = 2 := by simp [u16Be]

@[simp] theorem u32_be_length (value : UInt32) : (u32Be value).length = 4 := by simp [u32Be]

@[simp] theorem u64_be_length (value : UInt64) : (u64Be value).length = 8 := by simp [u64Be]

/-- The two bytes of a word are read back as the word. -/
@[simp] theorem u16_of_be_u16_be (value : UInt16) : u16OfBe (u16Be value) = value := by
  rw [u16OfBe, u16Be, be_nat_be_bytes value.toNat_lt, UInt16.ofNat_toNat]

/-- The four bytes of a word are read back as the word. -/
@[simp] theorem u32_of_be_u32_be (value : UInt32) : u32OfBe (u32Be value) = value := by
  rw [u32OfBe, u32Be, be_nat_be_bytes value.toNat_lt, UInt32.ofNat_toNat]

/-- The eight bytes of a word are read back as the word. -/
@[simp] theorem u64_of_be_u64_be (value : UInt64) : u64OfBe (u64Be value) = value := by
  rw [u64OfBe, u64Be, be_nat_be_bytes value.toNat_lt, UInt64.ofNat_toNat]

/-- Writing the word a two-byte string denotes gives the string back. -/
theorem u16_be_u16_of_be {bytes : List UInt8} (h : bytes.length = 2) :
    u16Be (u16OfBe bytes) = bytes := by
  have hlt : beNat bytes < 2 ^ 16 := by simpa [h] using be_nat_lt bytes
  rw [u16Be, u16OfBe, UInt16.toNat_ofNat_of_lt' hlt, ← h, be_bytes_be_nat]

/-- Writing the word a four-byte string denotes gives the string back. -/
theorem u32_be_u32_of_be {bytes : List UInt8} (h : bytes.length = 4) :
    u32Be (u32OfBe bytes) = bytes := by
  have hlt : beNat bytes < 2 ^ 32 := by simpa [h] using be_nat_lt bytes
  rw [u32Be, u32OfBe, UInt32.toNat_ofNat_of_lt' hlt, ← h, be_bytes_be_nat]

/-- Writing the word an eight-byte string denotes gives the string back. -/
theorem u64_be_u64_of_be {bytes : List UInt8} (h : bytes.length = 8) :
    u64Be (u64OfBe bytes) = bytes := by
  have hlt : beNat bytes < 2 ^ 64 := by simpa [h] using be_nat_lt bytes
  rw [u64Be, u64OfBe, UInt64.toNat_ofNat_of_lt' hlt, ← h, be_bytes_be_nat]

/-! ## Nibbles -/

/-- A property of every byte is a property of 256 values. -/
theorem byte_forall_iff {p : UInt8 → Prop} : (∀ b, p b) ↔ ∀ n : Fin 256, p (UInt8.ofFin n) :=
  ⟨fun h _ => h _, fun h b => h b.toFin⟩

/-- Masking a union masks both parts. -/
theorem byte_and_or_distrib_right (x y z : UInt8) : (x ||| y) &&& z = (x &&& z) ||| (y &&& z) :=
  UInt8.toBitVec_inj.mp BitVec.and_or_distrib_right

/-- A byte is the union of its two nibbles. -/
theorem nibbles_or (byte : UInt8) : (byte &&& 0xf0) ||| (byte &&& 0x0f) = byte := by
  revert byte
  rw [byte_forall_iff]
  decide +kernel

/-- A byte is its shifted high nibble joined with its low nibble. -/
theorem shifted_nibbles_or (byte : UInt8) :
    ((byte >>> 4) <<< 4) ||| (byte &&& 0x0f) = byte := by
  revert byte
  rw [byte_forall_iff]
  decide +kernel

/-- A clear low nibble is exactly what masking with the high nibble leaves unchanged. -/
theorem high_nibble_of_low_clear {byte : UInt8} (h : byte &&& 0x0f = 0) : byte &&& 0xf0 = byte := by
  have hbyte := nibbles_or byte
  rwa [h, UInt8.or_zero] at hbyte

end LatentMesh.Lib
