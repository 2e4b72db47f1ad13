import Std.Data.String.ToInt
import Mathlib.Data.List.Basic
import Mathlib.Data.String.Basic

/-!
# Digits

The text of a number, plain or padded with zeros, has digits only, and the number can be read back
from it; so can bytes from their hexadecimal text.
-/

namespace LatentMesh.Lib

/-- The format `{:0width}` of a number. -/
def padded (width n : Nat) : String := String.ofList (List.leftpad width '0' (Nat.toDigits 10 n))

variable {width n : Nat} {c : Char}

/-- A decimal number consists of digits. -/
theorem is_digit_of_mem_decimal (h : c ∈ (toString n).toList) : c.isDigit = true := by
  rw [Nat.toString_eq_ofList_toDigits, String.toList_ofList] at h
  exact Nat.isDigit_of_mem_toDigits (by decide) (by decide) h

/-- A padded number consists of digits. -/
theorem is_digit_of_mem_padded (h : c ∈ (padded width n).toList) : c.isDigit = true := by
  rw [padded, String.toList_ofList, List.leftpad, List.mem_append] at h
  rcases h with hzero | hdigit
  · rw [List.eq_of_mem_replicate hzero]
    rfl
  · exact Nat.isDigit_of_mem_toDigits (by decide) (by decide) hdigit

/-- A sign, or a digit. -/
theorem mem_int_decimal {value : Int} (h : c ∈ (toString value).toList) :
    c = '-' ∨ c.isDigit = true := by
  rw [Int.toString_eq_repr, Int.repr_eq_if] at h
  split at h
  · rw [← Nat.toString_eq_repr] at h
    exact Or.inr (is_digit_of_mem_decimal h)
  · rw [String.toList_append, List.mem_append, ← Nat.toString_eq_repr] at h
    exact h.imp (fun hsign => List.mem_singleton.mp hsign) is_digit_of_mem_decimal

/-- The text of a number begins with a digit. -/
theorem decimal_eq_cons (n : Nat) :
    ∃ first rest, (toString n).toList = first :: rest ∧ first.isDigit = true := by
  cases h : (toString n).toList with
  | nil =>
      rw [Nat.toString_eq_ofList_toDigits, String.toList_ofList] at h
      exact absurd h (List.length_pos_iff.mp Nat.length_toDigits_pos)
  | cons first rest =>
      exact ⟨first, rest, rfl, is_digit_of_mem_decimal (h ▸ List.mem_cons_self)⟩

/-- The decimal text tells the number. -/
theorem decimal_inj {n m : Nat} (h : toString n = toString m) : n = m := Nat.repr_injective h

/-- The decimal text tells the integer. -/
theorem int_decimal_inj {value other : Int} (h : toString value = toString other) :
    value = other := Int.repr_injective h

/-- The zeros in front do not change what is read. -/
theorem read_padded (width n : Nat) : Nat.ofDigitChars 10 (padded width n).toList 0 = n := by
  rw [padded, String.toList_ofList, List.leftpad, Nat.ofDigitChars_append,
    Nat.ofDigitChars_replicate_zero, Nat.mul_zero, Nat.ofDigitChars_ten_toDigits]

/-- The padded text tells the number. -/
theorem padded_inj {n m : Nat} (h : padded width n = padded width m) : n = m := by
  rw [← read_padded width n, h, read_padded]

/-! ## Hexadecimal text -/

/-- The digits of a hexadecimal text, in lower case. -/
def hexDigits : List Char := "0123456789abcdef".toList

/-- The digit of a value below 16. -/
def hexDigit (value : Nat) : Char := hexDigits.getD value '0'

/-- Two lower-case digits for each byte. -/
def hexText (bytes : List UInt8) : String :=
  String.ofList (bytes.flatMap fun byte => [hexDigit (byte.toNat / 16), hexDigit (byte.toNat % 16)])

/-- A hexadecimal digit tells its value. -/
theorem hex_digit_inj : ∀ first < 16, ∀ second < 16, hexDigit first = hexDigit second →
    first = second := by
  decide

/-- The hexadecimal text tells the bytes. -/
theorem hex_text_inj {first second : List UInt8} (h : hexText first = hexText second) :
    first = second := by
  have hchars := String.ofList_inj.mp h
  clear h
  induction first generalizing second with
  | nil =>
      cases second with
      | nil => rfl
      | cons other second => cases hchars
  | cons byte first ih =>
      cases second with
      | nil => cases hchars
      | cons other second =>
          obtain ⟨hhigh, hrest⟩ := List.cons.inj hchars
          obtain ⟨hlow, htail⟩ := List.cons.inj hrest
          have hbyte := byte.toNat_lt
          have hother := other.toNat_lt
          have hdiv := hex_digit_inj _ (by omega) _ (by omega) hhigh
          have hmod := hex_digit_inj _ (by omega) _ (by omega) hlow
          have hsame : byte = other := UInt8.toNat_inj.mp (by omega)
          rw [hsame, ih htail]

/-- The digit of a value is one of the 16 digits. -/
theorem hex_digit_mem : ∀ value < 16, hexDigit value ∈ hexDigits := by decide

/-- A hexadecimal text consists of hexadecimal digits. -/
theorem mem_hex_text {bytes : List UInt8} (h : c ∈ (hexText bytes).toList) : c ∈ hexDigits := by
  rw [hexText, String.toList_ofList, List.mem_flatMap] at h
  obtain ⟨byte, -, hmem⟩ := h
  have hbyte := byte.toNat_lt
  rcases List.mem_cons.mp hmem with rfl | hlow
  · exact hex_digit_mem _ (by omega)
  · exact List.mem_singleton.mp hlow ▸ hex_digit_mem _ (by omega)

end LatentMesh.Lib
