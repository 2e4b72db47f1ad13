import Mathlib.Algebra.Order.Field.Rat
import Mathlib.Algebra.Order.Field.Power
import Mathlib.Data.List.TakeWhile
import Mathlib.Tactic.Ring
import Mathlib.Tactic.FieldSimp

/-!
# Decimals and their text

A positive decimal is a significand that does not end in zero and an exponent. `Decimal.text` writes
it as programs print floating-point numbers: all digits when they are few, with a decimal point
where one is needed, and an exponent otherwise. The number can be read back from the text
(`read_text`), so no two decimals have the same text (`Decimal.text_injective`).
-/

namespace LatentMesh.Lib

/-- The number `significand * 10 ^ exponent`. -/
structure Decimal where
  significand : Nat
  exponent : Int
  normal : significand % 10 ≠ 0
  deriving DecidableEq

namespace Decimal

/-- The number that a decimal stands for. -/
def value (decimal : Decimal) : ℚ := decimal.significand * 10 ^ decimal.exponent

/-- Of two decimals with the same value, the one with the smaller exponent ends in zero unless the
exponents are equal. -/
theorem value_injective {first second : Decimal} (h : first.value = second.value) :
    first = second := by
  wlog hle : first.exponent ≤ second.exponent generalizing first second
  · exact (this h.symm (Int.le_of_lt (Int.not_le.mp hle))).symm
  obtain ⟨significand, exponent, hnormal⟩ := first
  obtain ⟨significand', exponent', hnormal'⟩ := second
  dsimp only [value] at h hle
  obtain ⟨shift, rfl⟩ := Int.le.dest hle
  have hten : (10 : ℚ) ≠ 0 := by norm_num
  rw [zpow_add₀ hten, mul_comm ((10 : ℚ) ^ exponent), ← mul_assoc] at h
  have hsame := mul_right_cancel₀ (zpow_ne_zero exponent hten) h
  rw [zpow_natCast] at hsame
  have hnat : significand = significand' * 10 ^ shift := by exact_mod_cast hsame
  cases shift with
  | zero =>
      rw [Nat.pow_zero, Nat.mul_one] at hnat
      subst hnat
      simp
  | succ shift =>
      rw [Nat.pow_succ, ← Nat.mul_assoc] at hnat
      exact absurd (by rw [hnat, Nat.mul_mod_left]) hnormal

/-- A positive whole number. -/
def ofPos (n : Nat) (h : 0 < n) : Decimal :=
  if hlast : n % 10 ≠ 0 then ⟨n, 0, hlast⟩
  else
    let tenth := ofPos (n / 10) (by omega)
    ⟨tenth.significand, tenth.exponent + 1, tenth.normal⟩

/-- A positive natural number is written as a decimal of its value. -/
theorem of_pos_value {n : Nat} (h : 0 < n) : (ofPos n h).value = n := by
  induction n, h using ofPos.induct with
  | case1 n h hlast =>
      rw [ofPos, dif_pos hlast]
      simp [value]
  | case2 n h hlast ih =>
      rw [ofPos, dif_neg hlast]
      have hten : (10 : ℚ) ≠ 0 := by norm_num
      have hn : n = n / 10 * 10 := by omega
      unfold value at ih ⊢
      dsimp only
      rw [zpow_add_one₀ hten, ← mul_assoc, ih]
      exact_mod_cast hn.symm

/-- The text of a decimal. At most 21 digits are written before the point, and at most six zeros
after it. -/
def text (decimal : Decimal) : List Char :=
  let digits := Nat.toDigits 10 decimal.significand
  let point := digits.length + decimal.exponent
  if digits.length ≤ point ∧ point ≤ 21 then
    digits ++ List.replicate decimal.exponent.toNat '0'
  else if 0 < point ∧ point ≤ 21 then
    digits.take point.toNat ++ '.' :: digits.drop point.toNat
  else if -6 < point ∧ point ≤ 0 then
    '0' :: '.' :: (List.replicate (-point).toNat '0' ++ digits)
  else
    (if digits.length = 1 then digits else digits.take 1 ++ '.' :: digits.drop 1) ++
      'e' :: (if point < 0 then '-' else '+') :: Nat.toDigits 10 (point - 1).natAbs

example : text ⟨125, -9, by decide⟩ = "1.25e-7".toList := by decide

end Decimal

/-! ## Reading -/

/-- The exponent that a text ends with. -/
def readExponent : List Char → Int
  | 'e' :: '-' :: digits => -Nat.ofDigitChars 10 digits 0
  | 'e' :: '+' :: digits => Nat.ofDigitChars 10 digits 0
  | _ => 0

/-- The number that a text says. -/
def readText (text : List Char) : ℚ :=
  let mantissa := text.takeWhile (· ≠ 'e')
  let whole := mantissa.takeWhile (· ≠ '.')
  let fraction := (mantissa.dropWhile (· ≠ '.')).drop 1
  Nat.ofDigitChars 10 (whole ++ fraction) 0 *
    10 ^ (readExponent (text.dropWhile (· ≠ 'e')) - fraction.length)

section

variable {whole fraction tail : List Char}

/-- The end of a mantissa. -/
def EndsMantissa (tail : List Char) : Prop := ∀ c ∈ tail.head?, c = 'e'

/-- The text of a number is cut at the exponent mark, which its mantissa has none of. -/
theorem read_mantissa {mantissa : List Char} (hmantissa : ∀ c ∈ mantissa, c ≠ 'e')
    (htail : EndsMantissa tail) :
    (mantissa ++ tail).takeWhile (· ≠ 'e') = mantissa ∧
      (mantissa ++ tail).dropWhile (· ≠ 'e') = tail := by
  have hall : ∀ c ∈ mantissa, decide (c ≠ 'e') = true := fun c hc => decide_eq_true (hmantissa c hc)
  rw [List.takeWhile_append_of_pos hall, List.dropWhile_append_of_pos hall]
  cases tail with
  | nil => exact ⟨List.append_nil _, rfl⟩
  | cons c rest =>
      obtain rfl := htail c rfl
      exact ⟨by simp, by simp⟩

/-- A text without a decimal point. -/
theorem read_whole (hwhole : ∀ c ∈ whole, c ≠ '.' ∧ c ≠ 'e') (htail : EndsMantissa tail) :
    readText (whole ++ tail) = Nat.ofDigitChars 10 whole 0 * 10 ^ readExponent tail := by
  obtain ⟨htake, hdrop⟩ := read_mantissa (fun c hc => (hwhole c hc).2) htail
  have hall : ∀ c ∈ whole, decide (c ≠ '.') = true := fun c hc => decide_eq_true (hwhole c hc).1
  dsimp only [readText]
  rw [htake, hdrop, List.takeWhile_eq_self_iff.mpr hall, List.dropWhile_eq_nil_iff.mpr hall]
  simp

/-- A text with a decimal point. -/
theorem read_fraction (hwhole : ∀ c ∈ whole, c ≠ '.' ∧ c ≠ 'e')
    (hfraction : ∀ c ∈ fraction, c ≠ '.' ∧ c ≠ 'e') (htail : EndsMantissa tail) :
    readText (whole ++ '.' :: fraction ++ tail) =
      Nat.ofDigitChars 10 (whole ++ fraction) 0 * 10 ^ (readExponent tail - fraction.length) := by
  have hmantissa : ∀ c ∈ whole ++ '.' :: fraction, c ≠ 'e' := by
    intro c hc
    rcases List.mem_append.mp hc with hc | hc
    · exact (hwhole c hc).2
    · rcases List.mem_cons.mp hc with rfl | hc
      · decide
      · exact (hfraction c hc).2
  obtain ⟨htake, hdrop⟩ := read_mantissa hmantissa htail
  have hall : ∀ c ∈ whole, decide (c ≠ '.') = true := fun c hc => decide_eq_true (hwhole c hc).1
  dsimp only [readText]
  rw [htake, hdrop, List.takeWhile_append_of_pos hall, List.dropWhile_append_of_pos hall]
  simp

end

namespace Decimal

/-- A digit is neither a point nor an exponent mark. -/
theorem digit_plain {n : Nat} {c : Char} (h : c ∈ Nat.toDigits 10 n) : c ≠ '.' ∧ c ≠ 'e' := by
  have hdigit := Nat.isDigit_of_mem_toDigits (by decide) (by decide) h
  constructor
  · rintro rfl
    exact absurd hdigit (by decide)
  · rintro rfl
    exact absurd hdigit (by decide)

/-- A zero is neither a point nor an exponent mark. -/
theorem zero_plain {n : Nat} {c : Char} (h : c ∈ List.replicate n '0') : c ≠ '.' ∧ c ≠ 'e' := by
  obtain rfl := List.eq_of_mem_replicate h
  decide

/-- The exponent part of a text. -/
theorem read_exponent_part {n : Int} {sign : Char} (hsign : sign = if n < 0 then '-' else '+') :
    readExponent ('e' :: sign :: Nat.toDigits 10 n.natAbs) = n := by
  subst hsign
  split
  · show -((Nat.ofDigitChars 10 (Nat.toDigits 10 n.natAbs) 0 : Nat) : Int) = n
    rw [Nat.ofDigitChars_ten_toDigits]
    omega
  · show ((Nat.ofDigitChars 10 (Nat.toDigits 10 n.natAbs) 0 : Nat) : Int) = n
    rw [Nat.ofDigitChars_ten_toDigits]
    omega

/-- Reading the text of a decimal gives its value. -/
theorem read_text (decimal : Decimal) : readText decimal.text = decimal.value := by
  obtain ⟨significand, exponent, hnormal⟩ := decimal
  have hdigits : ∀ c ∈ Nat.toDigits 10 significand, c ≠ '.' ∧ c ≠ 'e' := fun c hc => digit_plain hc
  have hvalue : Nat.ofDigitChars 10 (Nat.toDigits 10 significand) 0 = significand :=
    Nat.ofDigitChars_ten_toDigits
  have hlength : 0 < (Nat.toDigits 10 significand).length := Nat.length_toDigits_pos
  have hend : EndsMantissa [] := fun c hc => nomatch hc
  dsimp only [text, value]
  generalize Nat.toDigits 10 significand = digits at *
  split
  · -- all digits stand before the point
    rename_i hpoint
    obtain ⟨zeros, rfl⟩ := Int.eq_ofNat_of_zero_le (show 0 ≤ exponent by omega)
    have hread := @read_whole (digits ++ List.replicate zeros '0') []
      (fun c hc => (List.mem_append.mp hc).elim (hdigits c) zero_plain) hend
    rw [List.append_nil, Nat.ofDigitChars_append, Nat.ofDigitChars_replicate_zero, hvalue] at hread
    simpa [readExponent, mul_comm] using hread
  · split
    · -- the point stands among the digits
      have hread := @read_fraction (digits.take (digits.length + exponent).toNat)
        (digits.drop (digits.length + exponent).toNat) []
        (fun c hc => hdigits c (List.mem_of_mem_take hc))
        (fun c hc => hdigits c (List.mem_of_mem_drop hc)) hend
      rw [List.append_nil, List.take_append_drop, hvalue, List.length_drop] at hread
      rw [hread]
      congr 2
      simp only [readExponent]
      omega
    · split
      · -- the point stands before the digits
        rename_i hpoint
        have hread := @read_fraction ['0']
          (List.replicate (-(digits.length + exponent)).toNat '0' ++ digits) []
          (fun c hc => @zero_plain 1 c hc)
          (fun c hc => (List.mem_append.mp hc).elim zero_plain (hdigits c)) hend
        have hzero : Nat.ofDigitChars 10 ['0'] 0 = 0 := by decide
        rw [List.append_nil, Nat.ofDigitChars_append, Nat.ofDigitChars_append, hzero,
          Nat.ofDigitChars_replicate_zero, Nat.mul_zero, hvalue, List.length_append,
          List.length_replicate] at hread
        refine hread.trans ?_
        congr 2
        simp only [readExponent]
        omega
      · -- an exponent follows
        have hpart := @read_exponent_part (digits.length + exponent - 1)
          (if (digits.length : Int) + exponent < 0 then '-' else '+') (if_congr (by omega) rfl rfl)
        have htail : EndsMantissa
            ('e' :: (if (digits.length : Int) + exponent < 0 then '-' else '+') ::
              Nat.toDigits 10 (digits.length + exponent - 1).natAbs) := by
          intro c hc
          exact (Option.some.inj hc).symm
        split
        · rename_i hone
          rw [read_whole hdigits htail, hvalue, hpart, hone]
          congr 2
          omega
        · rw [read_fraction (fun c hc => hdigits c (List.mem_of_mem_take hc))
            (fun c hc => hdigits c (List.mem_of_mem_drop hc)) htail, List.take_append_drop, hvalue,
            hpart, List.length_drop]
          congr 2
          omega

/-- No two decimals have the same text. -/
theorem text_injective {first second : Decimal} (h : first.text = second.text) : first = second :=
  value_injective (by rw [← read_text, h, read_text])

/-- No decimal is written as a zero. -/
theorem text_ne_zero (decimal : Decimal) : decimal.text ≠ ['0'] := by
  intro h
  have hvalue := read_text decimal
  have hzero : readText ['0'] = 0 := by
    have hread := @read_whole ['0'] [] (fun c hc => @zero_plain 1 c hc) (fun c hc => nomatch hc)
    rw [List.append_nil, show Nat.ofDigitChars 10 ['0'] 0 = 0 by decide] at hread
    simpa using hread
  rw [h, hzero] at hvalue
  have hten : (10 : ℚ) ^ decimal.exponent ≠ 0 := zpow_ne_zero _ (by norm_num)
  have hsignificand : (decimal.significand : ℚ) = 0 :=
    (mul_eq_zero.mp hvalue.symm).resolve_right hten
  exact decimal.normal (by rw [Nat.cast_eq_zero.mp hsignificand])

/-! ## The characters of a text -/

/-- The characters that the text of a number is made of. -/
def NumberChar (c : Char) : Prop := c.isDigit = true ∨ c ∈ ['.', 'e', '+', '-']

/-- The text of a decimal has only characters of numbers. -/
theorem text_chars {decimal : Decimal} {c : Char} (h : c ∈ decimal.text) : NumberChar c := by
  have hdigit : ∀ n, ∀ d ∈ Nat.toDigits 10 n, NumberChar d := fun n d hd =>
    Or.inl (Nat.isDigit_of_mem_toDigits (by decide) (by decide) hd)
  have hzero : ∀ n, ∀ d ∈ List.replicate n '0', NumberChar d := by
    intro n d hd
    obtain rfl := List.eq_of_mem_replicate hd
    exact Or.inl rfl
  unfold text at h
  dsimp only at h
  split at h
  · exact (List.mem_append.mp h).elim (hdigit _ c) (hzero _ c)
  · split at h
    · rcases List.mem_append.mp h with h | h
      · exact hdigit _ c (List.mem_of_mem_take h)
      · rcases List.mem_cons.mp h with rfl | h
        · exact Or.inr (by decide)
        · exact hdigit _ c (List.mem_of_mem_drop h)
    · split at h
      · rcases List.mem_cons.mp h with rfl | h
        · exact Or.inl rfl
        · rcases List.mem_cons.mp h with rfl | h
          · exact Or.inr (by decide)
          · exact (List.mem_append.mp h).elim (hzero _ c) (hdigit _ c)
      · rcases List.mem_append.mp h with h | h
        · split at h
          · exact hdigit _ c h
          · rcases List.mem_append.mp h with h | h
            · exact hdigit _ c (List.mem_of_mem_take h)
            · rcases List.mem_cons.mp h with rfl | h
              · exact Or.inr (by decide)
              · exact hdigit _ c (List.mem_of_mem_drop h)
        · rcases List.mem_cons.mp h with rfl | h
          · exact Or.inr (by decide)
          · rcases List.mem_cons.mp h with rfl | h
            · split <;> exact Or.inr (by decide)
            · exact hdigit _ c h

/-- A text begins with a digit. -/
theorem text_head (decimal : Decimal) :
    ∃ c rest, decimal.text = c :: rest ∧ c.isDigit = true := by
  obtain ⟨first, digits, hcons⟩ := List.exists_cons_of_length_pos
    (Nat.length_toDigits_pos (b := 10) (n := decimal.significand))
  have hfirst : first.isDigit = true :=
    Nat.isDigit_of_mem_toDigits (by decide) (by decide) (hcons ▸ List.mem_cons_self ..)
  unfold text
  dsimp only
  rw [hcons]
  split
  · exact ⟨first, _, rfl, hfirst⟩
  · split
    · rename_i hpoint
      obtain ⟨n, hn⟩ := Nat.exists_eq_succ_of_ne_zero
        (show ((first :: digits).length + decimal.exponent).toNat ≠ 0 by omega)
      rw [hn]
      exact ⟨first, _, rfl, hfirst⟩
    · split
      · exact ⟨'0', _, rfl, rfl⟩
      · split
        · exact ⟨first, _, rfl, hfirst⟩
        · exact ⟨first, _, rfl, hfirst⟩

end Decimal

end LatentMesh.Lib
