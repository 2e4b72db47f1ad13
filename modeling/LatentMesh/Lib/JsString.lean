import Mathlib.Data.List.Basic
import Mathlib.Tactic.Common

/-!
# JavaScript strings in quotes

A JavaScript string is a list of 16-bit units. Its code points are the pairs of surrogates that
stand together and the other units, and `JSON.stringify` writes each of them as one character or as
an escape. The units can be read back from the text, whatever stands behind it (`quote_unique`).
-/

namespace LatentMesh.Lib

/-- A JavaScript string. -/
abbrev JsString := List UInt16

/-! ## Code points -/

def isHighSurrogate (unit : UInt16) : Bool := unit.toNat / 0x400 = 0x36

def isLowSurrogate (unit : UInt16) : Bool := unit.toNat / 0x400 = 0x37

inductive CodePoint where
  | char (c : Char)
  | surrogate (unit : UInt16)
  deriving DecidableEq, Repr

/-- The character of a high and a low surrogate. -/
def pairChar (high low : UInt16) : Char :=
  Char.ofNat (0x10000 + high.toNat % 0x400 * 0x400 + low.toNat % 0x400)

/-- The code point of a unit that is not half of a pair. -/
def unitPoint (unit : UInt16) : CodePoint :=
  if isHighSurrogate unit || isLowSurrogate unit then .surrogate unit
  else .char (Char.ofNat unit.toNat)

/-- `StringToCodePoints`. -/
def codePoints : JsString → List CodePoint
  | [] => []
  | [unit] => [unitPoint unit]
  | high :: low :: rest =>
      if isHighSurrogate high && isLowSurrogate low then
        .char (pairChar high low) :: codePoints rest
      else unitPoint high :: codePoints (low :: rest)

/-- The units of a character. -/
def charUnits (c : Char) : JsString :=
  if c.toNat < 0x10000 then [UInt16.ofNat c.toNat]
  else [UInt16.ofNat (0xD800 + (c.toNat - 0x10000) / 0x400),
    UInt16.ofNat (0xDC00 + (c.toNat - 0x10000) % 0x400)]

def CodePoint.units : CodePoint → JsString
  | char c => charUnits c
  | surrogate unit => [unit]

/-- The units of a text. -/
def textUnits (text : List Char) : JsString := text.flatMap charUnits

theorem char_of_nat_to_nat {n : Nat} (h : n < 0xD800 ∨ 0xDFFF < n ∧ n < 0x110000) :
    (Char.ofNat n).toNat = n := by
  have hvalid : n.isValidChar := h
  rw [Char.ofNat, dif_pos hvalid]
  rfl

theorem pair_char_units {high low : UInt16} (hhigh : isHighSurrogate high = true)
    (hlow : isLowSurrogate low = true) : charUnits (pairChar high low) = [high, low] := by
  have hhigh' : high.toNat / 0x400 = 0x36 := of_decide_eq_true hhigh
  have hlow' : low.toNat / 0x400 = 0x37 := of_decide_eq_true hlow
  generalize hn : 0x10000 + high.toNat % 0x400 * 0x400 + low.toNat % 0x400 = n
  have hfirst : UInt16.ofNat (0xD800 + (n - 0x10000) / 0x400) = high :=
    UInt16.toNat_inj.mp (by rw [UInt16.toNat_ofNat']; omega)
  have hsecond : UInt16.ofNat (0xDC00 + (n - 0x10000) % 0x400) = low :=
    UInt16.toNat_inj.mp (by rw [UInt16.toNat_ofNat']; omega)
  unfold charUnits pairChar
  rw [hn, char_of_nat_to_nat (by omega), if_neg (by omega), hfirst, hsecond]

theorem unit_point_units (unit : UInt16) : (unitPoint unit).units = [unit] := by
  unfold unitPoint
  split
  · rfl
  · rename_i hplain
    have hbound := unit.toNat_lt
    have hplain' : unit.toNat / 0x400 ≠ 0x36 ∧ unit.toNat / 0x400 ≠ 0x37 := by
      simpa [isHighSurrogate, isLowSurrogate] using hplain
    have hchar := @char_of_nat_to_nat unit.toNat (by omega)
    show charUnits _ = _
    unfold charUnits
    rw [hchar, if_pos hbound, UInt16.ofNat_toNat]

/-- The first units of a text tell its first character, as no character is a surrogate. -/
theorem char_units_unique {c d : Char} {rest rest' : JsString}
    (h : charUnits c ++ rest = charUnits d ++ rest') : c = d ∧ rest = rest' := by
  have hvalid : c.toNat < 0xD800 ∨ 0xDFFF < c.toNat ∧ c.toNat < 0x110000 := c.valid
  have hvalid' : d.toNat < 0xD800 ∨ 0xDFFF < d.toNat ∧ d.toNat < 0x110000 := d.valid
  have hunit : ∀ {m n : Nat}, UInt16.ofNat m = UInt16.ofNat n → m % 2 ^ 16 = n % 2 ^ 16 := by
    intro m n heq
    rw [← UInt16.toNat_ofNat', ← UInt16.toNat_ofNat', heq]
  unfold charUnits at h
  split at h <;> split at h
  · have hfirst := hunit (List.cons.inj h).1
    exact ⟨Char.toNat_inj.mp (by omega), (List.cons.inj h).2⟩
  · have hfirst := hunit (List.cons.inj h).1
    omega
  · have hfirst := hunit (List.cons.inj h).1
    omega
  · have hfirst := hunit (List.cons.inj h).1
    have hsecond := hunit (List.cons.inj (List.cons.inj h).2).1
    exact ⟨Char.toNat_inj.mp (by omega), (List.cons.inj (List.cons.inj h).2).2⟩

theorem text_units_injective {first second : List Char}
    (h : textUnits first = textUnits second) : first = second := by
  have hne : ∀ c : Char, charUnits c ≠ [] := by
    intro c hnil
    unfold charUnits at hnil
    split at hnil <;> cases hnil
  induction first generalizing second with
  | nil =>
      cases second with
      | nil => rfl
      | cons d second => exact absurd (List.append_eq_nil_iff.mp h.symm).1 (hne d)
  | cons c first ih =>
      cases second with
      | nil => exact absurd (List.append_eq_nil_iff.mp h).1 (hne c)
      | cons d second =>
          obtain ⟨rfl, hrest⟩ := char_units_unique h
          rw [ih hrest]

/-- The string of a literal. -/
def jsString (text : String) : JsString := textUnits text.toList

theorem js_string_inj {first second : String} : jsString first = jsString second ↔ first = second :=
  ⟨fun h => String.toList_inj.mp (text_units_injective h), fun h => h ▸ rfl⟩

/-- A string is its code points, one after another. -/
theorem code_points_units (string : JsString) :
    (codePoints string).flatMap CodePoint.units = string := by
  induction string using codePoints.induct with
  | case1 => rfl
  | case2 unit => simp [codePoints, unit_point_units]
  | case3 high low rest hpair ih =>
      obtain ⟨hhigh, hlow⟩ := Bool.and_eq_true_iff.mp hpair
      rw [codePoints, if_pos hpair, List.flatMap_cons, ih]
      show charUnits _ ++ rest = _
      rw [pair_char_units hhigh hlow]
      rfl
  | case4 high low rest hpair ih =>
      rw [codePoints, if_neg hpair, List.flatMap_cons, ih, unit_point_units]
      rfl

/-! ## Quoting -/

/-- The characters with an escape of two characters, and the second of them. -/
def singleEscapes : List (Char × Char) :=
  [(Char.ofNat 0x08, 'b'), (Char.ofNat 0x09, 't'), (Char.ofNat 0x0a, 'n'), (Char.ofNat 0x0c, 'f'),
    (Char.ofNat 0x0d, 'r'), ('"', '"'), ('\\', '\\')]

/-- `UnicodeEscape`. -/
def unicodeEscape (unit : UInt16) : List Char :=
  ['\\', 'u', Nat.digitChar (unit.toNat / 0x1000), Nat.digitChar (unit.toNat / 0x100 % 0x10),
    Nat.digitChar (unit.toNat / 0x10 % 0x10), Nat.digitChar (unit.toNat % 0x10)]

def quotePoint : CodePoint → List Char
  | .char c =>
      match singleEscapes.find? fun escape => escape.1 = c with
      | some escape => ['\\', escape.2]
      | none => if c.toNat < 0x20 then unicodeEscape (UInt16.ofNat c.toNat) else [c]
  | .surrogate unit => unicodeEscape unit

/-- `QuoteJSONString`. -/
def quote (string : JsString) : List Char :=
  '"' :: (codePoints string).flatMap quotePoint ++ ['"']

/-! ## Reading a string back -/

def hexValue (c : Char) : Nat := "0123456789abcdef".toList.idxOf c

/-- The units of the first code point of a text, and what follows it. -/
def readPoint : List Char → Option (JsString × List Char)
  | [] => none
  | c :: rest =>
      if c = '\\' then
        match rest with
        | [] => none
        | escape :: rest =>
            if escape = 'u' then
              match rest with
              | a :: b :: c :: d :: rest =>
                  some ([UInt16.ofNat (hexValue a * 0x1000 + hexValue b * 0x100 +
                    hexValue c * 0x10 + hexValue d)], rest)
              | _ => none
            else
              (singleEscapes.find? fun entry => entry.2 = escape).map fun entry =>
                (charUnits entry.1, rest)
      else some (charUnits c, rest)

theorem hex_value_digit : ∀ n < 16, hexValue (Nat.digitChar n) = n := by decide

theorem read_unicode_escape (unit : UInt16) (rest : List Char) :
    readPoint (unicodeEscape unit ++ rest) = some ([unit], rest) := by
  have hbound := unit.toNat_lt
  simp only [unicodeEscape, List.cons_append, List.nil_append, readPoint, if_true]
  rw [hex_value_digit _ (by omega), hex_value_digit _ (by omega), hex_value_digit _ (by omega),
    hex_value_digit _ (by omega)]
  congr 3
  exact UInt16.toNat_inj.mp (by rw [UInt16.toNat_ofNat']; omega)

theorem single_escapes_spec : ∀ escape ∈ singleEscapes,
    escape.2 ≠ 'u' ∧ (singleEscapes.find? fun entry => entry.2 = escape.2) = some escape := by
  decide

theorem read_quote_point (point : CodePoint) (rest : List Char) :
    readPoint (quotePoint point ++ rest) = some (point.units, rest) := by
  cases point with
  | surrogate unit => exact read_unicode_escape unit rest
  | char c =>
      unfold quotePoint
      dsimp only
      split
      · rename_i escape hfind
        have hmem := List.mem_of_find?_eq_some hfind
        have hchar : escape.1 = c := by simpa using List.find?_some hfind
        obtain ⟨hne, hback⟩ := single_escapes_spec escape hmem
        show readPoint ('\\' :: escape.2 :: rest) = _
        simp only [readPoint.eq_def, if_true, hne, if_false, hback, ← hchar]
        rfl
      · rename_i hnone
        split
        · rename_i hcontrol
          rw [read_unicode_escape]
          show _ = some (charUnits c, rest)
          unfold charUnits
          rw [if_pos (by omega)]
        · have hne : c ≠ '\\' := by
            rintro rfl
            exact absurd hnone (by decide)
          show readPoint (c :: rest) = _
          rw [readPoint.eq_def]
          exact if_neg hne

/-- No code point is written with a quotation mark in front. -/
theorem quote_point_head (point : CodePoint) :
    ∃ c rest, quotePoint point = c :: rest ∧ c ≠ '"' := by
  cases point with
  | surrogate unit => exact ⟨'\\', _, rfl, by decide⟩
  | char c =>
      unfold quotePoint
      dsimp only
      split
      · exact ⟨'\\', _, rfl, by decide⟩
      · rename_i hnone
        split
        · exact ⟨'\\', _, rfl, by decide⟩
        · refine ⟨c, [], rfl, ?_⟩
          rintro rfl
          exact absurd hnone (by decide)

theorem points_unique {first second : List CodePoint} {rest rest' : List Char}
    (h : first.flatMap quotePoint ++ '"' :: rest = second.flatMap quotePoint ++ '"' :: rest') :
    first.flatMap CodePoint.units = second.flatMap CodePoint.units ∧ rest = rest' := by
  induction first generalizing second with
  | nil =>
      cases second with
      | nil => exact ⟨rfl, (List.cons.inj h).2⟩
      | cons point second =>
          obtain ⟨c, text, htext, hne⟩ := quote_point_head point
          rw [List.flatMap_cons, htext] at h
          exact absurd (List.cons.inj h).1.symm hne
  | cons point first ih =>
      cases second with
      | nil =>
          obtain ⟨c, text, htext, hne⟩ := quote_point_head point
          rw [List.flatMap_cons, htext] at h
          exact absurd (List.cons.inj h).1 hne
      | cons other second =>
          have hread := congrArg readPoint h
          rw [List.flatMap_cons, List.flatMap_cons, List.append_assoc, List.append_assoc,
            read_quote_point, read_quote_point] at hread
          obtain ⟨hunits, htail⟩ := Prod.mk.inj (Option.some.inj hread)
          obtain ⟨hpoints, hrest⟩ := ih htail
          exact ⟨by rw [List.flatMap_cons, List.flatMap_cons, hunits, hpoints], hrest⟩

/-- The text of a string in quotes tells the string, and where it ends. -/
theorem quote_unique {first second : JsString} {rest rest' : List Char}
    (h : quote first ++ rest = quote second ++ rest') : first = second ∧ rest = rest' := by
  simp only [quote, List.cons_append, List.append_assoc, List.nil_append] at h
  obtain ⟨hunits, hrest⟩ := points_unique (List.cons.inj h).2
  rw [code_points_units, code_points_units] at hunits
  exact ⟨hunits, hrest⟩

end LatentMesh.Lib
