import Mathlib.Algebra.Ring.Nat
import Mathlib.Data.List.Basic

/-!
# Sections of a byte string

A record of fixed widths is written part after part, and read back by offsets. `sections` are the
parts that a list of widths cuts out of a string; cutting inverts joining (`sections_append`) and
joining inverts cutting (`sections_flatten`).
-/

namespace LatentMesh.Lib

variable {α : Type}

/-- The consecutive sections of the given widths from an offset on. -/
def sections (start : Nat) : List Nat → List α → List (List α)
  | [], _ => []
  | width :: widths, input =>
      (input.take (start + width)).drop start :: sections (start + width) widths input

/-- The items up to `stop` are the items up to `start` and the section between. -/
theorem take_eq_append_section (input : List α) {start stop : Nat} (h : start ≤ stop) :
    input.take stop = input.take start ++ (input.take stop).drop start := by
  calc input.take stop
      = (input.take stop).take start ++ (input.take stop).drop start :=
        (List.take_append_drop start _).symm
    _ = input.take start ++ (input.take stop).drop start := by
        rw [List.take_take, Nat.min_eq_left h]

/-- A section of a concatenation. -/
theorem section_append {front middle : List α} (back : List α) {start stop : Nat}
    (hstart : front.length = start) (hstop : start + middle.length = stop) :
    ((front ++ (middle ++ back)).take stop).drop start = middle := by
  rw [← List.append_assoc, List.take_left' (by rw [List.length_append]; omega),
    List.drop_left' hstart]

/-- A section within the input has the length of its bounds. -/
theorem section_length {input : List α} {start stop : Nat} (h : stop ≤ input.length) :
    ((input.take stop).drop start).length = stop - start := by
  rw [List.length_drop, List.length_take, Nat.min_eq_left h]

/-- The sections join to what is before their end. -/
theorem sections_flatten (start : Nat) (widths : List Nat) (input : List α) :
    input.take start ++ (sections start widths input).flatten =
      input.take (start + widths.sum) := by
  induction widths generalizing start with
  | nil => simp [sections]
  | cons width widths ih =>
      rw [sections, List.flatten_cons, ← List.append_assoc,
        ← take_eq_append_section input (Nat.le_add_right start width), ih, List.sum_cons,
        Nat.add_assoc]

/-- The sections of joined parts are the parts. -/
theorem sections_append (front : List α) (parts : List (List α)) (back : List α) :
    sections front.length (parts.map List.length) (front ++ (parts.flatten ++ back)) = parts := by
  induction parts generalizing front with
  | nil => rfl
  | cons part parts ih =>
      have hrest := ih (front ++ part)
      rw [List.length_append, List.append_assoc, ← List.append_assoc part] at hrest
      rw [List.map_cons, sections, List.flatten_cons, hrest, List.append_assoc,
        section_append _ rfl rfl]

section Bytes

variable {input : List UInt8} {start : Nat}

/-- A byte of the input as a section. -/
theorem byte_eq_section (h : start + 1 ≤ input.length) :
    [input.getD start 0] = (input.take (start + 1)).drop start := by
  have hstart : start < input.length := h
  rw [List.take_add_one, List.drop_append_of_le_length (by simp; omega)]
  simp [List.getD_eq_getElem?_getD, hstart]

/-- Two bytes of the input as a section. -/
theorem pair_eq_section (h : start + 2 ≤ input.length) :
    [input.getD start 0, input.getD (start + 1) 0] = (input.take (start + 2)).drop start := by
  apply List.ext_getElem
  · simp
    omega
  · intro i hi _
    simp only [List.length_cons, List.length_nil] at hi
    have hstart : start < input.length := by omega
    have hnext : start + 1 < input.length := by omega
    rcases Nat.le_one_iff_eq_zero_or_eq_one.mp (Nat.le_of_lt_succ hi) with rfl | rfl
    · simp [List.getD_eq_getElem?_getD, hstart]
    · simp [List.getD_eq_getElem?_getD, hnext]

/-- A prefix of the input that ends in two bytes. -/
theorem take_pair (h : start + 2 ≤ input.length) :
    input.take (start + 2) =
      input.take start ++ [input.getD start 0, input.getD (start + 1) 0] := by
  rw [take_eq_append_section input (Nat.le_add_right start 2), pair_eq_section h]

end Bytes

end LatentMesh.Lib
