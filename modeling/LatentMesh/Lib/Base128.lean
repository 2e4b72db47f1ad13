import Mathlib.Data.List.Basic
import Mathlib.Tactic.Ring

/-!
# Base-128 numbers

A number as groups of seven bits, low group first. The bytes of one number end at the first byte
below 128 (`Terminated`), so a byte string has at most one of them at its front
(`Terminated.eq_of_append`), and every number has its bytes (`base128Bytes`).
-/

namespace LatentMesh.Lib

/-- The number that the groups of a byte string denote. -/
def base128Nat : List UInt8 → Nat
  | [] => 0
  | byte :: bytes => byte.toNat % 128 + 128 * base128Nat bytes

/-- The byte string is that of one number: its last byte, and no other, is below 128. -/
def Terminated : List UInt8 → Prop
  | [] => False
  | byte :: bytes => if byte < 128 then bytes = [] else Terminated bytes

/-- A byte without the continuation bit ends the bytes. -/
theorem terminated_cons_of_lt {byte : UInt8} {bytes : List UInt8} (h : byte < 128) :
    Terminated (byte :: bytes) ↔ bytes = [] := by
  rw [Terminated, if_pos h]

/-- A byte with the continuation bit leaves it to the others to end the bytes. -/
theorem terminated_cons_of_le {byte : UInt8} {bytes : List UInt8} (h : ¬ byte < 128) :
    Terminated (byte :: bytes) ↔ Terminated bytes := by
  rw [Terminated, if_neg h]

/-- No number is a proper beginning of another one. -/
theorem Terminated.eq_of_append {front other rest more : List UInt8} (hfront : Terminated front)
    (hother : Terminated other) (h : front ++ rest = other ++ more) : front = other := by
  induction front generalizing other with
  | nil => exact hfront.elim
  | cons byte front ih =>
      cases other with
      | nil => exact hother.elim
      | cons _ other =>
          obtain ⟨rfl, htail⟩ := List.cons.inj h
          by_cases hlast : byte < 128
          · rw [(terminated_cons_of_lt hlast).mp hfront, (terminated_cons_of_lt hlast).mp hother]
          · rw [ih ((terminated_cons_of_le hlast).mp hfront)
              ((terminated_cons_of_le hlast).mp hother) htail]

/-- A byte string of length `n` denotes a number below `128 ^ n`. -/
theorem base128_nat_lt (bytes : List UInt8) : base128Nat bytes < 128 ^ bytes.length := by
  induction bytes with
  | nil => simp [base128Nat]
  | cons byte bytes ih =>
      have hgroup : byte.toNat % 128 < 128 := Nat.mod_lt _ (by decide)
      have htail := Nat.mul_le_mul_left 128 ih
      rw [base128Nat, List.length_cons, Nat.pow_succ]
      omega

/-- The value of joined bytes, with the digits of the second part above those of the first. -/
theorem base128_nat_append (bytes more : List UInt8) :
    base128Nat (bytes ++ more) = base128Nat bytes + 128 ^ bytes.length * base128Nat more := by
  induction bytes with
  | nil => simp [base128Nat]
  | cons byte bytes ih =>
      rw [List.cons_append, base128Nat, ih, base128Nat, List.length_cons]
      ring

/-- All bytes of a number but the last one go on, and the last one ends it. -/
theorem Terminated.append_singleton_iff {init : List UInt8} {last : UInt8} :
    Terminated (init ++ [last]) ↔ (∀ byte ∈ init, ¬ byte < 128) ∧ last < 128 := by
  induction init with
  | nil => simp [Terminated]
  | cons byte init ih =>
      by_cases hlast : byte < 128
      · rw [List.cons_append, terminated_cons_of_lt hlast]
        simp [hlast]
      · rw [List.cons_append, terminated_cons_of_le hlast, ih, List.forall_mem_cons]
        simp only [hlast, not_false_eq_true, true_and]

/-- The bytes of a number. -/
def base128Bytes (value : Nat) : List UInt8 :=
  if value < 128 then [UInt8.ofNat value]
  else UInt8.ofNat (value % 128 + 128) :: base128Bytes (value / 128)
termination_by value
decreasing_by omega

/-- Only the last byte of a written value is without the continuation bit. -/
theorem base128_bytes_terminated (value : Nat) : Terminated (base128Bytes value) := by
  induction value using Nat.strong_induction_on with
  | _ value ih =>
      rw [base128Bytes]
      split
      · rename_i hsmall
        rw [Terminated, if_pos]
        rw [UInt8.lt_iff_toNat_lt, UInt8.toNat_ofNat_of_lt' (Nat.lt_trans hsmall (by decide))]
        exact hsmall
      · rename_i hlarge
        refine (terminated_cons_of_le ?_).mpr (ih _ (by omega))
        have hbyte : value % 128 + 128 < 2 ^ 8 := by omega
        rw [UInt8.lt_iff_toNat_lt, UInt8.toNat_ofNat_of_lt' hbyte]
        exact Nat.not_lt.mpr (Nat.le_add_left _ _)

/-- The bytes of a number denote it. -/
theorem base128_nat_bytes (value : Nat) : base128Nat (base128Bytes value) = value := by
  induction value using Nat.strong_induction_on with
  | _ value ih =>
      rw [base128Bytes]
      split
      · rename_i hsmall
        rw [base128Nat, base128Nat, UInt8.toNat_ofNat_of_lt' (Nat.lt_trans hsmall (by decide))]
        omega
      · rw [base128Nat, ih _ (by omega),
          UInt8.toNat_ofNat_of_lt' (show value % 128 + 128 < 2 ^ 8 by omega)]
        omega

/-- A number below `128 ^ n` takes at most `n` bytes, when `n` is not zero. -/
theorem base128_bytes_length {count value : Nat} (h : value < 128 ^ (count + 1)) :
    (base128Bytes value).length ≤ count + 1 := by
  induction count generalizing value with
  | zero =>
      rw [base128Bytes, if_pos (by simpa using h)]
      exact Nat.le_refl _
  | succ count ih =>
      rw [base128Bytes]
      split
      · simp
      · have hrest : value / 128 < 128 ^ (count + 1) :=
          Nat.div_lt_of_lt_mul (by rw [Nat.mul_comm, ← Nat.pow_succ]; exact h)
        exact Nat.succ_le_succ (ih hrest)

end LatentMesh.Lib
