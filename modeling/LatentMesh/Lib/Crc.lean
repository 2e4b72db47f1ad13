import Mathlib.Logic.Function.Iterate

/-!
# Reflected cyclic redundancy registers

`crcStep poly` shifts a reflected CRC register by one bit. The step is linear over exclusive or
(`crc_step_xor`), and on a register whose low bits are clear it only shifts. Splitting a
register into its low bits and the rest therefore gives the table method of any stride:
`crc_steps_split` says that `n` steps are a shift by `n` combined with the `n`-step image of the
low `n` bits.
-/

namespace LatentMesh.Lib

variable {w : Nat}

/-- One bit of a reflected CRC: shift right, and add the polynomial when a one falls out. -/
def crcStep (poly x : BitVec w) : BitVec w :=
  (x >>> 1) ^^^ (if x.getLsbD 0 then poly else 0)

/-- The low `n` bits of a register, the rest cleared. -/
def lowBits (n : Nat) (x : BitVec w) : BitVec w :=
  (x.setWidth n).setWidth w

/-- The CRC step is linear over exclusive or. -/
theorem crc_step_xor (poly x y : BitVec w) :
    crcStep poly (x ^^^ y) = crcStep poly x ^^^ crcStep poly y := by
  apply BitVec.eq_of_getLsbD_eq
  intro i _
  cases hx : x.getLsbD 0 <;> cases hy : y.getLsbD 0 <;>
    simp only [crcStep, hx, hy, BitVec.getLsbD_xor, BitVec.getLsbD_ushiftRight,
      Bool.xor_false, Bool.xor_true, Bool.not_false, Bool.not_true, if_true,
      Bool.false_eq_true, if_false, BitVec.ofNat_eq_ofNat, BitVec.getLsbD_zero] <;>
    cases x.getLsbD (1 + i) <;> cases y.getLsbD (1 + i) <;> cases poly.getLsbD i <;> rfl

/-- Any number of CRC steps is linear over exclusive or. -/
theorem crc_steps_xor (poly : BitVec w) (n : Nat) (x y : BitVec w) :
    (crcStep poly)^[n] (x ^^^ y) = (crcStep poly)^[n] x ^^^ (crcStep poly)^[n] y := by
  induction n generalizing x y with
  | zero => rfl
  | succ n ih => rw [Function.iterate_succ_apply, crc_step_xor, ih]; rfl

/-- While the bits that fall out are zero, the CRC steps only shift. -/
theorem crc_steps_shift (poly : BitVec w) (n : Nat) (x : BitVec w)
    (h : ∀ i < n, x.getLsbD i = false) : (crcStep poly)^[n] x = x >>> n := by
  induction n generalizing x with
  | zero => simp
  | succ n ih =>
      have hstep : crcStep poly x = x >>> 1 := by simp [crcStep, h 0 (by omega)]
      have hrest : ∀ i < n, (x >>> 1).getLsbD i = false := by
        intro i hi
        rw [BitVec.getLsbD_ushiftRight]
        exact h (1 + i) (by omega)
      rw [Function.iterate_succ_apply, hstep, ih _ hrest, ← BitVec.shiftRight_add, Nat.add_comm]

/-- Bit `i` of the low `n` bits. -/
theorem low_bits_get (n : Nat) (x : BitVec w) (i : Nat) :
    (lowBits n x).getLsbD i = (decide (i < n) && x.getLsbD i) := by
  simp only [lowBits, BitVec.getLsbD_setWidth]
  cases hi : decide (i < w) <;> cases decide (i < n) <;> simp
  rw [BitVec.getLsbD_of_ge]
  simpa using hi

/-- `n` CRC steps are a shift by `n` plus the `n`-step image of the low `n` bits. -/
theorem crc_steps_split (poly : BitVec w) (n : Nat) (x : BitVec w) :
    (crcStep poly)^[n] x = (x >>> n) ^^^ (crcStep poly)^[n] (lowBits n x) := by
  have hsplit : x = (x ^^^ lowBits n x) ^^^ lowBits n x := by
    rw [BitVec.xor_assoc, BitVec.xor_self, BitVec.xor_zero]
  have hclear : ∀ i < n, (x ^^^ lowBits n x).getLsbD i = false := by
    intro i hi
    simp [BitVec.getLsbD_xor, low_bits_get, hi]
  have hshift : (x ^^^ lowBits n x) >>> n = x >>> n := by
    apply BitVec.eq_of_getLsbD_eq
    intro i _
    have hout : ¬ n + i < n := by omega
    simp [BitVec.getLsbD_ushiftRight, BitVec.getLsbD_xor, low_bits_get, hout]
  calc (crcStep poly)^[n] x
      = (crcStep poly)^[n] ((x ^^^ lowBits n x) ^^^ lowBits n x) := by rw [← hsplit]
    _ = (x >>> n) ^^^ (crcStep poly)^[n] (lowBits n x) := by
        rw [crc_steps_xor, crc_steps_shift poly n _ hclear, hshift]

end LatentMesh.Lib
