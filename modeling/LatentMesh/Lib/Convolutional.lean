import Mathlib.Data.List.GetD
import Mathlib.Data.List.Induction
import LatentMesh.Lib.Hamming
import LatentMesh.Lib.Trellis

/-!
# Rate one-half convolutional codes

A shift register of `m` bits with two parity taps. The code is linear (`encode_from_xor`), a
register is the last `m` bits it has read (`run_get`), and a potential on the registers bounds the
weight of every word that returns to the zero register from below (`potential_le_weight`). With a
potential that starts high enough, two different words of one length that both end in the zero
register have code words at least `d` apart (`le_distance`).
-/

namespace LatentMesh.Lib

/-- The exclusive or of all bits of a vector. -/
def parity {w : Nat} (x : BitVec w) : Bool :=
  (List.finRange w).foldr (fun i acc => getElem x i i.isLt ^^ acc) false

/-- The parity of a sum is the sum of the parities. -/
theorem parity_xor {w : Nat} (x y : BitVec w) : parity (x ^^^ y) = (parity x ^^ parity y) := by
  unfold parity
  induction List.finRange w with
  | nil => rfl
  | cons i rest ih =>
      simp only [List.foldr_cons, ih]
      rw [show (x ^^^ y)[i] = (x[i] ^^ y[i]) from BitVec.getElem_xor i.isLt]
      cases x[i] <;> cases y[i] <;> simp

@[simp] theorem parity_zero (w : Nat) : parity (0#w) = false := by
  have h := parity_xor (0#w) (0#w)
  rw [BitVec.xor_self] at h
  simpa using h

/-- The two parity taps of a rate one-half code with memory `m`. -/
structure ConvCode (m : Nat) where
  tap0 : BitVec (m + 1)
  tap1 : BitVec (m + 1)

namespace ConvCode

variable {m : Nat}

/-- The register contents with the input bit shifted in. -/
def register (state : BitVec m) (bit : Bool) : BitVec (m + 1) := state.concat bit

/-- The first output bit of an edge. -/
def output0 (code : ConvCode m) (state : BitVec m) (bit : Bool) : Bool :=
  parity (register state bit &&& code.tap0)

/-- The second output bit of an edge. -/
def output1 (code : ConvCode m) (state : BitVec m) (bit : Bool) : Bool :=
  parity (register state bit &&& code.tap1)

/-- The shift register as a trellis. -/
def trellis (m : Nat) : Trellis (BitVec m) Bool where
  start := 0#m
  next state bit := (register state bit).setWidth m

/-- The code bits produced by a word read from a register. -/
def encodeFrom (code : ConvCode m) : BitVec m → List Bool → List Bool
  | _, [] => []
  | state, bit :: word =>
      code.output0 state bit :: code.output1 state bit ::
        encodeFrom code ((trellis m).next state bit) word

/-! ## Linearity -/

/-- The register before a step is linear in the state and the input. -/
theorem register_xor (x y : BitVec m) (a b : Bool) :
    register (x ^^^ y) (a ^^ b) = register x a ^^^ register y b :=
  (BitVec.concat_xor_concat x y a b).symm

/-- A step is linear in the state and the input. -/
theorem next_xor (x y : BitVec m) (a b : Bool) :
    (trellis m).next (x ^^^ y) (a ^^ b) = (trellis m).next x a ^^^ (trellis m).next y b := by
  simp [trellis, register_xor]

/-- A mask distributes over a sum. -/
theorem xor_and_distrib {w : Nat} (x y z : BitVec w) :
    (x ^^^ y) &&& z = (x &&& z) ^^^ (y &&& z) := by
  apply BitVec.eq_of_getLsbD_eq
  intro i _
  simp only [BitVec.getLsbD_and, BitVec.getLsbD_xor]
  cases x.getLsbD i <;> cases y.getLsbD i <;> cases z.getLsbD i <;> rfl

/-- The first output bit is linear in the state and the input. -/
theorem output0_xor (code : ConvCode m) (x y : BitVec m) (a b : Bool) :
    code.output0 (x ^^^ y) (a ^^ b) = (code.output0 x a ^^ code.output0 y b) := by
  simp [output0, register_xor, xor_and_distrib, parity_xor]

/-- The second output bit is linear in the state and the input. -/
theorem output1_xor (code : ConvCode m) (x y : BitVec m) (a b : Bool) :
    code.output1 (x ^^^ y) (a ^^ b) = (code.output1 x a ^^ code.output1 y b) := by
  simp [output1, register_xor, xor_and_distrib, parity_xor]

/-- A run is linear in the state and the inputs. -/
theorem run_xor (x y : BitVec m) (left right : List Bool) (h : left.length = right.length) :
    (trellis m).run (x ^^^ y) (left.zipWith (· ^^ ·) right) =
      (trellis m).run x left ^^^ (trellis m).run y right := by
  induction left generalizing right x y with
  | nil =>
      obtain rfl := List.eq_nil_of_length_eq_zero h.symm
      rfl
  | cons a left ih =>
      cases right with
      | nil => cases h
      | cons b right =>
          simp only [List.zipWith_cons_cons, Trellis.run, List.foldl_cons, next_xor]
          exact ih _ _ right (by simpa using h)

/-- The code is linear. -/
theorem encode_from_xor (code : ConvCode m) (x y : BitVec m) (left right : List Bool)
    (h : left.length = right.length) :
    code.encodeFrom (x ^^^ y) (left.zipWith (· ^^ ·) right) =
      (code.encodeFrom x left).zipWith (· ^^ ·) (code.encodeFrom y right) := by
  induction left generalizing right x y with
  | nil => simp [encodeFrom]
  | cons a left ih =>
      cases right with
      | nil => cases h
      | cons b right =>
          simp only [List.zipWith_cons_cons, encodeFrom, output0_xor, output1_xor, next_xor]
          rw [ih _ _ right (by simpa using h)]

/-- Every input bit gives two coded bits. -/
@[simp] theorem encode_from_length (code : ConvCode m) (state : BitVec m) (word : List Bool) :
    (code.encodeFrom state word).length = 2 * word.length := by
  induction word generalizing state with
  | nil => rfl
  | cons bit word ih =>
      simp only [encodeFrom, List.length_cons, ih]
      omega

/-- The code of joined words continues from the state after the first word. -/
theorem encode_from_append (code : ConvCode m) (state : BitVec m) (first second : List Bool) :
    code.encodeFrom state (first ++ second) =
      code.encodeFrom state first ++ code.encodeFrom ((trellis m).run state first) second := by
  induction first generalizing state with
  | nil => rfl
  | cons bit first ih =>
      simp only [List.cons_append, encodeFrom, ih]
      rfl

/-! ## The register is the last inputs -/

/-- A step shifts the input into the lowest bit. -/
theorem next_get_zero (hm : 0 < m) (state : BitVec m) (bit : Bool) :
    ((trellis m).next state bit).getLsbD 0 = bit := by
  simp [trellis, register, hm]

/-- A step shifts every other bit up by one. -/
theorem next_get_succ (state : BitVec m) (bit : Bool) {i : Nat} (hi : i + 1 < m) :
    ((trellis m).next state bit).getLsbD (i + 1) = state.getLsbD i := by
  simp [trellis, register, hi]

/-- After a word, register bit `i` is the word's bit `i` from the end. -/
theorem run_get (state : BitVec m) (word : List Bool) {i : Nat} (hi : i < m)
    (hword : i < word.length) :
    ((trellis m).run state word).getLsbD i = word.reverse.getD i false := by
  induction word using List.reverseRecOn generalizing i with
  | nil => cases hword
  | append_singleton word last ih =>
      simp only [Trellis.run_append, List.reverse_append, List.reverse_singleton,
        List.singleton_append]
      cases i with
      | zero => exact next_get_zero hi _ last
      | succ i =>
          rw [List.getD_cons_succ, ← ih (by omega) (by simpa using hword)]
          exact next_get_succ _ last hi

/-- `m` zero inputs clear the register. -/
theorem run_zeros (state : BitVec m) :
    (trellis m).run state (List.replicate m false) = 0#m := by
  apply BitVec.eq_of_getLsbD_eq
  intro i hi
  rw [run_get state _ hi (by simpa using hi), List.reverse_replicate,
    List.getD_eq_getElem _ _ (by simpa using hi), List.getElem_replicate, BitVec.getLsbD_zero]

/-- A word that ends in the zero register ends in `m` zero inputs. -/
theorem tail_eq_zeros {state : BitVec m} {word tail : List Bool} (htail : tail.length = m)
    (h : (trellis m).run state (word ++ tail) = 0#m) : tail = List.replicate m false := by
  rw [List.eq_replicate_iff]
  refine ⟨htail, fun bit hbit => ?_⟩
  obtain ⟨j, hj, rfl⟩ := List.mem_iff_getElem.mp hbit
  have hi : m - 1 - j < m := by omega
  have hget := run_get state (word ++ tail) hi (by simp; omega)
  rw [h] at hget
  have hindex : (word ++ tail).length - 1 - (m - 1 - j) = word.length + j := by
    rw [List.length_append]
    omega
  rw [BitVec.getLsbD_zero, List.getD_eq_getElem _ _ (by simp; omega), List.getElem_reverse] at hget
  simp only [hindex, List.getElem_append_right (Nat.le_add_right word.length j),
    Nat.add_sub_cancel_left] at hget
  exact hget.symm

/-! ## Minimum distance -/

/-- A potential bounds the weight of every code word that ends in the zero register. -/
theorem potential_le_weight (code : ConvCode m) (potential : BitVec m → Nat)
    (hzero : potential (0#m) = 0)
    (hedge : ∀ state bit, potential state ≤ (code.output0 state bit).toNat +
      (code.output1 state bit).toNat + potential ((trellis m).next state bit))
    (state : BitVec m) (word : List Bool) (h : (trellis m).run state word = 0#m) :
    potential state ≤ weight (code.encodeFrom state word) := by
  induction word generalizing state with
  | nil =>
      obtain rfl : state = 0#m := h
      simp [hzero]
  | cons bit word ih =>
      have hrest := ih ((trellis m).next state bit) h
      have hstep := hedge state bit
      simp only [encodeFrom, weight_cons]
      omega

/-- From the zero register, a zero input stays there and produces zero bits. -/
theorem zero_edge (code : ConvCode m) : (trellis m).next (0#m) false = 0#m ∧
    code.output0 (0#m) false = false ∧ code.output1 (0#m) false = false := by
  have hregister : register (0#m) false = 0#(m + 1) := by
    apply BitVec.eq_of_getLsbD_eq
    intro i _
    cases i <;> simp [register]
  simp [trellis, output0, output1, hregister]

/-- A nonzero word that returns to the zero register has a code word of weight at least `d`. -/
theorem le_weight (code : ConvCode m) (potential : BitVec m → Nat) (hzero : potential (0#m) = 0)
    (hedge : ∀ state bit, potential state ≤ (code.output0 state bit).toNat +
      (code.output1 state bit).toNat + potential ((trellis m).next state bit))
    {d : Nat} (hstart : d ≤ (code.output0 (0#m) true).toNat + (code.output1 (0#m) true).toNat +
      potential ((trellis m).next (0#m) true))
    (word : List Bool) (hone : true ∈ word) (h : (trellis m).run (0#m) word = 0#m) :
    d ≤ weight (code.encodeFrom (0#m) word) := by
  induction word with
  | nil => cases hone
  | cons bit word ih =>
      cases bit with
      | false =>
          -- leading zeros change neither the register nor the weight
          obtain ⟨hnext, h0, h1⟩ := zero_edge code
          have hrun : (trellis m).run (0#m) word = 0#m := by
            simpa [Trellis.run, hnext] using h
          have hle := ih (by simpa using hone) hrun
          simpa [encodeFrom, hnext, h0, h1] using hle
      | true =>
          have hrest := code.potential_le_weight potential hzero hedge _ word h
          simp only [encodeFrom, weight_cons]
          omega

/-- Two different words of one length that both end in the zero register have code words at
least `d` apart. -/
theorem le_distance (code : ConvCode m) (potential : BitVec m → Nat) (hzero : potential (0#m) = 0)
    (hedge : ∀ state bit, potential state ≤ (code.output0 state bit).toNat +
      (code.output1 state bit).toNat + potential ((trellis m).next state bit))
    {d : Nat} (hstart : d ≤ (code.output0 (0#m) true).toNat + (code.output1 (0#m) true).toNat +
      potential ((trellis m).next (0#m) true))
    {left right : List Bool} (hlength : left.length = right.length) (hne : left ≠ right)
    (hleft : (trellis m).run (0#m) left = 0#m) (hright : (trellis m).run (0#m) right = 0#m) :
    d ≤ distance (code.encodeFrom (0#m) left) (code.encodeFrom (0#m) right) := by
  have hlinear := code.encode_from_xor (0#m) (0#m) left right hlength
  have hrun := run_xor (0#m) (0#m) left right hlength
  rw [BitVec.xor_self] at hlinear hrun
  rw [distance, ← hlinear]
  refine code.le_weight potential hzero hedge hstart _ ?_ ?_
  · by_contra hall
    apply hne
    apply List.ext_getElem hlength
    intro i hi hi'
    have hzip : i < (left.zipWith (· ^^ ·) right).length := by
      rw [List.length_zipWith]
      omega
    have hmem := List.getElem_mem hzip
    rw [List.getElem_zipWith] at hmem
    cases hl : left[i] <;> cases hr : right[i] <;> simp_all
  · rw [hrun, hleft, hright, BitVec.xor_self]

end ConvCode

end LatentMesh.Lib
