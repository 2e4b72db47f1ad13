import LatentMesh.AirC.Bits

/-!
# The C interleaver

`lm_air_interleave_bits` reads the bits of its input in the column order of a rectangle
(`lm_air_interleave_bits_eq`), and `lm_air_deinterleave_bits` writes the bits of its input in that
order (`lm_air_deinterleave_bits_eq`), so the second undoes the first (`deinterleave_interleave`).
-/

namespace LatentMesh.AirC

open LatentMesh.Lib

/-- The order in which the interleaver visits the bits. -/
def bitOrder (rows : UInt8) (bitCount : Nat) : List Nat :=
  columnOrder rows.toNat ((bitCount + rows.toNat - 1) / rows.toNat) bitCount

/-- The order of the bits is a permutation. -/
theorem bit_order_perm {rows : UInt8} (hrows : rows ≠ 0) (bitCount : Nat) :
    (bitOrder rows bitCount).Perm (List.range bitCount) := by
  refine column_order_perm ?_
  have hpos : 0 < rows.toNat := Nat.pos_of_ne_zero fun h => hrows (UInt8.toNat_inj.mp h)
  have hdivide := Nat.div_add_mod (bitCount + rows.toNat - 1) rows.toNat
  have hrest := Nat.mod_lt (bitCount + rows.toNat - 1) hpos
  omega

/-- The order has an entry for every bit. -/
theorem bit_order_length {rows : UInt8} (hrows : rows ≠ 0) (bitCount : Nat) :
    (bitOrder rows bitCount).length = bitCount := by
  rw [(bit_order_perm hrows bitCount).length_eq, List.length_range]

/-- The order names bits only. -/
theorem lt_of_mem_bit_order {rows : UInt8} (hrows : rows ≠ 0) {bitCount i : Nat}
    (h : i ∈ bitOrder rows bitCount) : i < bitCount :=
  List.mem_range.mp ((bit_order_perm hrows bitCount).mem_iff.mp h)

/-! ## The loops as one loop over the order -/

/-- A loop over columns and rows that skips the cells past the end visits the order. -/
theorem foldl_bit_order {σ : Type} (visit : σ → Nat → σ) (rows : UInt8) (bitCount : Nat)
    (start : σ) :
    (List.range ((bitCount + rows.toNat - 1) / rows.toNat)).foldl (fun acc column =>
      (List.range rows.toNat).foldl (fun acc row =>
        let index := row * ((bitCount + rows.toNat - 1) / rows.toNat) + column
        if index < bitCount then visit acc index else acc) acc) start =
      (bitOrder rows bitCount).foldl visit start := by
  rw [bitOrder, columnOrder, List.foldl_flatMap]
  congr 1
  funext acc column
  rw [List.foldl_filterMap]
  congr 1
  funext acc row
  dsimp only
  split <;> rfl

/-- The next output bit is the input bit at a position. -/
def interleaveBit (input : List UInt8) (acc : List UInt8 × Nat) (i : Nat) : List UInt8 × Nat :=
  (setBit acc.1 acc.2 (getBit input i), acc.2 + 1)

/-- The output bit at a position is the next input bit. -/
def deinterleaveBit (input : List UInt8) (acc : List UInt8 × Nat) (i : Nat) : List UInt8 × Nat :=
  (setBit acc.1 i (getBit input acc.2), acc.2 + 1)

/-- The loop keeps the length of the output and counts its steps. -/
theorem interleave_bit_length (input : List UInt8) (order : List Nat) (acc : List UInt8 × Nat) :
    (order.foldl (interleaveBit input) acc).1.length = acc.1.length ∧
      (order.foldl (interleaveBit input) acc).2 = acc.2 + order.length := by
  induction order generalizing acc with
  | nil => exact ⟨rfl, rfl⟩
  | cons i order ih =>
      obtain ⟨hlength, hcount⟩ := ih (interleaveBit input acc i)
      rw [List.foldl_cons, hlength, hcount, interleaveBit, set_bit_length, List.length_cons]
      exact ⟨rfl, by omega⟩

/-- The loop keeps the length of the output and counts its steps. -/
theorem deinterleave_bit_length (input : List UInt8) (order : List Nat) (acc : List UInt8 × Nat) :
    (order.foldl (deinterleaveBit input) acc).1.length = acc.1.length ∧
      (order.foldl (deinterleaveBit input) acc).2 = acc.2 + order.length := by
  induction order generalizing acc with
  | nil => exact ⟨rfl, rfl⟩
  | cons i order ih =>
      obtain ⟨hlength, hcount⟩ := ih (deinterleaveBit input acc i)
      rw [List.foldl_cons, hlength, hcount, deinterleaveBit, set_bit_length, List.length_cons]
      exact ⟨rfl, by omega⟩

/-- Visiting an order appends the bits at its positions. -/
theorem interleave_bit_bits (input : List UInt8) {bitCount : Nat} {order : List Nat}
    (horder : ∀ i ∈ order, i < bitCount) (buffer : List UInt8) (written : Nat)
    (h : written + order.length ≤ 8 * buffer.length) :
    bitsOf (order.foldl (interleaveBit input) (buffer, written)).1 (written + order.length) =
      bitsOf buffer written ++ gather (bitsOf input bitCount) order := by
  induction order generalizing buffer written with
  | nil => simp [gather]
  | cons i order ih =>
      have hi : i < (bitsOf input bitCount).length := by
        rw [bits_of_length]
        exact horder i (by simp)
      have hbit : (bitsOf input bitCount)[i] = byteBit input i := by simp [bitsOf]
      rw [List.length_cons] at h
      have hrest := ih (fun j hj => horder j (by simp [hj]))
        (setBit buffer written (getBit input i)) (written + 1) (by rw [set_bit_length]; omega)
      rw [get_bit_eq, bits_of_set_bit_next _ (by omega), List.append_assoc] at hrest
      have hcount : written + (order.length + 1) = written + 1 + order.length := by omega
      rw [gather_cons hi, hbit, List.length_cons, hcount, List.foldl_cons, interleaveBit,
        get_bit_eq]
      exact hrest

/-- Visiting an order writes the next bits at its positions. -/
theorem deinterleave_bit_bits (input : List UInt8) {bitCount : Nat} {order : List Nat}
    (horder : ∀ i ∈ order, i < bitCount) (buffer : List UInt8)
    (hbuffer : bitCount ≤ 8 * buffer.length)
    (read : Nat) (h : read + order.length ≤ bitCount) :
    bitsOf (order.foldl (deinterleaveBit input) (buffer, read)).1 bitCount =
      scatter order ((bitsOf input bitCount).drop read) (bitsOf buffer bitCount) := by
  induction order generalizing buffer read with
  | nil => rfl
  | cons i order ih =>
      have hi := horder i (by simp)
      rw [List.length_cons] at h
      have hread : read < (bitsOf input bitCount).length := by
        rw [bits_of_length]
        omega
      have hbit : (bitsOf input bitCount)[read] = byteBit input read := by simp [bitsOf]
      have hrest := ih (fun j hj => horder j (by simp [hj]))
        (setBit buffer i (getBit input read)) (by rwa [set_bit_length]) (read + 1) (by omega)
      rw [get_bit_eq, bits_of_set_bit _ (by omega)] at hrest
      rw [List.drop_eq_getElem_cons hread, hbit, List.foldl_cons, deinterleaveBit, get_bit_eq]
      exact hrest

/-! ## The two functions -/

section

variable {rows : UInt8} {bitCount : Nat} {output : List UInt8}

/-- The interleaver visits the order from a cleared buffer. -/
theorem lm_air_interleave_bits_eq (input : List UInt8) (hrows : rows ≠ 0)
    (houtput : (bitCount + 7) / 8 ≤ output.length) :
    lmAirInterleaveBits input bitCount output rows =
      (.ok, ((bitOrder rows bitCount).foldl (interleaveBit input)
        (clearBytes output ((bitCount + 7) / 8), 0)).1) := by
  have hloop : (List.range ((bitCount + rows.toNat - 1) / rows.toNat)).foldl (fun acc column =>
      (List.range rows.toNat).foldl (interleaveStep input bitCount
        ((bitCount + rows.toNat - 1) / rows.toNat) column) acc)
      (clearBytes output ((bitCount + 7) / 8), 0) =
      (bitOrder rows bitCount).foldl (interleaveBit input)
        (clearBytes output ((bitCount + 7) / 8), 0) :=
    foldl_bit_order (interleaveBit input) rows bitCount _
  obtain ⟨-, hcount⟩ := interleave_bit_length input (bitOrder rows bitCount)
    (clearBytes output ((bitCount + 7) / 8), 0)
  rw [bit_order_length hrows, Nat.zero_add] at hcount
  unfold lmAirInterleaveBits
  dsimp only
  rw [if_neg hrows, if_neg (Nat.not_lt.mpr houtput)]
  by_cases hzero : bitCount = 0
  · have hempty : bitOrder rows bitCount = [] :=
      List.eq_nil_of_length_eq_zero (by rw [bit_order_length hrows, hzero])
    rw [if_pos hzero, hempty]
    rfl
  · rw [if_neg hzero, hloop, if_pos hcount]

/-- The deinterleaver visits the order from a cleared buffer. -/
theorem lm_air_deinterleave_bits_eq (input : List UInt8) (hrows : rows ≠ 0)
    (houtput : (bitCount + 7) / 8 ≤ output.length) :
    lmAirDeinterleaveBits input bitCount output rows =
      (.ok, ((bitOrder rows bitCount).foldl (deinterleaveBit input)
        (clearBytes output ((bitCount + 7) / 8), 0)).1) := by
  have hloop : (List.range ((bitCount + rows.toNat - 1) / rows.toNat)).foldl (fun acc column =>
      (List.range rows.toNat).foldl (deinterleaveStep input bitCount
        ((bitCount + rows.toNat - 1) / rows.toNat) column) acc)
      (clearBytes output ((bitCount + 7) / 8), 0) =
      (bitOrder rows bitCount).foldl (deinterleaveBit input)
        (clearBytes output ((bitCount + 7) / 8), 0) :=
    foldl_bit_order (deinterleaveBit input) rows bitCount _
  obtain ⟨-, hcount⟩ := deinterleave_bit_length input (bitOrder rows bitCount)
    (clearBytes output ((bitCount + 7) / 8), 0)
  rw [bit_order_length hrows, Nat.zero_add] at hcount
  unfold lmAirDeinterleaveBits
  dsimp only
  rw [if_neg hrows, if_neg (Nat.not_lt.mpr houtput)]
  by_cases hzero : bitCount = 0
  · have hempty : bitOrder rows bitCount = [] :=
      List.eq_nil_of_length_eq_zero (by rw [bit_order_length hrows, hzero])
    rw [if_pos hzero, hempty]
    rfl
  · rw [if_neg hzero, hloop, if_pos hcount]

/-- The interleaver keeps the length of the output. -/
theorem lm_air_interleave_bits_length (input : List UInt8) (bitCount : Nat) (output : List UInt8)
    (rows : UInt8) :
    (lmAirInterleaveBits input bitCount output rows).2.length = output.length := by
  by_cases hrows : rows = 0
  · rw [lmAirInterleaveBits, if_pos hrows]
  · by_cases houtput : (bitCount + 7) / 8 ≤ output.length
    · rw [lm_air_interleave_bits_eq input hrows houtput, (interleave_bit_length _ _ _).1,
        clear_bytes_length]
    · rw [lmAirInterleaveBits, if_neg hrows, if_pos (Nat.not_le.mp houtput)]

/-- The interleaver reads the bits in the order. -/
theorem lm_air_interleave_bits_spec (input : List UInt8) (hrows : rows ≠ 0)
    (houtput : (bitCount + 7) / 8 ≤ output.length) :
    ∃ interleaved, lmAirInterleaveBits input bitCount output rows = (.ok, interleaved) ∧
      interleaved.length = output.length ∧
      bitsOf interleaved bitCount = gather (bitsOf input bitCount) (bitOrder rows bitCount) := by
  refine ⟨_, lm_air_interleave_bits_eq input hrows houtput, ?_, ?_⟩
  · rw [(interleave_bit_length _ _ _).1, clear_bytes_length]
  · have horder : ∀ i ∈ bitOrder rows bitCount, i < bitCount :=
      fun i => lt_of_mem_bit_order hrows
    have hgathered := interleave_bit_bits input horder (clearBytes output ((bitCount + 7) / 8)) 0
      (by rw [clear_bytes_length, bit_order_length hrows]; omega)
    rwa [bit_order_length hrows, Nat.zero_add] at hgathered

/-- The deinterleaver writes the bits in the order. -/
theorem lm_air_deinterleave_bits_spec (input : List UInt8) (hrows : rows ≠ 0)
    (houtput : (bitCount + 7) / 8 ≤ output.length) :
    ∃ restored target, lmAirDeinterleaveBits input bitCount output rows = (.ok, restored) ∧
      restored.length = output.length ∧ target.length = bitCount ∧ bitsOf restored bitCount =
        scatter (bitOrder rows bitCount) (bitsOf input bitCount) target := by
  refine ⟨_, bitsOf (clearBytes output ((bitCount + 7) / 8)) bitCount,
    lm_air_deinterleave_bits_eq input hrows houtput, ?_, bits_of_length _ _, ?_⟩
  · rw [(deinterleave_bit_length _ _ _).1, clear_bytes_length]
  · rw [deinterleave_bit_bits input (fun i => lt_of_mem_bit_order hrows) _
      (by rw [clear_bytes_length]; omega) 0 (by rw [bit_order_length hrows]; omega), List.drop_zero]

/-- The deinterleaver restores the bits that the interleaver permuted. -/
theorem deinterleave_interleave (input output source : List UInt8) (hrows : rows ≠ 0)
    (houtput : (bitCount + 7) / 8 ≤ output.length)
    (hsource : (bitCount + 7) / 8 ≤ source.length) :
    ∃ interleaved restored,
      lmAirInterleaveBits input bitCount output rows = (.ok, interleaved) ∧
      lmAirDeinterleaveBits interleaved bitCount source rows = (.ok, restored) ∧
      restored.length = source.length ∧ bitsOf restored bitCount = bitsOf input bitCount := by
  obtain ⟨interleaved, hinterleave, -, hgather⟩ := lm_air_interleave_bits_spec input hrows houtput
  obtain ⟨restored, target, hdeinterleave, hlength, htarget, hscatter⟩ :=
    lm_air_deinterleave_bits_spec interleaved hrows hsource
  refine ⟨interleaved, restored, hinterleave, hdeinterleave, hlength, ?_⟩
  have hbits : (bitsOf input bitCount).length = bitCount := bits_of_length _ _
  rw [hscatter, hgather]
  exact scatter_gather _ _ (hbits.symm ▸ bit_order_perm hrows bitCount) (hbits.trans htarget.symm)

/-- The interleaver restores the bits that the deinterleaver permuted. -/
theorem interleave_deinterleave (input output source : List UInt8) (hrows : rows ≠ 0)
    (houtput : (bitCount + 7) / 8 ≤ output.length)
    (hsource : (bitCount + 7) / 8 ≤ source.length) :
    ∃ deinterleaved restored,
      lmAirDeinterleaveBits input bitCount output rows = (.ok, deinterleaved) ∧
      lmAirInterleaveBits deinterleaved bitCount source rows = (.ok, restored) ∧
      bitsOf restored bitCount = bitsOf input bitCount := by
  obtain ⟨deinterleaved, target, hdeinterleave, -, htarget, hscatter⟩ :=
    lm_air_deinterleave_bits_spec input hrows houtput
  obtain ⟨restored, hinterleave, -, hgather⟩ :=
    lm_air_interleave_bits_spec deinterleaved hrows hsource
  refine ⟨deinterleaved, restored, hdeinterleave, hinterleave, ?_⟩
  rw [hgather, hscatter]
  exact gather_scatter _ _ (htarget.symm ▸ bit_order_perm hrows bitCount)
    ((bits_of_length _ _).trans htarget.symm)

end

end LatentMesh.AirC
