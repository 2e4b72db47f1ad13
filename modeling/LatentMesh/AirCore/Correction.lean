import Mathlib.Tactic.Linarith
import LatentMesh.AirCore.Viterbi
import LatentMesh.Lib.Bytes
import LatentMesh.Lib.Interleave

/-!
# Guaranteed correction

The code has free distance 10 (`ten_le_distance`), so a received word with at most four flipped
bits has a unique closest code word, and the soft decoder returns its data word at every magnitude
of the LLRs (`soft_viterbi_corrects`). The interleaver is a permutation of the positions, so it
keeps the number of flipped bits (`interleave_bits_word`, `deinterleave_soft_flipped`).
-/

namespace LatentMesh.AirCore

open LatentMesh.Lib

/-! ## Free distance -/

/-- The least weight of a path from each state back to state zero. -/
def potentialTable : List Nat :=
  [0, 8, 7, 7, 7, 5, 6, 6, 5, 7, 4, 8, 4, 6, 5, 7, 3, 7, 6, 6, 4, 4, 7, 7, 4, 6, 5, 7, 5, 7, 6, 6,
    2, 8, 5, 7, 5, 5, 4, 6, 3, 7, 4, 8, 6, 6, 7, 7, 3, 5, 6, 4, 4, 6, 7, 7, 4, 4, 5, 7, 5, 5, 6, 6]

/-- The number of errors that are needed to bring a state back to the start, at least. -/
def potential (state : BitVec 6) : Nat := potentialTable.getD state.toNat 0

/-- No edge lowers the potential by more than its weight. -/
theorem potential_edge : ∀ state : BitVec 6, ∀ bit : Bool,
    potential state ≤ (code.output0 state bit).toNat + (code.output1 state bit).toNat +
      potential ((ConvCode.trellis 6).next state bit) := by
  decide

/-- Leaving the start costs ten errors, counted with the potential. -/
theorem ten_le_potential : 10 ≤ (code.output0 (0#6) true).toNat +
    (code.output1 (0#6) true).toNat + potential ((ConvCode.trellis 6).next (0#6) true) := by
  decide

/-- Code words of different data words differ in at least ten positions. -/
theorem ten_le_distance {data other : List Bool} (hlength : data.length = other.length)
    (hne : data ≠ other) : 10 ≤ distance (codeWord data) (codeWord other) := by
  refine code.le_distance potential rfl potential_edge ten_le_potential ?_ ?_
    (run_terminated data) (run_terminated other)
  · simp [hlength]
  · exact fun h => hne (List.append_cancel_right h)

/-! ## LLRs of one magnitude -/

/-- The LLR of a received bit. -/
def llrOf (magnitude : Int8) (bit : Bool) : Int8 := if bit then magnitude else -magnitude

/-- A positive magnitude is negated without overflow. -/
theorem neg_to_int {magnitude : Int8} (h : 0 < magnitude) :
    (-magnitude).toInt = -magnitude.toInt := by
  have hpos := Int8.lt_iff_toInt_lt.mp h
  have hmost := Int8.toInt_lt magnitude
  rw [Int8.toInt_neg]
  refine Int.bmod_eq_of_le ?_ ?_ <;> simp at hpos <;> omega

/-- A positive magnitude is a positive integer. -/
theorem zero_lt_to_int {magnitude : Int8} (h : 0 < magnitude) : 0 < magnitude.toInt :=
  Int8.lt_iff_toInt_lt.mp h

/-- The soft values of a word of bits. -/
theorem hard_bits_to_llrs_word {magnitude : Int8} (h : 0 < magnitude) (bits : List Bool) :
    hardBitsToLlrs (bits.map Bool.toUInt8) magnitude = .ok (bits.map (llrOf magnitude)) := by
  have hsign : ¬ magnitude ≤ 0 := by
    rw [Int8.le_iff_toInt_le]
    exact not_le.mpr (zero_lt_to_int h)
  have hbits : ¬ ∃ bit ∈ bits.map Bool.toUInt8, 1 < bit := by
    rintro ⟨bit, hmem, hlt⟩
    exact absurd (word_le_one bits bit hmem) (UInt8.not_le.mpr hlt)
  rw [hardBitsToLlrs, if_neg (not_or.mpr ⟨hsign, hbits⟩), List.map_map]
  congr 2
  funext bit
  cases bit <;> rfl

/-- The metric of a soft value against a bit. -/
theorem llr_metric_to_uint8 (llr : Int8) (bit : Bool) :
    llrMetric llr bit.toUInt8 = if bit then llr.toInt else -llr.toInt := by
  cases bit <;> rfl

/-- With one magnitude, correlation counts agreeing minus differing positions. -/
theorem correlation_hard {magnitude : Int8} (h : 0 < magnitude) {received coded : List Bool}
    (hlength : received.length = coded.length) :
    correlation (received.map (llrOf magnitude)) (coded.map Bool.toUInt8) =
      magnitude.toInt * (received.length - 2 * distance received coded) := by
  induction received generalizing coded with
  | nil =>
      obtain rfl := List.eq_nil_of_length_eq_zero hlength.symm
      simp [correlation]
  | cons bit received ih =>
      obtain ⟨sent, coded, rfl⟩ := List.exists_cons_of_length_eq_add_one hlength.symm
      have hrest := ih (by simpa using hlength)
      have hhead : llrMetric (llrOf magnitude bit) sent.toUInt8 =
          magnitude.toInt * (1 - 2 * (bit ^^ sent).toNat) := by
        rw [llr_metric_to_uint8]
        cases bit <;> cases sent <;> simp [llrOf, neg_to_int h]
      unfold correlation at hrest ⊢
      simp only [List.map_cons, List.zipWith_cons_cons, List.sum_cons, hrest, hhead,
        List.length_cons, distance_cons]
      push_cast
      ring

/-- A longer distance is a smaller correlation. -/
theorem correlation_lt_iff {magnitude : Int8} (h : 0 < magnitude)
    {received first second : List Bool}
    (hfirst : received.length = first.length) (hsecond : received.length = second.length) :
    correlation (received.map (llrOf magnitude)) (first.map Bool.toUInt8) <
        correlation (received.map (llrOf magnitude)) (second.map Bool.toUInt8) ↔
      distance received second < distance received first := by
  have hpos := zero_lt_to_int h
  rw [correlation_hard h hfirst, correlation_hard h hsecond, mul_lt_mul_iff_right₀ hpos]
  omega

/-! ## Correction -/

/-- A received word within four bits of a code word decodes to its data word. -/
theorem soft_viterbi_corrects {magnitude : Int8} (h : 0 < magnitude) {data received : List Bool}
    (hwhole : data.length % 8 = 0) (hmost : data.length ≤ frameMaxBytes * 8)
    (hlength : received.length = (codeWord data).length)
    (herrors : distance received (codeWord data) ≤ 4) :
    ∃ result, softViterbiDecode (received.map (llrOf magnitude)) = .ok result ∧
      result.bits = data.map Bool.toUInt8 := by
  have hcoded := code_word_length data
  simp only [memory] at hcoded
  have haccepted : AcceptedLength (received.map (llrOf magnitude)).length := by
    rw [List.length_map, hlength, hcoded]
    refine ⟨?_, ?_, by omega, ?_⟩
    · simp only [memory]
      omega
    · simp only [maxCodedBits, memory]
      omega
    · simp only [memory]
      omega
  obtain ⟨other, hother, -, hdecode, hbest⟩ := soft_viterbi_word haccepted
  have hsame : other.length = data.length := by
    rw [hother, List.length_map, hlength, hcoded, memory]
    omega
  refine ⟨_, hdecode, ?_⟩
  by_cases heq : other = data
  · rw [heq]
  · -- a second code word would be more than four bits away
    have hten := ten_le_distance hsame heq
    have hother' : (codeWord other).length = received.length := by simp [hlength, hsame]
    have htriangle := distance_triangle hother' hlength
    rw [distance_comm _ received] at htriangle
    have hworse := (correlation_lt_iff h hother'.symm hlength).mpr (by omega)
    exact absurd (hbest data hsame.symm) (not_le.mpr hworse)

/-! ## Interleaver -/

section

variable {α : Type} {columns : Nat}

/-- The order in which the interleaver visits the positions. -/
def interleaveOrder (length columns : Nat) : List Nat :=
  columnOrder (divCeil length columns) columns length

/-- The order of the columns is a permutation. -/
theorem interleave_order_perm (length : Nat) (h : 0 < columns) :
    (interleaveOrder length columns).Perm (List.range length) :=
  column_order_perm (le_div_ceil_mul h)

/-- The interleaver gathers the values in the order of the columns. -/
theorem interleave_copy_eq (values : List α) (h : 0 < columns) (hmax : columns ≤ maxCodedBits) :
    interleaveCopy values columns =
      .ok (gather values (interleaveOrder values.length columns)) := by
  rw [interleaveCopy, if_neg (by omega)]
  split
  · rename_i hempty
    obtain rfl := List.isEmpty_iff.mp hempty
    simp [gather]
  · dsimp only
    rw [gather, interleaveOrder, columnOrder, List.filterMap_flatMap]
    congr 2
    funext column
    rw [List.filterMap_filterMap]
    congr 1
    funext row
    by_cases hindex : row * columns + column < values.length
    · simp [hindex]
    · simp [hindex]

/-- Interleaving the bytes of a word interleaves the word. -/
theorem interleave_bits_word (bits : List Bool) (h : 0 < columns) (hmax : columns ≤ maxCodedBits) :
    interleaveBits (bits.map Bool.toUInt8) columns =
      .ok ((gather bits (interleaveOrder bits.length columns)).map Bool.toUInt8) := by
  have hbits : ¬ ∃ bit ∈ bits.map Bool.toUInt8, 1 < bit := by
    rintro ⟨bit, hmem, hlt⟩
    exact absurd (word_le_one bits bit hmem) (UInt8.not_le.mpr hlt)
  rw [interleaveBits, if_neg hbits, interleave_copy_eq _ h hmax, gather_map, List.length_map]

/-- Writing the next source value at every position of an order is a scatter. -/
theorem write_positions_eq_scatter (llrs : List Int8) (order : List Nat) (target : List Int8)
    (source : Nat) (h : source + order.length ≤ llrs.length) :
    (order.foldl (fun state position =>
      (state.1.set position (llrs.getD state.2 0), state.2 + 1)) (target, source)).1 =
        scatter order (llrs.drop source) target := by
  induction order generalizing target source with
  | nil => rfl
  | cons position order ih =>
      rw [List.length_cons] at h
      have hsource : source < llrs.length := by omega
      rw [List.foldl_cons, ih _ _ (by omega), List.drop_eq_getElem_cons hsource,
        List.getD_eq_getElem llrs 0 hsource]
      rfl

/-- The deinterleaver scatters the values in the order of the columns. -/
theorem deinterleave_soft_eq (llrs : List Int8) (h : 0 < columns) (hmax : columns ≤ maxCodedBits) :
    deinterleaveSoft llrs columns = .ok (scatter (interleaveOrder llrs.length columns) llrs
      (List.replicate llrs.length 0)) := by
  rw [deinterleaveSoft, if_neg (by omega)]
  split
  · rename_i hempty
    obtain rfl := List.isEmpty_iff.mp hempty
    simp [scatter]
  · have hlength : (interleaveOrder llrs.length columns).length = llrs.length := by
      rw [(interleave_order_perm llrs.length h).length_eq, List.length_range]
    have hscatter := write_positions_eq_scatter llrs (interleaveOrder llrs.length columns)
      (List.replicate llrs.length 0) 0 (by omega)
    rw [List.drop_zero] at hscatter
    rw [← hscatter, interleaveOrder, columnOrder, List.foldl_flatMap]
    have hstep : ∀ (column : Nat) (state : List Int8 × Nat),
        (List.range (divCeil llrs.length columns)).foldl (deinterleaveStep llrs columns column)
            state =
          ((List.range (divCeil llrs.length columns)).filterMap fun row =>
            let index := row * columns + column
            if index < llrs.length then some index else none).foldl
            (fun state position => (state.1.set position (llrs.getD state.2 0), state.2 + 1))
            state := by
      intro column state
      rw [List.foldl_filterMap]
      congr 1
      funext state row
      unfold deinterleaveStep
      dsimp only
      split <;> rfl
    simp only [hstep]

/-- Flipped positions of an interleaved word are as many flipped positions of the word. -/
theorem deinterleave_soft_flipped {coded mask : List Bool} (hmask : mask.length = coded.length)
    (h : 0 < columns) (hmax : columns ≤ maxCodedBits) (magnitude : Int8) :
    ∃ received : List Bool, received.length = coded.length ∧
      distance received coded = weight mask ∧
      deinterleaveSoft ((flipBits (gather coded (interleaveOrder coded.length columns)) mask).map
        (llrOf magnitude)) columns = .ok (received.map (llrOf magnitude)) := by
  have hperm := interleave_order_perm coded.length h
  generalize horder : interleaveOrder coded.length columns = order at hperm
  have hbound : ∀ i ∈ order, i < coded.length := fun i hi => List.mem_range.mp (hperm.mem_iff.mp hi)
  have hgather : (gather coded order).length = coded.length := by
    rw [gather_length hbound, hperm.length_eq, List.length_range]
  have hsent : (flipBits (gather coded order) mask).length = coded.length := by
    rw [flip_bits_length, hgather, hmask, min_self]
  refine ⟨scatter order (flipBits (gather coded order) mask) coded, scatter_length _ _ _, ?_, ?_⟩
  · have hreceived := gather_scatter _ coded hperm hsent
    have hlength := scatter_length order (flipBits (gather coded order) mask) coded
    generalize scatter order (flipBits (gather coded order) mask) coded = received
      at hreceived hlength
    -- the two words differ as often in the visiting order as in the natural order
    have hzip : gather (received.zipWith (· ^^ ·) coded) order =
        (gather received order).zipWith (· ^^ ·) (gather coded order) :=
      gather_zip_with _ hlength (by rwa [hlength])
    have hzip_perm : (gather (received.zipWith (· ^^ ·) coded) order).Perm
        (received.zipWith (· ^^ ·) coded) := by
      apply gather_perm
      rwa [List.length_zipWith, hlength, min_self]
    calc distance received coded
        = weight (gather (received.zipWith (· ^^ ·) coded) order) := (weight_perm hzip_perm).symm
      _ = distance (flipBits (gather coded order) mask) (gather coded order) := by
          rw [hzip, hreceived]
          rfl
      _ = weight mask := distance_flip_bits (by rw [hgather, hmask])
  · rw [deinterleave_soft_eq _ h hmax, List.length_map, hsent, horder]
    congr 1
    have hreceived := gather_scatter _ coded hperm hsent
    have hlength := scatter_length order (flipBits (gather coded order) mask) coded
    rw [← hreceived, ← gather_map, hreceived]
    refine scatter_gather _ _ ?_ (by simp)
    rwa [List.length_map, hlength]

end

/-! ## Bytes -/

/-- `(byte >> shift) & 1` is a bit of the byte. -/
theorem shifted_byte_bit (byte : UInt8) {shift : Nat} (h : shift < 8) :
    (byte >>> UInt8.ofNat shift) &&& 1 = (byte.toBitVec.getLsbD shift).toUInt8 := by
  have hmod : (UInt8.ofNat shift).toNat % 8 = shift := by
    rw [UInt8.toNat_ofNat']
    omega
  have hget : byte.toBitVec.getLsbD shift = byte.toNat.testBit shift := rfl
  have hbit : ∀ bit : Bool, bit.toUInt8.toNat = bit.toNat := by decide
  apply UInt8.toNat_inj.mp
  rw [UInt8.toNat_and, UInt8.toNat_shiftRight, hmod, hget, hbit, Nat.toNat_testBit,
    Nat.shiftRight_eq_div_pow]
  exact Nat.and_one_is_mod _

/-- The bits of a byte as a word. -/
theorem byte_bits_msb_word (byte : UInt8) : byteBitsMsb byte =
    ([7, 6, 5, 4, 3, 2, 1, 0].map byte.toBitVec.getLsbD).map Bool.toUInt8 := by
  have hbits : ([7, 6, 5, 4, 3, 2, 1, 0].map byte.toBitVec.getLsbD).map Bool.toUInt8 =
      [7, 6, 5, 4, 3, 2, 1, 0].map fun shift => (byte >>> UInt8.ofNat shift) &&& 1 := by
    rw [List.map_map]
    refine List.map_congr_left fun shift hshift => (shifted_byte_bit byte ?_).symm
    simp only [List.mem_cons, List.not_mem_nil, or_false] at hshift
    omega
  rw [hbits]
  rfl

/-- The bits of a byte are bits. -/
theorem byte_bits_msb_le_one (byte : UInt8) : ∀ bit ∈ byteBitsMsb byte, bit ≤ 1 := by
  rw [byte_bits_msb_word]
  exact word_le_one _

/-- The bits of some bytes are bits. -/
theorem bytes_to_bits_msb_le_one (bytes : List UInt8) : ∀ bit ∈ bytesToBitsMsb bytes, bit ≤ 1 := by
  intro bit hbit
  obtain ⟨byte, -, hmem⟩ := List.mem_flatMap.mp hbit
  exact byte_bits_msb_le_one byte bit hmem

/-- Every byte has eight bits. -/
@[simp] theorem bytes_to_bits_msb_length (bytes : List UInt8) :
    (bytesToBitsMsb bytes).length = 8 * bytes.length := by
  induction bytes with
  | nil => rfl
  | cons byte bytes ih =>
      rw [bytesToBitsMsb, List.flatMap_cons, List.length_append, ← bytesToBitsMsb, ih,
        List.length_cons, Nat.mul_succ, Nat.add_comm]
      rfl

/-- The bits of a byte are packed to the byte. -/
theorem pack_byte (byte : UInt8) :
    packByte (byteBitsMsb byte) = byte := by
  revert byte
  rw [byte_forall_iff]
  decide +kernel

/-- Packing the bits of bytes gives the bytes back. -/
theorem bits_to_bytes_msb_bytes (bytes : List UInt8) :
    bitsToBytesMsb (bytesToBitsMsb bytes) = .ok bytes := by
  have hpack : packBits (bytesToBitsMsb bytes) = bytes := by
    induction bytes with
    | nil => rfl
    | cons byte bytes ih => exact congrArg₂ List.cons (pack_byte byte) ih
  have hbits : ¬ ∃ bit ∈ bytesToBitsMsb bytes, 1 < bit := by
    rintro ⟨bit, hmem, hlt⟩
    exact absurd (bytes_to_bits_msb_le_one bytes bit hmem) (UInt8.not_le.mpr hlt)
  rw [bitsToBytesMsb, if_neg (not_or.mpr ⟨by simp, hbits⟩), hpack]

end LatentMesh.AirCore
