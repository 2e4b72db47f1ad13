import LatentMesh.AirC.Interleaver

/-!
# The C and Rust interleavers agree

Both interleavers read a rectangle column by column. The C side is given its rows and the Rust side
its columns, and a rectangle with more rows than the bits need has the same order
(`column_order_rows`). Each deinterleaver is the inverse of its interleaver on both sides:
see `interleavers_agree`.
-/

namespace LatentMesh.AirC

open LatentMesh.Lib LatentMesh.AirCore

/-! ## The Rust interleaver -/

variable {columns : Nat}

/-- What the deinterleaver makes of soft values that stand for the entries of a list. -/
theorem deinterleave_soft_map {α : Type} (values : List α) (soft : α → Int8) (h : 0 < columns)
    (hmax : columns ≤ maxCodedBits) :
    deinterleaveSoft (values.map soft) columns =
      .ok ((scatter (interleaveOrder values.length columns) values values).map soft) := by
  have hperm := interleave_order_perm values.length h
  have hgather := gather_scatter values values hperm rfl
  have hlength := scatter_length (interleaveOrder values.length columns) values values
  rw [deinterleave_soft_eq _ h hmax, List.length_map]
  generalize scatter (interleaveOrder values.length columns) values values = restored
    at hgather hlength ⊢
  have hsoft : gather (restored.map soft) (interleaveOrder values.length columns) =
      (gather restored (interleaveOrder values.length columns)).map soft := gather_map soft restored
  rw [hgather] at hsoft
  rw [← hsoft]
  refine congrArg _ (scatter_gather _ _ ?_ ?_)
  · rwa [List.length_map, hlength]
  · rw [List.length_map, hlength, List.length_replicate]

/-- The interleaver and the deinterleaver on any list, with soft values for its entries. -/
theorem interleave_copy_inverse {α : Type} (values : List α) (h : 0 < columns)
    (hmax : columns ≤ maxCodedBits) :
    ∃ interleaved restored : List α,
      (interleaved.Perm values ∧ restored.Perm values) ∧
      interleaveCopy values columns = .ok interleaved ∧
      interleaveCopy restored columns = .ok values ∧
      ∀ soft : α → Int8,
        deinterleaveSoft (interleaved.map soft) columns = .ok (values.map soft) ∧
        deinterleaveSoft (values.map soft) columns = .ok (restored.map soft) := by
  have hperm := interleave_order_perm values.length h
  have hinterleaved := gather_perm hperm
  have hlength := hinterleaved.length_eq
  have hgather := gather_scatter values values hperm rfl
  have hscatter := scatter_length (interleaveOrder values.length columns) values values
  have hscatterPerm : (interleaveOrder values.length columns).Perm (List.range
      (scatter (interleaveOrder values.length columns) values values).length) := by
    rwa [hscatter]
  -- the values are gathered by the interleaver and scattered by the deinterleaver
  refine ⟨_, _, ⟨hinterleaved, ?_⟩, interleave_copy_eq values h hmax, ?_, fun soft =>
    ⟨?_, deinterleave_soft_map values soft h hmax⟩⟩
  · have hrestored := gather_perm hscatterPerm
    rw [hgather] at hrestored
    exact hrestored.symm
  · rw [interleave_copy_eq _ h hmax, hscatter, hgather]
  · rw [deinterleave_soft_map _ soft h hmax, hlength]
    exact congrArg (fun restored => Except.ok (List.map soft restored))
      (scatter_gather values _ hperm hlength.symm)

/-- Soft values that were interleaved are restored. -/
theorem interleave_soft_inverse (llrs : List Int8) (h : 0 < columns)
    (hmax : columns ≤ maxCodedBits) :
    ∃ interleaved restored,
      interleaveSoft llrs columns = .ok interleaved ∧
      deinterleaveSoft interleaved columns = .ok llrs ∧
      deinterleaveSoft llrs columns = .ok restored ∧
      interleaveSoft restored columns = .ok llrs := by
  obtain ⟨interleaved, restored, -, hinterleave, hrestore, hsoft⟩ :=
    interleave_copy_inverse llrs h hmax
  obtain ⟨hdeinterleave, hdeinterleave'⟩ := hsoft id
  rw [List.map_id, List.map_id] at hdeinterleave hdeinterleave'
  exact ⟨interleaved, restored, hinterleave, hdeinterleave, hdeinterleave', hrestore⟩

/-- Bits that were interleaved are restored. -/
theorem interleave_bits_inverse (bits : List UInt8) (hbits : ∀ bit ∈ bits, bit ≤ 1)
    (h : 0 < columns) (hmax : columns ≤ maxCodedBits) :
    ∃ interleaved restored,
      interleaveBits bits columns = .ok interleaved ∧
      interleaveBits restored columns = .ok bits ∧
      ∀ soft : UInt8 → Int8,
        deinterleaveSoft (interleaved.map soft) columns = .ok (bits.map soft) ∧
        deinterleaveSoft (bits.map soft) columns = .ok (restored.map soft) := by
  obtain ⟨interleaved, restored, ⟨-, hperm⟩, hinterleave, hrestore, hsoft⟩ :=
    interleave_copy_inverse bits h hmax
  have haccepted : ∀ values : List UInt8, (∀ bit ∈ values, bit ∈ bits) →
      interleaveBits values columns = interleaveCopy values columns := by
    intro values hvalues
    refine if_neg ?_
    rintro ⟨bit, hmem, hlarge⟩
    exact absurd (hbits bit (hvalues bit hmem)) (UInt8.not_le.mpr hlarge)
  refine ⟨interleaved, restored, ?_, ?_, hsoft⟩
  · rw [haccepted bits fun bit hbit => hbit]
    exact hinterleave
  · rw [haccepted restored fun bit hbit => hperm.mem_iff.mp hbit]
    exact hrestore

/-! ## Rows and columns -/

/-- The rows of the C side give the same order as the columns of the Rust side. -/
theorem bit_order_eq {rows : UInt8} (hrows : rows ≠ 0) (bitCount : Nat)
    (h : 0 < divCeil bitCount rows.toNat) :
    bitOrder rows bitCount = interleaveOrder bitCount (divCeil bitCount rows.toNat) := by
  have hpos : 0 < rows.toNat := Nat.pos_of_ne_zero fun hzero => hrows (UInt8.toNat_inj.mp hzero)
  rw [bitOrder, interleaveOrder, div_ceil_eq hpos]
  refine column_order_rows ?_ (le_div_ceil_mul h)
  rw [Nat.mul_comm]
  exact le_div_ceil_mul hpos

/-- The C interleaver produces the bits of the Rust interleaver. -/
theorem interleavers_eq {rows : UInt8} {bitCount : Nat} (input output : List UInt8)
    (hrows : rows ≠ 0) (houtput : (bitCount + 7) / 8 ≤ output.length)
    (h : 0 < divCeil bitCount rows.toNat) (hmax : divCeil bitCount rows.toNat ≤ maxCodedBits) :
    ∃ interleaved, lmAirInterleaveBits input bitCount output rows = (.ok, interleaved) ∧
      interleaveBits ((bitsOf input bitCount).map Bool.toUInt8) (divCeil bitCount rows.toNat) =
        .ok ((bitsOf interleaved bitCount).map Bool.toUInt8) := by
  obtain ⟨interleaved, hinterleave, -, hgather⟩ := lm_air_interleave_bits_spec input hrows houtput
  refine ⟨interleaved, hinterleave, ?_⟩
  rw [interleave_bits_word _ h hmax, bits_of_length, hgather, bit_order_eq hrows bitCount h]

/-- The interleavers and deinterleavers of either side are inverse to each other for every number of
bits, and the C interleaver with some rows is the Rust interleaver with the columns that they
need. -/
theorem interleavers_agree :
    (∀ columns, 0 < columns → columns ≤ maxCodedBits →
      (∀ llrs, ∃ interleaved restored,
        interleaveSoft llrs columns = .ok interleaved ∧
        deinterleaveSoft interleaved columns = .ok llrs ∧
        deinterleaveSoft llrs columns = .ok restored ∧
        interleaveSoft restored columns = .ok llrs) ∧
      ∀ bits : List UInt8, (∀ bit ∈ bits, bit ≤ 1) → ∃ interleaved restored,
        interleaveBits bits columns = .ok interleaved ∧
        interleaveBits restored columns = .ok bits ∧
        ∀ soft : UInt8 → Int8,
          deinterleaveSoft (interleaved.map soft) columns = .ok (bits.map soft) ∧
          deinterleaveSoft (bits.map soft) columns = .ok (restored.map soft)) ∧
    (∀ (rows : UInt8) (bitCount : Nat) (input output source : List UInt8), rows ≠ 0 →
      (bitCount + 7) / 8 ≤ output.length → (bitCount + 7) / 8 ≤ source.length →
      (∃ interleaved restored,
        lmAirInterleaveBits input bitCount output rows = (.ok, interleaved) ∧
        lmAirDeinterleaveBits interleaved bitCount source rows = (.ok, restored) ∧
        bitsOf restored bitCount = bitsOf input bitCount) ∧
      (∃ deinterleaved restored,
        lmAirDeinterleaveBits input bitCount output rows = (.ok, deinterleaved) ∧
        lmAirInterleaveBits deinterleaved bitCount source rows = (.ok, restored) ∧
        bitsOf restored bitCount = bitsOf input bitCount) ∧
      (0 < bitCount → divCeil bitCount rows.toNat ≤ maxCodedBits → ∃ interleaved,
        lmAirInterleaveBits input bitCount output rows = (.ok, interleaved) ∧
        interleaveBits ((bitsOf input bitCount).map Bool.toUInt8) (divCeil bitCount rows.toNat) =
          .ok ((bitsOf interleaved bitCount).map Bool.toUInt8))) := by
  refine ⟨fun columns h hmax => ⟨fun llrs => interleave_soft_inverse llrs h hmax,
    fun bits hbits => interleave_bits_inverse bits hbits h hmax⟩, ?_⟩
  intro rows bitCount input output source hrows houtput hsource
  refine ⟨?_, interleave_deinterleave input output source hrows houtput hsource,
    fun hcount hmax => ?_⟩
  · obtain ⟨interleaved, restored, hinterleave, hdeinterleave, -, hbits⟩ :=
      deinterleave_interleave input output source hrows houtput hsource
    exact ⟨interleaved, restored, hinterleave, hdeinterleave, hbits⟩
  · refine interleavers_eq input output hrows houtput (Nat.pos_of_ne_zero fun hzero => ?_) hmax
    have hrowsPos : 0 < rows.toNat := Nat.pos_of_ne_zero fun h => hrows (UInt8.toNat_inj.mp h)
    have hbound := @le_div_ceil_mul bitCount rows.toNat hrowsPos
    rw [hzero, Nat.zero_mul] at hbound
    omega

end LatentMesh.AirC
