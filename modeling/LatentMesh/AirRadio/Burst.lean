import LatentMesh.AirCore.Correction
import LatentMesh.AirRadio.Phy

/-!
# Guaranteed burst correction

An encoded burst survives three flipped sync signs, one flipped copy of every length bit and four
flipped signs in the coded section (`decode_aligned_corrects`). Each section has its own argument:
the sync word counts its errors, the length header takes a majority vote, and the coded section
rests on the distance of the code.
-/

namespace LatentMesh.AirRadio

open LatentMesh.AirCore LatentMesh.Lib

/-! ## Flipped signs -/

/-- Flip the signs of the LLRs under the ones of a mask. -/
def flipSigns (llrs : List Int8) (mask : List Bool) : List Int8 :=
  llrs.zipWith (fun llr flip => if flip then -llr else llr) mask

/-- Flipping the sign of an LLR flips its bit. -/
theorem flip_signs_llr_of (magnitude : Int8) (bits mask : List Bool) :
    flipSigns (bits.map (llrOf magnitude)) mask = (flipBits bits mask).map (llrOf magnitude) := by
  rw [flipSigns, flipBits, List.zipWith_map_left, List.map_zipWith]
  congr 1
  funext bit flip
  cases bit <;> cases flip <;> simp [llrOf]

/-- The sign of a soft value is its bit. -/
theorem llr_of_pos {magnitude : Int8} (h : 0 < magnitude) (bit : Bool) :
    decide (0 < llrOf magnitude bit) = bit := by
  have hpos := zero_lt_to_int h
  cases bit with
  | false =>
      refine decide_eq_false fun hneg => ?_
      have hlt := zero_lt_to_int hneg
      rw [llrOf, if_neg (by decide), neg_to_int h] at hlt
      omega
  | true => exact decide_eq_true h

/-- Flipping joined bits flips the two parts. -/
theorem flip_bits_append {first second mask mask' : List Bool} (h : first.length = mask.length) :
    flipBits (first ++ second) (mask ++ mask') = flipBits first mask ++ flipBits second mask' :=
  List.zipWith_append h

/-! ## The sync word -/

/-- The sync word as bits. -/
def syncWordBits : List Bool := (List.range' 0 32).map expectedSync

/-- The sync word as bits. -/
theorem sync_word_eq : syncWord = syncWordBits.map Bool.toUInt8 := by decide

/-- Flipped sync bits are counted as sync errors. -/
theorem count_sync_errors {magnitude : Int8} (h : 0 < magnitude) (mask : List Bool) (start : Nat) :
    (((flipBits ((List.range' start mask.length).map expectedSync) mask).map
      (llrOf magnitude)).zipIdx start).countP
        (fun entry => decide (0 < entry.1) != expectedSync entry.2) = weight mask := by
  induction mask generalizing start with
  | nil => rfl
  | cons flip mask ih =>
      have hrest := ih (start + 1)
      rw [flipBits] at hrest ⊢
      simp only [List.length_cons, List.range'_succ, List.map_cons, List.zipWith_cons_cons,
        List.zipIdx_cons, List.countP_cons, llr_of_pos h, weight_cons, hrest]
      cases expectedSync start <;> cases flip <;> simp [Nat.add_comm]

/-- A receiver counts the flipped bits of the sync word. -/
theorem sync_errors_eq {magnitude : Int8} (h : 0 < magnitude) {mask : List Bool}
    (hmask : mask.length = syncBits) (rest : List Int8) :
    syncErrors ((flipBits syncWordBits mask).map (llrOf magnitude) ++ rest) = weight mask := by
  have hlength : ((flipBits syncWordBits mask).map (llrOf magnitude)).length = syncBits := by
    rw [List.length_map, flip_bits_length, hmask]
    rfl
  rw [syncErrors, List.take_left' hlength]
  have hcount := count_sync_errors h mask 0
  rw [hmask] at hcount
  exact hcount

/-! ## The length header -/

/-- Three copies of every bit. -/
def triples (bits : List Bool) : List Bool := bits.flatMap fun bit => [bit, bit, bit]

/-- At most one copy of every bit is flipped. -/
def OnePerTriple (count : Nat) (mask : List Bool) : Prop :=
  ∀ k < count, weight ((mask.drop (3 * k)).take 3) ≤ 1

instance (count : Nat) (mask : List Bool) : Decidable (OnePerTriple count mask) :=
  inferInstanceAs (Decidable (∀ k < count, _))

/-- One flipped copy does not change the majority. -/
theorem majority_flipped {magnitude : Int8} (h : 0 < magnitude) (bit f0 f1 f2 : Bool)
    (hmask : weight [f0, f1, f2] ≤ 1) :
    majority ((flipBits [bit, bit, bit] [f0, f1, f2]).map (llrOf magnitude)) = bit := by
  have hvotes : ∀ bits : List Bool,
      (bits.map (llrOf magnitude)).countP (fun llr => decide (0 < llr)) = weight bits := by
    intro bits
    induction bits with
    | nil => rfl
    | cons bit bits ih =>
        rw [List.map_cons, List.countP_cons, ih, llr_of_pos h, weight_cons]
        cases bit <;> simp [Nat.add_comm]
  rw [majority, hvotes]
  revert hmask
  cases bit <;> cases f0 <;> cases f1 <;> cases f2 <;> decide

/-- A 16-bit value read from its most significant bit. -/
def readBits (value : UInt16) (bits : List Bool) : UInt16 :=
  bits.foldl (fun (value : UInt16) (bit : Bool) => (value <<< 1) ||| bit.toUInt16) value

/-- The vote over every triple reads the bits. -/
theorem read_triplets_flipped {magnitude : Int8} (h : 0 < magnitude) (bits mask : List Bool)
    (hlength : mask.length = 3 * bits.length) (hmask : OnePerTriple bits.length mask)
    (value : UInt16) :
    readTriplets value ((flipBits (triples bits) mask).map (llrOf magnitude)) =
      readBits value bits := by
  induction bits generalizing mask value with
  | nil =>
      obtain rfl := List.eq_nil_of_length_eq_zero hlength
      rfl
  | cons bit bits ih =>
      match mask, hlength with
      | f0 :: f1 :: f2 :: mask, hlength =>
          have hvote := majority_flipped h bit f0 f1 f2 (hmask 0 (Nat.succ_pos _))
          have hrest : mask.length = 3 * bits.length := by
            simp only [List.length_cons] at hlength
            omega
          calc readTriplets value
                ((flipBits (triples (bit :: bits)) (f0 :: f1 :: f2 :: mask)).map (llrOf magnitude))
              = readTriplets ((value <<< 1) ||| (majority ((flipBits [bit, bit, bit]
                  [f0, f1, f2]).map (llrOf magnitude))).toUInt16)
                  ((flipBits (triples bits) mask).map (llrOf magnitude)) := rfl
            _ = readBits ((value <<< 1) ||| bit.toUInt16) bits := by
                rw [hvote, ih mask hrest fun k hk => hmask (k + 1) (Nat.succ_lt_succ hk)]
      | [], hlength => simp at hlength
      | [_], hlength => simp at hlength; omega
      | [_, _], hlength => simp at hlength; omega

/-- Reading a bit shifts it into a 16-bit register. -/
theorem read_bit_eq_next (value : UInt16) (bit : Bool) :
    ((value <<< 1) ||| bit.toUInt16).toBitVec = (ConvCode.trellis 16).next value.toBitVec bit := by
  apply BitVec.eq_of_getLsbD_eq
  intro i hi
  cases i with
  | zero => cases bit <;> simp [ConvCode.trellis, ConvCode.register]
  | succ i =>
      have hget : value.toBitVec[i] = value.toBitVec.getLsbD i := rfl
      cases bit <;> simp [ConvCode.trellis, ConvCode.register, hi, hget]

/-- Reading bits shifts them into a register. -/
theorem read_bits_eq_run (value : UInt16) (bits : List Bool) :
    (readBits value bits).toBitVec = (ConvCode.trellis 16).run value.toBitVec bits := by
  induction bits generalizing value with
  | nil => rfl
  | cons bit bits ih =>
      have hstep := ih ((value <<< 1) ||| bit.toUInt16)
      rw [read_bit_eq_next] at hstep
      exact hstep

/-- The bits of a 16-bit value, most significant first. -/
def lengthBits (codedLen : UInt16) : List Bool :=
  (List.range 16).reverse.map codedLen.toBitVec.getLsbD

/-- Reading the bits of a value gives the value back. -/
theorem read_bits_length_bits (codedLen : UInt16) :
    readBits 0 (lengthBits codedLen) = codedLen := by
  apply UInt16.toBitVec_inj.mp
  rw [read_bits_eq_run]
  apply BitVec.eq_of_getLsbD_eq
  intro i hi
  rw [ConvCode.run_get _ _ hi (by simpa [lengthBits] using hi)]
  simp [lengthBits, List.getElem?_range hi]

/-- A bit of the length. -/
theorem shifted_bit_eq (codedLen : UInt16) {shift : Nat} (h : shift < 16) :
    ((codedLen >>> UInt16.ofNat shift) &&& 1).toUInt8 =
      (codedLen.toBitVec.getLsbD shift).toUInt8 := by
  have hmod : (UInt16.ofNat shift).toNat % 16 = shift := by
    rw [UInt16.toNat_ofNat']
    omega
  have hbit : ((codedLen >>> UInt16.ofNat shift) &&& 1).toNat =
      (codedLen.toNat.testBit shift).toNat := by
    rw [UInt16.toNat_and, UInt16.toNat_shiftRight, hmod, Nat.toNat_testBit,
      Nat.shiftRight_eq_div_pow]
    exact Nat.and_one_is_mod _
  have hget : codedLen.toBitVec.getLsbD shift = codedLen.toNat.testBit shift := rfl
  rw [hget]
  apply UInt8.toNat_inj.mp
  rw [UInt16.toNat_toUInt8, hbit]
  cases codedLen.toNat.testBit shift <;> rfl

/-- The length is sent with every bit three times. -/
theorem repeated_length_eq (codedLen : UInt16) :
    repeatedLength codedLen = (triples (lengthBits codedLen)).map Bool.toUInt8 := by
  rw [triples, List.map_flatMap, lengthBits, List.flatMap_map, repeatedLength]
  refine List.flatMap_congr fun shift hshift => ?_
  have hlt : shift < 16 := by simpa using hshift
  simp only [shifted_bit_eq codedLen hlt, List.map_cons, List.map_nil]

/-! ## The whole burst -/

/-- The errors that a burst survives. -/
structure Correctable (mask : List Bool) : Prop where
  sync : weight (mask.take syncBits) ≤ 3
  header : OnePerTriple 16 ((mask.take phyPrefixBits).drop syncBits)
  coded : weight (mask.drop phyPrefixBits) ≤ 4

/-- The bits of a burst, from its data word. -/
def burstBits (columns : Nat) (data : List Bool) : List Bool :=
  syncWordBits ++ (triples (lengthBits (UInt16.ofNat (codeWord data).length)) ++
    gather (codeWord data) (interleaveOrder (codeWord data).length columns))

/-- The repeated length has 48 bits. -/
theorem triples_length_bits_length (codedLen : UInt16) :
    (triples (lengthBits codedLen)).length = lengthBitsRepeated := rfl

variable (codec : BurstCodec)

/-- A codec has no more columns than bits. -/
theorem columns_le_max_coded_bits : codec.interleaverColumns ≤ maxCodedBits := by
  have hle := codec.columns_le
  have hmax : 256 ≤ maxCodedBits := by decide
  omega

/-- Interleaving keeps the length of a code word. -/
theorem gather_code_word_length (data : List Bool) :
    (gather (codeWord data) (interleaveOrder (codeWord data).length
      codec.interleaverColumns)).length = (codeWord data).length :=
  (gather_perm (interleave_order_perm _ codec.columns_pos)).length_eq

/-- The burst of a frame. -/
theorem encode_eq {frame : List UInt8} {data : List Bool}
    (hdata : bytesToBitsMsb frame = data.map Bool.toUInt8)
    (h : data.length ≤ frameMaxBytes * 8) :
    codec.encode frame = .ok ((burstBits codec.interleaverColumns data).map Bool.toUInt8) := by
  have hsmall : (codeWord data).length < UInt16.size := by
    simp only [frameMaxBytes] at h
    simp only [code_word_length, memory, UInt16.size]
    omega
  rw [BurstCodec.encode, hdata, convolutional_encode_word h]
  dsimp only [Except.bind]
  rw [interleave_bits_word _ codec.columns_pos (columns_le_max_coded_bits codec)]
  dsimp only
  rw [List.length_map, gather_code_word_length, if_neg (by omega), sync_word_eq,
    repeated_length_eq, burstBits, List.map_append, List.map_append, List.append_assoc]

/-- A flipped coded section decodes to the frame. -/
theorem decode_coded_flipped {magnitude : Int8} (h : 0 < magnitude) {frame : List UInt8}
    {data : List Bool} (hdata : bytesToBitsMsb frame = data.map Bool.toUInt8)
    (hmost : data.length ≤ frameMaxBytes * 8) {mask : List Bool}
    (hmask : mask.length = (codeWord data).length) (herrors : weight mask ≤ 4) :
    codec.decodeCoded ((flipBits (gather (codeWord data) (interleaveOrder (codeWord data).length
      codec.interleaverColumns)) mask).map (llrOf magnitude)) = .ok frame := by
  have hwhole : data.length % 8 = 0 := by
    have hlength := congrArg List.length hdata
    rw [bytes_to_bits_msb_length, List.length_map] at hlength
    omega
  obtain ⟨received, hlength, hdistance, hordered⟩ := deinterleave_soft_flipped hmask
    codec.columns_pos (columns_le_max_coded_bits codec) magnitude
  obtain ⟨result, hdecode, hbits⟩ := soft_viterbi_corrects h hwhole hmost hlength (by omega)
  rw [BurstCodec.decodeCoded, hordered]
  dsimp only [Except.bind]
  rw [hdecode]
  dsimp only
  rw [hbits, ← hdata, bits_to_bytes_msb_bytes]

/-- The repeated length survives one flipped copy of every bit. -/
theorem decode_repeated_length_flipped {magnitude : Int8} (h : 0 < magnitude) (codedLen : UInt16)
    {mask : List Bool} (hlength : mask.length = lengthBitsRepeated) (hmask : OnePerTriple 16 mask) :
    decodeRepeatedLength ((flipBits (triples (lengthBits codedLen)) mask).map (llrOf magnitude)) =
      .ok codedLen.toNat := by
  have htriples : mask.length = 3 * (lengthBits codedLen).length := by
    rw [hlength]
    rfl
  have hread := read_triplets_flipped h (lengthBits codedLen) mask htriples hmask 0
  rw [read_bits_length_bits] at hread
  rw [decodeRepeatedLength, if_neg, hread]
  rw [List.length_map, flip_bits_length, hlength, triples_length_bits_length]
  simp

/-- A burst with a readable prefix decodes its coded section. -/
theorem decode_aligned_sections {sync header coded : List Int8} (hsync : sync.length = syncBits)
    (hheader : header.length = lengthBitsRepeated)
    (herrors : syncErrors (sync ++ (header ++ coded)) ≤ 3)
    (hlength : decodeRepeatedLength header = .ok coded.length)
    (hgood : ¬ badCodedLength coded.length) :
    codec.decodeAligned (sync ++ (header ++ coded)) = codec.decodeCoded coded := by
  have hfront : (sync ++ header).length = phyPrefixBits := by
    rw [List.length_append, hsync, hheader, phyPrefixBits]
  have htotal : (sync ++ (header ++ coded)).length = phyPrefixBits + coded.length := by
    rw [← List.append_assoc, List.length_append, hfront]
  have hsection : ((sync ++ (header ++ coded)).take phyPrefixBits).drop syncBits = header := by
    rw [← List.append_assoc, List.take_left' hfront, List.drop_left' hsync]
  have htail : (sync ++ (header ++ coded)).drop phyPrefixBits = coded := by
    rw [← List.append_assoc, List.drop_left' hfront]
  rw [BurstCodec.decodeAligned, if_neg (by omega), if_neg (by omega), hsection, hlength]
  dsimp only [Except.bind]
  rw [if_neg hgood, if_neg (by omega), htail]

/-- A mask of the length of a burst splits into its sections. -/
theorem exists_mask_sections {mask : List Bool} {codedLength : Nat}
    (h : mask.length = phyPrefixBits + codedLength) :
    ∃ sync header coded : List Bool, mask = sync ++ (header ++ coded) ∧
      sync.length = syncBits ∧ header.length = lengthBitsRepeated ∧ coded.length = codedLength := by
  have hbits : phyPrefixBits = syncBits + lengthBitsRepeated := rfl
  refine ⟨mask.take syncBits, (mask.drop syncBits).take lengthBitsRepeated,
    (mask.drop syncBits).drop lengthBitsRepeated, by simp only [List.take_append_drop], ?_, ?_, ?_⟩
  · rw [List.length_take]
    omega
  · rw [List.length_take, List.length_drop]
    omega
  · rw [List.length_drop, List.length_drop]
    omega

/-- Every correctable burst decodes to its frame. -/
theorem decode_aligned_flipped {magnitude : Int8} (hmagnitude : 0 < magnitude)
    {frame : List UInt8} {data : List Bool} (hdata : bytesToBitsMsb frame = data.map Bool.toUInt8)
    (hmost : data.length ≤ frameMaxBytes * 8) {mask : List Bool}
    (hmask : mask.length = (burstBits codec.interleaverColumns data).length)
    (hcorrectable : Correctable mask) :
    codec.decodeAligned ((flipBits (burstBits codec.interleaverColumns data) mask).map
      (llrOf magnitude)) = .ok frame := by
  have hgather := gather_code_word_length codec data
  have hword := code_word_length data
  have hbound : (codeWord data).length ≤ maxCodedBits := by
    rw [hword]
    simp only [maxCodedBits]
    omega
  have hsize : (UInt16.ofNat (codeWord data).length).toNat = (codeWord data).length := by
    refine UInt16.toNat_ofNat_of_lt ?_
    have hmax : maxCodedBits < UInt16.size := by decide
    omega
  have htotal : mask.length = phyPrefixBits + (codeWord data).length := by
    rw [hmask, burstBits, List.length_append, List.length_append, hgather, ← Nat.add_assoc]
    rfl
  obtain ⟨sync, header, tail, rfl, hsync, hheader, htail⟩ := exists_mask_sections htotal
  obtain ⟨hsync_errors, hheader_errors, hcoded_errors⟩ := hcorrectable
  have hfront : (sync ++ header).length = phyPrefixBits := by
    rw [List.length_append, hsync, hheader, phyPrefixBits]
  rw [List.take_left' hsync] at hsync_errors
  rw [← List.append_assoc, List.take_left' hfront, List.drop_left' hsync] at hheader_errors
  rw [← List.append_assoc, List.drop_left' hfront] at hcoded_errors
  rw [burstBits, flip_bits_append (by rw [hsync]; rfl), flip_bits_append (by rw [hheader]; rfl),
    List.map_append, List.map_append, decode_aligned_sections]
  · exact decode_coded_flipped codec hmagnitude hdata hmost htail hcoded_errors
  · rw [List.length_map, flip_bits_length, hsync]
    rfl
  · rw [List.length_map, flip_bits_length, hheader]
    rfl
  · rwa [sync_errors_eq hmagnitude hsync]
  · rw [decode_repeated_length_flipped hmagnitude _ hheader hheader_errors, List.length_map,
      flip_bits_length, hgather, htail, min_self, hsize]
  · rw [List.length_map, flip_bits_length, hgather, htail, min_self, badCodedLength]
    simp only [memory] at hword
    omega

/-- Guaranteed burst correction: flip the signs of at most three sync LLRs, at most one of the three
copies of each length bit and at most four LLRs of the coded section of an encoded frame, and
`decode_aligned` returns the frame. -/
theorem decode_aligned_corrects (frame : List UInt8) (hframe : frame.length ≤ frameMaxBytes)
    (magnitude : Int8) (hmagnitude : 0 < magnitude) :
    ∃ bits llrs, codec.encode frame = .ok bits ∧ hardBitsToLlrs bits magnitude = .ok llrs ∧
      ∀ mask : List Bool, mask.length = bits.length → Correctable mask →
        codec.decodeAligned (flipSigns llrs mask) = .ok frame := by
  obtain ⟨data, hdata⟩ := exists_word (bytes_to_bits_msb_le_one frame)
  have hmost : data.length ≤ frameMaxBytes * 8 := by
    have hlength := congrArg List.length hdata
    rw [bytes_to_bits_msb_length, List.length_map] at hlength
    omega
  refine ⟨_, _, encode_eq codec hdata hmost, hard_bits_to_llrs_word hmagnitude _, ?_⟩
  intro mask hmask hcorrectable
  rw [List.length_map] at hmask
  rw [flip_signs_llr_of]
  exact decode_aligned_flipped codec hmagnitude hdata hmost hmask hcorrectable

/-- A one-byte frame with flipped signs in every section. -/
theorem decode_aligned_corrects_one_byte :
    ∃ bits llrs, BurstCodec.encode ⟨17, by decide, by decide⟩ [0xa1] = .ok bits ∧
      hardBitsToLlrs bits 90 = .ok llrs ∧
      BurstCodec.decodeAligned ⟨17, by decide, by decide⟩
        (flipSigns llrs ((List.range 108).map ([2, 17, 31, 34, 91, 92, 100, 107].contains ·))) =
          .ok [0xa1] := by
  obtain ⟨bits, llrs, hbits, hllrs, hdecode⟩ :=
    decode_aligned_corrects ⟨17, by decide, by decide⟩ [0xa1] (by decide) 90 (by decide)
  have hlength : (BurstCodec.encode ⟨17, by decide, by decide⟩ [0xa1]).map List.length =
      .ok 108 := by decide
  rw [hbits] at hlength
  refine ⟨bits, llrs, hbits, hllrs, hdecode _ ?_ ⟨by decide, by decide, by decide⟩⟩
  rw [Except.ok.inj hlength]
  rfl

end LatentMesh.AirRadio
