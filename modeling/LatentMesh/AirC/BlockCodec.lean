import LatentMesh.AirC.FecAgreement
import LatentMesh.AirC.Rx
import LatentMesh.AirC.Tx

/-!
# Blocks

The receiver reads from a block the raw frame that the transmitter coded into it
(`block_bytes_encode_block`), with and without error correction and interleaving. The hard decoder
tolerates four flipped bits in a code word (`lm_air_fec_decode_hard_corrects`).
-/

namespace LatentMesh.AirC

open LatentMesh.Lib LatentMesh.AirCore

/-! ## Error correction -/

/-- A word is at distance zero from itself. -/
theorem distance_self (word : List Bool) : distance word word = 0 := by
  induction word with
  | nil => rfl
  | cons bit word ih => rw [distance_cons, ih, Bool.xor_self, Bool.toNat_false]

/-- A word of bits as bytes tells the word. -/
theorem word_injective {left right : List Bool}
    (h : left.map Bool.toUInt8 = right.map Bool.toUInt8) : left = right := by
  refine List.map_injective_iff.mpr ?_ h
  intro a b hab
  cases a <;> cases b <;> first | rfl | cases hab

/-- The hard decoder restores the bytes whose code word differs from the received bits in at most
four places. -/
theorem lm_air_fec_decode_hard_corrects {raw coded output : List UInt8}
    (hraw : raw.length ≤ lmAirMaxWireBytes) (houtput : raw.length ≤ output.length)
    (herrors : distance (bitsOf coded (lmAirFecEncodedBits raw.length))
      (codeWord (bitsOf raw (8 * raw.length))) ≤ 4) :
    ∃ buffer metric, lmAirFecDecodeHard coded (lmAirFecEncodedBits raw.length) output raw.length =
        (.ok, buffer, metric) ∧ buffer.take raw.length = raw := by
  have hone : (0 : Int8) < 1 := by decide
  have hbits := lm_air_fec_encoded_bits_eq hraw
  have hlength : (bitsOf coded (lmAirFecEncodedBits raw.length)).length =
      (codeWord (bitsOf raw (8 * raw.length))).length := by
    rw [bits_of_length, hbits, code_word_length, bits_of_length]
  simp only [lmAirMaxWireBytes] at hraw
  obtain ⟨result, hresult, hcorrected⟩ := soft_viterbi_corrects hone
    (by rw [bits_of_length]; omega) (by rw [bits_of_length, frameMaxBytes]; omega) hlength herrors
  have haccepted : AcceptedLength ((bitsOf coded (lmAirFecEncodedBits raw.length)).map
      (llrOf 1)).length := by
    rw [List.length_map, bits_of_length, hbits]
    simp only [memory]
    refine ⟨?_, ?_, by omega, ?_⟩
    · simp only [memory]
      omega
    · simp only [maxCodedBits, frameMaxBytes, memory]
      omega
    · simp only [memory]
      omega
  -- the survivor is the data word that the soft decoder returns
  obtain ⟨data, -, hsurvivor, hdecode, -⟩ := soft_viterbi_word haccepted
  rw [hresult, Except.ok.injEq] at hdecode
  rw [hdecode] at hcorrected
  obtain rfl := word_injective hcorrected
  obtain ⟨buffer, metric, hhard, hsize, hbuffer⟩ := lm_air_fec_decode_hard_survivor hone hraw coded
    output houtput (bits_of_length _ _) hsurvivor
  refine ⟨buffer, metric, hhard, bytes_ext ?_ ?_⟩
  · rw [List.length_take]
    omega
  · rw [List.length_take, hsize, Nat.min_eq_left houtput, bits_of_take _ le_rfl, hbuffer]

/-! ## Coding and its inverse -/

/-- The length of the buffer for coded bits. -/
theorem coded_buffer_length : codedBuffer.length = lmAirFecMaxCodedBytes := List.length_replicate

/-- The length of the buffer for interleaved bits. -/
theorem scratch_buffer_length : scratchBuffer.length = lmAirFecMaxCodedBytes :=
  List.length_replicate

/-- The bits of bytes that are copied to the start of a buffer. -/
theorem bits_of_write_at_start {buffer items : List UInt8} (h : items.length ≤ buffer.length)
    {count : Nat} (hcount : count ≤ 8 * items.length) :
    bitsOf (writeAt buffer 0 items) count = bitsOf items count := by
  refine bits_of_eq_iff.mpr fun i hi => ?_
  have hbyte : i / 8 < items.length := by omega
  rw [byteBit, byteBit, List.getD_eq_getElem?_getD, write_at_get? (by omega),
    if_pos (by omega), Nat.sub_zero, ← List.getD_eq_getElem?_getD]

/-- What `codeRaw` writes for a raw frame. -/
structure Coded (profile : LmAirProfileConfig) (raw coded : List UInt8) (bitLen : Nat) : Prop where
  size : coded.length = lmAirFecMaxCodedBytes
  pos : 0 < bitLen
  le : bitLen ≤ lmAirFecMaxCodedBits
  uncoded : profile.useFec = 0 → bitLen = raw.length * 8 ∧
    bitsOf coded bitLen = bitsOf raw (8 * raw.length)
  convolved : profile.useFec ≠ 0 → bitLen = lmAirFecEncodedBits raw.length ∧
    bitsOf coded bitLen = codeWord (bitsOf raw (8 * raw.length))

/-- Every wire that is not too long is coded. -/
theorem code_raw_coded (profile : LmAirProfileConfig) {raw : List UInt8}
    (hpos : 0 < raw.length) (hraw : raw.length ≤ lmAirMaxWireBytes) :
    ∃ coded bitLen, codeRaw profile raw = (.ok, coded, bitLen) ∧
      Coded profile raw coded bitLen := by
  have hencoded := lm_air_fec_encoded_bits_eq hraw
  have hbytes : lmAirFecMaxCodedBytes = 514 := rfl
  have hmost : lmAirFecMaxCodedBits = 4108 := rfl
  simp only [lmAirMaxWireBytes, memory] at hraw hencoded
  unfold codeRaw
  by_cases hfec : profile.useFec = 0
  · rw [if_neg (not_not.mpr hfec)]
    refine ⟨_, _, rfl, ?_, by omega, by omega, fun _ => ⟨rfl, ?_⟩, fun hne => absurd hfec hne⟩
    · rw [write_at_length, coded_buffer_length]
    · rw [Nat.mul_comm]
      exact bits_of_write_at_start (by rw [coded_buffer_length]; omega) le_rfl
  · obtain ⟨buffer, hencode, hsize, hword⟩ := lm_air_fec_encode_eq raw codedBuffer hraw
      (by rw [coded_buffer_length]; omega)
    have hlength : (codeWord (bitsOf raw (8 * raw.length))).length =
        lmAirFecEncodedBits raw.length := by
      rw [code_word_length, bits_of_length, hencoded]
      rfl
    rw [if_pos hfec, hencode]
    refine ⟨_, _, rfl, hsize.trans coded_buffer_length, by omega, by omega,
      fun hzero => absurd hzero hfec, fun _ => ⟨hlength, hword⟩⟩

/-- The receiver undoes the interleaving of a block. -/
theorem block_data_restored (profile : LmAirProfileConfig) {coded : List UInt8} {bitLen : Nat}
    (hsize : coded.length = lmAirFecMaxCodedBytes) (hbits : bitLen ≤ lmAirFecMaxCodedBits) :
    ∃ data restored, blockData profile coded bitLen = (.ok, data) ∧
      (if profile.interleaveRows ≠ 0 then
        lmAirDeinterleaveBits data bitLen scratchBuffer profile.interleaveRows
      else (.ok, data)) = (.ok, restored) ∧
      restored.length = lmAirFecMaxCodedBytes ∧ bitsOf restored bitLen = bitsOf coded bitLen := by
  have hbytes : lmAirFecMaxCodedBytes = 514 := rfl
  have hmost : lmAirFecMaxCodedBits = 4108 := rfl
  unfold blockData
  by_cases hrows : profile.interleaveRows = 0
  · simp only [if_neg (not_not.mpr hrows)]
    have htake : (coded.take ((bitLen + 7) / 8)).length = (bitLen + 7) / 8 := by
      rw [List.length_take]
      omega
    refine ⟨_, _, rfl, rfl, ?_, ?_⟩
    · rw [write_at_length, coded_buffer_length]
    · rw [bits_of_write_at_start (by rw [coded_buffer_length]; omega) (by omega),
        bits_of_take _ (by omega)]
  · simp only [if_pos hrows]
    obtain ⟨data, restored, hdata, hrestored, hlength, hsame⟩ := deinterleave_interleave
      coded codedBuffer scratchBuffer hrows
      (show (bitLen + 7) / 8 ≤ codedBuffer.length by rw [coded_buffer_length]; omega)
      (by rw [scratch_buffer_length]; omega)
    exact ⟨data, restored, hdata, hrestored, hlength.trans scratch_buffer_length, hsame⟩

/-- The receiver reads back the raw frame of a block. -/
theorem block_bytes_encode_block {profile : LmAirProfileConfig}
    (hprofile : validProfileConfig profile = true) {raw : List UInt8} (hmin : 16 ≤ raw.length)
    (hraw : raw.length ≤ lmAirMaxWireBytes) :
    ∃ block, encodeBlock profile raw = (.ok, some block) ∧ blockBytes block = .ok raw ∧
      block.fec = profile.useFec := by
  obtain ⟨-, -, -, hfec, hrows, hone⟩ := valid_profile_config_iff.mp hprofile
  obtain ⟨coded, bitLen, hcode, hcoded⟩ := code_raw_coded profile (by omega) hraw
  obtain ⟨data, restored, hdata, hrestored, hlength, hsame⟩ :=
    block_data_restored profile hcoded.size hcoded.le
  have hbytes : lmAirFecMaxCodedBytes = 514 := rfl
  have hmost := hcoded.le
  have hpos := hcoded.pos
  simp only [show lmAirFecMaxCodedBits = 4108 from rfl] at hmost
  have hwire : raw.length ≤ 256 := hraw
  have hrawLen : (UInt16.ofNat raw.length).toNat = raw.length :=
    UInt16.toNat_ofNat_of_lt' (Nat.lt_of_le_of_lt hwire (by decide))
  have hbitLen : (UInt16.ofNat bitLen).toNat = bitLen :=
    UInt16.toNat_ofNat_of_lt' (Nat.lt_of_le_of_lt hmost (by decide))
  unfold encodeBlock
  simp only [hcode, hdata, ne_eq, not_true_eq_false, if_false]
  refine ⟨_, rfl, ?_, rfl⟩
  have hargument : ¬ (raw.length < 16 ∨ lmAirMaxWireBytes < raw.length ∨ bitLen = 0 ∨
      lmAirFecMaxCodedBits < bitLen ∨ 64 < profile.interleaveRows ∨ profile.interleaveRows = 1 ∨
      1 < profile.useFec) := by
    simp only [not_or, Nat.not_lt, UInt8.not_lt]
    exact ⟨hmin, hraw, Nat.ne_of_gt hpos, hmost, hrows, hone, hfec⟩
  unfold blockBytes
  simp only [hrawLen, hbitLen, hrestored]
  rw [if_neg hargument, if_neg (by omega), if_neg (not_not.mpr rfl)]
  by_cases hplain : profile.useFec = 0
  · obtain ⟨hcount, hbits⟩ := hcoded.uncoded hplain
    rw [if_neg (not_not.mpr hplain), if_neg (not_not.mpr hcount)]
    have htake : (restored.take raw.length).length = raw.length := by
      rw [List.length_take]
      omega
    refine congrArg Except.ok (bytes_ext htake ?_)
    rw [hcount, Nat.mul_comm raw.length] at hsame hbits
    rw [htake, bits_of_take _ le_rfl, hsame, hbits]
  · obtain ⟨hcount, hword⟩ := hcoded.convolved hplain
    rw [hword, hcount] at hsame
    obtain ⟨buffer, metric, hdecode, hbuffer⟩ := lm_air_fec_decode_hard_corrects hraw
      (show raw.length ≤ scratchBuffer.length by rw [scratch_buffer_length]; omega)
      (show distance (bitsOf restored _) _ ≤ 4 by rw [hsame, distance_self]; exact Nat.zero_le 4)
    rw [if_pos hplain, hcount, hdecode, if_neg (not_not.mpr rfl), hbuffer]

end LatentMesh.AirC
