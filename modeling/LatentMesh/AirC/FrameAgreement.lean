import LatentMesh.AirC.Frame

/-!
# The C and Rust frame codecs agree

`lm_air_crc32c` computes the same checksum as the bitwise `crc32c` (`lm_air_crc32c_eq`), the C
decoder reads the same sections of a wire buffer as the Rust decoder (`lm_air_decode_sections`), and
the two decoders accept the same byte strings with the same fields (`decoders_agree`).
-/

namespace LatentMesh.AirC

open LatentMesh.Lib
open LatentMesh.AirCore

/-! ## Big-endian accessors -/

/-- Both sides write two bytes alike. -/
theorem put_u16_be_eq (value : UInt16) : putU16Be value = u16Be value := by
  have hhigh : (value >>> 8).toUInt8 = UInt8.ofNat (value.toNat / 256 ^ 1) :=
    UInt8.toNat_inj.mp (by simp [Nat.shiftRight_eq_div_pow])
  have hlow : value.toUInt8 = UInt8.ofNat (value.toNat / 256 ^ 0) :=
    UInt8.toNat_inj.mp (by simp)
  rw [putU16Be, hhigh, hlow]
  rfl

/-- Both sides read two bytes alike. -/
theorem get_u16_be_eq (b0 b1 : UInt8) (rest : List UInt8) :
    getU16Be (b0 :: b1 :: rest) = u16OfBe [b0, b1] := by
  apply UInt16.toNat_inj.mp
  have h0 := b0.toNat_lt
  have h1 := b1.toNat_lt
  have hor : b0.toNat <<< 8 ||| b1.toNat = b0.toNat <<< 8 + b1.toNat :=
    (Nat.shiftLeft_add_eq_or_of_lt h1 _).symm
  have hshift : b0.toNat <<< 8 % 2 ^ 16 = b0.toNat <<< 8 := by
    rw [Nat.shiftLeft_eq]
    omega
  simp only [getU16Be, u16OfBe, beNat, List.getD_cons_zero, List.getD_cons_succ, UInt16.toNat_or,
    UInt16.toNat_shiftLeft, UInt8.toNat_toUInt16, UInt16.toNat_ofNat', List.length_cons,
    List.length_nil]
  rw [show (8 : UInt16).toNat % 16 = 8 from rfl, hshift, hor, Nat.shiftLeft_eq]
  omega

/-- Both sides write four bytes alike. -/
theorem put_u32_be_eq (value : UInt32) : putU32Be value = u32Be value := by
  have h3 : (value >>> 24).toUInt8 = UInt8.ofNat (value.toNat / 256 ^ 3) :=
    UInt8.toNat_inj.mp (by simp [Nat.shiftRight_eq_div_pow])
  have h2 : (value >>> 16).toUInt8 = UInt8.ofNat (value.toNat / 256 ^ 2) :=
    UInt8.toNat_inj.mp (by simp [Nat.shiftRight_eq_div_pow])
  have h1 : (value >>> 8).toUInt8 = UInt8.ofNat (value.toNat / 256 ^ 1) :=
    UInt8.toNat_inj.mp (by simp [Nat.shiftRight_eq_div_pow])
  have h0 : value.toUInt8 = UInt8.ofNat (value.toNat / 256 ^ 0) :=
    UInt8.toNat_inj.mp (by simp)
  rw [putU32Be, h3, h2, h1, h0]
  rfl

/-- Joining a shifted number with bits below the shift adds them. -/
theorem shift_or_eq_add (high low shift : Nat) (h : low < 2 ^ shift) :
    high * 2 ^ shift ||| low = high * 2 ^ shift + low := by
  rw [← Nat.shiftLeft_eq, Nat.shiftLeft_add_eq_or_of_lt h]

/-- Both sides read four bytes alike. -/
theorem get_u32_be_eq {bytes : List UInt8} (h : bytes.length = 4) :
    getU32Be bytes = u32OfBe bytes := by
  obtain ⟨b0, b1, b2, b3, rfl⟩ := List.length_eq_four.mp h
  have h0 := b0.toNat_lt
  have h1 := b1.toNat_lt
  have h2 := b2.toNat_lt
  have h3 := b3.toNat_lt
  -- the three unions join disjoint bit ranges, from the top byte down
  have hor1 := shift_or_eq_add b0.toNat (b1.toNat * 2 ^ 16) 24 (by omega)
  have hor2 := shift_or_eq_add (b0.toNat * 2 ^ 8 + b1.toNat) (b2.toNat * 2 ^ 8) 16 (by omega)
  have hor3 := shift_or_eq_add (b0.toNat * 2 ^ 16 + b1.toNat * 2 ^ 8 + b2.toNat) b3.toNat 8 h3
  have hshift (b : UInt8) (k : Nat) (hk : k ≤ 24) : b.toNat <<< k % 2 ^ 32 = b.toNat * 2 ^ k := by
    rw [Nat.shiftLeft_eq, Nat.mod_eq_of_lt]
    calc b.toNat * 2 ^ k < 2 ^ 8 * 2 ^ k :=
          Nat.mul_lt_mul_of_pos_right b.toNat_lt (Nat.two_pow_pos k)
      _ ≤ 2 ^ 8 * 2 ^ 24 := Nat.mul_le_mul_left _ (Nat.pow_le_pow_right (by decide) hk)
  apply UInt32.toNat_inj.mp
  simp only [getU32Be, u32OfBe, beNat, List.getD_cons_zero, List.getD_cons_succ, UInt32.toNat_or,
    UInt32.toNat_shiftLeft, UInt8.toNat_toUInt32, UInt32.toNat_ofNat', List.length_cons,
    List.length_nil]
  rw [show (24 : UInt32).toNat % 32 = 24 from rfl, show (16 : UInt32).toNat % 32 = 16 from rfl,
    show (8 : UInt32).toNat % 32 = 8 from rfl, hshift b0 24 (by omega), hshift b1 16 (by omega),
    hshift b2 8 (by omega), hor1,
    show b0.toNat * 2 ^ 24 + b1.toNat * 2 ^ 16 = (b0.toNat * 2 ^ 8 + b1.toNat) * 2 ^ 16 by ring,
    hor2,
    show (b0.toNat * 2 ^ 8 + b1.toNat) * 2 ^ 16 + b2.toNat * 2 ^ 8 =
      (b0.toNat * 2 ^ 16 + b1.toNat * 2 ^ 8 + b2.toNat) * 2 ^ 8 by ring, hor3]
  omega

/-! ## Checksums -/

/-- Every entry of the nibble table is four bit steps of its index. -/
theorem nibble_table_eq_steps : ∀ n : Fin 16, (nibbleTable.getD n.val 0).toBitVec =
    (crcStep castagnoli.toBitVec)^[4] ((BitVec.ofFin (w := 4) n).setWidth 32) := by
  decide

/-- A table step of `lm_air_crc32c` is four bit steps. -/
theorem crc_nibble_eq_steps (crc : UInt32) :
    (crcNibble crc).toBitVec = (crcStep castagnoli.toBitVec)^[4] crc.toBitVec := by
  have hlt : (crc &&& 0x0f).toNat < 16 := by
    rw [UInt32.toNat_and]
    exact Nat.lt_of_le_of_lt Nat.and_le_right (by decide)
  have hlow : (BitVec.ofFin (w := 4) ⟨(crc &&& 0x0f).toNat, hlt⟩) = crc.toBitVec.setWidth 4 := by
    apply BitVec.eq_of_toNat_eq
    rw [BitVec.toNat_setWidth]
    exact Nat.and_two_pow_sub_one_eq_mod crc.toNat 4
  have htable := nibble_table_eq_steps ⟨(crc &&& 0x0f).toNat, hlt⟩
  rw [hlow] at htable
  rw [crc_steps_split, lowBits, ← htable, crcNibble, UInt32.toBitVec_xor]
  rfl

/-- A byte of `lm_air_crc32c` is a byte of `crc32c`. -/
theorem crc_byte_eq (crc : UInt32) (byte : UInt8) : crcByte crc byte = crc32cByte crc byte := by
  apply UInt32.toBitVec_inj.mp
  rw [crc32c_byte_eq_steps, crcByte, crc_nibble_eq_steps, crc_nibble_eq_steps,
    ← Function.iterate_add_apply]

/-- The nibble-table checksum is the bitwise checksum. -/
theorem lm_air_crc32c_eq (data : List UInt8) : lmAirCrc32c data = crc32c data := by
  have hbyte : crcByte = crc32cByte := funext fun crc => funext fun byte => crc_byte_eq crc byte
  rw [lmAirCrc32c, crc32c, hbyte]
  rfl

/-! ## Frames -/

/-- A C frame and a Rust frame have the same fields. The C core keeps the flags in the low
nibble, and only the first `payloadLen` bytes of the payload array count. -/
structure Agrees (c : LmAirFrame) (rust : SparseRadioFrame) : Prop where
  profile : c.profile = rust.profile.toU8
  flags_nibble : c.flags ≤ 0x0f
  flags : c.flags <<< 4 = rust.flags.bits
  streamId : c.streamId = rust.streamId
  sequence : c.sequence = rust.sequence
  fragmentIndex : c.fragmentIndex = rust.fragmentIndex
  fragmentCount : c.fragmentCount = rust.fragmentCount
  classId : c.classId = rust.semanticClass.toU8
  priority : c.priority = rust.priority
  stateTag : c.stateTag = rust.stateTag
  payloadLen : c.payloadLen.toNat = rust.payload.length
  payload : c.payload.take c.payloadLen.toNat = rust.payload

/-- The conditions that `validate_frame` checks. -/
theorem validate_frame_eq_ok_iff {frame : LmAirFrame} :
    validateFrame frame = .ok ↔
      (frame.profile ≤ 9 ∧ frame.flags ≤ 0x0f ∧ frame.classId ≤ 4 ∧ frame.priority ≤ 0x0f) ∧
      frame.fragmentCount ≠ 0 ∧ frame.fragmentCount ≤ maxFragments ∧
      frame.fragmentIndex < frame.fragmentCount := by
  have hcount : ¬ lmAirMaxFragments < frame.fragmentCount.toNat ↔
      frame.fragmentCount ≤ maxFragments := by
    rw [Nat.not_lt, UInt8.le_iff_toNat_le]
    rfl
  unfold validateFrame
  rw [guard_eq_iff (by decide), guard_eq_iff (by decide)]
  simp only [not_or, hcount, UInt8.not_lt, UInt8.not_le, and_true, lmAirProfileMeshtastic,
    lmAirClassDiagnostic, ne_eq]

/-- The C decoder on a byte string split into its sections. -/
theorem lm_air_decode_sections (b0 b1 b2 b3 b4 b5 b6 b7 b8 b9 b10 b11 : UInt8)
    (payload check : List UInt8) (hcheck : check.length = 4) (frame : LmAirFrame) :
    lmAirFrameDecode ([b0, b1, b2, b3, b4, b5, b6, b7, b8, b9, b10, b11] ++ payload ++ check) =
        (.ok, some frame) ↔
      payload.length ≤ 240 ∧ b0 = protocolMarker ∧ payload.length = b9.toNat ∧
      crc32c ([b0, b1, b2, b3, b4, b5, b6, b7, b8, b9, b10, b11] ++ payload) = u32OfBe check ∧
      validateFrame frame = .ok ∧ frame.profile = b1 &&& 0x0f ∧ frame.flags = b1 >>> 4 ∧
      frame.classId = b8 >>> 4 ∧ frame.priority = b8 &&& 0x0f ∧
      frame.streamId = u16OfBe [b2, b3] ∧ frame.sequence = u16OfBe [b4, b5] ∧
      frame.fragmentIndex = b6 ∧ frame.fragmentCount = b7 ∧ frame.stateTag = u16OfBe [b10, b11] ∧
      frame.payloadLen = b9 ∧ frame.payload = payloadArray payload := by
  have hlength : ([b0, b1, b2, b3, b4, b5, b6, b7, b8, b9, b10, b11] ++ payload ++ check).length =
      16 + payload.length := by
    simp only [List.length_append, hcheck, List.length_cons, List.length_nil]
    omega
  have hat : 16 + payload.length - lmAirFrameCrcBytes =
      ([b0, b1, b2, b3, b4, b5, b6, b7, b8, b9, b10, b11] ++ payload).length := by
    simp only [List.length_append, lmAirFrameCrcBytes, List.length_cons, List.length_nil]
    omega
  have hbounds : ¬ (16 + payload.length < lmAirFrameHeaderBytes + lmAirFrameCrcBytes ∨
      lmAirMaxWireBytes < 16 + payload.length) ↔ payload.length ≤ 240 := by
    simp only [lmAirFrameHeaderBytes, lmAirFrameCrcBytes, lmAirMaxWireBytes]
    omega
  have hexpected : 16 + payload.length = lmAirFrameHeaderBytes + b9.toNat + lmAirFrameCrcBytes ↔
      payload.length = b9.toNat := by
    simp only [lmAirFrameHeaderBytes, lmAirFrameCrcBytes]
    omega
  have hpayload (h : payload.length = b9.toNat) : (([b0, b1, b2, b3, b4, b5, b6, b7, b8, b9, b10,
      b11] ++ payload ++ check).drop lmAirFrameHeaderBytes).take b9.toNat = payload := by
    rw [List.append_assoc, ← h]
    exact List.take_left
  dsimp only [lmAirFrameDecode]
  rw [hlength, hat, List.take_left, List.drop_left, get_u32_be_eq hcheck, lm_air_crc32c_eq,
    guard_eq_iff (by simp), guard_eq_iff (by simp), guard_eq_iff (by simp), guard_eq_iff (by simp),
    guard_eq_iff (by simp)]
  simp only [hbounds, not_not, List.cons_append, List.getD_cons_zero, List.getD_cons_succ,
    hexpected, Prod.mk.injEq, true_and, Option.some.injEq]
  constructor
  · rintro ⟨hlen, hmarker, hexact, hcrc, hvalid, rfl⟩
    exact ⟨hlen, hmarker, hexact, hcrc.symm, hvalid, rfl, rfl, rfl, rfl, get_u16_be_eq _ _ _,
      get_u16_be_eq _ _ _, rfl, rfl, get_u16_be_eq _ _ _, rfl,
      congrArg payloadArray (hpayload hexact)⟩
  · obtain ⟨profile, flags, streamId, sequence, fragmentIndex, fragmentCount, classId, priority,
      stateTag, payloadLen, payload', hsize⟩ := frame
    rintro ⟨hlen, hmarker, hexact, hcrc, hvalid, rfl, rfl, rfl, rfl, rfl, rfl, rfl, rfl, rfl, rfl,
      rfl⟩
    have hframe := congrArg payloadArray (hpayload hexact)
    simp only [List.cons_append] at hframe
    refine ⟨hlen, hmarker, hexact, hcrc.symm, ?_, ?_⟩
    · simpa only [List.drop_succ_cons, List.drop_zero, get_u16_be_eq, hframe] using hvalid
    · simp only [List.drop_succ_cons, List.drop_zero, get_u16_be_eq, hframe]

/-- The decoder returns a frame exactly with the status `LM_AIR_OK`. -/
theorem lm_air_decode_ok_frame {wire : List UInt8} (h : (lmAirFrameDecode wire).1 = .ok) :
    ∃ frame, lmAirFrameDecode wire = (.ok, some frame) := by
  dsimp only [lmAirFrameDecode] at h ⊢
  split_ifs at h ⊢
  exact ⟨_, rfl⟩

/-- Every profile number that `validate_frame` accepts is a Rust profile. -/
theorem exists_wire_profile {value : UInt8} (h : value ≤ 9) :
    ∃ profile : WireProfile, profile.toU8 = value := by
  have hok : ∀ value : UInt8, value ≤ 9 → (WireProfile.tryFrom value).isOk = true := by
    rw [byte_forall_iff]
    decide +kernel
  have hvalue := hok value h
  cases hprofile : WireProfile.tryFrom value with
  | error => simp [hprofile, Except.isOk, Except.toBool] at hvalue
  | ok profile => exact ⟨profile, WireProfile.try_from_eq_ok_iff.mp hprofile⟩

/-- Every class number that `validate_frame` accepts is a Rust class. -/
theorem exists_semantic_class {value : UInt8} (h : value ≤ 4) :
    ∃ semanticClass : SemanticClass, semanticClass.toU8 = value := by
  have hok : ∀ value : UInt8, value ≤ 4 → (SemanticClass.tryFrom value).isOk = true := by
    rw [byte_forall_iff]
    decide +kernel
  have hvalue := hok value h
  cases hclass : SemanticClass.tryFrom value with
  | error => simp [hclass, Except.isOk, Except.toBool] at hvalue
  | ok semanticClass => exact ⟨semanticClass, SemanticClass.try_from_eq_ok_iff.mp hclass⟩

/-- The two nibbles of the flags byte: the C core shifts the flags down, the Rust core does not. -/
theorem flags_nibble_shift (byte : UInt8) :
    byte >>> 4 ≤ 0x0f ∧ (byte >>> 4) <<< 4 = byte &&& 0xf0 ∧ (byte &&& 0xf0) &&& 0x0f = 0 ∧
      byte &&& 0x0f ≤ 0x0f := by
  revert byte
  rw [byte_forall_iff]
  decide +kernel

/-- The payload array of a decoded frame starts with the payload. -/
theorem payload_array_take {bytes : List UInt8} (h : bytes.length ≤ 240) :
    (payloadArray bytes).take bytes.length = bytes := by
  rw [payloadArray, List.take_take, Nat.min_eq_left (by exact h), List.take_left]

/-- What the Rust decoder accepts, the C decoder accepts with the same fields. -/
theorem lm_air_decode_of_decode {input : List UInt8} {rust : SparseRadioFrame}
    (h : SparseRadioFrame.decode input = .ok rust) :
    ∃ frame, lmAirFrameDecode input = (.ok, some frame) ∧ Agrees frame rust ∧
      frame.payload = payloadArray rust.payload := by
  obtain ⟨hvalid, hinput⟩ := SparseRadioFrame.wire_of_decode h
  have hmin : frameMinBytes ≤ input.length := by
    rw [hinput, SparseRadioFrame.wire_length]
    exact Nat.le_add_right _ _
  obtain ⟨b0, b1, b2, b3, b4, b5, b6, b7, b8, b9, b10, b11, payload, check, hcheck, rfl⟩ :=
    SparseRadioFrame.exists_sections hmin
  rw [SparseRadioFrame.decode_sections _ _ _ _ _ _ _ _ _ _ _ _ _ _ hcheck] at h
  obtain ⟨hmarker, hlen, hcrc, hprofile, hflags, hclass, hpriority, hstream, hsequence, rfl,
    rfl, htag, hpayload, -⟩ := h
  have hbound : payload.length ≤ 240 := hpayload ▸ hvalid.payload
  obtain ⟨hnibble, hshift, -, -⟩ := flags_nibble_shift b1
  let frame : LmAirFrame :=
    { profile := b1 &&& 0x0f, flags := b1 >>> 4, streamId := u16OfBe [b2, b3]
      sequence := u16OfBe [b4, b5], fragmentIndex := rust.fragmentIndex
      fragmentCount := rust.fragmentCount, classId := b8 >>> 4
      priority := b8 &&& 0x0f, stateTag := u16OfBe [b10, b11], payloadLen := b9
      payload := payloadArray payload, payload_size := payload_array_length _ }
  have hprofileLe : b1 &&& 0x0f ≤ 9 := by
    rw [← hprofile]
    cases rust.profile <;> decide
  have hclassLe : b8 >>> 4 ≤ 4 := by
    rw [← hclass]
    cases rust.semanticClass <;> decide
  have hframe : validateFrame frame = .ok :=
    validate_frame_eq_ok_iff.mpr ⟨⟨hprofileLe, hnibble, hclassLe, (flags_nibble_shift b8).2.2.2⟩,
      hvalid.count_pos, hvalid.count, hvalid.index⟩
  refine ⟨frame, ?_, ?_, by rw [hpayload]⟩
  · rw [lm_air_decode_sections _ _ _ _ _ _ _ _ _ _ _ _ _ _ hcheck]
    exact ⟨hbound, hmarker, hlen, hcrc, hframe, rfl, rfl, rfl, rfl, rfl, rfl, rfl, rfl, rfl, rfl,
      rfl⟩
  · exact ⟨hprofile.symm, hnibble, hshift.trans hflags.symm, hstream.symm, hsequence.symm,
      rfl, rfl, hclass.symm, hpriority.symm, htag.symm, by rw [hpayload, hlen],
      by rw [hpayload, ← hlen, payload_array_take hbound]⟩

/-- What the C decoder accepts, the Rust decoder accepts. -/
theorem decode_of_lm_air_decode {input : List UInt8} (h : (lmAirFrameDecode input).1 = .ok) :
    ∃ rust, SparseRadioFrame.decode input = .ok rust := by
  obtain ⟨frame, hframe⟩ := lm_air_decode_ok_frame h
  have hmin : frameMinBytes ≤ input.length := by
    unfold lmAirFrameDecode at hframe
    rw [guard_eq_iff (by simp)] at hframe
    exact Nat.not_lt.mp fun hlt => hframe.1 (Or.inl hlt)
  obtain ⟨b0, b1, b2, b3, b4, b5, b6, b7, b8, b9, b10, b11, payload, check, hcheck, rfl⟩ :=
    SparseRadioFrame.exists_sections hmin
  rw [lm_air_decode_sections _ _ _ _ _ _ _ _ _ _ _ _ _ _ hcheck] at hframe
  obtain ⟨hbound, hmarker, hlen, hcrc, hvalid, hprofile, hflags, hclass, hpriority, -, -, hindex,
    hcount, -, -, -⟩ := hframe
  obtain ⟨⟨hprofileLe, -, hclassLe, hpriorityLe⟩, hpos, hcountLe, hindexLt⟩ :=
    validate_frame_eq_ok_iff.mp hvalid
  obtain ⟨profile, hprofile'⟩ := exists_wire_profile (hprofile ▸ hprofileLe)
  obtain ⟨semanticClass, hclass'⟩ := exists_semantic_class (hclass ▸ hclassLe)
  refine ⟨{ profile, flags := ⟨b1 &&& 0xf0, (flags_nibble_shift b1).2.2.1⟩
            streamId := u16OfBe [b2, b3], sequence := u16OfBe [b4, b5], fragmentIndex := b6
            fragmentCount := b7, semanticClass, priority := b8 &&& 0x0f
            stateTag := u16OfBe [b10, b11], payload }, ?_⟩
  rw [SparseRadioFrame.decode_sections _ _ _ _ _ _ _ _ _ _ _ _ _ _ hcheck]
  exact ⟨hmarker, hlen, hcrc, hprofile', rfl, hclass', rfl, rfl, rfl, rfl, rfl, rfl, rfl,
    ⟨hpriority ▸ hpriorityLe, hbound, hcount ▸ hpos, hcount ▸ hcountLe, hindex ▸ hcount ▸ hindexLt⟩⟩

/-- The C and Rust decoders accept the same byte strings, with the same fields, and the two
checksums are the same function. -/
theorem decoders_agree (input : List UInt8) :
    ((lmAirFrameDecode input).1 = .ok ↔ ∃ rust, SparseRadioFrame.decode input = .ok rust) ∧
    (∀ rust, SparseRadioFrame.decode input = .ok rust →
      ∃ frame, lmAirFrameDecode input = (.ok, some frame) ∧ Agrees frame rust) ∧
    lmAirCrc32c input = crc32c input := by
  refine ⟨⟨decode_of_lm_air_decode, ?_⟩, ?_, lm_air_crc32c_eq input⟩
  · rintro ⟨rust, h⟩
    obtain ⟨frame, hframe, -⟩ := lm_air_decode_of_decode h
    rw [hframe]
  · intro rust h
    obtain ⟨frame, hframe, hagrees, -⟩ := lm_air_decode_of_decode h
    exact ⟨frame, hframe, hagrees⟩

end LatentMesh.AirC
