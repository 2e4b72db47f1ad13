import LatentMesh.AirC.FrameAgreement

/-!
# What the C frame encoder emits

A frame that `validate_frame` accepts decodes back from its wire bytes as long as its payload length
is within the payload array (`decode_encode`). The encoder does not check that bound; see
`encoder_emits_decodable_iff` for what follows.
-/

namespace LatentMesh.AirC

open LatentMesh.Lib LatentMesh.AirCore

/-- The indices of the payload array that `lm_air_frame_encode` reads. -/
def LmAirFrame.payloadReads (frame : LmAirFrame) : List Nat :=
  List.range frame.payloadLen.toNat

/-- Two frames have the same fields and the same `payload_len` bytes of payload. -/
structure LmAirFrame.Same (frame other : LmAirFrame) : Prop where
  profile : frame.profile = other.profile
  flags : frame.flags = other.flags
  streamId : frame.streamId = other.streamId
  sequence : frame.sequence = other.sequence
  fragmentIndex : frame.fragmentIndex = other.fragmentIndex
  fragmentCount : frame.fragmentCount = other.fragmentCount
  classId : frame.classId = other.classId
  priority : frame.priority = other.priority
  stateTag : frame.stateTag = other.stateTag
  payloadLen : frame.payloadLen = other.payloadLen
  payload : frame.payload.take frame.payloadLen.toNat = other.payload.take other.payloadLen.toNat

/-- Whatever the encoder emits into a buffer of `capacity` bytes was read from the payload array,
fits the protocol and the buffer, and decodes to the frame. -/
def LmAirFrame.EmitsDecodable (frame : LmAirFrame) (capacity : Nat) : Prop :=
  ∀ adjacent wire, lmAirFrameEncode frame adjacent capacity = (.ok, wire) →
    (∀ i ∈ frame.payloadReads, i < lmAirMaxFramePayload) ∧ wire.length ≤ lmAirMaxWireBytes ∧
    wire.length ≤ capacity ∧ ∃ decoded, lmAirFrameDecode wire = (.ok, some decoded) ∧
      decoded.Same frame

/-- A byte packed from two nibbles. -/
theorem packed_nibbles {high low : UInt8} (hhigh : high ≤ 0x0f) (hlow : low ≤ 0x0f) :
    ((high <<< 4) ||| low) >>> 4 = high ∧ ((high <<< 4) ||| low) &&& 0x0f = low := by
  have hpack : ∀ h < 16, ∀ l < 16,
      ((UInt8.ofNat h <<< 4) ||| UInt8.ofNat l) >>> 4 = UInt8.ofNat h ∧
        ((UInt8.ofNat h <<< 4) ||| UInt8.ofNat l) &&& 0x0f = UInt8.ofNat l := by
    decide
  have hresult := hpack high.toNat (Nat.lt_succ_of_le hhigh) low.toNat (Nat.lt_succ_of_le hlow)
  rwa [UInt8.ofNat_toNat, UInt8.ofNat_toNat] at hresult

/-! ## The emitted bytes -/

variable {frame : LmAirFrame}

/-- The encoder emits exactly when the frame is valid and the buffer is large enough. -/
theorem lm_air_frame_encode_eq_ok_iff (adjacent : Nat → UInt8) (capacity : Nat)
    (wire : List UInt8) :
    lmAirFrameEncode frame adjacent capacity = (.ok, wire) ↔
      validateFrame frame = .ok ∧ 16 + frame.payloadLen.toNat ≤ capacity ∧
      wire = frameCheckedBytes frame adjacent ++
        putU32Be (lmAirCrc32c (frameCheckedBytes frame adjacent)) := by
  have hsize (h : validateFrame frame = .ok) :
      lmAirFrameWireSize frame = 16 + frame.payloadLen.toNat := by
    rw [lmAirFrameWireSize, if_neg (not_not.mpr h), lmAirFrameHeaderBytes, lmAirFrameCrcBytes]
    omega
  dsimp only [lmAirFrameEncode]
  by_cases hvalid : validateFrame frame = .ok
  · rw [if_neg (not_not.mpr hvalid), guard_eq_iff (by simp), hsize hvalid, Nat.not_lt]
    simp only [hvalid, Prod.mk.injEq, true_and, eq_comm]
  · rw [if_pos hvalid]
    simp [hvalid]

/-- The encoder writes as many payload bytes as the frame says. -/
theorem payload_bytes_length (frame : LmAirFrame) (adjacent : Nat → UInt8) :
    (frame.payloadBytes adjacent).length = frame.payloadLen.toNat := by
  rw [LmAirFrame.payloadBytes, List.length_map, List.length_range]

/-- Within the payload array the payload bytes are its first ones. -/
theorem payload_bytes_eq_take (h : frame.payloadLen.toNat ≤ lmAirMaxFramePayload)
    (adjacent : Nat → UInt8) :
    frame.payloadBytes adjacent = frame.payload.take frame.payloadLen.toNat := by
  have hsize := frame.payload_size
  apply List.ext_getElem
  · rw [payload_bytes_length, List.length_take]
    omega
  · intro i hi _
    rw [payload_bytes_length] at hi
    simp only [LmAirFrame.payloadBytes, List.getElem_map, List.getElem_range, List.getElem_take]
    rw [if_pos (by omega), List.getD_eq_getElem]

/-- An encoded frame has the header, the payload and the check. -/
theorem wire_length_of_encode {adjacent : Nat → UInt8} {capacity : Nat} {wire : List UInt8}
    (h : lmAirFrameEncode frame adjacent capacity = (.ok, wire)) :
    wire.length = 16 + frame.payloadLen.toNat := by
  obtain ⟨_, _, rfl⟩ := (lm_air_frame_encode_eq_ok_iff _ _ _).mp h
  simp only [frameCheckedBytes, putU16Be, putU32Be, List.length_append, payload_bytes_length,
    List.length_cons, List.length_nil]
  omega

/-- What the encoder emits within the payload array decodes to the frame, with zeros after the
payload. -/
theorem decode_encode {adjacent : Nat → UInt8} {capacity : Nat} {wire : List UInt8}
    (h : lmAirFrameEncode frame adjacent capacity = (.ok, wire))
    (hpayload : frame.payloadLen.toNat ≤ lmAirMaxFramePayload) :
    lmAirFrameDecode wire = (.ok, some { frame with
      payload := payloadArray (frame.payload.take frame.payloadLen.toNat)
      payload_size := payload_array_length _ }) := by
  obtain ⟨hvalid, _, rfl⟩ := (lm_air_frame_encode_eq_ok_iff _ _ _).mp h
  obtain ⟨⟨hprofile, hflags, hclass, hpriority⟩, _⟩ := validate_frame_eq_ok_iff.mp hvalid
  have hprofile' : frame.profile ≤ 0x0f := UInt8.le_trans hprofile (by decide)
  have hclass' : frame.classId ≤ 0x0f := UInt8.le_trans hclass (by decide)
  have hbytes := payload_bytes_eq_take hpayload adjacent
  have hlength := payload_bytes_length frame adjacent
  rw [hbytes] at hlength
  have hcheck : (putU32Be (lmAirCrc32c (frameCheckedBytes frame adjacent))).length = 4 := rfl
  rw [frameCheckedBytes, hbytes] at hcheck ⊢
  refine (lm_air_decode_sections _ _ _ _ _ _ _ _ _ _ _ _ _ _ hcheck _).mpr ⟨?_, rfl, hlength, ?_,
    hvalid, ?_, ?_, ?_, ?_, ?_, ?_, rfl, rfl, ?_, rfl, rfl⟩
  · rw [hlength]
    exact hpayload
  · rw [put_u32_be_eq, u32_of_be_u32_be, lm_air_crc32c_eq]
    rfl
  · exact (packed_nibbles hflags hprofile').2.symm
  · exact (packed_nibbles hflags hprofile').1.symm
  · exact (packed_nibbles hclass' hpriority).1.symm
  · exact (packed_nibbles hclass' hpriority).2.symm
  · rw [← putU16Be, put_u16_be_eq, u16_of_be_u16_be]
  · rw [← putU16Be, put_u16_be_eq, u16_of_be_u16_be]
  · rw [← putU16Be, put_u16_be_eq, u16_of_be_u16_be]

/-- The emitted wire bytes are decodable exactly when the payload length is within the payload array
or nothing is emitted, because the frame is invalid or the buffer too small. -/
theorem encoder_emits_decodable_iff (frame : LmAirFrame) (capacity : Nat) :
    frame.EmitsDecodable capacity ↔ frame.payloadLen.toNat ≤ lmAirMaxFramePayload ∨
      validateFrame frame ≠ .ok ∨ capacity < 16 + frame.payloadLen.toNat := by
  constructor
  · intro hemits
    by_contra hfails
    rw [not_or, not_or, not_not, Nat.not_le, Nat.not_lt] at hfails
    obtain ⟨hlong, hvalid, hcapacity⟩ := hfails
    obtain ⟨hreads, -⟩ := hemits (fun _ => 0) _
      ((lm_air_frame_encode_eq_ok_iff _ _ _).mpr ⟨hvalid, hcapacity, rfl⟩)
    exact Nat.lt_irrefl _ (hreads lmAirMaxFramePayload (List.mem_range.mpr hlong))
  · intro hcases adjacent wire hencode
    obtain ⟨hvalid, hcapacity, -⟩ := (lm_air_frame_encode_eq_ok_iff _ _ _).mp hencode
    have hpayload : frame.payloadLen.toNat ≤ lmAirMaxFramePayload :=
      hcases.resolve_right fun h => h.elim (fun hbad => hbad hvalid) (Nat.not_lt.mpr hcapacity)
    have hlength := wire_length_of_encode hencode
    refine ⟨fun i hi => ?_, ?_, ?_, _, decode_encode hencode hpayload, ?_⟩
    · exact Nat.lt_of_lt_of_le (List.mem_range.mp hi) hpayload
    · simp only [lmAirMaxFramePayload] at hpayload
      rw [hlength, lmAirMaxWireBytes]
      omega
    · omega
    · refine ⟨rfl, rfl, rfl, rfl, rfl, rfl, rfl, rfl, rfl, rfl, ?_⟩
      have htake : (frame.payload.take frame.payloadLen.toNat).length = frame.payloadLen.toNat := by
        rw [List.length_take, frame.payload_size, Nat.min_eq_left hpayload]
      have hbound : (frame.payload.take frame.payloadLen.toNat).length ≤ 240 := by
        rw [htake]
        exact hpayload
      have harray := payload_array_take hbound
      rwa [htake] at harray

/-- A valid frame with `payload_len` 241 is emitted with a byte from past the payload array. -/
theorem encoder_over_reads :
    ¬ ∀ (frame : LmAirFrame) (capacity : Nat), frame.EmitsDecodable capacity := by
  intro hemits
  let frame : LmAirFrame := ⟨0, 0, 1, 1, 0, 1, 0, 0, 0, 241, List.replicate 240 0, rfl⟩
  have hencode : lmAirFrameEncode frame (fun _ => 0) 257 =
      (.ok, frameCheckedBytes frame (fun _ => 0) ++
        putU32Be (lmAirCrc32c (frameCheckedBytes frame fun _ => 0))) :=
    (lm_air_frame_encode_eq_ok_iff _ _ _).mpr ⟨by decide, by decide, rfl⟩
  obtain ⟨hreads, -⟩ := hemits frame 257 _ _ hencode
  exact absurd (hreads 240 (List.mem_range.mpr (by decide))) (by decide)

end LatentMesh.AirC
