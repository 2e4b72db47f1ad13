import Mathlib.Data.List.GetD
import LatentMesh.AirCore.Crc32c
import LatentMesh.AirCore.Error
import LatentMesh.Lib.Bytes

/-!
# The compact wire frame

The physical frame of `wire.rs`: its enumerated fields, `SparseRadioFrame.validate`, `encode`
and `decode`. Read `SparseRadioFrame.decode_eq_ok_iff` first: the decoder accepts a byte string
exactly when the encoder produces it, so accepted byte strings and valid frames correspond one
to one.
-/

namespace LatentMesh.AirCore

open LatentMesh.Lib

/-- High nibble `0xa` identifies LatentMesh Air; the low nibble is version 1. -/
def protocolMarker : UInt8 := 0xa1

/-- `FRAME_HEADER_BYTES`. -/
def frameHeaderBytes : Nat := 12

/-- `FRAME_MIN_BYTES`. -/
def frameMinBytes : Nat := frameHeaderBytes + 4

/-- `FRAME_MAX_BYTES`. -/
def frameMaxBytes : Nat := 256

/-- `FRAME_MAX_PAYLOAD`. -/
def frameMaxPayload : Nat := frameMaxBytes - frameMinBytes

/-- The largest number of fragments of one message. -/
def maxFragments : UInt8 := 32

/-- `MAX_MESSAGE_BYTES`. -/
def maxMessageBytes : Nat := maxFragments.toNat * frameMaxPayload

/-! ## Enumerated fields -/

/-- The physical profile, carried in the low nibble of header byte 1. -/
inductive WireProfile where
  | wifi
  | ble
  | hfBpsk
  | hfAfsk
  | vhfAfsk
  | vhfCpfsk
  | amAudio
  | fmAudio
  | hamPacket
  | meshtastic
  deriving DecidableEq, Repr

/-- `profile as u8`. -/
def WireProfile.toU8 : WireProfile → UInt8
  | .wifi => 0
  | .ble => 1
  | .hfBpsk => 2
  | .hfAfsk => 3
  | .vhfAfsk => 4
  | .vhfCpfsk => 5
  | .amAudio => 6
  | .fmAudio => 7
  | .hamPacket => 8
  | .meshtastic => 9

/-- `WireProfile::try_from`. -/
def WireProfile.tryFrom (value : UInt8) : Result WireProfile :=
  match value with
  | 0 => .ok .wifi
  | 1 => .ok .ble
  | 2 => .ok .hfBpsk
  | 3 => .ok .hfAfsk
  | 4 => .ok .vhfAfsk
  | 5 => .ok .vhfCpfsk
  | 6 => .ok .amAudio
  | 7 => .ok .fmAudio
  | 8 => .ok .hamPacket
  | 9 => .ok .meshtastic
  | _ => .error .invalidProfile

/-- The meaning of a frame, carried in the high nibble of header byte 8. -/
inductive SemanticClass where
  | telemetry
  | stateDelta
  | acknowledgement
  | control
  | diagnostic
  deriving DecidableEq, Repr

/-- `class as u8`. -/
def SemanticClass.toU8 : SemanticClass → UInt8
  | .telemetry => 0
  | .stateDelta => 1
  | .acknowledgement => 2
  | .control => 3
  | .diagnostic => 4

/-- `SemanticClass::try_from`. -/
def SemanticClass.tryFrom (value : UInt8) : Result SemanticClass :=
  match value with
  | 0 => .ok .telemetry
  | 1 => .ok .stateDelta
  | 2 => .ok .acknowledgement
  | 3 => .ok .control
  | 4 => .ok .diagnostic
  | _ => .error .invalidClass

/-- The flags in the high nibble of header byte 1. The field is private in the source, so every
value comes from `fromBits`, `union` or a constant, and its low nibble is clear. -/
structure FrameFlags where
  bits : UInt8
  low_clear : bits &&& 0x0f = 0
  deriving DecidableEq, Repr

namespace FrameFlags

/-- `FrameFlags::NONE`. -/
def none : FrameFlags := ⟨0, rfl⟩

/-- `FrameFlags::ACK_REQUEST`. -/
def ackRequest : FrameFlags := ⟨0x10, rfl⟩

/-- `FrameFlags::FEC`. -/
def fec : FrameFlags := ⟨0x20, rfl⟩

/-- `FrameFlags::CONTROL`. -/
def control : FrameFlags := ⟨0x40, rfl⟩

/-- Authentication data is carried inside the semantic envelope. -/
def signedEnvelope : FrameFlags := ⟨0x80, rfl⟩

/-- `FrameFlags::from_bits`. -/
def fromBits (bits : UInt8) : Result FrameFlags :=
  if h : bits &&& 0x0f = 0 then .ok ⟨bits, h⟩ else .error .invalidFlags

/-- `FrameFlags::contains`. -/
def contains (self other : FrameFlags) : Bool :=
  self.bits &&& other.bits == other.bits

/-- Joining two flag sets keeps the low nibble clear. -/
theorem union_low_clear (self other : FrameFlags) : (self.bits ||| other.bits) &&& 0x0f = 0 := by
  rw [byte_and_or_distrib_right, self.low_clear, other.low_clear, UInt8.or_zero]

/-- `FrameFlags::union`. -/
def union (self other : FrameFlags) : FrameFlags :=
  ⟨self.bits ||| other.bits, union_low_clear self other⟩

/-- The bits of flags are accepted. -/
@[simp] theorem from_bits_bits (flags : FrameFlags) : fromBits flags.bits = .ok flags := by
  simp [fromBits, flags.low_clear]

/-- The bits that are accepted are those of flags. -/
theorem from_bits_eq_ok_iff {bits : UInt8} {flags : FrameFlags} :
    fromBits bits = .ok flags ↔ flags.bits = bits := by
  constructor
  · intro h
    unfold fromBits at h
    split at h
    · cases h
      rfl
    · cases h
  · rintro rfl
    exact from_bits_bits flags

end FrameFlags

/-! ## The frame -/

/-- A compact physical frame. All fragments of one message share the `sequence`, and `stateTag`
is the first 16 bits of the critical-state hash carried in the envelope. -/
structure SparseRadioFrame where
  profile : WireProfile
  flags : FrameFlags
  streamId : UInt16
  sequence : UInt16
  fragmentIndex : UInt8
  fragmentCount : UInt8
  semanticClass : SemanticClass
  priority : UInt8
  stateTag : UInt16
  payload : List UInt8
  deriving DecidableEq, Repr

namespace SparseRadioFrame

/-- `SparseRadioFrame::validate`. -/
def validate (self : SparseRadioFrame) : Result Unit :=
  if 15 < self.priority ∨ frameMaxPayload < self.payload.length then .error .invalidLength
  else if self.fragmentCount = 0 ∨ maxFragments < self.fragmentCount ∨
      self.fragmentCount ≤ self.fragmentIndex then .error .invalidFragment
  else (FrameFlags.fromBits self.flags.bits).bind fun _ => .ok ()

/-- `SparseRadioFrame::encoded_len`. -/
def encodedLen (self : SparseRadioFrame) : Nat :=
  frameMinBytes + self.payload.length

/-- The bytes that `encode` has pushed before it computes the checksum. -/
def checkedBytes (self : SparseRadioFrame) : List UInt8 :=
  [protocolMarker, self.flags.bits ||| self.profile.toU8] ++ u16Be self.streamId ++
    u16Be self.sequence ++ [self.fragmentIndex, self.fragmentCount,
    (self.semanticClass.toU8 <<< 4) ||| self.priority, UInt8.ofNat self.payload.length] ++
    u16Be self.stateTag ++ self.payload

/-- `SparseRadioFrame::encode`. -/
def encode (self : SparseRadioFrame) : Result (List UInt8) :=
  self.validate.bind fun _ =>
    let out := self.checkedBytes
    .ok (out ++ u32Be (crc32c out))

/-- `SparseRadioFrame::decode`. The fixed bounds are checked first, so every index below the
header length is in range. -/
def decode (input : List UInt8) : Result SparseRadioFrame :=
  if ¬ (frameMinBytes ≤ input.length ∧ input.length ≤ frameMaxBytes) then .error .invalidLength
  else if input.getD 0 0 &&& 0xf0 ≠ 0xa0 then .error .invalidMarker
  else if input.getD 0 0 ≠ protocolMarker then .error .unsupportedVersion
  else
    let payloadLen := (input.getD 9 0).toNat
    let expectedLen := frameMinBytes + payloadLen
    if input.length ≠ expectedLen then .error .invalidLength
    else
      let checkAt := input.length - 4
      let expected := u32OfBe (input.drop checkAt)
      if crc32c (input.take checkAt) ≠ expected then .error .crcMismatch
      else
        let combined := input.getD 1 0
        (WireProfile.tryFrom (combined &&& 0x0f)).bind fun profile =>
        (FrameFlags.fromBits (combined &&& 0xf0)).bind fun flags =>
        let classPriority := input.getD 8 0
        (SemanticClass.tryFrom (classPriority >>> 4)).bind fun semanticClass =>
        let frame : SparseRadioFrame :=
          { profile, flags
            streamId := u16OfBe [input.getD 2 0, input.getD 3 0]
            sequence := u16OfBe [input.getD 4 0, input.getD 5 0]
            fragmentIndex := input.getD 6 0
            fragmentCount := input.getD 7 0
            semanticClass
            priority := classPriority &&& 0x0f
            stateTag := u16OfBe [input.getD 10 0, input.getD 11 0]
            payload := (input.take checkAt).drop frameHeaderBytes }
        frame.validate.bind fun _ => .ok frame

end SparseRadioFrame

/-! ## Packed bytes -/

/-- The codes of profiles. -/
theorem WireProfile.try_from_eq_ok_iff {value : UInt8} {profile : WireProfile} :
    WireProfile.tryFrom value = .ok profile ↔ profile.toU8 = value := by
  constructor
  · intro h
    unfold WireProfile.tryFrom at h
    split at h <;> first | (cases h; rfl) | cases h
  · rintro rfl
    cases profile <;> rfl

/-- The codes of classes. -/
theorem SemanticClass.try_from_eq_ok_iff {value : UInt8} {semanticClass : SemanticClass} :
    SemanticClass.tryFrom value = .ok semanticClass ↔ semanticClass.toU8 = value := by
  constructor
  · intro h
    unfold SemanticClass.tryFrom at h
    split at h <;> first | (cases h; rfl) | cases h
  · rintro rfl
    cases semanticClass <;> rfl

/-- The profile nibble of a packed flags-and-profile byte. -/
theorem WireProfile.packed_low (profile : WireProfile) (flags : FrameFlags) :
    (flags.bits ||| profile.toU8) &&& 0x0f = profile.toU8 := by
  rw [byte_and_or_distrib_right, flags.low_clear, UInt8.zero_or]
  cases profile <;> rfl

/-- The flag nibble of a packed flags-and-profile byte. -/
theorem WireProfile.packed_high (profile : WireProfile) (flags : FrameFlags) :
    (flags.bits ||| profile.toU8) &&& 0xf0 = flags.bits := by
  rw [byte_and_or_distrib_right, high_nibble_of_low_clear flags.low_clear]
  cases profile <;> exact UInt8.or_zero

/-- The class nibble of a packed class-and-priority byte. -/
theorem SemanticClass.packed_high (semanticClass : SemanticClass) {priority : UInt8}
    (h : priority ≤ 15) : ((semanticClass.toU8 <<< 4) ||| priority) >>> 4 = semanticClass.toU8 := by
  revert priority
  rw [byte_forall_iff]
  cases semanticClass <;> decide +kernel

/-- The priority nibble of a packed class-and-priority byte. -/
theorem SemanticClass.packed_low (semanticClass : SemanticClass) {priority : UInt8}
    (h : priority ≤ 15) : ((semanticClass.toU8 <<< 4) ||| priority) &&& 0x0f = priority := by
  revert priority
  rw [byte_forall_iff]
  cases semanticClass <;> decide +kernel

namespace SparseRadioFrame

/-- The conditions that `validate` checks. -/
structure Valid (frame : SparseRadioFrame) : Prop where
  priority : frame.priority ≤ 15
  payload : frame.payload.length ≤ frameMaxPayload
  count_pos : frame.fragmentCount ≠ 0
  count : frame.fragmentCount ≤ maxFragments
  index : frame.fragmentIndex < frame.fragmentCount

/-- The frames that `validate` accepts. -/
theorem validate_eq_ok_iff {self : SparseRadioFrame} {u : Unit} :
    self.validate = .ok u ↔ self.Valid := by
  simp only [validate, Lib.guard_eq_ok_iff, FrameFlags.from_bits_bits, Except.bind, not_or,
    UInt8.not_lt, Nat.not_lt, UInt8.not_le, and_true]
  exact ⟨fun h => ⟨h.1.1, h.1.2, h.2.1, h.2.2.1, h.2.2.2⟩,
    fun h => ⟨⟨h.priority, h.payload⟩, h.count_pos, h.count, h.index⟩⟩

/-- The wire bytes of a valid frame. -/
def wire (self : SparseRadioFrame) : List UInt8 :=
  self.checkedBytes ++ u32Be (crc32c self.checkedBytes)

/-- A valid frame, and no other, is encoded as its wire. -/
theorem encode_eq_ok_iff {self : SparseRadioFrame} {bytes : List UInt8} :
    self.encode = .ok bytes ↔ self.Valid ∧ bytes = self.wire := by
  simp only [encode, Lib.bind_eq_ok_iff, Except.ok.injEq, wire, validate_eq_ok_iff]
  exact ⟨fun ⟨_, h, hbytes⟩ => ⟨h, hbytes.symm⟩, fun ⟨h, hbytes⟩ => ⟨(), h, hbytes.symm⟩⟩

/-- The check sequence covers the header and the payload. -/
theorem checked_bytes_length (self : SparseRadioFrame) :
    self.checkedBytes.length = frameHeaderBytes + self.payload.length := by
  simp [checkedBytes, frameHeaderBytes]
  omega

/-- The wire has the length that `encoded_len` says. -/
theorem wire_length (self : SparseRadioFrame) : self.wire.length = self.encodedLen := by
  simp [wire, checked_bytes_length, encodedLen, frameMinBytes]
  omega

/-- A byte string that is long enough is a twelve-byte header, a payload and a checksum. -/
theorem exists_sections {input : List UInt8} (h : frameMinBytes ≤ input.length) :
    ∃ b0 b1 b2 b3 b4 b5 b6 b7 b8 b9 b10 b11 payload check, check.length = 4 ∧
      input = [b0, b1, b2, b3, b4, b5, b6, b7, b8, b9, b10, b11] ++ payload ++ check := by
  have hheader : (input.take 12).length = 12 := by
    rw [List.length_take]
    exact Nat.min_eq_left (Nat.le_trans (by decide) h)
  obtain ⟨b0, b1, b2, b3, b4, b5, b6, b7, b8, b9, b10, b11, htake⟩ :
      ∃ b0 b1 b2 b3 b4 b5 b6 b7 b8 b9 b10 b11,
        input.take 12 = [b0, b1, b2, b3, b4, b5, b6, b7, b8, b9, b10, b11] := by
    match input.take 12, hheader with
    | [b0, b1, b2, b3, b4, b5, b6, b7, b8, b9, b10, b11], _ =>
      exact ⟨b0, b1, b2, b3, b4, b5, b6, b7, b8, b9, b10, b11, rfl⟩
  have hlength : (input.drop 12).length - ((input.drop 12).length - 4) = 4 := by
    simp only [frameMinBytes, frameHeaderBytes] at h
    rw [List.length_drop]
    omega
  refine ⟨b0, b1, b2, b3, b4, b5, b6, b7, b8, b9, b10, b11,
    (input.drop 12).take ((input.drop 12).length - 4),
    (input.drop 12).drop ((input.drop 12).length - 4), ?_, ?_⟩
  · rw [List.length_drop, hlength]
  · rw [← htake, List.append_assoc, List.take_append_drop, List.take_append_drop]

/-- The decoder on a byte string split into its sections. -/
theorem decode_sections (b0 b1 b2 b3 b4 b5 b6 b7 b8 b9 b10 b11 : UInt8)
    (payload check : List UInt8) (hcheck : check.length = 4) (frame : SparseRadioFrame) :
    decode ([b0, b1, b2, b3, b4, b5, b6, b7, b8, b9, b10, b11] ++ payload ++ check) = .ok frame ↔
      b0 = protocolMarker ∧ payload.length = b9.toNat ∧
      crc32c ([b0, b1, b2, b3, b4, b5, b6, b7, b8, b9, b10, b11] ++ payload) = u32OfBe check ∧
      frame.profile.toU8 = b1 &&& 0x0f ∧ frame.flags.bits = b1 &&& 0xf0 ∧
      frame.semanticClass.toU8 = b8 >>> 4 ∧ frame.priority = b8 &&& 0x0f ∧
      frame.streamId = u16OfBe [b2, b3] ∧ frame.sequence = u16OfBe [b4, b5] ∧
      frame.fragmentIndex = b6 ∧ frame.fragmentCount = b7 ∧ frame.stateTag = u16OfBe [b10, b11] ∧
      frame.payload = payload ∧ frame.Valid := by
  generalize hheader : [b0, b1, b2, b3, b4, b5, b6, b7, b8, b9, b10, b11] = header
  have hheaderLength : header.length = 12 := by rw [← hheader]; rfl
  have hlength : (header ++ payload ++ check).length = frameMinBytes + payload.length := by
    simp only [List.length_append, hheaderLength, hcheck, frameMinBytes, frameHeaderBytes]
    omega
  have hat : (header ++ payload ++ check).length - 4 = (header ++ payload).length := by
    rw [List.length_append, hcheck, Nat.add_sub_cancel]
  have hget : ∀ i < 12, (header ++ payload ++ check).getD i 0 = header.getD i 0 := by
    intro i hi
    rw [List.append_assoc, List.getD_append _ _ _ _ (by omega)]
  have hdrop : (header ++ payload).drop frameHeaderBytes = payload := by
    rw [frameHeaderBytes, ← hheaderLength, List.drop_left]
  dsimp only [decode]
  rw [hat, List.take_left, List.drop_left, hdrop, hlength, hget 0, hget 1, hget 2, hget 3, hget 4,
    hget 5, hget 6, hget 7, hget 8, hget 9, hget 10, hget 11] <;> try decide
  subst hheader
  simp only [Lib.guard_eq_ok_iff, Lib.bind_eq_ok_iff, WireProfile.try_from_eq_ok_iff,
    FrameFlags.from_bits_eq_ok_iff, SemanticClass.try_from_eq_ok_iff, validate_eq_ok_iff,
    not_not, Except.ok.injEq, List.getD_cons_zero, List.getD_cons_succ, Nat.add_left_cancel_iff]
  constructor
  · rintro ⟨-, -, hmarker, hlen, hcrc, profile, hprofile, flags, hflags, semanticClass, hclass,
      -, hvalid, rfl⟩
    exact ⟨hmarker, hlen, hcrc, hprofile, hflags, hclass, rfl, rfl, rfl, rfl, rfl, rfl, rfl, hvalid⟩
  · obtain ⟨profile, flags, streamId, sequence, fragmentIndex, fragmentCount, semanticClass,
      priority, stateTag, payload'⟩ := frame
    rintro ⟨rfl, hlen, hcrc, hprofile, hflags, hclass, rfl, rfl, rfl, rfl, rfl, rfl, rfl, hvalid⟩
    have hbound := hvalid.payload
    simp only [frameMaxPayload] at hbound
    exact ⟨⟨by omega, by
        simp only [frameMaxBytes, frameMinBytes, frameHeaderBytes] at hbound ⊢
        omega⟩,
      by decide, rfl, hlen, hcrc, profile, hprofile, flags, hflags, semanticClass, hclass,
      (), hvalid, rfl⟩

/-- The wire bytes of a frame, split into their sections. -/
theorem wire_sections (self : SparseRadioFrame) :
    ∃ b2 b3 b4 b5 b10 b11, u16Be self.streamId = [b2, b3] ∧ u16Be self.sequence = [b4, b5] ∧
      u16Be self.stateTag = [b10, b11] ∧
      self.checkedBytes = [protocolMarker, self.flags.bits ||| self.profile.toU8, b2, b3, b4, b5,
        self.fragmentIndex, self.fragmentCount, (self.semanticClass.toU8 <<< 4) ||| self.priority,
        UInt8.ofNat self.payload.length, b10, b11] ++ self.payload :=
  ⟨_, _, _, _, _, _, rfl, rfl, rfl, rfl⟩

/-- The decoder accepts the wire bytes of every valid frame and returns the frame. -/
theorem decode_wire {self : SparseRadioFrame} (h : self.Valid) : decode self.wire = .ok self := by
  obtain ⟨b2, b3, b4, b5, b10, b11, hstream, hsequence, htag, hbytes⟩ := wire_sections self
  have hpayload : self.payload.length < 2 ^ 8 := Nat.lt_of_le_of_lt h.payload (by decide)
  rw [wire, hbytes, decode_sections _ _ _ _ _ _ _ _ _ _ _ _ _ _ (u32_be_length _)]
  refine ⟨rfl, (UInt8.toNat_ofNat_of_lt' hpayload).symm, (u32_of_be_u32_be _).symm,
    (WireProfile.packed_low _ _).symm, (WireProfile.packed_high _ _).symm,
    (SemanticClass.packed_high _ h.priority).symm, (SemanticClass.packed_low _ h.priority).symm,
    ?_, ?_, rfl, rfl, ?_, rfl, h⟩
  · rw [← hstream, u16_of_be_u16_be]
  · rw [← hsequence, u16_of_be_u16_be]
  · rw [← htag, u16_of_be_u16_be]

/-- Every accepted byte string is the wire form of the frame it decodes to. -/
theorem wire_of_decode {input : List UInt8} {frame : SparseRadioFrame}
    (h : decode input = .ok frame) : frame.Valid ∧ input = frame.wire := by
  have hmin : frameMinBytes ≤ input.length := by
    unfold decode at h
    by_contra hlt
    rw [if_pos (fun hbounds => hlt hbounds.1)] at h
    cases h
  obtain ⟨b0, b1, b2, b3, b4, b5, b6, b7, b8, b9, b10, b11, payload, check, hcheck, rfl⟩ :=
    exists_sections hmin
  rw [decode_sections _ _ _ _ _ _ _ _ _ _ _ _ _ _ hcheck] at h
  obtain ⟨rfl, hlen, hcrc, hprofile, hflags, hclass, hpriority, hstream, hsequence, rfl, rfl, htag,
    rfl, hvalid⟩ := h
  refine ⟨hvalid, ?_⟩
  have hchecked : frame.checkedBytes = [protocolMarker, b1, b2, b3, b4, b5, frame.fragmentIndex,
      frame.fragmentCount, b8, b9, b10, b11] ++ frame.payload := by
    rw [checkedBytes, hprofile, hflags, hclass, hpriority, nibbles_or, shifted_nibbles_or, hstream,
      hsequence, htag, u16_be_u16_of_be rfl, u16_be_u16_of_be rfl, u16_be_u16_of_be rfl, hlen,
      UInt8.ofNat_toNat]
    rfl
  rw [wire, hchecked, hcrc, u32_be_u32_of_be hcheck]

/-- The decoder returns a frame on exactly the bytes the encoder produces for it. -/
theorem decode_eq_ok_iff {input : List UInt8} {frame : SparseRadioFrame} :
    decode input = .ok frame ↔ frame.encode = .ok input := by
  rw [encode_eq_ok_iff]
  constructor
  · exact wire_of_decode
  · rintro ⟨hvalid, rfl⟩
    exact decode_wire hvalid

/-- The frame codec is a bijection between valid frames and accepted byte strings: what `encode`
produces has the documented length and decodes to the frame, and whatever `decode` accepts is
the encoding of the frame it returns. -/
theorem codec_bijection :
    (∀ (frame : SparseRadioFrame) (bytes : List UInt8), frame.encode = .ok bytes →
      bytes.length = 16 + frame.payload.length ∧ 16 ≤ bytes.length ∧ bytes.length ≤ 256 ∧
      decode bytes = .ok frame) ∧
    (∀ (bytes : List UInt8) (frame : SparseRadioFrame), decode bytes = .ok frame →
      frame.encode = .ok bytes) := by
  refine ⟨fun frame bytes h => ?_, fun bytes frame => decode_eq_ok_iff.mp⟩
  obtain ⟨hvalid, rfl⟩ := encode_eq_ok_iff.mp h
  have hlength : frame.wire.length = 16 + frame.payload.length := wire_length frame
  have hpayload : frame.payload.length ≤ 240 := hvalid.payload
  exact ⟨hlength, by omega, by omega, decode_eq_ok_iff.mpr h⟩

/-- The frame of the documented wire vector. -/
def sample : SparseRadioFrame :=
  { profile := .hfBpsk, flags := FrameFlags.fec.union FrameFlags.ackRequest, streamId := 0x1234
    sequence := 0x0102, fragmentIndex := 0, fragmentCount := 1, semanticClass := .stateDelta
    priority := 15, stateTag := 0xbeef, payload := [0xde, 0xad, 0xbe, 0xef] }

/-- The documented wire vector. -/
def sampleWire : List UInt8 :=
  [0xa1, 0x32, 0x12, 0x34, 0x01, 0x02, 0x00, 0x01, 0x1f, 0x04, 0xbe, 0xef, 0xde, 0xad, 0xbe, 0xef,
    0xc2, 0x0a, 0xbd, 0x05]

/-- The theorem at a frame. -/
theorem codec_bijection_sample :
    sample.encode = .ok sampleWire ∧ decode sampleWire = .ok sample ∧
      (decode sampleWire = .ok sample → sample.encode = .ok sampleWire) :=
  have hencode : sample.encode = .ok sampleWire := by decide +kernel
  ⟨hencode, (codec_bijection.1 _ _ hencode).2.2.2, codec_bijection.2 _ _⟩

end SparseRadioFrame

end LatentMesh.AirCore
