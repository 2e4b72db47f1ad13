import LatentMesh.Lib.Bytes
import LatentMesh.Lib.Incremental
import LatentMesh.Stream.Error
import LatentMesh.Stream.SerdeJson

/-!
# The latent stream codec

`encode_frame`, `decode_frame` and `FrameDecoder` of `codec.rs`: a length prefix of four bytes and
the JSON of a frame. `decode_frame` reads incrementally (`frameReader`), and gives every accepted
frame back whose confidence is finite (`decode_encoded_iff`).
-/

namespace LatentMesh.Stream

open LatentMesh.Core LatentMesh.Lib

/-- `MAX_FRAME_BYTES`: one mebibyte, without the prefix. -/
def maxFrameBytes : Nat := 1024 * 1024

/-- `LENGTH_PREFIX_BYTES`. -/
def lengthPrefixBytes : Nat := 4

/-- One frame in flight and one of read-ahead. -/
def maxBufferedBytes : Nat := 2 * (maxFrameBytes + lengthPrefixBytes)

/-- `usize::checked_mul` on a 64-bit target. -/
def checkedMul (first second : Nat) : Option Nat :=
  if first * second < 2 ^ 64 then some (first * second) else none

/-- `validate_payload_shape`. -/
def validatePayloadShape (frame : LatentFrame) : Result Unit :=
  match checkedMul frame.payload.dim.toNat frame.payload.encoding.bytesPerElement with
  | none => .error (.malformed "payload dim overflows")
  | some expected =>
      if frame.payload.bytes.length ≠ expected then
        .error (.malformed ("payload declares dim " ++ toString frame.payload.dim ++ " (" ++
          toString expected ++ " bytes at " ++ frame.payload.encoding.debug ++ ") but carries " ++
          toString frame.payload.bytes.length ++ " bytes"))
      else
        match frame.payload.encoding, frame.payload.int8Params with
        | .int8, none => .error (.malformed "int8 payload without dequantization params")
        | .int8, some (scale, _) =>
            if scale.isFinite then .ok () else .error (.malformed "int8 scale is not finite")
        | .f32, some _ => .error (.malformed "non-int8 payload carries int8 params")
        | .f16, some _ => .error (.malformed "non-int8 payload carries int8 params")
        | _, none => .ok ()

/-- The length prefix and the body. -/
def prefixed (body : List UInt8) : List UInt8 := u32Be (UInt32.ofNat body.length) ++ body

/-- The length that the first four bytes declare. -/
def declaredLength (input : List UInt8) : Nat :=
  (u32OfBe (input.take lengthPrefixBytes)).toNat

variable (serde : SerdeJson)

/-- `encode_frame`. -/
def encodeFrame (frame : LatentFrame) : Result (List UInt8) :=
  (validatePayloadShape frame).bind fun _ =>
  ((serde.toVec frame).mapError .malformed).bind fun body =>
  if maxFrameBytes < body.length then .error (.frameTooLarge body.length maxFrameBytes)
  else .ok (prefixed body)

/-- The end of `decode_frame`, on a complete body. -/
def decodeBody (body : List UInt8) : Result LatentFrame :=
  ((serde.fromSlice body).mapError .malformed).bind fun frame =>
  (validatePayloadShape frame).bind fun _ => .ok frame

/-- The frame at the front of the input and the bytes that it takes. `none` asks for more bytes. -/
def decodeFrame (input : List UInt8) : Result (Option (LatentFrame × Nat)) :=
  if input.length < lengthPrefixBytes then .ok none
  else if maxFrameBytes < declaredLength input then
    .error (.frameTooLarge (declaredLength input) maxFrameBytes)
  else
    let total := lengthPrefixBytes + declaredLength input
    if input.length < total then .ok none
    else
      (decodeBody serde ((input.take total).drop lengthPrefixBytes)).bind fun frame =>
      .ok (some (frame, total))

/-- The incremental decoder. -/
structure FrameDecoder where
  buffer : List UInt8
  deriving DecidableEq, Repr

namespace FrameDecoder

/-- `FrameDecoder::new`. -/
def new : FrameDecoder := ⟨[]⟩

/-- Append received bytes. The buffer is cleared when it would become too long, or when the frame at
its front declares too many bytes. -/
def push (self : FrameDecoder) (chunk : List UInt8) : FrameDecoder × Result Unit :=
  if maxBufferedBytes < self.buffer.length + chunk.length then
    (⟨[]⟩, .error (.transport "decoder buffer bound exceeded (caller must drain frames)"))
  else
    let buffer := self.buffer ++ chunk
    if lengthPrefixBytes ≤ buffer.length ∧ maxFrameBytes < declaredLength buffer then
      (⟨[]⟩, .error (.frameTooLarge (declaredLength buffer) maxFrameBytes))
    else (⟨buffer⟩, .ok ())

/-- Pop the next complete frame. An error leaves the buffer as it is. -/
def nextFrame (self : FrameDecoder) : FrameDecoder × Result (Option LatentFrame) :=
  match decodeFrame serde self.buffer with
  | .error error => (self, .error error)
  | .ok (some (frame, consumed)) => (⟨self.buffer.drop consumed⟩, .ok (some frame))
  | .ok none => (self, .ok none)

end FrameDecoder

/-! ## Prefixed bodies -/

/-- The prefix adds four bytes. -/
@[simp] theorem prefixed_length (body : List UInt8) :
    (prefixed body).length = lengthPrefixBytes + body.length := by
  rw [prefixed, List.length_append, u32_be_length]
  rfl

/-- The declared length stands at the front. -/
theorem declared_length_append {input : List UInt8} (h : lengthPrefixBytes ≤ input.length)
    (more : List UInt8) : declaredLength (input ++ more) = declaredLength input := by
  rw [declaredLength, declaredLength, List.take_append_of_le_length h]

/-- The prefix declares the length of the body. -/
theorem declared_length_prefixed {body : List UInt8} (h : body.length ≤ maxFrameBytes)
    (more : List UInt8) : declaredLength (prefixed body ++ more) = body.length := by
  have hlt : body.length < 2 ^ 32 := Nat.lt_of_le_of_lt h (by decide)
  have htake : (prefixed body ++ more).take lengthPrefixBytes =
      u32Be (UInt32.ofNat body.length) := by
    rw [prefixed, List.append_assoc]
    exact List.take_left' (u32_be_length _)
  rw [declaredLength, htake, u32_of_be_u32_be, UInt32.toNat_ofNat_of_lt' hlt]

/-! ## What `decode_frame` returns -/

variable {serde} {input body : List UInt8} {frame : LatentFrame}

/-- The input ends before its first frame does, and the frame is not too large. -/
def Incomplete (input : List UInt8) : Prop :=
  input.length < lengthPrefixBytes ∨
    (declaredLength input ≤ maxFrameBytes ∧ input.length < lengthPrefixBytes + declaredLength input)

/-- The decoder waits for more when the input is incomplete. -/
theorem decode_frame_eq_none_iff : decodeFrame serde input = .ok none ↔ Incomplete input := by
  unfold decodeFrame Incomplete
  by_cases hshort : input.length < lengthPrefixBytes
  · simp [hshort]
  · by_cases hlarge : maxFrameBytes < declaredLength input
    · simp [hshort, hlarge, Nat.not_le.mpr hlarge]
    · by_cases hpart : input.length < lengthPrefixBytes + declaredLength input
      · simp [hshort, hlarge, Nat.not_lt.mp hlarge, hpart]
      · simp only [hshort, hlarge, hpart, if_false, and_false, or_false, iff_false]
        cases decodeBody serde _ <;> simp [Except.bind]

/-- A complete frame at the front of the input decides. -/
theorem decode_prefixed (h : body.length ≤ maxFrameBytes) (rest : List UInt8) :
    decodeFrame serde (prefixed body ++ rest) =
      (decodeBody serde body).bind fun frame => .ok (some (frame, (prefixed body).length)) := by
  have hdeclared := declared_length_prefixed h rest
  have hlength : (prefixed body ++ rest).length =
      lengthPrefixBytes + body.length + rest.length := by
    rw [List.length_append, prefixed_length]
  have htake : ((prefixed body ++ rest).take (lengthPrefixBytes + body.length)).drop
      lengthPrefixBytes = body := by
    rw [List.take_left' (prefixed_length body)]
    exact List.drop_left' (u32_be_length _)
  unfold decodeFrame
  rw [hdeclared, hlength, if_neg (by omega), if_neg (Nat.not_lt.mpr h)]
  dsimp only
  rw [if_neg (by omega), htake, prefixed_length]

/-- What an input begins with: an incomplete frame, a prefix that declares too many bytes, or a
prefixed body. -/
theorem input_cases (input : List UInt8) :
    Incomplete input ∨
      (lengthPrefixBytes ≤ input.length ∧ maxFrameBytes < declaredLength input) ∨
      ∃ body rest, body.length ≤ maxFrameBytes ∧ input = prefixed body ++ rest := by
  by_cases hshort : input.length < lengthPrefixBytes
  · exact Or.inl (Or.inl hshort)
  · by_cases hlarge : maxFrameBytes < declaredLength input
    · exact Or.inr (Or.inl ⟨Nat.not_lt.mp hshort, hlarge⟩)
    · have hdeclared := Nat.not_lt.mp hlarge
      by_cases hpart : input.length < lengthPrefixBytes + declaredLength input
      · exact Or.inl (Or.inr ⟨hdeclared, hpart⟩)
      · -- the whole body is there
        have hbody : ((input.drop lengthPrefixBytes).take (declaredLength input)).length =
            declaredLength input := by
          rw [List.length_take, List.length_drop]
          omega
        have hprefix : (input.take lengthPrefixBytes).length = 4 := by
          rw [List.length_take]
          exact Nat.min_eq_left (Nat.not_lt.mp hshort)
        refine Or.inr (Or.inr ⟨(input.drop lengthPrefixBytes).take (declaredLength input),
          (input.drop lengthPrefixBytes).drop (declaredLength input),
          Nat.le_trans (Nat.le_of_eq hbody) hdeclared, ?_⟩)
        rw [prefixed, hbody, declaredLength, UInt32.ofNat_toNat, u32_be_u32_of_be hprefix,
          List.append_assoc, List.take_append_drop, List.take_append_drop]

/-- A declared length above the bound is an error. -/
theorem decode_oversized (hlong : lengthPrefixBytes ≤ input.length)
    (hlarge : maxFrameBytes < declaredLength input) :
    decodeFrame serde input = .error (.frameTooLarge (declaredLength input) maxFrameBytes) := by
  rw [decodeFrame, if_neg (Nat.not_lt.mpr hlong), if_pos hlarge]

/-- A frame that is decoded is that of the body at the front. -/
theorem decode_frame_eq_some {consumed : Nat}
    (h : decodeFrame serde input = .ok (some (frame, consumed))) :
    ∃ body rest, body.length ≤ maxFrameBytes ∧ input = prefixed body ++ rest ∧
      decodeBody serde body = .ok frame ∧ consumed = (prefixed body).length := by
  rcases input_cases input with hpart | ⟨hlong, hlarge⟩ | ⟨body, rest, hbody, rfl⟩
  · rw [decode_frame_eq_none_iff.mpr hpart] at h
    cases h
  · rw [decode_oversized hlong hlarge] at h
    cases h
  · rw [decode_prefixed hbody] at h
    obtain ⟨found, hfound, heq⟩ := Lib.bind_eq_ok_iff.mp h
    cases heq
    exact ⟨body, rest, hbody, rfl, hfound, rfl⟩

/-- `decode_frame` reads incrementally. -/
def frameReader (serde : SerdeJson) : Reader UInt8 LatentFrame StreamError where
  read := decodeFrame serde
  consumes h := by
    obtain ⟨body, rest, -, rfl, -, rfl⟩ := decode_frame_eq_some h
    rw [List.length_append, prefixed_length, lengthPrefixBytes]
    omega
  stable {input} more h := by
    rcases input_cases input with hpart | ⟨hlong, hlarge⟩ | ⟨body, rest, hbody, rfl⟩
    · exact absurd (decode_frame_eq_none_iff.mpr hpart) h
    · have hdeclared := declared_length_append hlong more
      have hmore : lengthPrefixBytes ≤ (input ++ more).length := by
        rw [List.length_append]
        exact Nat.le_trans hlong (Nat.le_add_right _ _)
      rw [decode_oversized hlong hlarge, decode_oversized hmore (hdeclared ▸ hlarge), hdeclared]
    · rw [List.append_assoc, decode_prefixed hbody, decode_prefixed hbody]

/-! ## Encoded frames -/

/-- A frame of a valid shape whose text is not too long, and no other, is encoded. -/
theorem encode_frame_eq_ok_iff {bytes : List UInt8} :
    encodeFrame serde frame = .ok bytes ↔ validatePayloadShape frame = .ok () ∧ ∃ body,
      serde.toVec frame = .ok body ∧ body.length ≤ maxFrameBytes ∧ bytes = prefixed body := by
  rw [encodeFrame, Lib.bind_eq_ok_iff]
  constructor
  · rintro ⟨u, hshape, hrest⟩
    obtain ⟨body, hbody, hbytes⟩ := Lib.bind_eq_ok_iff.mp hrest
    refine ⟨hshape, body, ?_, ?_⟩
    · cases hvec : serde.toVec frame with
      | error why =>
          rw [hvec] at hbody
          cases hbody
      | ok written =>
          rw [hvec] at hbody
          cases hbody
          rfl
    · split at hbytes
      · cases hbytes
      · rename_i hlength
        cases hbytes
        exact ⟨Nat.not_lt.mp hlength, rfl⟩
  · rintro ⟨hshape, body, hvec, hlength, rfl⟩
    refine ⟨(), hshape, ?_⟩
    rw [hvec]
    exact if_neg (Nat.not_lt.mpr hlength)

/-- The shape is checked up to the finiteness of the confidence. -/
theorem floats_finite_iff (h : validatePayloadShape frame = .ok ()) :
    frame.FloatsFinite ↔ frame.confidence.isFinite = true := by
  refine ⟨And.left, fun hconfidence => ⟨hconfidence, ?_⟩⟩
  rintro ⟨scale, zeroPoint⟩ hparams
  unfold validatePayloadShape at h
  split at h
  · cases h
  · split at h
    · cases h
    · rw [hparams] at h
      cases hencoding : frame.payload.encoding with
      | f32 => rw [hencoding] at h; cases h
      | f16 => rw [hencoding] at h; cases h
      | int8 =>
          rw [hencoding] at h
          dsimp only at h
          split at h
          · assumption
          · cases h

/-- What the body of an accepted frame decodes to. -/
theorem decode_body_encoded (hcodec : serde.RoundTrips (documentOf frame))
    (hshape : validatePayloadShape frame = .ok ()) (hbody : serde.toVec frame = .ok body) :
    (frame.confidence.isFinite = true → decodeBody serde body = .ok frame) ∧
      (¬ frame.confidence.isFinite = true →
        decodeBody serde body = .error (.malformed (serde.nullText body))) := by
  obtain ⟨hfinite, hnull⟩ := SerdeJson.from_slice_to_vec hcodec hbody
  rw [floats_finite_iff hshape] at hfinite hnull
  constructor
  · intro hconfidence
    rw [decodeBody, hfinite hconfidence]
    show (validatePayloadShape frame).bind _ = _
    rw [hshape]
    rfl
  · intro hconfidence
    rw [decodeBody, hnull hconfidence]
    rfl

/-- `decode_frame` gives an accepted frame back exactly when its confidence is finite, which
`validate_payload_shape` does not check. -/
theorem decode_encoded_iff {bytes : List UInt8} (hcodec : serde.RoundTrips (documentOf frame))
    (h : encodeFrame serde frame = .ok bytes) :
    decodeFrame serde bytes = .ok (some (frame, bytes.length)) ↔
      frame.confidence.isFinite = true := by
  obtain ⟨hshape, body, hbody, hlength, rfl⟩ := encode_frame_eq_ok_iff.mp h
  obtain ⟨hfinite, hnull⟩ := decode_body_encoded hcodec hshape hbody
  have hdecode := @decode_prefixed serde body hlength []
  rw [List.append_nil] at hdecode
  rw [hdecode]
  by_cases hconfidence : frame.confidence.isFinite = true
  · rw [hfinite hconfidence]
    exact iff_of_true rfl hconfidence
  · rw [hnull hconfidence]
    exact iff_of_false (fun herror => by cases herror) hconfidence

/-! ## A frame with one element -/

/-- A frame with a given confidence. -/
def sampleFrame (confidence : F32) : LatentFrame where
  id := "f1"
  senderModel := "s"
  receiverSpace := "r"
  transformHash := "t"
  sequence := 1
  payload := ⟨.f32, 1, [0, 0, 128, 62], none⟩
  confidence := confidence
  provenance := ⟨"s", "c", []⟩
  authority := .observeOnly
  timestamp := 1

/-- `{"id":"f1","sender_model":"s","receiver_space":"r","transform_hash":"t","sequence":1,"payload":
{"encoding":"f32","dim":1,"bytes":[0,0,128,62],"int8_params":null},"confidence":` -/
def sampleOpening : List UInt8 :=
  beBytes 40 0x7b226964223a226631222c2273656e6465725f6d6f64656c223a2273222c2272656365697665725f ++
  beBytes 40 0x7370616365223a2272222c227472616e73666f726d5f68617368223a2274222c2273657175656e63 ++
  beBytes 40 0x65223a312c227061796c6f6164223a7b22656e636f64696e67223a22663332222c2264696d223a31 ++
  beBytes 40 0x2c226279746573223a5b302c302c3132382c36325d2c22696e74385f706172616d73223a6e756c6c ++
  beBytes 15 0x7d2c22636f6e666964656e6365223a

/-- `,"provenance":{"sender_model":"s","context_hash":"c","parents":[]},"authority":"observe_only",
"timestamp":1}` -/
def sampleClosing : List UInt8 :=
  beBytes 40 0x2c2270726f76656e616e6365223a7b2273656e6465725f6d6f64656c223a2273222c22636f6e7465 ++
  beBytes 40 0x78745f68617368223a2263222c22706172656e7473223a5b5d7d2c22617574686f72697479223a22 ++
  beBytes 28 0x6f6273657276655f6f6e6c79222c2274696d657374616d70223a317d

/-- The JSON of the sample frame, with the text of its confidence. -/
def sampleText (confidence : List UInt8) : List UInt8 :=
  sampleOpening ++ (confidence ++ sampleClosing)

/-- The confidence 0.5. -/
def half : F32 := ⟨0x3f000000⟩

/-- `0.5` -/
def halfText : List UInt8 := [0x30, 0x2e, 0x35]

/-- A NaN. -/
def notANumber : F32 := ⟨0x7fc00000⟩

/-- `null` -/
def nullText : List UInt8 := [0x6e, 0x75, 0x6c, 0x6c]

/-- The sample frames as texts. -/
def sampleRender (document : FrameDocument) : Except String (List UInt8) :=
  if document = documentOf (sampleFrame half) then .ok (sampleText halfText)
  else if document = documentOf (sampleFrame notANumber) then .ok (sampleText nullText)
  else .error "not a sample"

/-- The texts read back. -/
def sampleParse (bytes : List UInt8) : Except String FrameDocument :=
  if bytes = sampleText halfText then .ok (documentOf (sampleFrame half))
  else if bytes = sampleText nullText then .ok (documentOf (sampleFrame notANumber))
  else .error "expected value at line 1 column 1"

/-- What `serde_json` does with the sample frames. -/
def sampleSerde : SerdeJson where
  render := sampleRender
  parse := sampleParse
  nullText _ := "invalid type: null, expected f32 at line 1 column 179"

/-- The length of a text. -/
theorem sample_text_length (confidence : List UInt8) :
    (sampleText confidence).length = 283 + confidence.length := by
  simp only [sampleText, sampleOpening, sampleClosing, List.length_append, be_bytes_length]
  omega

/-- A confidence that is no number has another text. -/
theorem sample_text_differs : sampleText nullText ≠ sampleText halfText := by
  intro h
  have hlength := congrArg List.length h
  rw [sample_text_length, sample_text_length] at hlength
  revert hlength
  decide

/-- The texts of the two frames. -/
theorem sample_render :
    sampleRender (documentOf (sampleFrame half)) = .ok (sampleText halfText) ∧
      sampleRender (documentOf (sampleFrame notANumber)) = .ok (sampleText nullText) := by
  have hdiffer : documentOf (sampleFrame notANumber) ≠ documentOf (sampleFrame half) := by decide
  constructor
  · rw [sampleRender, if_pos rfl]
  · rw [sampleRender, if_neg hdiffer, if_pos rfl]

/-- The two frames keep what their texts say. -/
theorem sample_round_trips {confidence : F32} (h : confidence = half ∨ confidence = notANumber) :
    sampleSerde.RoundTrips (documentOf (sampleFrame confidence)) := by
  intro bytes hrender
  show sampleParse bytes = _
  rcases h with rfl | rfl
  · cases sample_render.1.symm.trans hrender
    rw [sampleParse, if_pos rfl]
  · cases sample_render.2.symm.trans hrender
    rw [sampleParse, if_neg sample_text_differs, if_pos rfl]

/-- The encodings of the two frames. -/
theorem sample_encoded :
    encodeFrame sampleSerde (sampleFrame half) = .ok (prefixed (sampleText halfText)) ∧
      encodeFrame sampleSerde (sampleFrame notANumber) = .ok (prefixed (sampleText nullText)) := by
  have hlength : ∀ confidence : List UInt8, confidence.length ≤ 4 →
      (sampleText confidence).length ≤ maxFrameBytes := by
    intro confidence h
    rw [sample_text_length]
    exact Nat.le_trans (Nat.add_le_add_left h 283) (by decide)
  exact ⟨encode_frame_eq_ok_iff.mpr ⟨rfl, _, sample_render.1, hlength _ (by decide), rfl⟩,
    encode_frame_eq_ok_iff.mpr ⟨rfl, _, sample_render.2, hlength _ (by decide), rfl⟩⟩

/-- The frame of confidence one half is read back. -/
theorem decode_encoded_half :
    decodeFrame sampleSerde (prefixed (sampleText halfText)) =
        .ok (some (sampleFrame half, (prefixed (sampleText halfText)).length)) :=
  (decode_encoded_iff (sample_round_trips (Or.inl rfl)) sample_encoded.1).mpr rfl

/-- A frame with the confidence NaN is accepted, and no peer can read it. -/
theorem decode_encoded_not_a_number :
    ∃ serde frame bytes, serde.RoundTrips (documentOf frame) ∧ encodeFrame serde frame = .ok bytes ∧
      ∃ why, decodeFrame serde bytes = .error (.malformed why) := by
  obtain ⟨hshape, body, hbody, hlength, heq⟩ := encode_frame_eq_ok_iff.mp sample_encoded.2
  refine ⟨sampleSerde, _, _, sample_round_trips (Or.inr rfl), sample_encoded.2,
    sampleSerde.nullText body, ?_⟩
  have hnull := (decode_body_encoded (sample_round_trips (Or.inr rfl)) hshape hbody).2 (by decide)
  have hdecode := @decode_prefixed sampleSerde body hlength []
  rw [List.append_nil] at hdecode
  rw [heq, hdecode, hnull]
  rfl

end LatentMesh.Stream
