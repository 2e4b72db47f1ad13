import LatentMesh.Lib.Guards
import LatentMesh.Lib.Sections
import LatentMesh.Reasoning.Envelope

/-!
# The reasoning envelope codec

`ReasoningDeltaEnvelope.decode` inverts `ReasoningDeltaEnvelope.encode` in both directions: the
sections that it reads are the parts that `encode` writes (`sections_wire`), and the parts of what
it returns are the sections of its input (`sections_of_decode`).
-/

namespace LatentMesh.Reasoning

open LatentMesh.Lib
open LatentMesh.AirCore.SemanticEnvelope (arrayAt array_at_to_list)

namespace ReasoningDeltaEnvelope

/-- The parts of the header, in the order of the wire. -/
def headerParts (self : ReasoningDeltaEnvelope) : List (List UInt8) :=
  [envelopeMagic, u16Be self.version, self.sessionId.toList, self.edgeId.toList,
    self.senderId.toList, self.modelFingerprint.toList, self.checkpointDigest.toList,
    u16Be self.latentSchema, self.adapterDigest.toList, [self.codec.toU8], u32Be self.iteration,
    self.parentStateHash.toList, self.resultStateHash.toList, u16Be self.causalScoreQ15,
    u16Be self.confidenceQ15, [self.riskClass], u16Be self.reconstructionErrorQ15,
    self.provenanceRoot.toList, u32Be (UInt32.ofNat self.body.length), [self.signatureLen], [0]]

/-- The widths of the fields of the header. -/
def headerWidths : List Nat :=
  [4, 2, 16, 16, 32, 32, 32, 2, 32, 1, 4, 32, 32, 2, 2, 1, 2, 32, 4, 1, 1]

/-- The bytes that follow the body. -/
def signatureBytes (self : ReasoningDeltaEnvelope) : List UInt8 :=
  match self.signature with
  | some signature => signature.toList
  | none => []

/-- The bytes of an envelope. -/
def wire (self : ReasoningDeltaEnvelope) : List UInt8 :=
  self.header ++ self.body ++ self.signatureBytes

/-- The conditions that `validate` checks. -/
structure Valid (envelope : ReasoningDeltaEnvelope) : Prop where
  version : envelope.version = envelopeVersion
  body : envelope.body.length ≤ maxBodyBytes

variable {self : ReasoningDeltaEnvelope} {input : List UInt8}

/-- The envelopes that `validate` accepts. -/
theorem validate_eq_ok_iff {u : Unit} : self.validate = .ok u ↔ self.Valid := by
  have hmax : maxBodyBytes ≤ 2 ^ 32 - 1 := by decide
  simp only [validate, guard_eq_ok_iff, not_or, not_not, Nat.not_lt, and_true]
  refine ⟨fun h => ⟨h.1, h.2.1⟩, fun h => ⟨h.version, h.body, ?_⟩⟩
  have hbody := h.body
  omega

/-- A valid envelope, and no other, is encoded as its wire. -/
theorem encode_eq_ok_iff {bytes : List UInt8} :
    self.encode = .ok bytes ↔ self.Valid ∧ bytes = self.wire := by
  rw [encode, bind_eq_ok_iff]
  simp only [validate_eq_ok_iff, exists_const, Except.ok.injEq, eq_comm (b := bytes)]
  rfl

/-- The header is its fields, joined. -/
theorem header_eq (self : ReasoningDeltaEnvelope) : self.header = self.headerParts.flatten := by
  unfold header headerParts
  simp only [List.flatten_cons, List.flatten_nil, List.append_nil, List.append_assoc]

/-- The fields have their widths. -/
theorem header_parts_lengths (self : ReasoningDeltaEnvelope) :
    self.headerParts.map List.length = headerWidths := by
  simp [headerParts, headerWidths, envelopeMagic]

/-- The header has a fixed length. -/
theorem header_length (self : ReasoningDeltaEnvelope) : self.header.length = fixedHeaderBytes := by
  rw [header_eq, List.length_flatten, header_parts_lengths]
  rfl

/-- The signature is as long as the header says. -/
theorem signature_bytes_length (self : ReasoningDeltaEnvelope) :
    self.signatureBytes.length = self.signatureLen.toNat := by
  rw [signatureBytes, signatureLen]
  cases self.signature with
  | none => rfl
  | some signature => simp [envelopeSignatureBytes]

/-- The wire has the header, the body and the signature. -/
theorem wire_length (self : ReasoningDeltaEnvelope) :
    self.wire.length = fixedHeaderBytes + self.body.length + self.signatureLen.toNat := by
  rw [wire, List.length_append, List.length_append, header_length, signature_bytes_length]

/-! ## Decoding what was encoded -/

/-- The parts of the header are the sections of the wire. -/
theorem sections_wire (self : ReasoningDeltaEnvelope) :
    sections 0 headerWidths self.wire = self.headerParts := by
  have h := sections_append [] self.headerParts (self.body ++ self.signatureBytes)
  rw [header_parts_lengths, ← header_eq, List.nil_append, ← List.append_assoc] at h
  exact h

/-- A section that is an array is read as it. -/
theorem array_of_section {n start stop : Nat} {bytes : Vector UInt8 n}
    (h : (input.take stop).drop start = bytes.toList) (hstop : start + n = stop)
    (hlength : stop ≤ input.length) : arrayAt n start input = bytes := by
  subst hstop
  exact Vector.toList_inj.mp ((array_at_to_list hlength).trans h)

/-- A section that is a byte is read as it. -/
theorem byte_of_section {start stop : Nat} {byte : UInt8}
    (h : (input.take stop).drop start = [byte]) (hstop : start + 1 = stop)
    (hlength : stop ≤ input.length) : input.getD start 0 = byte := by
  subst hstop
  exact (List.cons.inj ((byte_eq_section hlength).trans h)).1

/-- A section that is a word is read as it. -/
theorem word_of_section {start stop : Nat} {word : UInt16}
    (h : (input.take stop).drop start = u16Be word) (hstop : start + 2 = stop)
    (hlength : stop ≤ input.length) :
    u16OfBe [input.getD start 0, input.getD (start + 1) 0] = word := by
  subst hstop
  rw [pair_eq_section hlength, h, u16_of_be_u16_be]

/-- The length of a body fits into four bytes. -/
theorem max_body_lt : maxBodyBytes < 2 ^ 32 := by decide

/-- The length byte is 0 or 64. -/
theorem signature_len_cases (self : ReasoningDeltaEnvelope) :
    (self.signature = none ∧ self.signatureLen = 0) ∨
      ∃ signature, self.signature = some signature ∧ self.signatureLen = 64 := by
  rw [signatureLen]
  cases self.signature with
  | none => exact Or.inl ⟨rfl, rfl⟩
  | some signature => exact Or.inr ⟨signature, rfl, rfl⟩

/-- The wire of a valid envelope is decoded to it. -/
theorem decode_wire (h : self.Valid) : decode self.wire = .ok self := by
  have hlength := wire_length self
  have hheader : fixedHeaderBytes = 282 := rfl
  have hbody : (UInt32.ofNat self.body.length).toNat = self.body.length :=
    UInt32.toNat_ofNat_of_lt' (Nat.lt_of_le_of_lt h.body max_body_lt)
  have hsections := sections_wire self
  simp only [sections, headerWidths, headerParts, Nat.zero_add, Nat.reduceAdd, List.drop_zero,
    List.cons.injEq, and_true] at hsections
  obtain ⟨hmagic, hversion, hsession, hedge, hsender, hmodel, hcheckpoint, hschema, hadapter,
    hcodec, hiteration, hparent, hresult, hcausal, hconfidence, hrisk, herror, hroot, hlen,
    hsignatureLen, hreserved⟩ := hsections
  have hshort : ∀ stop, stop ≤ 282 → stop ≤ self.wire.length := by omega
  -- the fields that `decode` branches on
  have hversionField : u16OfBe [self.wire.getD 4 0, self.wire.getD 5 0] = self.version :=
    word_of_section hversion rfl (hshort _ (by decide))
  have hcodecField : self.wire.getD 168 0 = self.codec.toU8 :=
    byte_of_section hcodec rfl (hshort _ (by decide))
  have hbodyLen : (u32OfBe ((self.wire.take 280).drop 276)).toNat = self.body.length := by
    rw [hlen, u32_of_be_u32_be, hbody]
  have hsignatureField : self.wire.getD 280 0 = self.signatureLen :=
    byte_of_section hsignatureLen rfl (hshort _ (by decide))
  have hreservedField : self.wire.getD 281 0 = 0 :=
    byte_of_section hreserved rfl (hshort _ (by decide))
  have hlenCases : ¬ (self.signatureLen.toNat ≠ 0 ∧
      self.signatureLen.toNat ≠ envelopeSignatureBytes) := by
    rcases signature_len_cases self with ⟨-, hzero⟩ | ⟨_, -, hfull⟩
    · simp [hzero]
    · simp [hfull, envelopeSignatureBytes]
  -- the bytes after the header
  have hbodySection : (self.wire.take (fixedHeaderBytes + self.body.length)).drop
      fixedHeaderBytes = self.body := by
    rw [wire, List.append_assoc]
    exact section_append _ (header_length self) rfl
  have hsignature : (if self.signatureLen.toNat = envelopeSignatureBytes then
      some (arrayAt 64 (fixedHeaderBytes + self.body.length) self.wire) else none) =
        self.signature := by
    rcases signature_len_cases self with ⟨hnone, hzero⟩ | ⟨signature, hsome, hfull⟩
    · rw [hzero, hnone]
      rfl
    · have htotal : fixedHeaderBytes + self.body.length + 64 = self.wire.length := by
        rw [hlength, hfull]
        rfl
      have hfront : (self.header ++ self.body).length = fixedHeaderBytes + self.body.length := by
        rw [List.length_append, header_length]
      rw [hsome, if_pos (by rw [hfull]; rfl), Option.some.injEq]
      refine array_of_section ?_ htotal (Nat.le_refl _)
      rw [List.take_length, wire, List.drop_left' hfront,
        signatureBytes, hsome]
  dsimp only [decode]
  rw [if_neg (by omega), if_neg (not_not.mpr hmagic), hversionField, if_neg (not_not.mpr h.version),
    hcodecField, CodecId.try_from_eq_ok_iff.mpr rfl]
  dsimp only [Except.mapError, Except.bind]
  rw [hreservedField, if_neg (not_not.mpr rfl), hsignatureField, if_neg hlenCases, hbodyLen,
    if_neg (Nat.not_lt.mpr h.body), if_neg (not_not.mpr hlength.symm), hbodySection, hsignature,
    array_of_section hsession rfl (hshort _ (by decide)),
    array_of_section hedge rfl (hshort _ (by decide)),
    array_of_section hsender rfl (hshort _ (by decide)),
    array_of_section hmodel rfl (hshort _ (by decide)),
    array_of_section hcheckpoint rfl (hshort _ (by decide)),
    word_of_section hschema rfl (hshort _ (by decide)),
    array_of_section hadapter rfl (hshort _ (by decide)), hiteration, u32_of_be_u32_be,
    array_of_section hparent rfl (hshort _ (by decide)),
    array_of_section hresult rfl (hshort _ (by decide)),
    word_of_section hcausal rfl (hshort _ (by decide)),
    word_of_section hconfidence rfl (hshort _ (by decide)),
    byte_of_section hrisk rfl (hshort _ (by decide)),
    word_of_section herror rfl (hshort _ (by decide)),
    array_of_section hroot rfl (hshort _ (by decide))]
  rw [validate_eq_ok_iff (u := ()) |>.mpr h]

/-! ## Encoding what was decoded -/

/-- The codec byte is that of a codec. -/
theorem map_error_eq_ok_iff {codec : CodecId} {byte : UInt8} :
    ((CodecId.tryFrom byte).mapError fun _ => EnvelopeError.invalidCodec byte) = .ok codec ↔
      codec.toU8 = byte := by
  rw [← CodecId.try_from_eq_ok_iff]
  cases CodecId.tryFrom byte <;> simp [Except.mapError]

/-- `decode` accepts only the bytes of the envelope that it returns. -/
theorem wire_of_decode (h : decode input = .ok self) : self.Valid ∧ input = self.wire := by
  dsimp only [decode] at h
  rw [guard_eq_ok_iff, guard_eq_ok_iff, guard_eq_ok_iff, bind_eq_ok_iff] at h
  obtain ⟨hlength, hmagic, -, codec, hcodec, h⟩ := h
  rw [guard_eq_ok_iff, guard_eq_ok_iff, guard_eq_ok_iff, guard_eq_ok_iff, bind_eq_ok_iff] at h
  obtain ⟨hreserved, hcases, -, htotal, u, hvalidate, h⟩ := h
  have hvalid := validate_eq_ok_iff.mp hvalidate
  obtain rfl := Except.ok.inj h
  refine ⟨hvalid, ?_⟩
  clear h hvalidate hvalid
  rw [not_not] at hmagic hreserved htotal
  rw [map_error_eq_ok_iff] at hcodec
  have hheader : fixedHeaderBytes = 282 := rfl
  -- what is written for a field of each kind
  have harray : ∀ n start stop, start + n = stop → stop ≤ 282 →
      (arrayAt n start input).toList = (input.take stop).drop start := by
    rintro n start stop rfl hstop
    exact array_at_to_list (by omega)
  have hword : ∀ start next stop, start + 1 = next → start + 2 = stop → stop ≤ 282 →
      u16Be (u16OfBe [input.getD start 0, input.getD next 0]) =
        (input.take stop).drop start := by
    rintro start next stop rfl rfl hstop
    rw [u16_be_u16_of_be rfl]
    exact pair_eq_section (by omega)
  have hlong : ∀ start stop, start + 4 = stop → stop ≤ 282 →
      u32Be (u32OfBe ((input.take stop).drop start)) = (input.take stop).drop start := by
    rintro start stop rfl hstop
    exact u32_be_u32_of_be (by rw [section_length (by omega)]; omega)
  have hbyte : ∀ start stop, start + 1 = stop → stop ≤ 282 →
      [input.getD start 0] = (input.take stop).drop start := by
    rintro start stop rfl hstop
    exact byte_eq_section (by omega)
  generalize hlen : u32OfBe ((input.take 280).drop 276) = len at *
  have hbody : ((input.take (fixedHeaderBytes + len.toNat)).drop fixedHeaderBytes).length =
      len.toNat := by
    rw [section_length (by omega)]
    omega
  have hlenBytes : u32Be len = (input.take 280).drop 276 := by
    rw [← hlen]
    exact hlong 276 280 rfl (by decide)
  have hsignature : ∀ envelope : ReasoningDeltaEnvelope,
      envelope.signature = (if (input.getD 280 0).toNat = envelopeSignatureBytes then
        some (arrayAt 64 (fixedHeaderBytes + len.toNat) input) else none) →
      envelope.signatureLen = input.getD 280 0 ∧
        envelope.signatureBytes = input.drop (fixedHeaderBytes + len.toNat) := by
    intro envelope hfield
    rw [signatureLen, signatureBytes, hfield]
    by_cases hfull : (input.getD 280 0).toNat = envelopeSignatureBytes
    · rw [if_pos hfull, ← hfull, UInt8.ofNat_toNat]
      rw [hfull, envelopeSignatureBytes] at htotal
      refine ⟨rfl, ?_⟩
      show (arrayAt 64 _ input).toList = _
      rw [array_at_to_list (Nat.le_of_eq htotal), htotal, List.take_length]
    · have hzero : (input.getD 280 0).toNat = 0 := by
        by_contra hnonzero
        exact hcases ⟨hnonzero, hfull⟩
      rw [if_neg hfull]
      refine ⟨(UInt8.toNat_inj.mp hzero).symm, ?_⟩
      rw [hzero] at htotal
      exact (List.drop_eq_nil_of_le (Nat.le_of_eq htotal.symm)).symm
  have hsplit : input = input.take fixedHeaderBytes ++
      (input.take (fixedHeaderBytes + len.toNat)).drop fixedHeaderBytes ++
      input.drop (fixedHeaderBytes + len.toNat) := by
    rw [← take_eq_append_section input (Nat.le_add_right _ _), List.take_append_drop]
  have hjoin := sections_flatten 0 headerWidths input
  rw [List.take_zero, List.nil_append, Nat.zero_add,
    show headerWidths.sum = fixedHeaderBytes from rfl] at hjoin
  conv_lhs => rw [hsplit, ← hjoin]
  rw [wire, header_eq]
  refine congrArg₂ _ (congrArg₂ _ (congrArg List.flatten ?_) rfl) (hsignature _ rfl).2.symm
  unfold headerParts
  rw [(hsignature _ rfl).1]
  simp only [sections, headerWidths, Nat.zero_add, Nat.reduceAdd, List.drop_zero, hbody,
    UInt32.ofNat_toNat]
  rw [hmagic, hword 4 5 6 rfl rfl (by decide), harray 16 6 22 rfl (by decide),
    harray 16 22 38 rfl (by decide), harray 32 38 70 rfl (by decide),
    harray 32 70 102 rfl (by decide), harray 32 102 134 rfl (by decide),
    hword 134 135 136 rfl rfl (by decide), harray 32 136 168 rfl (by decide), hcodec,
    hbyte 168 169 rfl (by decide), hlong 169 173 rfl (by decide), harray 32 173 205 rfl (by decide),
    harray 32 205 237 rfl (by decide), hword 237 238 239 rfl rfl (by decide),
    hword 239 240 241 rfl rfl (by decide), hbyte 241 242 rfl (by decide),
    hword 242 243 244 rfl rfl (by decide), harray 32 244 276 rfl (by decide), hlenBytes,
    hbyte 280 281 rfl (by decide), ← hreserved, hbyte 281 282 rfl (by decide)]

/-- The codec is a bijection between the envelopes that `encode` accepts and the byte strings that
`decode` accepts. -/
theorem codec_bijective :
    (∀ (envelope : ReasoningDeltaEnvelope) bytes, envelope.encode = .ok bytes →
      decode bytes = .ok envelope) ∧
    ∀ bytes (envelope : ReasoningDeltaEnvelope), decode bytes = .ok envelope →
      envelope.encode = .ok bytes := by
  constructor
  · intro envelope bytes h
    have hencoded := encode_eq_ok_iff.mp h
    rw [hencoded.2]
    exact decode_wire hencoded.1
  · intro bytes envelope h
    exact encode_eq_ok_iff.mpr (wire_of_decode h)

end ReasoningDeltaEnvelope

end LatentMesh.Reasoning
