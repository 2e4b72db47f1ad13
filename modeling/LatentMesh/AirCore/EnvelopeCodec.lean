import LatentMesh.AirCore.Envelope
import LatentMesh.Lib.Sections

/-!
# The envelope codec and the signed material

`SemanticEnvelope.decode` inverts `SemanticEnvelope.encode` in both directions, and the signed
material determines every field but the signature: see `SemanticEnvelope.codec_and_signed_material`.
-/

namespace LatentMesh.AirCore

open LatentMesh.Lib

namespace SemanticEnvelope

/-! ## Sections of a byte string -/

/-- An array that is read from the input is a section of it. -/
theorem array_at_to_list {n start : Nat} {input : List UInt8} (h : start + n ≤ input.length) :
    (arrayAt n start input).toList = (input.take (start + n)).drop start := by
  apply List.ext_getElem
  · simp
    omega
  · intro i hi hi'
    simp only [Vector.length_toList] at hi
    simp [arrayAt, List.getD_eq_getElem?_getD, show start + i < input.length by omega]

/-! ## Encoding -/

variable {self other : SemanticEnvelope}

/-- The bytes that follow the body. -/
def signatureBytes (self : SemanticEnvelope) : List UInt8 :=
  match self.signature with
  | some signature => signature.toList
  | none => []

/-- The signature is as long as the header says. -/
theorem signature_bytes_length (self : SemanticEnvelope) :
    self.signatureBytes.length = self.signatureLen := by
  rw [signatureBytes, signatureLen]
  cases self.signature with
  | none => rfl
  | some signature => simp [envelopeSignatureBytes]

/-- The header has a fixed length. -/
theorem header_length (self : SemanticEnvelope) : self.header.length = envelopeHeaderBytes := by
  simp [header, envelopeMagic, envelopeHeaderBytes]

/-- The conditions that `validate` checks. -/
structure Valid (envelope : SemanticEnvelope) : Prop where
  priority : envelope.priority ≤ 15
  body : envelope.body.length ≤ 65535
  total : envelope.encodedLen ≤ maxMessageBytes

/-- The envelopes that `validate` accepts. -/
theorem validate_eq_ok_iff {u : Unit} : self.validate = .ok u ↔ self.Valid := by
  simp only [validate, Lib.guard_eq_ok_iff, not_or, UInt8.not_lt, Nat.not_lt, and_true]
  exact ⟨fun ⟨h1, h2, h3⟩ => ⟨h1, h2, h3⟩, fun h => ⟨h.priority, h.body, h.total⟩⟩

/-- A valid envelope, and no other, is encoded as its sections. -/
theorem encode_eq_ok_iff {bytes : List UInt8} :
    self.encode = .ok bytes ↔
      self.Valid ∧ bytes = self.header ++ self.body ++ self.signatureBytes := by
  rw [encode, Lib.bind_eq_ok_iff]
  simp only [validate_eq_ok_iff, exists_const, Except.ok.injEq, eq_comm (b := bytes)]
  rfl

/-! ## Decoding what was encoded -/

/-- The bytes of an envelope. -/
def wire (self : SemanticEnvelope) : List UInt8 :=
  self.header ++ self.body ++ self.signatureBytes

/-- The wire has the length that `encoded_len` says. -/
theorem wire_length (self : SemanticEnvelope) : self.wire.length = self.encodedLen := by
  rw [wire, List.length_append, List.length_append, header_length, signature_bytes_length,
    encodedLen]

/-- The wire of a valid envelope is decoded to it. -/
theorem decode_wire (h : self.Valid) : decode self.wire = .ok self := by
  have hlength := wire_length self
  have htotal := h.total
  have hbody : (UInt16.ofNat self.body.length).toNat = self.body.length :=
    UInt16.toNat_ofNat_of_lt' (Nat.lt_succ_of_le h.body)
  have hheader : envelopeHeaderBytes = 48 := rfl
  have hlen : self.encodedLen = envelopeHeaderBytes + self.body.length + self.signatureLen := rfl
  have hpriority : self.wire.getD 7 0 = self.priority := by simp [wire, header, envelopeMagic]
  have hclass : self.wire.getD 6 0 = self.semanticClass.toU8 := by
    simp [wire, header, envelopeMagic]
  have hflag : self.wire.getD 5 0 = if self.signature.isSome then 1 else 0 := by
    simp [wire, header, envelopeMagic]
  have hmagic : self.wire.take 4 = envelopeMagic := rfl
  have hversion : self.wire.getD 4 0 = envelopeVersion := rfl
  have hsource : (self.wire.take 12).drop 8 = u32Be self.sourceId := rfl
  have hepoch : (self.wire.take 16).drop 12 = u32Be self.epoch := rfl
  have hmessage : (self.wire.take 20).drop 16 = u32Be self.messageId := rfl
  have hlogical : (self.wire.take 28).drop 20 = u64Be self.logicalSequence := rfl
  have hbodyLen : [self.wire.getD 28 0, self.wire.getD 29 0] =
      u16Be (UInt16.ofNat self.body.length) := by
    rw [pair_eq_section (by omega)]
    rfl
  have hhash : arrayAt 16 30 self.wire = self.stateHash := by
    apply Vector.toList_inj.mp
    rw [array_at_to_list (by omega)]
    change (self.stateHash.toList ++ [UInt8.ofNat self.signatureLen, 0] ++ self.body ++
      self.signatureBytes).take 16 = self.stateHash.toList
    simp
  have hsignatureLen : self.wire.getD 46 0 = UInt8.ofNat self.signatureLen := by
    simp [wire, header, envelopeMagic, List.getD_eq_getElem?_getD, List.getElem?_append]
  have hreserved : self.wire.getD 47 0 = 0 := by
    simp [wire, header, envelopeMagic, List.getD_eq_getElem?_getD, List.getElem?_append]
  have hbodySection : (self.wire.take (envelopeHeaderBytes + self.body.length)).drop
      envelopeHeaderBytes = self.body := by
    rw [wire, List.append_assoc]
    exact section_append _ (header_length self) rfl
  have hsignatureCast : (UInt8.ofNat self.signatureLen).toNat = self.signatureLen := by
    rw [signatureLen, envelopeSignatureBytes]
    split <;> rfl
  have hauthenticated : authenticatedFlag (self.wire.getD 5 0) = .ok self.signature.isSome := by
    rw [hflag]
    cases self.signature <;> rfl
  have hsemanticClass : SemanticClass.tryFrom (self.wire.getD 6 0) = .ok self.semanticClass :=
    SemanticClass.try_from_eq_ok_iff.mpr hclass.symm
  have hagree : ¬ ((self.signature.isSome = true ∧ self.signatureLen ≠ envelopeSignatureBytes) ∨
      (¬ self.signature.isSome = true ∧ self.signatureLen ≠ 0)) := by
    rw [signatureLen]
    cases self.signature <;> simp
  have hsignature : (if self.signature.isSome then
      some (arrayAt 64 (envelopeHeaderBytes + self.body.length) self.wire) else none) =
        self.signature := by
    cases hsome : self.signature with
    | none => rfl
    | some signature =>
        have hsigned : self.signatureLen = 64 := by rw [signatureLen, hsome]; rfl
        have hwhole : self.wire.take (envelopeHeaderBytes + self.body.length + 64) = self.wire :=
          List.take_of_length_le (by omega)
        have hfront : (self.header ++ self.body).length =
            envelopeHeaderBytes + self.body.length := by
          rw [List.length_append, header_length]
        rw [Option.isSome_some, if_pos rfl, Option.some.injEq]
        apply Vector.toList_inj.mp
        rw [array_at_to_list (by omega), hwhole, wire, List.drop_left' hfront, signatureBytes,
          hsome]
  dsimp only [decode]
  rw [if_neg (by omega), if_neg (by omega), if_neg (not_not.mpr hmagic),
    if_neg (not_not.mpr hversion), hauthenticated, hsemanticClass]
  dsimp only [Except.bind]
  rw [hpriority, hreserved, if_neg (not_or.mpr ⟨UInt8.not_lt.mpr h.priority, not_not.mpr rfl⟩),
    hsignatureLen, hsignatureCast, if_neg hagree, hbodyLen, u16_of_be_u16_be, hbody, hlength, hlen,
    if_neg (not_not.mpr rfl), hsource, hepoch, hmessage, hlogical, hhash, hbodySection, hsignature,
    u32_of_be_u32_be, u32_of_be_u32_be, u32_of_be_u32_be, u64_of_be_u64_be]
  rw [validate_eq_ok_iff (u := ()) |>.mpr h]

/-! ## Encoding what was decoded -/

/-- The flag byte is zero or one. -/
theorem authenticated_flag_eq_ok_iff {byte : UInt8} {authenticated : Bool} :
    authenticatedFlag byte = .ok authenticated ↔ byte = if authenticated then 1 else 0 := by
  rw [authenticatedFlag]
  by_cases hzero : byte = 0
  · subst hzero
    cases authenticated <;> simp
  · by_cases hone : byte = 1
    · subst hone
      cases authenticated <;> simp
    · cases authenticated <;> simp [hzero, hone]

/-- The header bytes, section by section. -/
theorem take_header_eq {input : List UInt8} (h : 48 ≤ input.length) :
    input.take 48 = input.take 4 ++ [input.getD 4 0, input.getD 5 0, input.getD 6 0,
      input.getD 7 0] ++ (input.take 12).drop 8 ++ (input.take 16).drop 12 ++
      (input.take 20).drop 16 ++ (input.take 28).drop 20 ++ [input.getD 28 0, input.getD 29 0] ++
      (input.take 46).drop 30 ++ [input.getD 46 0, input.getD 47 0] := by
  conv_lhs =>
    rw [take_pair (show 46 + 2 ≤ input.length by omega),
      take_eq_append_section input (show 30 ≤ 46 by decide),
      take_pair (show 28 + 2 ≤ input.length by omega),
      take_eq_append_section input (show 20 ≤ 28 by decide),
      take_eq_append_section input (show 16 ≤ 20 by decide),
      take_eq_append_section input (show 12 ≤ 16 by decide),
      take_eq_append_section input (show 8 ≤ 12 by decide),
      take_pair (show 6 + 2 ≤ input.length by omega),
      take_pair (show 4 + 2 ≤ input.length by omega)]
  simp only [List.append_assoc, List.cons_append, List.nil_append]

/-- `decode` accepts only the bytes of the envelope that it returns. -/
theorem wire_of_decode {input : List UInt8} (h : decode input = .ok self) :
    self.Valid ∧ input = self.wire := by
  dsimp only [decode] at h
  rw [Lib.guard_eq_ok_iff, Lib.guard_eq_ok_iff, Lib.guard_eq_ok_iff,
    Lib.guard_eq_ok_iff, Lib.bind_eq_ok_iff] at h
  obtain ⟨hlength, -, hmagic, hversion, authenticated, hauthenticated, h⟩ := h
  rw [Lib.bind_eq_ok_iff] at h
  obtain ⟨semanticClass, hclass, h⟩ := h
  rw [Lib.guard_eq_ok_iff, Lib.guard_eq_ok_iff, Lib.guard_eq_ok_iff,
    Lib.bind_eq_ok_iff] at h
  obtain ⟨hreserved, hagree, hexpected, u, hvalidate, h⟩ := h
  have hvalid := validate_eq_ok_iff.mp hvalidate
  obtain rfl := Except.ok.inj h
  refine ⟨hvalid, ?_⟩
  rw [not_or, not_not] at hreserved
  rw [not_not] at hmagic hversion hexpected
  have hheader : envelopeHeaderBytes = 48 := rfl
  generalize hbodyLen : (u16OfBe [input.getD 28 0, input.getD 29 0]).toNat = bodyLen at *
  have hflag := authenticated_flag_eq_ok_iff.mp hauthenticated
  have hclassByte := SemanticClass.try_from_eq_ok_iff.mp hclass
  have hbody : ((input.take (envelopeHeaderBytes + bodyLen)).drop envelopeHeaderBytes).length =
      bodyLen := by
    rw [section_length (by omega)]
    omega
  have hbodyBytes : u16Be (UInt16.ofNat bodyLen) = [input.getD 28 0, input.getD 29 0] := by
    rw [← hbodyLen, UInt16.ofNat_toNat, u16_be_u16_of_be rfl]
  have hsource := u32_be_u32_of_be (@section_length _ input 8 12 (by omega))
  have hepoch := u32_be_u32_of_be (@section_length _ input 12 16 (by omega))
  have hmessage := u32_be_u32_of_be (@section_length _ input 16 20 (by omega))
  have hlogical := u64_be_u64_of_be (@section_length _ input 20 28 (by omega))
  have hhash := array_at_to_list (show 30 + 16 ≤ input.length by omega)
  have hsplit : input = input.take 48 ++ (input.take (48 + bodyLen)).drop 48 ++
      input.drop (48 + bodyLen) := by
    rw [← take_eq_append_section input (Nat.le_add_right 48 bodyLen), List.take_append_drop]
  conv_lhs => rw [hsplit, take_header_eq (by omega)]
  rw [wire, header, signatureBytes]
  cases authenticated with
  | false =>
      have hsignatureLen : (input.getD 46 0).toNat = 0 := by simpa using hagree
      have hbyte : input.getD 46 0 = 0 := UInt8.toNat_inj.mp hsignatureLen
      have hend : input.drop (48 + bodyLen) = [] := List.drop_eq_nil_of_le (by omega)
      simp only [hend, hbyte, hflag, hversion, hclassByte, hmagic, hreserved.2, hsource, hepoch,
        hmessage, hlogical, hhash, hbody, hbodyBytes]
      simp [signatureLen, hheader]
  | true =>
      have hsignatureLen : (input.getD 46 0).toNat = envelopeSignatureBytes := by simpa using hagree
      have hbyte : input.getD 46 0 = UInt8.ofNat envelopeSignatureBytes := by
        rw [← hsignatureLen, UInt8.ofNat_toNat]
      have hend : input.drop (48 + bodyLen) =
          (arrayAt 64 (envelopeHeaderBytes + bodyLen) input).toList := by
        rw [envelopeSignatureBytes] at hsignatureLen
        rw [array_at_to_list (by omega), List.take_of_length_le (by omega), hheader]
      simp only [hend, hbyte, hflag, hversion, hclassByte, hmagic, hreserved.2, hsource, hepoch,
        hmessage, hlogical, hhash, hbody, hbodyBytes]
      simp [signatureLen, hheader]

/-! ## The signed material -/

/-- Two envelopes agree on every field except the signature bytes. -/
structure SameSigned (envelope other : SemanticEnvelope) : Prop where
  semanticClass : envelope.semanticClass = other.semanticClass
  priority : envelope.priority = other.priority
  sourceId : envelope.sourceId = other.sourceId
  epoch : envelope.epoch = other.epoch
  messageId : envelope.messageId = other.messageId
  logicalSequence : envelope.logicalSequence = other.logicalSequence
  stateHash : envelope.stateHash = other.stateHash
  body : envelope.body = other.body
  signature : envelope.signature.isSome = other.signature.isSome

/-- Envelopes sign the same when they differ in the bytes of the signature at most. -/
theorem same_signed_iff : SameSigned self other ↔
    self.signature.isSome = other.signature.isSome ∧
      { self with signature := other.signature } = other := by
  constructor
  · intro h
    refine ⟨h.signature, ?_⟩
    obtain ⟨semanticClass, priority, sourceId, epoch, messageId, logicalSequence, stateHash, body,
      signature⟩ := self
    obtain ⟨rfl, rfl, rfl, rfl, rfl, rfl, rfl, rfl, _⟩ := h
    rfl
  · rintro ⟨hsigned, hfields⟩
    obtain ⟨semanticClass, priority, sourceId, epoch, messageId, logicalSequence, stateHash, body,
      signature⟩ := other
    cases hfields
    exact ⟨rfl, rfl, rfl, rfl, rfl, rfl, rfl, rfl, hsigned⟩

/-- A valid envelope with a signature, and no other, has signed bytes: its header and body. -/
theorem authentication_bytes_eq_ok_iff {bytes : List UInt8} :
    self.authenticationBytes = .ok bytes ↔
      self.signature.isSome = true ∧ self.Valid ∧ bytes = self.header ++ self.body := by
  rw [authenticationBytes, Lib.guard_eq_ok_iff, Lib.bind_eq_ok_iff]
  simp only [encode_eq_ok_iff, Option.isNone_iff_eq_none, Option.isSome_iff_ne_none,
    Except.ok.injEq]
  refine and_congr_right fun hsigned => ?_
  have hfront (h : self.signature ≠ none) : (self.header ++ self.body ++ self.signatureBytes).take
      ((self.header ++ self.body ++ self.signatureBytes).length - envelopeSignatureBytes) =
        self.header ++ self.body := by
    have hlength : self.signatureBytes.length = envelopeSignatureBytes := by
      rw [signature_bytes_length, signatureLen, if_pos (Option.isSome_iff_ne_none.mpr h)]
    rw [List.length_append, hlength, Nat.add_sub_cancel, List.take_left]
  constructor
  · rintro ⟨encoded, ⟨hvalid, rfl⟩, rfl⟩
    exact ⟨hvalid, hfront hsigned⟩
  · rintro ⟨hvalid, rfl⟩
    exact ⟨_, ⟨hvalid, rfl⟩, hfront hsigned⟩

/-- Two signed envelopes with the same header and body agree on every field but the signature: under
one signature they would have the same bytes, and `decode` reads only one envelope from them. -/
theorem same_signed_of_material (hself : self.Valid) (hother : other.Valid)
    (hsigned : self.signature.isSome = true) (hsigned' : other.signature.isSome = true)
    (h : self.header ++ self.body = other.header ++ other.body) : SameSigned self other := by
  have hsame : self.signature.isSome = other.signature.isSome := by rw [hsigned, hsigned']
  have hheader : ({ self with signature := other.signature } : SemanticEnvelope).header =
      self.header := by
    simp only [header, signatureLen, hsame]
  have hvalid : ({ self with signature := other.signature } : SemanticEnvelope).Valid := by
    refine ⟨hself.priority, hself.body, ?_⟩
    have htotal := hself.total
    simp only [encodedLen, signatureLen, hsame] at htotal ⊢
    exact htotal
  have hwire : ({ self with signature := other.signature } : SemanticEnvelope).wire =
      other.wire := by
    rw [wire, hheader, wire]
    exact congrArg (· ++ other.signatureBytes) h
  have hdecode := decode_wire hvalid
  rw [hwire, decode_wire hother] at hdecode
  exact same_signed_iff.mpr ⟨hsame, (Except.ok.inj hdecode).symm⟩

/-- The signature bytes do not change the header, nor whether an envelope is valid. -/
theorem SameSigned.material_eq (h : SameSigned self other) :
    other.header = self.header ∧ other.body = self.body ∧ (self.Valid → other.Valid) := by
  have hlen : self.signatureLen = other.signatureLen := by
    rw [signatureLen, signatureLen, h.signature]
  refine ⟨?_, h.body.symm, fun hvalid => ⟨?_, ?_, ?_⟩⟩
  · rw [header, header, h.semanticClass, h.priority, h.sourceId, h.epoch, h.messageId,
      h.logicalSequence, h.stateHash, h.body, h.signature, hlen]
  · exact h.priority ▸ hvalid.priority
  · exact h.body ▸ hvalid.body
  · have htotal := hvalid.total
    rwa [encodedLen, h.body, hlen] at htotal

/-- The envelope codec is a bijection between the valid envelopes and the accepted byte strings, and
two envelopes have the same signed material exactly when they agree on every field except the
signature bytes. -/
theorem codec_and_signed_material :
    (∀ envelope : SemanticEnvelope, envelope.validate = .ok () →
      ∃ bytes, envelope.encode = .ok bytes ∧ decode bytes = .ok envelope) ∧
    (∀ bytes envelope, decode bytes = .ok envelope → envelope.encode = .ok bytes) ∧
    ∀ (envelope other : SemanticEnvelope) bytes, envelope.authenticationBytes = .ok bytes →
      (other.authenticationBytes = .ok bytes ↔ SameSigned envelope other) := by
  refine ⟨fun envelope h => ?_, fun bytes envelope h => ?_, fun envelope other bytes h => ?_⟩
  · have hvalid := validate_eq_ok_iff.mp h
    exact ⟨_, encode_eq_ok_iff.mpr ⟨hvalid, rfl⟩, decode_wire hvalid⟩
  · exact encode_eq_ok_iff.mpr (wire_of_decode h)
  · obtain ⟨hsigned, hvalid, rfl⟩ := authentication_bytes_eq_ok_iff.mp h
    rw [authentication_bytes_eq_ok_iff]
    constructor
    · rintro ⟨hsigned', hvalid', hbytes⟩
      exact same_signed_of_material hvalid hvalid' hsigned hsigned' hbytes
    · intro hsame
      obtain ⟨hheader, hbody, hvalid'⟩ := hsame.material_eq
      exact ⟨hsame.signature ▸ hsigned, hvalid' hvalid, by rw [hheader, hbody]⟩

/-- An empty diagnostic envelope with a zero signature. -/
def sample : SemanticEnvelope :=
  { semanticClass := .diagnostic, priority := 3, sourceId := 1, epoch := 2, messageId := 3
    logicalSequence := 4, stateHash := Vector.replicate 16 0, body := []
    signature := some (Vector.replicate 64 0) }

/-- The theorem at a signed envelope. -/
theorem codec_and_signed_material_sample :
    (∃ bytes, sample.encode = .ok bytes ∧ decode bytes = .ok sample) ∧
      sample.encode = .ok sample.wire ∧
      (sample.authenticationBytes = .ok (sample.header ++ sample.body) ↔
        SameSigned sample sample) :=
  have hvalidate : sample.validate = .ok () := by decide
  ⟨codec_and_signed_material.1 sample hvalidate,
    codec_and_signed_material.2.1 _ _ (decode_wire (validate_eq_ok_iff.mp hvalidate)),
    codec_and_signed_material.2.2 sample sample _
      (authentication_bytes_eq_ok_iff.mpr ⟨rfl, validate_eq_ok_iff.mp hvalidate, rfl⟩)⟩

end SemanticEnvelope

end LatentMesh.AirCore
