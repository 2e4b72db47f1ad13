import LatentMesh.AirC.FrameAgreement
import LatentMesh.AirC.Rx
import LatentMesh.AirC.Tx

/-!
# The C semantic envelope

The envelope of a message is its header, its body and its signature (`envelopeBytes`).
`lm_air_tx_begin` writes it to the start of the envelope buffer (`write_envelope_ok`), and
`deliver_slot` reads the message back from it (`slot_message_envelope`).
-/

namespace LatentMesh.AirC

open LatentMesh.Lib LatentMesh.AirCore

/-! ## Big-endian fields -/

/-- Two bytes that were written are read back. -/
theorem get_put_u16_be (value : UInt16) (rest : List UInt8) :
    getU16Be (putU16Be value ++ rest) = value := by
  have hbytes : getU16Be (putU16Be value ++ rest) = u16OfBe (putU16Be value) :=
    get_u16_be_eq _ _ rest
  rw [hbytes, put_u16_be_eq, u16_of_be_u16_be]

/-- Four bytes that were written are read back. -/
theorem get_put_u32_be (value : UInt32) (rest : List UInt8) :
    getU32Be (putU32Be value ++ rest) = value := by
  have hbytes : getU32Be (putU32Be value ++ rest) = getU32Be (putU32Be value) := rfl
  rw [hbytes, get_u32_be_eq rfl, put_u32_be_eq, u32_of_be_u32_be]

/-- `get_u16_be` reads two bytes. -/
theorem get_u16_be_append {bytes : List UInt8} (h : 2 ≤ bytes.length) (rest : List UInt8) :
    getU16Be (bytes ++ rest) = getU16Be bytes := by
  rw [getU16Be, getU16Be, List.getD_append _ _ _ _ (by omega), List.getD_append _ _ _ _ (by omega)]

/-- The bytes that `put_u64_be` writes. -/
theorem put_u64_be_get (value : UInt64) {i : Nat} (h : i < 8) (rest : List UInt8) :
    (putU64Be value ++ rest).getD i 0 = (value >>> UInt64.ofNat (56 - i * 8)).toUInt8 := by
  rw [List.getD_eq_getElem?_getD, List.getElem?_append_left (by simpa [putU64Be] using h)]
  simp [putU64Be, h]

/-- One more byte of a big-endian number. -/
theorem div_pow_succ_byte (value shift : Nat) :
    value / 2 ^ (shift + 8) * 2 ^ 8 + value / 2 ^ shift % 2 ^ 8 = value / 2 ^ shift := by
  rw [Nat.pow_add, ← Nat.div_div_eq_div_mul]
  exact Nat.div_add_mod' _ _

/-- Eight bytes that were written are read back. -/
theorem get_put_u64_be (value : UInt64) (rest : List UInt8) :
    getU64Be (putU64Be value ++ rest) = value := by
  have hsteps : ∀ n ≤ 8, ((List.range n).foldl (fun (acc : UInt64) i =>
      (acc <<< 8) ||| ((putU64Be value ++ rest).getD i 0).toUInt64) (0 : UInt64)).toNat =
        value.toNat / 2 ^ (64 - 8 * n) := by
    intro n hn
    induction n with
    | zero => exact (Nat.div_eq_of_lt value.toNat_lt).symm
    | succ n ih =>
        have hshift : (UInt64.ofNat (56 - n * 8)).toNat % 64 = 56 - n * 8 := by
          rw [UInt64.toNat_ofNat']
          omega
        have hsum := div_pow_succ_byte value.toNat (64 - 8 * (n + 1))
        rw [show 64 - 8 * (n + 1) + 8 = 64 - 8 * n by omega] at hsum
        have hlt := value.toNat_lt
        rw [List.range_succ, List.foldl_append, List.foldl_cons, List.foldl_nil,
          put_u64_be_get value (by omega), UInt64.toNat_or, UInt64.toNat_shiftLeft, ih (by omega)]
        have hle : value.toNat / 2 ^ (64 - 8 * (n + 1)) ≤ value.toNat := Nat.div_le_self _ _
        have hbyte : (value >>> UInt64.ofNat (56 - n * 8)).toUInt8.toUInt64.toNat =
            value.toNat / 2 ^ (64 - 8 * (n + 1)) % 2 ^ 8 := by
          rw [UInt8.toNat_toUInt64, UInt64.toNat_toUInt8, UInt64.toNat_shiftRight, hshift,
            Nat.shiftRight_eq_div_pow, show 56 - n * 8 = 64 - 8 * (n + 1) by omega]
        have hhigh : (value.toNat / 2 ^ (64 - 8 * n)) <<< (UInt64.toNat 8 % 64) % 2 ^ 64 =
            value.toNat / 2 ^ (64 - 8 * n) * 2 ^ 8 := by
          rw [show UInt64.toNat 8 % 64 = 8 from rfl, Nat.shiftLeft_eq]
          exact Nat.mod_eq_of_lt (by omega)
        rw [hhigh, hbyte, shift_or_eq_add _ _ _ (Nat.mod_lt _ (by decide)), hsum]
  exact UInt64.toNat_inj.mp ((hsteps 8 le_rfl).trans (Nat.div_one _))
/-! ## The envelope of a message -/

/-- The bytes of a message that are signed. -/
def canonicalBytes (message : LmAirMessage) : List UInt8 :=
  semanticHeader message (signatureLen message) ++ message.body

/-- The envelope of a message with a signature. -/
def envelopeBytes (message : LmAirMessage) (signature : List UInt8) : List UInt8 :=
  canonicalBytes message ++ signature

/-- The signatures that `lm_air_tx_begin` may put into the envelope of a message. -/
inductive Signs (sign : Option LmAirSign) (message : LmAirMessage) : List UInt8 → Prop where
  | unsigned (hplain : message.authenticated = 0) : Signs sign message []
  | signed {hook : LmAirSign} {signature : Vector UInt8 lmAirSignatureBytes}
      (hflag : message.authenticated ≠ 0) (hsign : sign = some hook)
      (hanswer : hook (canonicalBytes message) = (0, signature)) :
      Signs sign message signature.toList

/-- The header has a fixed length. -/
@[simp] theorem semantic_header_length (message : LmAirMessage) (count : UInt8) :
    (semanticHeader message count).length = lmAirSemanticHeaderBytes := by
  simp [semanticHeader, putU16Be, putU32Be, putU64Be, lmAirSemanticHeaderBytes]

/-- The length of the signed bytes. -/
theorem canonical_bytes_length (message : LmAirMessage) :
    (canonicalBytes message).length = canonicalLen message := by
  rw [canonicalBytes, List.length_append, semantic_header_length, canonicalLen]

/-- An unsigned message has no signature. -/
theorem signature_len_plain {message : LmAirMessage} (h : message.authenticated = 0) :
    signatureLen message = 0 := if_neg (not_not.mpr h)

/-- A signed message has a signature of 64 bytes. -/
theorem signature_len_signed {message : LmAirMessage} (h : message.authenticated ≠ 0) :
    signatureLen message = 64 := if_pos h

/-- The signature length says whether a message is signed. -/
theorem signature_len_present (message : LmAirMessage) :
    (signatureLen message).toNat ≠ 0 ↔ message.authenticated ≠ 0 := by
  by_cases hflag : message.authenticated = 0
  · rw [signature_len_plain hflag]
    exact ⟨fun h => absurd rfl h, fun h => absurd hflag h⟩
  · rw [signature_len_signed hflag]
    exact ⟨fun _ => hflag, fun _ => by decide⟩

/-- The signature length of a signed message, and of no other, is 64. -/
theorem signature_len_whole (message : LmAirMessage) :
    (signatureLen message).toNat = lmAirSignatureBytes ↔ message.authenticated ≠ 0 := by
  by_cases hflag : message.authenticated = 0
  · rw [signature_len_plain hflag]
    exact ⟨fun h => absurd h (by decide), fun h => absurd hflag h⟩
  · rw [signature_len_signed hflag]
    exact ⟨fun _ => hflag, fun _ => rfl⟩

/-- The bit of the header that says whether a message is signed. -/
theorem auth_bit_iff (message : LmAirMessage) :
    (if message.authenticated ≠ 0 then lmAirSemanticFlagAuth else 0) &&& lmAirSemanticFlagAuth ≠ 0 ↔
      message.authenticated ≠ 0 := by
  by_cases hflag : message.authenticated = 0
  · rw [if_neg (not_not.mpr hflag)]
    exact ⟨fun h => absurd rfl h, fun h => absurd hflag h⟩
  · rw [if_pos hflag]
    exact ⟨fun _ => hflag, fun _ => by decide⟩

/-- A signature has the length that the header says. -/
theorem Signs.length {sign : Option LmAirSign} {message : LmAirMessage} {signature : List UInt8}
    (h : Signs sign message signature) : signature.length = (signatureLen message).toNat := by
  cases h with
  | unsigned hplain => rw [signature_len_plain hplain]; rfl
  | signed hflag hsign hanswer => rw [signature_len_signed hflag, Vector.length_toList]; rfl

/-! ## Writing the envelope -/

/-- The signed bytes are read back from where they were written. -/
theorem write_canonical_read {message : LmAirMessage} {envelope : List UInt8}
    (h : canonicalLen message ≤ envelope.length) :
    readAt (writeAt envelope 0 (canonicalBytes message)) 0 (canonicalLen message) =
      canonicalBytes message := by
  have hlength := canonical_bytes_length message
  rw [← hlength]
  exact read_at_write_at (by omega)

/-- An envelope that is written without an error starts with the envelope of the message. -/
theorem write_envelope_ok {sign : Option LmAirSign} {message : LmAirMessage}
    {envelope : List UInt8} (hhook : ¬ (message.authenticated ≠ 0 ∧ sign = none))
    (hroom : canonicalLen message + (signatureLen message).toNat ≤ envelope.length)
    (hresult : (writeEnvelope sign message envelope).1 = 0) :
    ∃ signature, Signs sign message signature ∧
      readAt (writeEnvelope sign message envelope).2 0
        (canonicalLen message + (signatureLen message).toNat) =
          envelopeBytes message signature := by
  have hcanonical := write_canonical_read (Nat.le_trans (Nat.le_add_right _ _) hroom)
  unfold writeEnvelope signEnvelope at hresult ⊢
  rw [← canonicalBytes] at hresult ⊢
  by_cases hflag : message.authenticated = 0
  · have hzero := signature_len_plain hflag
    refine ⟨[], .unsigned hflag, ?_⟩
    rw [envelopeBytes, List.append_nil, hzero]
    cases sign with
    | none => exact hcanonical
    | some hook => exact hcanonical
  · have hsigned := signature_len_signed hflag
    cases hhooked : sign with
    | none => exact absurd ⟨hflag, hhooked⟩ hhook
    | some hook =>
        rw [hsigned] at hroom
        have hroom' : canonicalLen message + 64 ≤ envelope.length := hroom
        simp only [hhooked, hsigned] at hresult ⊢
        rw [if_pos (by decide)] at hresult ⊢
        rw [hcanonical] at hresult ⊢
        cases hanswer : hook (canonicalBytes message) with
        | mk result signature =>
            rw [hanswer] at hresult
            obtain rfl : result = 0 := hresult
            have hsize : signature.toList.length = 64 := Vector.length_toList
            refine ⟨_, .signed hflag rfl hanswer, ?_⟩
            have hwritten : readAt (writeAt (writeAt envelope 0 (canonicalBytes message))
                (canonicalLen message) signature.toList) (canonicalLen message) 64 =
                  signature.toList := by
              rw [← hsize]
              exact read_at_write_at (by rw [write_at_length, hsize]; exact hroom')
            rw [read_at_append, Nat.zero_add, show (64 : UInt8).toNat = 64 from rfl, hwritten,
              read_at_write_at_beside (by rw [write_at_length, hsize]; exact hroom')
                (Or.inl (by omega)), hcanonical, envelopeBytes]

/-! ## Reading the envelope -/

/-- The fields that `deliver_slot` reads from the header of a message. -/
structure ReadsHeader (bytes : List UInt8) (message : LmAirMessage) (count : UInt8) : Prop where
  magic : bytes.getD 0 0 = 0x4c ∧ bytes.getD 1 0 = 0x4d ∧ bytes.getD 2 0 = 0x53 ∧
    bytes.getD 3 0 = 0x31
  version : bytes.getD 4 0 = lmAirVersion
  flags : bytes.getD 5 0 = if message.authenticated ≠ 0 then lmAirSemanticFlagAuth else 0
  classId : bytes.getD 6 0 = message.classId
  priority : bytes.getD 7 0 = message.priority
  sourceId : getU32Be (bytes.drop 8) = message.sourceId
  epoch : getU32Be (bytes.drop 12) = message.epoch
  messageId : getU32Be (bytes.drop 16) = message.messageId
  logicalSequence : getU64Be (bytes.drop 20) = message.logicalSequence
  bodyLen : getU16Be (bytes.drop 28) = message.bodyLen
  stateHash : ∀ i : Fin 16, bytes.getD (30 + i) 0 = message.stateHash[i]
  stateTag : getU16Be (bytes.drop 30) = getU16Be message.stateHash.toList
  signatureLen : bytes.getD 46 0 = count
  reserved : bytes.getD 47 0 = 0

/-- The bytes of a header, one after the other. -/
theorem semantic_header_sections (message : LmAirMessage) (count : UInt8) (rest : List UInt8) :
    semanticHeader message count ++ rest =
      [0x4c, 0x4d, 0x53, 0x31, lmAirVersion,
        if message.authenticated ≠ 0 then lmAirSemanticFlagAuth else 0, message.classId,
        message.priority] ++ (putU32Be message.sourceId ++ (putU32Be message.epoch ++
      (putU32Be message.messageId ++ (putU64Be message.logicalSequence ++
      (putU16Be message.bodyLen ++ (message.stateHash.toList ++ (count :: 0 :: rest))))))) := by
  simp only [semanticHeader, List.append_assoc, List.cons_append, List.nil_append]

/-- What follows a section of the bytes. -/
theorem drop_section {bytes piece rest : List UInt8} {start stop : Nat}
    (h : bytes.drop start = piece ++ rest) (hstop : start + piece.length = stop) :
    bytes.drop stop = rest := by
  rw [← hstop, ← List.drop_drop, h, List.drop_left]

/-- A header is read back as it was written. -/
theorem semantic_header_read (message : LmAirMessage) (count : UInt8) (rest : List UInt8) :
    ReadsHeader (semanticHeader message count ++ rest) message count := by
  have hsections := semantic_header_sections message count rest
  generalize semanticHeader message count ++ rest = bytes at hsections ⊢
  have hhash : message.stateHash.toList.length = 16 := Vector.length_toList
  have h8 : bytes.drop 8 = _ := drop_section (show bytes.drop 0 = _ from hsections) rfl
  have h12 : bytes.drop 12 = _ := drop_section h8 rfl
  have h16 : bytes.drop 16 = _ := drop_section h12 rfl
  have h20 : bytes.drop 20 = _ := drop_section h16 rfl
  have h28 : bytes.drop 28 = _ := drop_section h20 rfl
  have h30 : bytes.drop 30 = _ := drop_section h28 rfl
  have h46 : bytes.drop 46 = _ := drop_section h30 (by rw [hhash])
  have hget : ∀ start i : Nat, bytes.getD (start + i) 0 = (bytes.drop start).getD i 0 := by
    intro start i
    rw [List.getD_eq_getElem?_getD, List.getD_eq_getElem?_getD, List.getElem?_drop]
  refine ⟨?_, ?_, ?_, ?_, ?_, ?_, ?_, ?_, ?_, ?_, fun i => ?_, ?_, ?_, ?_⟩
  · rw [hsections]
    exact ⟨rfl, rfl, rfl, rfl⟩
  · rw [hsections]
    rfl
  · rw [hsections]
    rfl
  · rw [hsections]
    rfl
  · rw [hsections]
    rfl
  · rw [h8, get_put_u32_be]
  · rw [h12, get_put_u32_be]
  · rw [h16, get_put_u32_be]
  · rw [h20, get_put_u64_be]
  · rw [h28, get_put_u16_be]
  · rw [hget, h30, List.getD_eq_getElem?_getD,
      List.getElem?_append_left (by rw [hhash]; exact i.isLt)]
    simp
  · rw [h30, get_u16_be_append (by omega)]
  · rw [show 46 = 46 + 0 from rfl, hget, h46]
    rfl
  · rw [show 47 = 46 + 1 from rfl, hget, h46]
    rfl

/-- What the receiver passes on of a message: it says zero or one for the authenticated flag. -/
def LmAirMessage.delivered (message : LmAirMessage) : LmAirMessage :=
  { message with authenticated := if message.authenticated ≠ 0 then 1 else 0 }

/-- A receiver does not accept the signature of a message. -/
def LmAirRxCallbacks.refuses (callbacks : LmAirRxCallbacks) (message : LmAirMessage)
    (signature : List UInt8) : Bool :=
  match callbacks.verify with
  | none => true
  | some verify => verify (canonicalBytes message) signature ≠ 0

/-- A slot has the metadata of a message, and its fragments are assembled to the envelope. -/
structure LmAirReassemblySlot.Assembles (slot : LmAirReassemblySlot) (message : LmAirMessage)
    (signature : List UInt8) : Prop where
  bytes : ∃ assembled,
    compactFragments slot.fragmentLen (List.range slot.fragmentCount.toNat) slot.fragments 0 =
      some (assembled, (envelopeBytes message signature).length) ∧
    readAt assembled 0 (envelopeBytes message signature).length = envelopeBytes message signature
  classId : slot.classId = message.classId
  priority : slot.priority = message.priority
  stateTag : slot.stateTag = getU16Be message.stateHash.toList

/-- What is read from bytes that start with an envelope. -/
theorem envelope_read {bytes : List UInt8} {message : LmAirMessage} {signature : List UInt8}
    (h : readAt bytes 0 (envelopeBytes message signature).length =
      envelopeBytes message signature) :
    ReadsHeader bytes message (signatureLen message) ∧
      readAt bytes lmAirSemanticHeaderBytes message.body.length = message.body ∧
      readAt bytes 0 (canonicalLen message) = canonicalBytes message ∧
      readAt bytes (canonicalLen message) signature.length = signature := by
  have hsplit : bytes = envelopeBytes message signature ++
      bytes.drop (envelopeBytes message signature).length := by
    rw [read_at_zero] at h
    conv_lhs => rw [← List.take_append_drop (envelopeBytes message signature).length bytes, h]
  generalize bytes.drop (envelopeBytes message signature).length = rest at hsplit
  have hsections : bytes = semanticHeader message (signatureLen message) ++
      (message.body ++ (signature ++ rest)) := by
    rw [hsplit, envelopeBytes, canonicalBytes, List.append_assoc, List.append_assoc]
  have hheader := semantic_header_length message (signatureLen message)
  refine ⟨?_, ?_, ?_, ?_⟩
  · rw [hsections]
    exact semantic_header_read _ _ _
  · rw [hsections, readAt, List.drop_left' hheader, List.take_left]
  · rw [read_at_zero, hsplit, envelopeBytes, List.append_assoc,
      List.take_left' (canonical_bytes_length message)]
  · rw [hsplit, envelopeBytes, List.append_assoc, readAt,
      List.drop_left' (canonical_bytes_length message), List.take_left]

/-- A slot that assembles the envelope of a message is read as that message, unless its signature is
refused. -/
theorem slot_message_envelope (callbacks : LmAirRxCallbacks) {slot : LmAirReassemblySlot}
    {message : LmAirMessage} {signature : List UInt8} {outerFlags : UInt8}
    (h : slot.Assembles message signature)
    (hlength : signature.length = (signatureLen message).toNat)
    (hflags : (outerFlags &&& lmAirFlagAuthenticated ≠ 0) ↔ message.authenticated ≠ 0) :
    slotMessage callbacks slot outerFlags =
      if message.authenticated ≠ 0 ∧ callbacks.refuses message signature = true then
        .error (.errAuth, true)
      else .ok message.delivered := by
  obtain ⟨⟨assembled, hcompact, hassembled⟩, hclass, hpriority, htag⟩ := h
  obtain ⟨hheader, hbody, hcanonical, hsignature⟩ := envelope_read hassembled
  have htotal : (envelopeBytes message signature).length =
      lmAirSemanticHeaderBytes + message.body.length + (signatureLen message).toNat := by
    rw [envelopeBytes, List.length_append, canonical_bytes_length, canonicalLen, hlength]
  have hbodyLen : message.bodyLen.toNat = message.body.length :=
    UInt16.toNat_ofNat_of_lt' message.body_lt
  have hhash : (Vector.ofFn fun i : Fin 16 => assembled.getD (30 + i) 0) = message.stateHash := by
    apply Vector.ext
    intro i hi
    rw [Vector.getElem_ofFn]
    exact hheader.stateHash ⟨i, hi⟩
  obtain ⟨hmagic0, hmagic1, hmagic2, hmagic3⟩ := hheader.magic
  unfold slotMessage
  rw [hcompact]
  simp only [hmagic0, hmagic1, hmagic2, hmagic3, hheader.version, hheader.flags, hheader.classId,
    hheader.priority, hheader.sourceId, hheader.epoch, hheader.messageId, hheader.logicalSequence,
    hheader.bodyLen, hheader.stateTag, hheader.signatureLen, hheader.reserved, hclass, hpriority,
    htag, hbodyLen, hhash, hbody, htotal]
  have hpresent := signature_len_present message
  have hwhole := signature_len_whole message
  have hformat : ¬ (lmAirSemanticHeaderBytes + message.body.length + (signatureLen message).toNat ≠
        lmAirSemanticHeaderBytes + message.body.length + (signatureLen message).toNat ∨
      ((signatureLen message).toNat ≠ 0 ∧ (signatureLen message).toNat ≠ lmAirSignatureBytes)) := by
    rintro (hne | ⟨hzero, hshort⟩)
    · exact hne rfl
    · exact hshort (hwhole.mpr (hpresent.mp hzero))
  have hrefuses : message.authenticated ≠ 0 → (match callbacks.verify with
      | none => true
      | some verify => decide (verify
          (readAt assembled 0 (lmAirSemanticHeaderBytes + message.body.length))
          (readAt assembled (lmAirSemanticHeaderBytes + message.body.length)
            lmAirSignatureBytes) ≠ 0)) = callbacks.refuses message signature := by
    intro hflag
    rw [← canonicalLen, ← hwhole.mpr hflag, ← hlength, hcanonical, hsignature]
    rfl
  rw [if_neg (by simp only [ne_eq, not_true, or_false]; omega), if_neg (by split_ifs <;> decide),
    if_neg hformat, if_neg]
  · by_cases hrefused : message.authenticated ≠ 0 ∧ callbacks.refuses message signature = true
    · rw [if_pos hrefused, if_pos ⟨hpresent.mpr hrefused.1, (hrefuses hrefused.1).trans hrefused.2⟩]
    · rw [if_neg hrefused, if_neg fun h => hrefused
        ⟨hpresent.mp h.1, (hrefuses (hpresent.mp h.1)).symm.trans h.2⟩]
      simp only [hpresent, LmAirMessage.delivered]
  · rw [not_or, not_not, not_not, decide_eq_decide, decide_eq_decide, hwhole]
    exact ⟨auth_bit_iff message, hflags⟩

end LatentMesh.AirC
