import LatentMesh.AirC.Envelope
import LatentMesh.AirCore.EnvelopeCodec

/-!
# The C and Rust envelopes agree

A C message and a Rust envelope with the same fields (`SameMessage`) have the same bytes
(`SameMessage.envelope_bytes_eq`).
-/

namespace LatentMesh.AirC

open LatentMesh.Lib LatentMesh.AirCore

/-! ## 64-bit fields -/

/-- Both sides write eight bytes alike. -/
theorem put_u64_be_eq (value : UInt64) : putU64Be value = u64Be value := by
  have hbyte : ∀ n, n ≤ 7 → (value >>> UInt64.ofNat (8 * n)).toUInt8 =
      UInt8.ofNat (value.toNat / 256 ^ n) := by
    intro n hn
    have hshift : (UInt64.ofNat (8 * n)).toNat % 64 = 8 * n := by
      rw [UInt64.toNat_ofNat']
      omega
    apply UInt8.toNat_inj.mp
    rw [UInt64.toNat_toUInt8, UInt64.toNat_shiftRight, hshift, Nat.shiftRight_eq_div_pow,
      UInt8.toNat_ofNat', Nat.pow_mul]
  have hbytes : putU64Be value = [7, 6, 5, 4, 3, 2, 1, 0].map
      fun n => (value >>> UInt64.ofNat (8 * n)).toUInt8 := rfl
  rw [hbytes]
  simp only [List.map_cons, List.map_nil, hbyte, Nat.le_refl, Nat.reduceLeDiff]
  rfl

/-! ## Messages -/

/-- A C message and a Rust envelope have the same fields. Any authenticated flag but zero asks for a
signature. -/
structure SameMessage (message : LmAirMessage) (envelope : SemanticEnvelope) : Prop where
  classId : message.classId = envelope.semanticClass.toU8
  priority : message.priority = envelope.priority
  sourceId : message.sourceId = envelope.sourceId
  epoch : message.epoch = envelope.epoch
  messageId : message.messageId = envelope.messageId
  logicalSequence : message.logicalSequence = envelope.logicalSequence
  stateHash : message.stateHash = envelope.stateHash
  body : message.body = envelope.body
  authenticated : message.authenticated ≠ 0 ↔ envelope.signature.isSome = true

/-- `stateTag` of the C message. -/
theorem get_state_tag (hash : Vector UInt8 16) : getU16Be hash.toList = stateHashTag hash := by
  have hsplit : hash.toList = hash[0] :: hash[1] :: hash.toList.drop 2 := by
    apply List.ext_getElem
    · simp
    · intro i hi hi'
      rcases i with _ | _ | i
      · rfl
      · rfl
      · simp only [List.getElem_cons_succ, List.getElem_drop, Nat.add_comm 2 i]
  rw [hsplit, get_u16_be_eq]
  rfl

namespace SameMessage

variable {message : LmAirMessage} {envelope : SemanticEnvelope}

/-- Both sides give the signature the same length. -/
theorem signature_len (h : SameMessage message envelope) :
    (signatureLen message).toNat = envelope.signatureLen := by
  rw [SemanticEnvelope.signatureLen]
  by_cases hflag : message.authenticated = 0
  · rw [signature_len_plain hflag, if_neg fun hsome => h.authenticated.mpr hsome hflag]
    rfl
  · rw [signature_len_signed hflag, if_pos (h.authenticated.mp hflag)]
    rfl

/-- Both sides sign the same bytes. -/
theorem canonical_bytes_eq (h : SameMessage message envelope) :
    canonicalBytes message = envelope.header ++ envelope.body := by
  have hlen : signatureLen message = UInt8.ofNat envelope.signatureLen := by
    rw [← h.signature_len, UInt8.ofNat_toNat]
  have hflag : (if message.authenticated ≠ 0 then lmAirSemanticFlagAuth else 0) =
      if envelope.signature.isSome then 1 else 0 := if_congr h.authenticated rfl rfl
  rw [canonicalBytes, semanticHeader, SemanticEnvelope.header, hlen, hflag, LmAirMessage.bodyLen,
    put_u32_be_eq, put_u32_be_eq, put_u32_be_eq, put_u64_be_eq, put_u16_be_eq, h.classId,
    h.priority, h.sourceId, h.epoch, h.messageId, h.logicalSequence, h.stateHash, h.body]
  rfl

/-- The two sides lay the fields out alike. -/
theorem envelope_bytes_eq (h : SameMessage message envelope) :
    envelopeBytes message envelope.signatureBytes = envelope.wire := by
  rw [envelopeBytes, h.canonical_bytes_eq, SemanticEnvelope.wire]

end SameMessage

end LatentMesh.AirC
