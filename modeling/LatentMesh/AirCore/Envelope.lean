import LatentMesh.AirCore.Semantic

/-!
# The semantic envelope

The message envelope of `envelope.rs`, which carries a delta and an optional signature.
-/

namespace LatentMesh.AirCore

open LatentMesh.Lib

/-- `ENVELOPE_HEADER_BYTES`. -/
def envelopeHeaderBytes : Nat := 48

/-- `ENVELOPE_SIGNATURE_BYTES`. -/
def envelopeSignatureBytes : Nat := 64

/-- `LMS1`. -/
def envelopeMagic : List UInt8 := [0x4c, 0x4d, 0x53, 0x31]

/-- `ENVELOPE_VERSION`. -/
def envelopeVersion : UInt8 := 1

abbrev Signature := Vector UInt8 64

/-- `state_hash_tag`. -/
def stateHashTag (hash : CriticalHash) : UInt16 := u16OfBe [hash[0], hash[1]]

/-- A signature is transported, and trusted only once the application has verified it. -/
structure SemanticEnvelope where
  semanticClass : SemanticClass
  priority : UInt8
  sourceId : UInt32
  epoch : UInt32
  messageId : UInt32
  logicalSequence : UInt64
  stateHash : CriticalHash
  body : List UInt8
  signature : Option Signature
  deriving DecidableEq

namespace SemanticEnvelope

/-- The length that the header says of the signature. -/
def signatureLen (self : SemanticEnvelope) : Nat :=
  if self.signature.isSome then envelopeSignatureBytes else 0

/-- The length of an encoded envelope. -/
def encodedLen (self : SemanticEnvelope) : Nat :=
  envelopeHeaderBytes + self.body.length + self.signatureLen

/-- `SemanticEnvelope::validate`. -/
def validate (self : SemanticEnvelope) : Result Unit :=
  if 15 < self.priority then .error .invalidLength
  else if 65535 < self.body.length ∨ maxMessageBytes < self.encodedLen then .error .limitExceeded
  else .ok ()

/-- `SemanticEnvelope::wrap_delta`. -/
def wrapDelta (delta : SemanticDelta) (priority : UInt8) (logicalSequence : UInt64)
    (signature : Option Signature) : Result SemanticEnvelope :=
  delta.encode.bind fun body =>
    let envelope : SemanticEnvelope :=
      { semanticClass := .stateDelta, priority, sourceId := delta.sourceId, epoch := delta.epoch
        messageId := delta.messageId, logicalSequence, stateHash := delta.resultHash, body
        signature }
    envelope.validate.bind fun _ => .ok envelope

/-- The 48 header bytes that `encode` pushes. -/
def header (self : SemanticEnvelope) : List UInt8 :=
  envelopeMagic ++ [envelopeVersion, if self.signature.isSome then 1 else 0,
    self.semanticClass.toU8, self.priority] ++ u32Be self.sourceId ++ u32Be self.epoch ++
    u32Be self.messageId ++ u64Be self.logicalSequence ++ u16Be (UInt16.ofNat self.body.length) ++
    self.stateHash.toList ++ [UInt8.ofNat self.signatureLen, 0]

/-- `SemanticEnvelope::encode`. -/
def encode (self : SemanticEnvelope) : Result (List UInt8) :=
  self.validate.bind fun _ =>
    .ok (self.header ++ self.body ++ match self.signature with
      | some signature => signature.toList
      | none => [])

/-- `input[5]`: whether a signature follows the body. -/
def authenticatedFlag (byte : UInt8) : Result Bool :=
  if byte = 0 then .ok false else if byte = 1 then .ok true else .error .invalidFlags

/-- `input[from..to]` as an array of `n` bytes. -/
def arrayAt (n start : Nat) (input : List UInt8) : Vector UInt8 n :=
  Vector.ofFn fun i => input.getD (start + i) 0

/-- `SemanticEnvelope::decode`. -/
def decode (input : List UInt8) : Result SemanticEnvelope :=
  if input.length < envelopeHeaderBytes then .error .truncated
  else if maxMessageBytes < input.length then .error .limitExceeded
  else if input.take 4 ≠ envelopeMagic then .error .invalidMarker
  else if input.getD 4 0 ≠ envelopeVersion then .error .unsupportedVersion
  else
    (authenticatedFlag (input.getD 5 0)).bind fun authenticated =>
    (SemanticClass.tryFrom (input.getD 6 0)).bind fun semanticClass =>
    let priority := input.getD 7 0
    if 15 < priority ∨ input.getD 47 0 ≠ 0 then .error .invalidLength
    else
      let signatureLen := (input.getD 46 0).toNat
      if (authenticated ∧ signatureLen ≠ envelopeSignatureBytes) ∨
          (¬ authenticated ∧ signatureLen ≠ 0) then .error .invalidFlags
      else
        let bodyLen := (u16OfBe [input.getD 28 0, input.getD 29 0]).toNat
        let expected := envelopeHeaderBytes + bodyLen + signatureLen
        if expected ≠ input.length then .error .invalidLength
        else
          let bodyEnd := envelopeHeaderBytes + bodyLen
          let envelope : SemanticEnvelope :=
            { semanticClass, priority
              sourceId := u32OfBe ((input.take 12).drop 8)
              epoch := u32OfBe ((input.take 16).drop 12)
              messageId := u32OfBe ((input.take 20).drop 16)
              logicalSequence := u64OfBe ((input.take 28).drop 20)
              stateHash := arrayAt 16 30 input
              body := (input.take bodyEnd).drop envelopeHeaderBytes
              signature := if authenticated then some (arrayAt 64 bodyEnd input) else none }
          envelope.validate.bind fun _ => .ok envelope

/-- The signed material: the header and the body. -/
def authenticationBytes (self : SemanticEnvelope) : Result (List UInt8) :=
  if self.signature.isNone then .error .invalidFlags
  else self.encode.bind fun encoded => .ok (encoded.take (encoded.length - envelopeSignatureBytes))

/-- Decode the delta and bind the fields that the envelope repeats. -/
def unwrapDelta (self : SemanticEnvelope) : Result SemanticDelta :=
  if self.semanticClass ≠ .stateDelta then .error .invalidClass
  else (SemanticDelta.decode self.body).bind fun delta =>
    if delta.sourceId ≠ self.sourceId ∨ delta.epoch ≠ self.epoch ∨
        delta.messageId ≠ self.messageId ∨ delta.resultHash ≠ self.stateHash then
      .error .resultStateMismatch
    else .ok delta

end SemanticEnvelope

end LatentMesh.AirCore
