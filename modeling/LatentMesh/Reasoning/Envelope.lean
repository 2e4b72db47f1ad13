import LatentMesh.AirCore.EnvelopeCodec
import LatentMesh.Reasoning.Compat
import LatentMesh.Reasoning.Context

/-!
# The reasoning delta envelope

`ReasoningDeltaEnvelope` of `envelope.rs`: a header of 282 bytes that is written field after field
and read back by offsets, a counted body, and an optional signature.
-/

namespace LatentMesh.Reasoning

open LatentMesh.Lib
open LatentMesh.AirCore.SemanticEnvelope (arrayAt)

/-- `LMRD`. -/
def envelopeMagic : List UInt8 := [0x4c, 0x4d, 0x52, 0x44]

/-- `ENVELOPE_VERSION`. -/
def envelopeVersion : UInt16 := 1

/-- `ENVELOPE_SIGNATURE_BYTES`. -/
def envelopeSignatureBytes : Nat := 64

/-- `MAX_BODY_BYTES`. -/
def maxBodyBytes : Nat := 1048576

/-- `FIXED_HEADER_BYTES`. -/
def fixedHeaderBytes : Nat :=
  4 + 2 + 16 + 16 + 32 + 32 + 32 + 2 + 32 + 1 + 4 + 32 + 32 + 2 + 2 + 1 + 2 + 32 + 4 + 1 + 1

/-- Why an envelope is refused. -/
inductive EnvelopeError where
  | invalidMarker
  | unsupportedVersion
  | invalidFlags
  | invalidCodec (id : UInt8)
  | limitExceeded
  | truncated
  deriving DecidableEq, Repr

/-- An envelope of a reasoning delta. -/
structure ReasoningDeltaEnvelope where
  version : UInt16
  sessionId : Vector UInt8 16
  edgeId : Vector UInt8 16
  senderId : Hash
  modelFingerprint : Hash
  checkpointDigest : Hash
  latentSchema : UInt16
  adapterDigest : Hash
  codec : CodecId
  iteration : UInt32
  parentStateHash : Hash
  resultStateHash : Hash
  causalScoreQ15 : UInt16
  confidenceQ15 : UInt16
  riskClass : UInt8
  reconstructionErrorQ15 : UInt16
  provenanceRoot : Hash
  body : List UInt8
  signature : Option (Vector UInt8 64)
  deriving DecidableEq

namespace ReasoningDeltaEnvelope

/-- `ReasoningDeltaEnvelope::validate`. -/
def validate (self : ReasoningDeltaEnvelope) : Except EnvelopeError Unit :=
  if self.version ≠ envelopeVersion then .error .unsupportedVersion
  else if maxBodyBytes < self.body.length ∨ 2 ^ 32 - 1 < self.body.length then
    .error .limitExceeded
  else .ok ()

/-- The length byte of the signature. -/
def signatureLen (self : ReasoningDeltaEnvelope) : UInt8 :=
  if self.signature.isSome then UInt8.ofNat envelopeSignatureBytes else 0

/-- The header bytes that `encode` pushes. -/
def header (self : ReasoningDeltaEnvelope) : List UInt8 :=
  envelopeMagic ++ u16Be self.version ++ self.sessionId.toList ++ self.edgeId.toList ++
    self.senderId.toList ++ self.modelFingerprint.toList ++ self.checkpointDigest.toList ++
    u16Be self.latentSchema ++ self.adapterDigest.toList ++ [self.codec.toU8] ++
    u32Be self.iteration ++ self.parentStateHash.toList ++ self.resultStateHash.toList ++
    u16Be self.causalScoreQ15 ++ u16Be self.confidenceQ15 ++ [self.riskClass] ++
    u16Be self.reconstructionErrorQ15 ++ self.provenanceRoot.toList ++
    u32Be (UInt32.ofNat self.body.length) ++ [self.signatureLen] ++ [0]

/-- `ReasoningDeltaEnvelope::encode`. -/
def encode (self : ReasoningDeltaEnvelope) : Except EnvelopeError (List UInt8) :=
  self.validate.bind fun _ =>
    .ok (self.header ++ self.body ++ match self.signature with
      | some signature => signature.toList
      | none => [])

/-- Additions of lengths do not overflow: a body has less than `2 ^ 32` bytes. -/
def decode (input : List UInt8) : Except EnvelopeError ReasoningDeltaEnvelope :=
  if input.length < fixedHeaderBytes then .error .truncated
  else if input.take 4 ≠ envelopeMagic then .error .invalidMarker
  else
    let version := u16OfBe [input.getD 4 0, input.getD 5 0]
    if version ≠ envelopeVersion then .error .unsupportedVersion
    else
      ((CodecId.tryFrom (input.getD 168 0)).mapError fun _ =>
        .invalidCodec (input.getD 168 0)).bind fun codec =>
      let bodyLen := (u32OfBe ((input.take 280).drop 276)).toNat
      let signatureLen := (input.getD 280 0).toNat
      if input.getD 281 0 ≠ 0 then .error .invalidFlags
      else if signatureLen ≠ 0 ∧ signatureLen ≠ envelopeSignatureBytes then .error .invalidFlags
      else if maxBodyBytes < bodyLen then .error .limitExceeded
      else
        let bodyStart := fixedHeaderBytes
        let bodyEnd := bodyStart + bodyLen
        let expectedTotal := bodyEnd + signatureLen
        if expectedTotal ≠ input.length then .error .truncated
        else
          let envelope : ReasoningDeltaEnvelope :=
            { version
              sessionId := arrayAt 16 6 input
              edgeId := arrayAt 16 22 input
              senderId := arrayAt 32 38 input
              modelFingerprint := arrayAt 32 70 input
              checkpointDigest := arrayAt 32 102 input
              latentSchema := u16OfBe [input.getD 134 0, input.getD 135 0]
              adapterDigest := arrayAt 32 136 input
              codec
              iteration := u32OfBe ((input.take 173).drop 169)
              parentStateHash := arrayAt 32 173 input
              resultStateHash := arrayAt 32 205 input
              causalScoreQ15 := u16OfBe [input.getD 237 0, input.getD 238 0]
              confidenceQ15 := u16OfBe [input.getD 239 0, input.getD 240 0]
              riskClass := input.getD 241 0
              reconstructionErrorQ15 := u16OfBe [input.getD 242 0, input.getD 243 0]
              provenanceRoot := arrayAt 32 244 input
              body := (input.take bodyEnd).drop bodyStart
              signature :=
                if signatureLen = envelopeSignatureBytes then some (arrayAt 64 bodyEnd input)
                else none }
          envelope.validate.bind fun _ => .ok envelope

end ReasoningDeltaEnvelope

end LatentMesh.Reasoning
