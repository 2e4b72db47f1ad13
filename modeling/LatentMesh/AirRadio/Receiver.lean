import LatentMesh.AirCore.Envelope
import LatentMesh.AirCore.Fragment
import LatentMesh.AirCore.Replay
import LatentMesh.AirRadio.Config
import LatentMesh.AirRadio.Phy

/-!
# The receiver

`AirReceiver` of `receiver.rs`: frame checks, reassembly, admission and the replay window of each
stream. Every entry point that takes frames returns the receiver after it and what it delivers.
-/

namespace LatentMesh.AirRadio

open LatentMesh.AirCore

/-- `EnvelopeVerifier`: whether a signature of the authentication bytes is good. -/
abbrev EnvelopeVerifier := List UInt8 → Signature → Bool

/-- The parameters of a receiver. -/
structure ReceiverConfig where
  link : LinkConfig
  reassembly : ReassemblerConfig
  maxStreams : Nat

/-- `ReceiverConfig::for_link`. -/
def ReceiverConfig.forLink (link : LinkConfig) : ReceiverConfig where
  link := link
  reassembly := ReassemblerConfig.default
  maxStreams := 16

/-- The states of `AirReceiver::state`. -/
inductive ReceiverState where
  | listening
  | reassembling
  | messageReady
  deriving DecidableEq, Repr

/-- `ReceivedMessage`, with the fields of `ReassembledMessage`. -/
abbrev ReceivedMessage := ReassembledMessage

/-! ## Admission -/

namespace ReceivedMessage

/-- The message carries a signed envelope. -/
def signed (self : ReceivedMessage) : Bool := self.flags.contains FrameFlags.signedEnvelope

/-- `ReceivedMessage::semantic_envelope`. -/
def semanticEnvelope (self : ReceivedMessage) : Result SemanticEnvelope :=
  (SemanticEnvelope.decode self.bytes).bind fun envelope =>
    if envelope.semanticClass ≠ self.semanticClass ∨ envelope.priority ≠ self.priority ∨
        stateHashTag envelope.stateHash ≠ self.stateTag ∨
        signed self ≠ envelope.signature.isSome then .error .resultStateMismatch
    else .ok envelope

/-- `ReceivedMessage::verified_envelope`. -/
def verifiedEnvelope (self : ReceivedMessage) (verifier : EnvelopeVerifier) :
    Result SemanticEnvelope :=
  (semanticEnvelope self).bind fun envelope =>
    match envelope.signature with
    | none => .error .authenticationRequired
    | some signature =>
        envelope.authenticationBytes.bind fun authenticationBytes =>
          if ¬ verifier authenticationBytes signature then .error .authenticationFailed
          else .ok envelope

/-- `ReceivedMessage::delta_from_envelope`. -/
def deltaFromEnvelope (self : ReceivedMessage) (envelope : SemanticEnvelope) :
    Result SemanticDelta :=
  if self.semanticClass ≠ .stateDelta then .error .invalidClass
  else envelope.unwrapDelta.bind fun delta =>
    if stateHashTag delta.resultHash ≠ self.stateTag then .error .resultStateMismatch
    else .ok delta

/-- `ReceivedMessage::validate_semantic_binding`. -/
def validateSemanticBinding (self : ReceivedMessage) : Result Unit :=
  (semanticEnvelope self).bind fun envelope =>
    (deltaFromEnvelope self envelope).map fun _ => ()

/-- `ReceivedMessage::validate_admission`. -/
def validateAdmission (self : ReceivedMessage) (verifier : Option EnvelopeVerifier) :
    Result Unit :=
  if signed self then
    match verifier with
    | none => .error .authenticationRequired
    | some verifier =>
        (verifiedEnvelope self verifier).bind fun envelope =>
          if self.semanticClass = .stateDelta then
            (deltaFromEnvelope self envelope).map fun _ => ()
          else .ok ()
  else if self.semanticClass = .stateDelta then validateSemanticBinding self
  else .ok ()

end ReceivedMessage

/-! ## The receiver -/

/-- The replay window of a stream. -/
structure StreamReplay where
  streamId : UInt16
  window : ReplayWindow
  deriving DecidableEq, Repr

/-- The state of a receiver. -/
structure AirReceiver where
  config : ReceiverConfig
  reassembler : Reassembler
  replay : List StreamReplay
  softBurst : SoftBurstReceiver
  state : ReceiverState

namespace AirReceiver

/-- `AirReceiver::new`. -/
def new (config : ReceiverConfig) : Result AirReceiver :=
  config.link.validate.bind fun _ =>
    if config.maxStreams = 0 ∨ 256 < config.maxStreams then .error .invalidLength
    else
      (BurstCodec.new config.link.interleaverColumns).bind fun codec =>
      (Reassembler.new config.reassembly).bind fun reassembler =>
      .ok { config, reassembler, replay := [], softBurst := .new codec, state := .listening }

/-- The window of a stream that the receiver tracks. -/
def windowOf (replay : List StreamReplay) (streamId : UInt16) : Option ReplayWindow :=
  (replay.find? fun entry => entry.streamId == streamId).map StreamReplay.window

/-- The entry of a stream, which `find` reaches first, with another window. -/
def setWindow (streamId : UInt16) (window : ReplayWindow) : List StreamReplay → List StreamReplay
  | [] => []
  | entry :: rest =>
      if entry.streamId = streamId then { entry with window } :: rest
      else entry :: setWindow streamId window rest

/-- `AirReceiver::commit_replay`. -/
def commitReplay (self : AirReceiver) (streamId sequence : UInt16) : AirReceiver × Result Unit :=
  match windowOf self.replay streamId with
  | some window =>
      let (window, result) := window.commit sequence
      ({ self with replay := setWindow streamId window self.replay }, result)
  | none =>
      if self.replay.length = self.config.maxStreams then (self, .error .limitExceeded)
      else
        match ReplayWindow.new.commit sequence with
        | (_, .error error) => (self, .error error)
        | (window, .ok ()) => ({ self with replay := self.replay ++ [⟨streamId, window⟩] }, .ok ())

/-- The replay check before a frame enters the reassembly table. -/
def checkReplay (self : AirReceiver) (frame : SparseRadioFrame) : Result Unit :=
  match windowOf self.replay frame.streamId with
  | none => .ok ()
  | some window =>
      match window.classify frame.sequence with
      | .accept => .ok ()
      | .duplicate =>
          if self.reassembler.hasInFlight frame.streamId frame.sequence then .ok ()
          else .error .replay
      | .tooOld => .error .tooOld

/-- `AirReceiver::ingest_frame_inner`. -/
def ingestFrameInner (self : AirReceiver) (frame : SparseRadioFrame)
    (verifier : Option EnvelopeVerifier) : AirReceiver × Result (Option ReceivedMessage) :=
  let self := { self with state := .listening }
  if frame.profile ≠ self.config.link.profile then (self, .error .invalidProfile)
  else if self.config.link.flags.contains FrameFlags.fec ≠ frame.flags.contains FrameFlags.fec then
    (self, .error .invalidFlags)
  else if frame.flags.contains FrameFlags.signedEnvelope ∧ verifier.isNone then
    -- an unverified signed fragment leaves no state behind
    ({ self with reassembler := self.reassembler.clear frame.streamId frame.sequence },
      .error .authenticationRequired)
  else
    match self.checkReplay frame with
    | .error error => (self, .error error)
    | .ok () =>
        let (reassembler, complete) := self.reassembler.push frame
        let self := { self with reassembler }
        match complete with
        | .error error => (self, .error error)
        | .ok none => ({ self with state := .reassembling }, .ok none)
        | .ok (some message) =>
            match ReceivedMessage.validateAdmission message verifier with
            | .error error => (self, .error error)
            | .ok () =>
                match self.commitReplay message.streamId message.sequence with
                | (self, .error error) => (self, .error error)
                | (self, .ok ()) => ({ self with state := .messageReady }, .ok (some message))

/-- `AirReceiver::ingest_frame`. -/
def ingestFrame (self : AirReceiver) (frame : SparseRadioFrame) :
    AirReceiver × Result (Option ReceivedMessage) :=
  self.ingestFrameInner frame none

/-- `AirReceiver::ingest_frame_verified`. -/
def ingestFrameVerified (self : AirReceiver) (frame : SparseRadioFrame)
    (verifier : EnvelopeVerifier) : AirReceiver × Result (Option ReceivedMessage) :=
  self.ingestFrameInner frame (some verifier)

/-- `ingest_frame_bytes`, and `ingest_frame_bytes_verified` with a verifier. -/
def ingestFrameBytes (self : AirReceiver) (bytes : List UInt8)
    (verifier : Option EnvelopeVerifier) : AirReceiver × Result (Option ReceivedMessage) :=
  match SparseRadioFrame.decode bytes with
  | .error error => ({ self with state := .listening }, .error error)
  | .ok frame => self.ingestFrameInner frame verifier

/-- The loop of `ingest_soft_stream_inner`, which stops at the first error. -/
def ingestBurstFrames (self : AirReceiver) (verifier : Option EnvelopeVerifier) :
    List (List UInt8) → AirReceiver × Result (List ReceivedMessage)
  | [] => (self, .ok [])
  | bytes :: rest =>
      match SparseRadioFrame.decode bytes with
      | .error error => (self, .error error)
      | .ok frame =>
          match self.ingestFrameInner frame verifier with
          | (self, .error error) => (self, .error error)
          | (self, .ok message) =>
              match self.ingestBurstFrames verifier rest with
              | (self, .error error) => (self, .error error)
              | (self, .ok messages) => (self, .ok (message.toList ++ messages))

/-- `AirReceiver::ingest_soft_stream`. -/
def ingestSoftStream (self : AirReceiver) (llrs : List Int8)
    (verifier : Option EnvelopeVerifier) : AirReceiver × Result (List ReceivedMessage) :=
  match self.softBurst.pushSlice llrs with
  | (softBurst, .error error) => ({ self with softBurst }, .error error)
  | (softBurst, .ok frames) => { self with softBurst }.ingestBurstFrames verifier frames

/-- The LLRs of a burst as `decode_iq_burst` and `decode_pcm_burst` decode them. -/
def decodeBurst (self : AirReceiver) (llrs : List Int8) : Result (List UInt8) :=
  (BurstCodec.new self.config.link.interleaverColumns).bind fun codec => codec.decodeAligned llrs

/-- `decode_iq_burst`. The demodulator and the assist give the LLRs. -/
def decodeIqBurst (self : AirReceiver) (demodulate : BpskConfig → Result (List Int8)) :
    Result (List UInt8) :=
  match self.config.link.modulation with
  | .bpsk config => (demodulate config).bind self.decodeBurst
  | _ => .error .invalidProfile

/-- `decode_pcm_burst`. -/
def decodePcmBurst (self : AirReceiver) (demodulate : CpfskConfig → Result (List Int8)) :
    Result (List UInt8) :=
  match self.config.link.modulation with
  | .cpfsk config => (demodulate config).bind self.decodeBurst
  | _ => .error .invalidProfile

/-- `ingest_iq_burst` and `ingest_pcm_burst`, verified or not, after the burst is decoded. -/
def ingestBurst (self : AirReceiver) (decoded : Result (List UInt8))
    (verifier : Option EnvelopeVerifier) : AirReceiver × Result (Option ReceivedMessage) :=
  match decoded with
  | .error error => (self, .error error)
  | .ok bytes => self.ingestFrameBytes bytes verifier

end AirReceiver

end LatentMesh.AirRadio
