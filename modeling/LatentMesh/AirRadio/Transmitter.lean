import LatentMesh.AirCore.Envelope
import LatentMesh.AirCore.Fragment
import LatentMesh.AirRadio.Config
import LatentMesh.AirRadio.Phy

/-!
# The transmitter

`AirTransmitter` of `transmitter.rs`: it cuts messages into frames, queues them, and hands them to
the transport. The modems are floating-point code and are the parameter `modems`.
-/

namespace LatentMesh.AirRadio

open LatentMesh.AirCore

/-- A sample of the baseband. -/
structure IqSample where
  i : Float32
  q : Float32

/-- What `BpskModem` and `CpfskModem` make of the bits of a burst. -/
structure Modems where
  bpsk : BpskConfig → List UInt8 → Result (List IqSample)
  cpfsk : CpfskConfig → List UInt8 → Result (List Int16)

/-- The parameters of a transmitter. -/
structure TransmitterConfig where
  link : LinkConfig
  initialSequence : UInt16
  initialLogicalSequence : UInt64
  maxQueuedFrames : Nat

/-- `TransmitterConfig::for_link`. -/
def TransmitterConfig.forLink (link : LinkConfig) : TransmitterConfig where
  link := link
  initialSequence := 0
  initialLogicalSequence := 0
  maxQueuedFrames := 64

/-- What is sent of a frame, by the modulation of the link. -/
inductive Transmission where
  | bytes (frame : SparseRadioFrame) (bytes : List UInt8)
  | iq (frame : SparseRadioFrame) (samples : List IqSample)
  | pcm (frame : SparseRadioFrame) (samples : List Int16)

/-- The state of a transmitter. -/
structure AirTransmitter where
  config : TransmitterConfig
  nextSequence : UInt16
  nextLogicalSequence : UInt64
  queue : List SparseRadioFrame

namespace AirTransmitter

/-- `AirTransmitter::new`. -/
def new (config : TransmitterConfig) : Result AirTransmitter :=
  config.link.validate.bind fun _ =>
    if config.maxQueuedFrames = 0 ∨ 1024 < config.maxQueuedFrames then .error .invalidLength
    else .ok
      { config, nextSequence := config.initialSequence
        nextLogicalSequence := config.initialLogicalSequence, queue := [] }

/-- The metadata of the frames of the next message. -/
def nextMeta (self : AirTransmitter) (streamId : UInt16) (semanticClass : SemanticClass)
    (priority : UInt8) (stateTag : UInt16) (flags : FrameFlags) : FragmentMeta where
  profile := self.config.link.profile
  flags := flags
  streamId := streamId
  sequence := self.nextSequence
  semanticClass := semanticClass
  priority := priority
  stateTag := stateTag

/-- The sequence number of the message and the transmitter that has queued its frames. A failed call
changes nothing. -/
def enqueueMessageWithFlags (self : AirTransmitter) (streamId : UInt16)
    (semanticClass : SemanticClass) (priority : UInt8) (stateTag : UInt16) (message : List UInt8)
    (flags : FrameFlags) : Result (UInt16 × AirTransmitter) :=
  (fragmentMessage (self.nextMeta streamId semanticClass priority stateTag flags) message
    self.config.link.frameMtu).bind fun frames =>
  if self.config.maxQueuedFrames < self.queue.length + frames.length then .error .limitExceeded
  else .ok (self.nextSequence,
    { self with queue := self.queue ++ frames, nextSequence := self.nextSequence + 1 })

/-- `AirTransmitter::enqueue_message`. -/
def enqueueMessage (self : AirTransmitter) (streamId : UInt16) (semanticClass : SemanticClass)
    (priority : UInt8) (stateTag : UInt16) (message : List UInt8) :
    Result (UInt16 × AirTransmitter) :=
  self.enqueueMessageWithFlags streamId semanticClass priority stateTag message
    self.config.link.flags

/-- The flags of a delta message. -/
def deltaFlags (self : AirTransmitter) (signature : Option Signature) : FrameFlags :=
  if signature.isSome then self.config.link.flags.union FrameFlags.signedEnvelope
  else self.config.link.flags

/-- `AirTransmitter::enqueue_delta_with_signature`. -/
def enqueueDeltaWithSignature (self : AirTransmitter) (streamId : UInt16) (delta : SemanticDelta)
    (priority : UInt8) (signature : Option Signature) : Result (UInt16 × AirTransmitter) :=
  (SemanticEnvelope.wrapDelta delta priority self.nextLogicalSequence signature).bind
    fun envelope =>
  envelope.encode.bind fun encoded =>
  (self.enqueueMessageWithFlags streamId .stateDelta priority (stateHashTag delta.resultHash)
    encoded (self.deltaFlags envelope.signature)).bind fun (sequence, self) =>
  .ok (sequence, { self with nextLogicalSequence := self.nextLogicalSequence + 1 })

/-- `AirTransmitter::enqueue_delta`. -/
def enqueueDelta (self : AirTransmitter) (streamId : UInt16) (delta : SemanticDelta)
    (priority : UInt8) : Result (UInt16 × AirTransmitter) :=
  self.enqueueDeltaWithSignature streamId delta priority none

/-- The match of `next_transmission` on the modulation. -/
def transmission (modems : Modems) (link : LinkConfig) (frame : SparseRadioFrame)
    (frameBytes : List UInt8) : Result Transmission :=
  match link.modulation with
  | .byteTransport => .ok (.bytes frame frameBytes)
  | .bpsk config =>
      (BurstCodec.new link.interleaverColumns).bind fun codec =>
      (codec.encode frameBytes).bind fun bits =>
      (modems.bpsk config bits).bind fun samples => .ok (.iq frame samples)
  | .cpfsk config =>
      (BurstCodec.new link.interleaverColumns).bind fun codec =>
      (codec.encode frameBytes).bind fun bits =>
      (modems.cpfsk config bits).bind fun samples => .ok (.pcm frame samples)

/-- The first queued frame is gone even when it cannot be sent. -/
def nextTransmission (modems : Modems) (self : AirTransmitter) :
    AirTransmitter × Result (Option Transmission) :=
  match self.queue with
  | [] => (self, .ok none)
  | frame :: queue =>
      ({ self with queue }, frame.encode.bind fun frameBytes =>
        (transmission modems self.config.link frame frameBytes).bind fun transmission =>
        .ok (some transmission))

end AirTransmitter

end LatentMesh.AirRadio
