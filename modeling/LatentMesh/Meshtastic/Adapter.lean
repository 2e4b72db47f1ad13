import LatentMesh.AirCore.Fragment
import LatentMesh.Meshtastic.Data
import LatentMesh.Meshtastic.Framing

/-!
# The Meshtastic adapter

`MeshtasticAdapter` and `StreamingReceiver` of `adapter.rs`: messages are cut at the Meshtastic MTU,
every frame is the payload of one packet, and received packets go to the reassembler.
-/

namespace LatentMesh.Meshtastic

open LatentMesh.AirCore (FrameFlags FragmentMeta ReassembledMessage Reassembler ReassemblerConfig
  SemanticClass SparseRadioFrame fragmentMessage)

/-- The outer-frame MTU, with the 16 bytes of the frame around a payload. -/
def meshtasticFrameMtu : Nat := 227

/-- One message ready to fragment and send. -/
structure OutgoingMessage where
  flags : FrameFlags
  streamId : UInt16
  sequence : UInt16
  semanticClass : SemanticClass
  priority : UInt8
  stateTag : UInt16
  message : List UInt8
  deriving DecidableEq, Repr

/-- The metadata that `encode_message` gives the frames of a message. -/
def OutgoingMessage.info (self : OutgoingMessage) : FragmentMeta where
  profile := .meshtastic
  flags := self.flags
  streamId := self.streamId
  sequence := self.sequence
  semanticClass := self.semanticClass
  priority := self.priority
  stateTag := self.stateTag

/-- An adapter: a reassembler and the destination of its packets. -/
structure MeshtasticAdapter where
  reassembler : Reassembler
  destination : UInt32
  deriving DecidableEq, Repr

/-- `collect` into a `Result`: the first error, or all values. -/
def collect {α : Type} : List (Result α) → Result (List α)
  | [] => .ok []
  | result :: results =>
      result.bind fun value => (collect results).bind fun values => .ok (value :: values)

namespace MeshtasticAdapter

/-- `MeshtasticAdapter::with_reassembler_config`. -/
def withReassemblerConfig (config : ReassemblerConfig) : Result MeshtasticAdapter :=
  (fromAir (Reassembler.new config)).bind fun reassembler =>
  .ok { reassembler, destination := broadcastAddr }

/-- `MeshtasticAdapter::new`. -/
def new : Result MeshtasticAdapter := withReassemblerConfig .default

/-- `MeshtasticAdapter::set_destination`. -/
def setDestination (self : MeshtasticAdapter) (destination : UInt32) : MeshtasticAdapter :=
  { self with destination }

/-- The packet of a frame. -/
def encodeOnePacket (self : MeshtasticAdapter) (frame : SparseRadioFrame) : Result (List UInt8) :=
  (fromAir frame.encode).bind fun airBytes =>
  let toRadio := encodeToRadioData self.destination privateAppPortnum airBytes
  (writeFrame [] toRadio).mapError fun _ => .frameTooLarge

/-- One framed packet for each fragment, in transmission order. -/
def encodeMessage (self : MeshtasticAdapter) (outgoing : OutgoingMessage) :
    Result (List (List UInt8)) :=
  (fromAir (fragmentMessage outgoing.info outgoing.message meshtasticFrameMtu)).bind fun frames =>
  collect (frames.map self.encodeOnePacket)

/-- `MeshtasticAdapter::ingest_air_payload`. -/
def ingestAirPayload (self : MeshtasticAdapter) (payload : List UInt8) :
    MeshtasticAdapter × Result (Option ReassembledMessage) :=
  match SparseRadioFrame.decode payload with
  | .error error => (self, .error (.air error))
  | .ok frame =>
      let (reassembler, result) := self.reassembler.push frame
      ({ self with reassembler }, fromAir result)

/-- `Ok(None)` is also the answer to packets that are not for this application. -/
def ingestFromRadio (self : MeshtasticAdapter) (body : List UInt8) :
    MeshtasticAdapter × Result (Option ReassembledMessage) :=
  match decodeFromRadio body with
  | .error error => (self, .error error)
  | .ok none => (self, .ok none)
  | .ok (some received) =>
      if received.portnum ≠ privateAppPortnum then (self, .ok none)
      else self.ingestAirPayload received.payload

end MeshtasticAdapter

/-- An adapter behind a frame decoder, for raw received bytes. -/
structure StreamingReceiver where
  adapter : MeshtasticAdapter
  decoder : FrameDecoder
  ready : List ReassembledMessage
  deriving DecidableEq, Repr

namespace StreamingReceiver

/-- `StreamingReceiver::new`. -/
def new (adapter : MeshtasticAdapter) : StreamingReceiver where
  adapter := adapter
  decoder := .new
  ready := []

/-- The loop of `push` over the bodies that are ready. It stops at the first error, and the body
that caused it is gone. -/
def ingestReady (self : StreamingReceiver) : StreamingReceiver × Result Unit :=
  match hpull : self.decoder.pull with
  | (decoder, none) => ({ self with decoder }, .ok ())
  | (decoder, some body) =>
      have _hshorter := FrameDecoder.pull_length hpull
      match self.adapter.ingestFromRadio body with
      | (adapter, .error error) => ({ self with adapter, decoder }, .error error)
      | (adapter, .ok none) => ingestReady { self with adapter, decoder }
      | (adapter, .ok (some message)) =>
          ingestReady { adapter, decoder, ready := self.ready ++ [message] }
termination_by self.decoder.ready.length

/-- Feed a chunk of received bytes. -/
def push (self : StreamingReceiver) (chunk : List UInt8) : StreamingReceiver × Result Unit :=
  ingestReady { self with decoder := self.decoder.push chunk }

/-- `StreamingReceiver::next_message`. -/
def nextMessage (self : StreamingReceiver) : StreamingReceiver × Option ReassembledMessage :=
  match self.ready with
  | [] => (self, none)
  | message :: ready => ({ self with ready }, some message)

end StreamingReceiver

end LatentMesh.Meshtastic
