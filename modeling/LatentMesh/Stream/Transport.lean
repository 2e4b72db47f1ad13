import Mathlib.Data.List.Forall2
import Mathlib.Data.List.Infix
import LatentMesh.Lib.Duplex
import LatentMesh.Stream.Chunking

/-!
# Transports of a latent stream

`ChannelTransport` of `transport.rs` and `QuicFrameTransport` of `quic.rs`: one loop that pops a
frame or reads more bytes. Both behave like a queue of frames whose head stays where it is when the
peer cannot read it (`channel_refines_queue`, `quic_refines_queue`).
-/

namespace LatentMesh.Stream

open LatentMesh.Core LatentMesh.Lib

namespace FrameDecoder

variable (serde : SerdeJson)

/-- `buffered`. -/
def buffered (self : FrameDecoder) : Nat := self.buffer.length

/-- The end of a stream behind what is buffered. -/
def endOfStream (self : FrameDecoder) : Result (Option LatentFrame) :=
  if 0 < self.buffered then .error (.transport "peer closed mid-frame") else .ok none

/-- The loop of `try_recv_frame` and `recv_frame`: pop a frame, or push the next chunk and try
again. `atEnd` is what follows the last chunk. -/
def recvLoop (atEnd : FrameDecoder → Result (Option LatentFrame)) (self : FrameDecoder) :
    List (List UInt8) → FrameDecoder × List (List UInt8) × Result (Option LatentFrame)
  | [] =>
      match self.nextFrame serde with
      | (next, .error error) => (next, [], .error error)
      | (next, .ok (some frame)) => (next, [], .ok (some frame))
      | (next, .ok none) => (next, [], atEnd next)
  | chunk :: chunks =>
      match self.nextFrame serde with
      | (next, .error error) => (next, chunk :: chunks, .error error)
      | (next, .ok (some frame)) => (next, chunk :: chunks, .ok (some frame))
      | (next, .ok none) =>
          match next.push chunk with
          | (pushed, .error error) => (pushed, chunks, .error error)
          | (pushed, .ok ()) => pushed.recvLoop atEnd chunks

end FrameDecoder

/-! ## The in-process duplex -/

/-- One endpoint: the encoded frames in its receiver, and its decoder. -/
structure ChannelTransport where
  rx : List (List UInt8)
  decoder : FrameDecoder
  deriving DecidableEq, Repr

namespace ChannelTransport

variable (serde : SerdeJson)

/-- `try_recv_frame`. A receiver that is empty is not at its end while the sender is there. -/
def tryRecvFrame (connected : Bool) (self : ChannelTransport) :
    ChannelTransport × Result (Option LatentFrame) :=
  let received := self.decoder.recvLoop serde
    (fun decoder => if connected then .ok none else decoder.endOfStream) self.rx
  (⟨received.2.1, received.1⟩, received.2.2)

/-- Two connected endpoints are a duplex of these lanes. -/
def lane : Lane ChannelTransport LatentFrame (List UInt8) LatentFrame StreamError where
  empty := ⟨[], .new⟩
  encode := encodeFrame serde
  push bytes self := { self with rx := self.rx ++ [bytes] }
  recv := tryRecvFrame serde
  closed := .transport "channel closed"

end ChannelTransport

/-! ## The QUIC stream -/

/-- The size of the read buffer. -/
def readBufBytes : Nat := 16 * 1024

/-- What is still to be read from a byte stream: the slices that its reads fill in, and the error
behind them, unless the peer has finished the stream. -/
structure LatentByteStream where
  slices : List (List UInt8)
  failure : Option StreamError
  sized : ∀ slice ∈ slices, slice ≠ [] ∧ slice.length ≤ readBufBytes

/-- The loop leaves an end of the chunks. -/
theorem recv_loop_suffix (serde : SerdeJson)
    (atEnd : FrameDecoder → Result (Option LatentFrame)) (decoder : FrameDecoder)
    (chunks : List (List UInt8)) : (decoder.recvLoop serde atEnd chunks).2.1 <:+ chunks := by
  induction chunks generalizing decoder with
  | nil =>
      unfold FrameDecoder.recvLoop
      split <;> exact List.suffix_refl _
  | cons chunk chunks ih =>
      unfold FrameDecoder.recvLoop
      split
      · exact List.suffix_refl _
      · exact List.suffix_refl _
      · split
        · exact List.suffix_cons _ _
        · exact (ih _).trans (List.suffix_cons _ _)

/-- The receiving side over a byte stream: the stream and the decoder behind it. -/
structure QuicFrameTransport where
  stream : LatentByteStream
  decoder : FrameDecoder

namespace QuicFrameTransport

variable (serde : SerdeJson)

/-- `QuicFrameTransport::new`. -/
def new (stream : LatentByteStream) : QuicFrameTransport := ⟨stream, .new⟩

/-- What a read behind the last slice leads to. -/
def atEnd (failure : Option StreamError) (decoder : FrameDecoder) : Result (Option LatentFrame) :=
  match failure with
  | some error => .error error
  | none => decoder.endOfStream

/-- `recv_frame`. -/
def recvFrame (self : QuicFrameTransport) : QuicFrameTransport × Result (Option LatentFrame) :=
  let received := self.decoder.recvLoop serde (atEnd self.stream.failure) self.stream.slices
  have hsuffix := recv_loop_suffix serde (atEnd self.stream.failure) self.decoder self.stream.slices
  (⟨⟨received.2.1, self.stream.failure, fun slice hslice =>
    self.stream.sized slice (hsuffix.subset hslice)⟩, received.1⟩, received.2.2)

/-- What a number of calls return. -/
def recvFrames (self : QuicFrameTransport) : Nat → List (Result (Option LatentFrame))
  | 0 => []
  | count + 1 => (self.recvFrame serde).2 :: (self.recvFrame serde).1.recvFrames count

end QuicFrameTransport

/-! ## Queues of frames -/

variable (serde : SerdeJson)

/-- How a peer reads an encoded frame. -/
def readFrame (frame : LatentFrame) : Result LatentFrame :=
  ((serde.toVec frame).mapError .malformed).bind fun body =>
  if frame.confidence.isFinite then .ok frame else .error (.malformed (serde.nullText body))

/-- Take the first frame of a queue. One that cannot be read stays in front of the others. -/
def popFrame (atEnd : Result (Option LatentFrame)) :
    List LatentFrame → List LatentFrame × Result (Option LatentFrame)
  | [] => ([], atEnd)
  | frame :: frames =>
      match readFrame serde frame with
      | .error error => (frame :: frames, .error error)
      | .ok frame => (frames, .ok (some frame))

/-- What a number of pops return. -/
def popFrames (atEnd : Result (Option LatentFrame)) (frames : List LatentFrame) :
    Nat → List (Result (Option LatentFrame))
  | 0 => []
  | count + 1 =>
      (popFrame serde atEnd frames).2 ::
        popFrames atEnd (popFrame serde atEnd frames).1 count

/-- A lane that carries the frames themselves. -/
def queueLane : Lane (List LatentFrame) LatentFrame LatentFrame LatentFrame StreamError where
  empty := []
  encode frame := (encodeFrame serde frame).map fun _ => frame
  push frame frames := frames ++ [frame]
  recv _ := popFrame serde (.ok none)
  closed := .transport "channel closed"

/-- The bytes of the frames that can be encoded, one frame after the other. -/
def wire (frames : List LatentFrame) : List UInt8 :=
  (frames.filterMap fun frame => (encodeFrame serde frame).toOption).flatten

/-- The frames that are whole within the first bytes of the wire, and what there is of the next. -/
def arrived : List LatentFrame → List UInt8 → List LatentFrame × List UInt8
  | [], _ => ([], [])
  | frame :: frames, received =>
      match encodeFrame serde frame with
      | .error _ => arrived frames received
      | .ok bytes =>
          if bytes.length ≤ received.length then
            let rest := arrived frames (received.drop bytes.length)
            (frame :: rest.1, rest.2)
          else ([], received)

/-! ## One turn of the loop -/

variable {serde} {atEnd : FrameDecoder → Result (Option LatentFrame)} {buffer : List UInt8}
  {chunks : List (List UInt8)}

namespace FrameDecoder

/-- A frame or an error in the buffer comes before the chunks. -/
theorem recv_loop_ready (h : decodeFrame serde buffer ≠ .ok none) (chunks : List (List UInt8)) :
    recvLoop serde atEnd ⟨buffer⟩ chunks =
      ((nextFrame serde ⟨buffer⟩).1, chunks, (nextFrame serde ⟨buffer⟩).2) := by
  cases hdecode : decodeFrame serde buffer with
  | error error => cases chunks <;> simp [recvLoop, nextFrame, hdecode]
  | ok found =>
      cases found with
      | none => exact absurd hdecode h
      | some found => cases chunks <;> simp [recvLoop, nextFrame, hdecode]

/-- At the end of the stream the loop answers what the end is. -/
theorem recv_loop_end (h : Incomplete buffer) :
    recvLoop serde atEnd ⟨buffer⟩ [] = (⟨buffer⟩, [], atEnd ⟨buffer⟩) := by
  simp [recvLoop, nextFrame, decode_frame_eq_none_iff.mpr h]

/-- A chunk that completes nothing is buffered. -/
theorem recv_loop_push (h : Incomplete buffer) {chunk : List UInt8}
    (hpush : push ⟨buffer⟩ chunk = (⟨buffer ++ chunk⟩, .ok ())) :
    recvLoop serde atEnd ⟨buffer⟩ (chunk :: chunks) =
      recvLoop serde atEnd ⟨buffer ++ chunk⟩ chunks := by
  simp [recvLoop, nextFrame, decode_frame_eq_none_iff.mpr h, hpush]

end FrameDecoder

/-- The frame at the front of the input, if it declares its length, is not too large. -/
def Bounded (input : List UInt8) : Prop :=
  lengthPrefixBytes ≤ input.length → declaredLength input ≤ maxFrameBytes

/-- The front of a bounded buffer is bounded. -/
theorem Bounded.of_prefix {input : List UInt8} (h : Bounded input) (hfront : buffer <+: input) :
    Bounded buffer := by
  obtain ⟨more, rfl⟩ := hfront
  intro hlong
  rw [← declared_length_append hlong more]
  exact h (Nat.le_trans hlong (List.length_append ▸ Nat.le_add_right _ _))

/-- An incomplete buffer is bounded. -/
theorem Incomplete.bounded (h : Incomplete buffer) : Bounded buffer := by
  intro hlong
  rcases h with hshort | ⟨hdeclared, -⟩
  · exact absurd hshort (Nat.not_lt.mpr hlong)
  · exact hdeclared

/-- A buffer that starts with a whole frame is bounded. -/
theorem bounded_prefixed {body : List UInt8} (h : body.length ≤ maxFrameBytes)
    (rest : List UInt8) : Bounded (prefixed body ++ rest) := by
  intro _
  rw [declared_length_prefixed h]
  exact h

/-- A push behind an incomplete frame keeps the bytes. -/
theorem push_bounded {chunk : List UInt8} (h : Incomplete buffer)
    (hchunk : chunk.length ≤ maxFrameBytes + lengthPrefixBytes)
    (hbounded : Bounded (buffer ++ chunk)) :
    FrameDecoder.push ⟨buffer⟩ chunk = (⟨buffer ++ chunk⟩, .ok ()) := by
  have hroom : ¬ maxBufferedBytes < buffer.length + chunk.length := by
    have hlength := FrameDecoder.incomplete_length h
    rw [maxBufferedBytes]
    omega
  unfold FrameDecoder.push
  rw [if_neg hroom]
  exact if_neg fun hlarge => absurd (hbounded hlarge.1) (Nat.not_le.mpr hlarge.2)

/-- A part of an encoded frame is incomplete. -/
theorem incomplete_of_part {body more rest : List UInt8} (hbody : body.length ≤ maxFrameBytes)
    (h : buffer ++ more = prefixed body ++ rest) (hshort : buffer.length < (prefixed body).length) :
    Incomplete buffer := by
  by_cases hlong : lengthPrefixBytes ≤ buffer.length
  · have hdeclared : declaredLength buffer = body.length := by
      rw [← declared_length_append hlong more, h, declared_length_prefixed hbody]
    rw [prefixed_length] at hshort
    exact Or.inr ⟨hdeclared ▸ hbody, hdeclared ▸ hshort⟩
  · exact Or.inl (Nat.not_le.mp hlong)

/-- A part of what is incomplete is incomplete. -/
theorem Incomplete.of_prefix {input : List UInt8} (h : Incomplete input)
    (hfront : buffer <+: input) : Incomplete buffer := by
  obtain ⟨more, rfl⟩ := hfront
  by_cases hlong : lengthPrefixBytes ≤ buffer.length
  · rw [Incomplete, declared_length_append hlong, List.length_append] at h
    rcases h with hshort | ⟨hdeclared, hpart⟩
    · omega
    · exact Or.inr ⟨hdeclared, by omega⟩
  · exact Or.inl (Nat.not_le.mp hlong)

/-- An encoded frame at the front of the input is read as its peer reads it. -/
theorem decode_encoded_append {frame : LatentFrame} {bytes : List UInt8}
    (hcodec : serde.RoundTrips (documentOf frame)) (h : encodeFrame serde frame = .ok bytes)
    (rest : List UInt8) :
    decodeFrame serde (bytes ++ rest) =
      (readFrame serde frame).bind fun found => .ok (some (found, bytes.length)) := by
  obtain ⟨hshape, body, hbody, hlength, rfl⟩ := encode_frame_eq_ok_iff.mp h
  obtain ⟨hfinite, hnull⟩ := decode_body_encoded hcodec hshape hbody
  have hread : readFrame serde frame = decodeBody serde body := by
    rw [readFrame, hbody]
    by_cases hconfidence : frame.confidence.isFinite = true
    · rw [hfinite hconfidence]
      exact if_pos hconfidence
    · rw [hnull hconfidence]
      exact if_neg hconfidence
  rw [decode_prefixed hlength, hread]

/-! ## What a receiver has in front of it -/

/-- The buffer and the chunks hold the frames, and an incomplete one behind them. -/
structure Carries (serde : SerdeJson) (buffer : List UInt8) (chunks : List (List UInt8))
    (frames : List LatentFrame) (left : List UInt8) : Prop where
  bytes : ∃ encoded, List.Forall₂ (fun frame bytes => encodeFrame serde frame = .ok bytes) frames
    encoded ∧ buffer ++ chunks.flatten = encoded.flatten ++ left
  roundTrips : ∀ frame ∈ frames, serde.RoundTrips (documentOf frame)
  incomplete : Incomplete left
  sized : ∀ chunk ∈ chunks, chunk.length ≤ maxFrameBytes + lengthPrefixBytes

namespace Carries

variable {frames : List LatentFrame} {left : List UInt8}

/-- Buffers that carry frames are bounded. -/
theorem bounded (h : Carries serde buffer chunks frames left) :
    Bounded (buffer ++ chunks.flatten) := by
  obtain ⟨encoded, hencoded, hbytes⟩ := h.bytes
  rw [hbytes]
  cases hencoded with
  | nil => exact h.incomplete.bounded
  | cons hencode _ =>
      obtain ⟨-, body, -, hlength, rfl⟩ := encode_frame_eq_ok_iff.mp hencode
      rw [List.flatten_cons, List.append_assoc]
      exact bounded_prefixed hlength _

/-- The first frame is whole in the buffer, or the buffer waits for more. -/
theorem front (h : Carries serde buffer chunks frames left) :
    (∃ frame rest bytes behind, frames = frame :: rest ∧ encodeFrame serde frame = .ok bytes ∧
        buffer = bytes ++ behind ∧ Carries serde behind chunks rest left) ∨
      (Incomplete buffer ∧ (chunks = [] → frames = [] ∧ buffer = left)) := by
  obtain ⟨encoded, hencoded, hbytes⟩ := h.bytes
  cases hencoded with
  | nil =>
      refine Or.inr ⟨h.incomplete.of_prefix ⟨_, hbytes⟩, fun hnone => ⟨rfl, ?_⟩⟩
      simpa [hnone] using hbytes
  | @cons frame bytes rest encoded hencode hrest =>
      rw [List.flatten_cons, List.append_assoc] at hbytes
      obtain ⟨-, body, -, hlength, hprefixed⟩ := encode_frame_eq_ok_iff.mp hencode
      by_cases hwhole : bytes.length ≤ buffer.length
      · obtain ⟨behind, rfl⟩ := (List.prefix_of_prefix_length_le ⟨_, rfl⟩ ⟨_, hbytes⟩ hwhole :
          bytes <+: buffer)
        rw [List.append_assoc] at hbytes
        exact Or.inl ⟨frame, rest, bytes, behind, rfl, hencode, rfl,
          ⟨_, hrest, List.append_cancel_left hbytes⟩,
          fun other hother => h.roundTrips other (List.mem_cons_of_mem _ hother), h.incomplete,
          h.sized⟩
      · rw [hprefixed] at hbytes hwhole
        refine Or.inr ⟨incomplete_of_part hlength hbytes (Nat.not_le.mp hwhole), fun hnone => ?_⟩
        -- without more chunks the frame would have to be in the buffer
        have hlengths := congrArg List.length hbytes
        rw [hnone, List.flatten_nil, List.append_nil, List.length_append] at hlengths
        omega

/-- The next chunk goes into the buffer. -/
theorem push {chunk : List UInt8} (h : Carries serde buffer (chunk :: chunks) frames left) :
    Carries serde (buffer ++ chunk) chunks frames left := by
  obtain ⟨encoded, hencoded, hbytes⟩ := h.bytes
  rw [List.flatten_cons, ← List.append_assoc] at hbytes
  exact ⟨⟨encoded, hencoded, hbytes⟩, h.roundTrips, h.incomplete,
    fun other hother => h.sized other (List.mem_cons_of_mem _ hother)⟩

/-- A first frame that is whole in the buffer is popped, or stays there if it cannot be read. -/
theorem ready {frame : LatentFrame} {bytes behind : List UInt8}
    (h : Carries serde (bytes ++ behind) chunks (frame :: frames) left)
    (hencode : encodeFrame serde frame = .ok bytes)
    (hbehind : Carries serde behind chunks frames left)
    (atEnd : FrameDecoder → Result (Option LatentFrame)) :
    (FrameDecoder.recvLoop serde atEnd ⟨bytes ++ behind⟩ chunks).2.2 =
        (popFrame serde (atEnd ⟨left⟩) (frame :: frames)).2 ∧
      Carries serde (FrameDecoder.recvLoop serde atEnd ⟨bytes ++ behind⟩ chunks).1.buffer
        (FrameDecoder.recvLoop serde atEnd ⟨bytes ++ behind⟩ chunks).2.1
        (popFrame serde (atEnd ⟨left⟩) (frame :: frames)).1 left := by
  have hdecode := decode_encoded_append (h.roundTrips frame (List.mem_cons_self ..)) hencode behind
  cases hread : readFrame serde frame with
  | error error =>
      have hfailed : decodeFrame serde (bytes ++ behind) = .error error := by
        rw [hdecode, hread]
        rfl
      rw [FrameDecoder.recv_loop_ready (by simp [hfailed])]
      simp only [FrameDecoder.nextFrame, hfailed, popFrame, hread]
      exact ⟨trivial, h⟩
  | ok found =>
      have hfound : decodeFrame serde (bytes ++ behind) = .ok (some (found, bytes.length)) := by
        rw [hdecode, hread]
        rfl
      rw [FrameDecoder.recv_loop_ready (by simp [hfound])]
      simp only [FrameDecoder.nextFrame, hfound, popFrame, hread, List.drop_left]
      exact ⟨trivial, hbehind⟩

/-- The loop pops the first of the frames. -/
theorem recv (h : Carries serde buffer chunks frames left)
    (atEnd : FrameDecoder → Result (Option LatentFrame)) :
    (FrameDecoder.recvLoop serde atEnd ⟨buffer⟩ chunks).2.2 =
        (popFrame serde (atEnd ⟨left⟩) frames).2 ∧
      Carries serde (FrameDecoder.recvLoop serde atEnd ⟨buffer⟩ chunks).1.buffer
        (FrameDecoder.recvLoop serde atEnd ⟨buffer⟩ chunks).2.1
        (popFrame serde (atEnd ⟨left⟩) frames).1 left := by
  induction chunks generalizing buffer with
  | nil =>
      rcases h.front with ⟨frame, rest, bytes, behind, rfl, hencode, rfl, hbehind⟩ | ⟨hpart, hend⟩
      · exact h.ready hencode hbehind atEnd
      · obtain ⟨rfl, rfl⟩ := hend rfl
        rw [FrameDecoder.recv_loop_end hpart]
        exact ⟨rfl, h⟩
  | cons chunk chunks ih =>
      rcases h.front with ⟨frame, rest, bytes, behind, rfl, hencode, rfl, hbehind⟩ | ⟨hpart, -⟩
      · exact h.ready hencode hbehind atEnd
      · have hbounded : Bounded (buffer ++ chunk) :=
          h.push.bounded.of_prefix (List.prefix_append _ _)
        rw [FrameDecoder.recv_loop_push hpart
          (push_bounded hpart (h.sized chunk (List.mem_cons_self ..)) hbounded)]
        exact ih h.push

end Carries

/-! ## The in-process duplex is a pair of queues -/

/-- The receiver of an endpoint holds the encoded frames. -/
def Holds (serde : SerdeJson) (transport : ChannelTransport) (frames : List LatentFrame) : Prop :=
  Carries serde transport.decoder.buffer transport.rx frames []

/-- A chunk is one encoded frame. -/
theorem encode_frame_length {frame : LatentFrame} {bytes : List UInt8}
    (h : encodeFrame serde frame = .ok bytes) :
    bytes.length ≤ maxFrameBytes + lengthPrefixBytes := by
  obtain ⟨-, body, -, hlength, rfl⟩ := encode_frame_eq_ok_iff.mp h
  rw [prefixed_length]
  omega

/-- A frame that is sent stands behind the others. -/
theorem Holds.push {transport : ChannelTransport} {frames : List LatentFrame}
    (h : Holds serde transport frames) {frame : LatentFrame} {bytes : List UInt8}
    (hcodec : serde.RoundTrips (documentOf frame)) (hencode : encodeFrame serde frame = .ok bytes) :
    Holds serde { transport with rx := transport.rx ++ [bytes] } (frames ++ [frame]) := by
  obtain ⟨encoded, hencoded, hbytes⟩ := h.bytes
  refine ⟨⟨encoded ++ [bytes], List.rel_append hencoded (.cons hencode .nil), ?_⟩, ?_, h.incomplete,
    ?_⟩
  · rw [List.append_nil] at hbytes
    rw [List.flatten_append, ← List.append_assoc, hbytes]
    simp
  · intro other hother
    rcases List.mem_append.mp hother with hold | hnew
    · exact h.roundTrips other hold
    · rw [List.mem_singleton.mp hnew]
      exact hcodec
  · intro chunk hchunk
    rcases List.mem_append.mp hchunk with hold | hnew
    · exact h.sized chunk hold
    · rw [List.mem_singleton.mp hnew]
      exact encode_frame_length hencode

/-- The channel transport simulates the queue: every send of a frame that its text keeps, and every
receive, is answered as the queue answers. -/
theorem channel_simulates (serde : SerdeJson) :
    Lane.Simulates (ChannelTransport.lane serde) (queueLane serde)
      (fun frame => serde.RoundTrips (documentOf frame)) (Holds serde) where
  empty := ⟨⟨[], .nil, rfl⟩, fun _ h => absurd h List.not_mem_nil, incomplete_nil,
    fun _ h => absurd h List.not_mem_nil⟩
  refused frame error h := by
    have hencode : encodeFrame serde frame = .error error := h
    show (encodeFrame serde frame).map _ = _
    rw [hencode]
    rfl
  accepted frame bytes hcodec h := by
    have hencode : encodeFrame serde frame = .ok bytes := h
    refine ⟨frame, ?_, fun transport frames hheld => hheld.push hcodec hencode⟩
    show (encodeFrame serde frame).map _ = _
    rw [hencode]
    rfl
  received connected transport frames hheld := by
    obtain ⟨hresult, hleft⟩ := hheld.recv fun decoder =>
      if connected then .ok none else decoder.endOfStream
    have hend : (if connected then .ok none else FrameDecoder.endOfStream ⟨[]⟩ :
        Result (Option LatentFrame)) = .ok none := by
      cases connected <;> rfl
    rw [hend] at hresult hleft
    exact ⟨hresult, hleft⟩
  closed := rfl

/-- Whatever two endpoints send, receive and drop in whatever order, the duplex that carries bytes
returns what a pair of queues of frames returns. -/
theorem channel_refines_queue (serde : SerdeJson) (calls : List (Side × Call LatentFrame))
    (hcodec : ∀ side frame, (side, .send frame) ∈ calls → serde.RoundTrips (documentOf frame)) :
    (ChannelTransport.lane serde).outcomes (ChannelTransport.lane serde).pair calls =
      (queueLane serde).outcomes (queueLane serde).pair calls :=
  (channel_simulates serde).outcomes_eq (channel_simulates serde).pair_matches hcodec

/-- The sample frame is read as it is. -/
theorem read_frame_half : readFrame sampleSerde (sampleFrame half) = .ok (sampleFrame half) := by
  rw [readFrame, show sampleSerde.toVec (sampleFrame half) = .ok _ from sample_render.1]
  rfl

/-- A frame crosses the duplex. -/
theorem channel_refines_queue_half :
    (ChannelTransport.lane sampleSerde).outcomes (ChannelTransport.lane sampleSerde).pair
        [(.left, .send (sampleFrame half)), (.right, .recv), (.right, .drop),
          (.left, .send (sampleFrame half))] =
      [some (.sent (.ok ())), some (.received (.ok (some (sampleFrame half)))), some .dropped,
        some (.sent (.error (.transport "channel closed")))] := by
  rw [channel_refines_queue sampleSerde _ fun side frame hcall => ?_]
  · simp [Lane.outcomes, Lane.step, Lane.pair, queueLane, sample_encoded.1, Except.map, Side.peer,
      popFrame, read_frame_half]
  · obtain ⟨-, rfl⟩ : side = .left ∧ frame = sampleFrame half := by simpa using hcall
    exact sample_round_trips (Or.inl rfl)

/-! ## The QUIC stream is a queue -/

/-- A frame that is not encoded puts nothing on the wire. -/
theorem wire_cons_error {frame : LatentFrame} {error : StreamError} (frames : List LatentFrame)
    (h : encodeFrame serde frame = .error error) :
    wire serde (frame :: frames) = wire serde frames := by
  rw [wire, List.filterMap_cons, h]
  rfl

/-- A frame that is encoded comes before the others. -/
theorem wire_cons_ok {frame : LatentFrame} {bytes : List UInt8} (frames : List LatentFrame)
    (h : encodeFrame serde frame = .ok bytes) :
    wire serde (frame :: frames) = bytes ++ wire serde frames := by
  rw [wire, List.filterMap_cons, h]
  rfl

/-- The frames that have arrived are frames that were sent. -/
theorem arrived_subset (serde : SerdeJson) (frames : List LatentFrame) (received : List UInt8) :
    (arrived serde frames received).1 ⊆ frames := by
  induction frames generalizing received with
  | nil => exact List.Subset.refl _
  | cons frame frames ih =>
      unfold arrived
      split
      · exact List.Subset.trans (ih received) (List.subset_cons_self ..)
      · split
        · exact List.cons_subset_cons _ (ih _)
        · exact List.nil_subset _

/-- What is read of the wire is the frames that have arrived and a part of the next. -/
theorem arrived_bytes {frames : List LatentFrame} {received : List UInt8}
    (h : received <+: wire serde frames) :
    (∃ encoded, List.Forall₂ (fun frame bytes => encodeFrame serde frame = .ok bytes)
        (arrived serde frames received).1 encoded ∧
        received = encoded.flatten ++ (arrived serde frames received).2) ∧
      Incomplete (arrived serde frames received).2 := by
  induction frames generalizing received with
  | nil => exact ⟨⟨[], .nil, List.prefix_nil.mp h⟩, incomplete_nil⟩
  | cons frame frames ih =>
      cases hencode : encodeFrame serde frame with
      | error error =>
          rw [wire_cons_error frames hencode] at h
          simp only [arrived, hencode]
          exact ih h
      | ok bytes =>
          rw [wire_cons_ok frames hencode] at h
          simp only [arrived, hencode]
          by_cases hwhole : bytes.length ≤ received.length
          · obtain ⟨rest, rfl⟩ :=
              List.prefix_of_prefix_length_le (List.prefix_append bytes _) h hwhole
            rw [List.prefix_append_right_inj] at h
            obtain ⟨⟨encoded, hencoded, hrest⟩, hpart⟩ := ih h
            rw [if_pos hwhole, List.drop_left]
            refine ⟨⟨bytes :: encoded, .cons hencode hencoded, ?_⟩, hpart⟩
            rw [List.flatten_cons, List.append_assoc, ← hrest]
          · rw [if_neg hwhole]
            obtain ⟨-, body, -, hlength, rfl⟩ := encode_frame_eq_ok_iff.mp hencode
            obtain ⟨more, hmore⟩ := h
            exact ⟨⟨[], .nil, rfl⟩, incomplete_of_part hlength hmore (Nat.not_le.mp hwhole)⟩

/-- Every call pops the next of the frames. -/
theorem recv_frames_carries {transport : QuicFrameTransport} {frames : List LatentFrame}
    {left : List UInt8}
    (h : Carries serde transport.decoder.buffer transport.stream.slices frames left) (count : Nat) :
    transport.recvFrames serde count =
      popFrames serde (QuicFrameTransport.atEnd transport.stream.failure ⟨left⟩) frames count := by
  induction count generalizing transport frames with
  | zero => rfl
  | succ count ih =>
      obtain ⟨hresult, hleft⟩ := h.recv (QuicFrameTransport.atEnd transport.stream.failure)
      have hnext : Carries serde (transport.recvFrame serde).1.decoder.buffer
          (transport.recvFrame serde).1.stream.slices _ left := hleft
      rw [QuicFrameTransport.recvFrames, popFrames, ih hnext]
      exact congrArg (· :: _) hresult

/-- A new transport has the frames in front of it that have arrived. -/
theorem quic_carries {frames : List LatentFrame}
    (hcodec : ∀ frame ∈ frames, serde.RoundTrips (documentOf frame)) (stream : LatentByteStream)
    (hread : stream.slices.flatten <+: wire serde frames) :
    Carries serde [] stream.slices (arrived serde frames stream.slices.flatten).1
      (arrived serde frames stream.slices.flatten).2 := by
  obtain ⟨hbytes, hpart⟩ := arrived_bytes hread
  exact ⟨hbytes, fun frame hframe => hcodec frame (arrived_subset serde frames _ hframe), hpart,
    fun slice hslice => Nat.le_trans (stream.sized slice hslice).2 (by decide)⟩

/-- However the bytes are cut into reads and wherever the stream breaks off, the calls return the
frames that have arrived, in order, and then how the stream has ended. -/
theorem quic_refines_queue {serde : SerdeJson} {frames : List LatentFrame}
    (hcodec : ∀ frame ∈ frames, serde.RoundTrips (documentOf frame)) (stream : LatentByteStream)
    (hread : stream.slices.flatten <+: wire serde frames) (count : Nat) :
    (QuicFrameTransport.new stream).recvFrames serde count =
      popFrames serde
        (QuicFrameTransport.atEnd stream.failure ⟨(arrived serde frames stream.slices.flatten).2⟩)
        (arrived serde frames stream.slices.flatten).1 count :=
  @recv_frames_carries serde (.new stream) _ _ (quic_carries hcodec stream hread) count

/-- A frame in two reads. -/
def halfStream : LatentByteStream where
  slices := [(prefixed (sampleText halfText)).take 5, (prefixed (sampleText halfText)).drop 5]
  failure := none
  sized := by
    have hlength : (prefixed (sampleText halfText)).length = 290 := by
      rw [prefixed_length, sample_text_length]
      rfl
    intro slice hslice
    have hbounds : 0 < slice.length ∧ slice.length ≤ readBufBytes := by
      rcases List.mem_pair.mp hslice with rfl | rfl
      · rw [List.length_take, hlength]
        decide
      · rw [List.length_drop, hlength]
        decide
    exact ⟨List.ne_nil_of_length_pos hbounds.1, hbounds.2⟩

/-- The pieces of the stream carry the frame. -/
theorem half_stream_read :
    halfStream.slices.flatten = wire sampleSerde [sampleFrame half] := by
  rw [wire_cons_ok [] sample_encoded.1]
  simp [halfStream, wire]

/-- The theorem at a stream of one frame. -/
theorem quic_refines_queue_half :
    (QuicFrameTransport.new halfStream).recvFrames sampleSerde 2 =
      [.ok (some (sampleFrame half)), .ok none] := by
  have hwire : wire sampleSerde [sampleFrame half] = prefixed (sampleText halfText) := by
    rw [wire_cons_ok [] sample_encoded.1]
    exact List.append_nil _
  have harrived : arrived sampleSerde [sampleFrame half] halfStream.slices.flatten =
      ([sampleFrame half], []) := by
    rw [half_stream_read, hwire]
    simp [arrived, sample_encoded.1]
  rw [quic_refines_queue (List.forall_mem_singleton.mpr (sample_round_trips (Or.inl rfl)))
    halfStream (half_stream_read ▸ List.prefix_refl _) 2, harrived]
  simp [popFrames, popFrame, read_frame_half, QuicFrameTransport.atEnd,
    FrameDecoder.endOfStream, FrameDecoder.buffered, halfStream]

end LatentMesh.Stream
