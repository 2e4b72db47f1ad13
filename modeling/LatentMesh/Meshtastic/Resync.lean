import Mathlib.Data.List.Chain
import LatentMesh.Meshtastic.FramingAgreement

/-!
# Resynchronisation

Frames with garbage between them. Garbage is a sequence of plain runs, which have no marker in them,
and of bogus headers, which claim too long a body. The decoder is between frames after every piece
of garbage (`FrameDecoder.push_pieces`), so it returns the bodies of the frames and nothing else
(`resynchronises`).
-/

namespace LatentMesh.Meshtastic

open LatentMesh.Lib

/-- Two adjacent bytes are not `START1 START2`. -/
def NotMarker (first second : UInt8) : Prop := ¬ (first = start1 ∧ second = start2)

/-- A piece of garbage: bytes without a marker, or a header that claims more than 512 bytes. -/
inductive Piece where
  | plain (bytes : List UInt8) (unmarked : bytes.IsChain NotMarker)
  | bogus (high low : UInt8) (long : maxDeviceApiFrameLen < (u16OfBe [high, low]).toNat)

namespace Piece

/-- The bytes of a piece. -/
def bytes : Piece → List UInt8
  | .plain bytes _ => bytes
  | .bogus high low _ => [start1, start2, high, low]

/-- A piece without a start byte. -/
def isPlain : Piece → Bool
  | .plain .. => true
  | .bogus .. => false

end Piece

/-- A garbage segment: no two plain runs are adjacent. -/
structure Segment where
  pieces : List Piece
  separated : pieces.IsChain fun first second => ¬ (first.isPlain ∧ second.isPlain)

/-- The bytes of a garbage segment. -/
def Segment.bytes (self : Segment) : List UInt8 := self.pieces.flatMap Piece.bytes

/-- A body that `write_frame` accepts. -/
structure Body where
  bytes : List UInt8
  short : bytes.length ≤ maxDeviceApiFrameLen

/-- Frames with garbage before, between and after them. -/
structure NoisyStream where
  first : Segment
  frames : List (Body × Segment)

namespace NoisyStream

/-- The bodies of the frames in a stream. -/
def bodies (self : NoisyStream) : List (List UInt8) :=
  self.frames.map fun frame => frame.1.bytes

/-- The bytes of the frames and of the garbage after each. -/
def tailBytes (frames : List (Body × Segment)) : List UInt8 :=
  frames.flatMap fun frame => framed frame.1.bytes ++ frame.2.bytes

/-- The bytes of a stream with garbage. -/
def bytes (self : NoisyStream) : List UInt8 := self.first.bytes ++ tailBytes self.frames

end NoisyStream

namespace FrameDecoder

/-- No frame has begun: the decoder looks for `START1`, or has seen one. -/
def Between (ready : List (List UInt8)) (decoder : FrameDecoder) : Prop :=
  decoder = idle ready ∨ decoder = ⟨.seekingStart2, [], ready⟩

variable {ready : List (List UInt8)} {decoder : FrameDecoder}

/-- A plain run begins no frame. After a `START1` it must not go on with a `START2`. -/
theorem push_plain {bytes : List UInt8} (hunmarked : bytes.IsChain NotMarker)
    (h : decoder = idle ready ∨
      (decoder = ⟨.seekingStart2, [], ready⟩ ∧ bytes.head? ≠ some start2)) :
    Between ready (decoder.push bytes) := by
  induction bytes generalizing decoder with
  | nil => exact h.imp id And.left
  | cons byte bytes ih =>
      rw [push_cons]
      refine ih hunmarked.tail ?_
      by_cases hstart1 : byte = start1
      · -- the next byte is no `START2`
        have hhead : bytes.head? ≠ some start2 := by
          cases bytes with
          | nil => simp
          | cons next bytes =>
              rw [List.isChain_cons_cons] at hunmarked
              intro hnext
              exact hunmarked.1 ⟨hstart1, Option.some.inj hnext⟩
        have hdiffer : start1 ≠ start2 := by decide
        refine Or.inr ⟨?_, hhead⟩
        rcases h with rfl | ⟨rfl, -⟩
        · simp [pushByte, idle, hstart1]
        · simp [pushByte, hstart1, hdiffer]
      · refine Or.inl ?_
        rcases h with rfl | ⟨rfl, hhead⟩
        · simp [pushByte, idle, hstart1]
        · have hstart2 : byte ≠ start2 := fun heq => hhead (congrArg some heq)
          simp [pushByte, idle, hstart1, hstart2]

/-- A header is recognised even directly after a `START1`. -/
theorem push_header (h : Between ready decoder) (rest : List UInt8) :
    decoder.push (start1 :: start2 :: rest) =
      FrameDecoder.push ⟨.readingLenHigh, [], ready⟩ rest := by
  have hdiffer : start1 ≠ start2 := by decide
  rw [push_cons, push_cons]
  rcases h with rfl | rfl
  · simp [pushByte, idle]
  · simp [pushByte, hdiffer]

/-- A header that says too much is passed over. -/
theorem push_bogus (h : Between ready decoder) {high low : UInt8}
    (hlong : maxDeviceApiFrameLen < (u16OfBe [high, low]).toNat) :
    decoder.push [start1, start2, high, low] = idle ready := by
  rw [push_header h, push_length, if_pos hlong]
  rfl

/-- A written frame makes its body ready. -/
theorem push_framed (h : Between ready decoder) {body : List UInt8}
    (hshort : body.length ≤ maxDeviceApiFrameLen) :
    decoder.push (framed body) = idle (ready ++ [body]) := by
  obtain ⟨high, low, hframed, hlen⟩ := exists_framed_header hshort
  rw [hframed, push_header h, push_length, hlen, if_neg (Nat.not_lt.mpr hshort)]
  by_cases hempty : body.length = 0
  · rw [if_pos hempty, List.length_eq_zero_iff.mp hempty]
    rfl
  · rw [if_neg hempty, push_reading_body _ (Nat.pos_of_ne_zero hempty),
      if_neg (Nat.lt_irrefl _), List.take_length, List.drop_length, List.nil_append]
    rfl

/-- Garbage begins no frame, and a plain run of it is never behind another one. -/
theorem push_pieces {pieces : List Piece}
    (hseparated : pieces.IsChain fun first second => ¬ (first.isPlain ∧ second.isPlain))
    (h : decoder = idle ready ∨
      (Between ready decoder ∧ ∀ piece, pieces.head? = some piece → piece.isPlain = false)) :
    Between ready (decoder.push (pieces.flatMap Piece.bytes)) := by
  induction pieces generalizing decoder with
  | nil => exact h.elim Or.inl And.left
  | cons piece pieces ih =>
      have hbetween : Between ready decoder := h.elim Or.inl And.left
      rw [List.flatMap_cons, push_append]
      refine ih hseparated.tail ?_
      cases piece with
      | plain bytes hunmarked =>
          have hidle : decoder = idle ready := by
            rcases h with hidle | ⟨-, hbogus⟩
            · exact hidle
            · exact absurd (hbogus _ rfl) (by simp [Piece.isPlain])
          refine Or.inr ⟨push_plain hunmarked (Or.inl hidle), fun next hnext => ?_⟩
          cases pieces with
          | nil => cases hnext
          | cons second pieces =>
              rw [List.isChain_cons_cons] at hseparated
              cases hnext
              exact Bool.eq_false_iff.mpr fun hplain => hseparated.1 ⟨rfl, hplain⟩
      | bogus high low hlong => exact Or.inl (push_bogus hbetween hlong)

/-- Every frame of a noisy stream makes its body ready. -/
theorem push_tail (frames : List (Body × Segment)) (h : Between ready decoder) :
    Between (ready ++ frames.map fun frame => frame.1.bytes)
      (decoder.push (NoisyStream.tailBytes frames)) := by
  induction frames generalizing ready decoder with
  | nil => simpa [NoisyStream.tailBytes, push] using h
  | cons frame frames ih =>
      have hframe := push_framed h frame.1.short
      have hsegment : Between (ready ++ [frame.1.bytes]) ((decoder.push (framed frame.1.bytes)).push
          (frame.2.pieces.flatMap Piece.bytes)) := push_pieces frame.2.separated (Or.inl hframe)
      rw [NoisyStream.tailBytes, List.flatMap_cons, push_append, push_append, List.map_cons,
        ← List.singleton_append, ← List.append_assoc]
      exact ih hsegment

end FrameDecoder

/-- The decoder returns exactly the bodies of the written frames, in order, whatever garbage is
around them and however the stream is cut into chunks. -/
theorem resynchronises (stream : NoisyStream) (chunks : List (List UInt8))
    (h : chunks.flatten = stream.bytes) :
    (∀ body ∈ stream.bodies, writeFrame [] body = .ok (framed body)) ∧
      (FrameDecoder.new.receive chunks).2 = stream.bodies := by
  refine ⟨fun body hbody => ?_, ?_⟩
  · obtain ⟨frame, -, rfl⟩ := List.mem_map.mp hbody
    exact write_frame_eq_ok_iff.mpr ⟨frame.1.short, rfl⟩
  · have hfirst : FrameDecoder.Between [] (FrameDecoder.new.push
        (stream.first.pieces.flatMap Piece.bytes)) :=
      FrameDecoder.push_pieces stream.first.separated (Or.inl rfl)
    rw [FrameDecoder.receive_eq _ rfl, h, NoisyStream.bytes, FrameDecoder.push_append]
    rcases FrameDecoder.push_tail stream.frames hfirst with hidle | hstart1
    · exact congrArg FrameDecoder.ready hidle
    · exact congrArg FrameDecoder.ready hstart1

/-- A bare `START1` before a frame, and a header that claims 65535 bytes after it. -/
def sampleNoisy : NoisyStream where
  first := ⟨[.plain [0, start1] (by
    rw [List.isChain_pair]
    exact fun h => absurd h.1 (by decide))], List.isChain_singleton _⟩
  frames := [(⟨[7, start1, start2], by decide⟩,
    ⟨[.bogus 0xff 0xff (by decide)], List.isChain_singleton _⟩)]

/-- The theorem at a stream in three chunks. -/
theorem resynchronises_sample :
    (FrameDecoder.new.receive
      [[0, 0x94, 0x94], [0xc3, 0, 3, 7, 0x94], [0xc3, 0x94, 0xc3, 0xff, 0xff]]).2 =
      [[7, 0x94, 0xc3]] :=
  (resynchronises sampleNoisy _ (by decide)).2

end LatentMesh.Meshtastic
