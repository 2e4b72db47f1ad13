import LatentMesh.Lib.Bytes
import LatentMesh.Meshtastic.Error

/-!
# Device-API framing

The stream framing of `framing.rs`: `write_frame`, the blocking reader `read_frame`, and the
push/pull reader `FrameDecoder`. A reader or a writer is the list of its bytes.
-/

namespace LatentMesh.Meshtastic

open LatentMesh.Lib

/-- `START1`. -/
def start1 : UInt8 := 0x94

/-- `START2`. -/
def start2 : UInt8 := 0xc3

/-- A longer claimed length makes the receivers look for the next frame. -/
def maxDeviceApiFrameLen : Nat := 512

/-- The errors of `std::io` that the framing returns. -/
inductive IoError where
  | invalidInput (message : String)
  | unexpectedEof
  deriving DecidableEq, Repr

/-- The header of a frame and its body. -/
def framed (protobufBytes : List UInt8) : List UInt8 :=
  [start1, start2] ++ u16Be (UInt16.ofNat protobufBytes.length) ++ protobufBytes

/-- `write_frame`. -/
def writeFrame (writer protobufBytes : List UInt8) : Except IoError (List UInt8) :=
  if maxDeviceApiFrameLen < protobufBytes.length then
    .error (.invalidInput "protobuf body exceeds MAX_DEVICE_API_FRAME_LEN")
  else .ok (writer ++ framed protobufBytes)

/-! ## The blocking reader -/

/-- `Read::read_exact`: the bytes and what the reader has left. -/
def readExact (count : Nat) (reader : List UInt8) : Option (List UInt8 × List UInt8) :=
  if reader.length < count then none else some (reader.take count, reader.drop count)

/-- The loop that looks for `START1`: what follows it. -/
def seekStart1 : List UInt8 → Option (List UInt8)
  | [] => none
  | byte :: reader => if byte = start1 then some reader else seekStart1 reader

/-- The loop that looks for `START2`: whether it has come, and what follows. A repeated `START1`
stays in the loop and any other byte goes back to the outer one. -/
def seekStart2 : List UInt8 → Option (Bool × List UInt8)
  | [] => none
  | byte :: reader =>
      if byte = start2 then some (true, reader)
      else if byte ≠ start1 then some (false, reader)
      else seekStart2 reader

/-- The search takes a byte. -/
theorem seek_start1_length {reader rest : List UInt8} (h : seekStart1 reader = some rest) :
    rest.length < reader.length := by
  induction reader with
  | nil => cases h
  | cons byte reader ih =>
      rw [seekStart1] at h
      split at h
      · cases h
        exact Nat.lt_succ_self _
      · exact Nat.lt_succ_of_lt (ih h)

/-- The search takes a byte. -/
theorem seek_start2_length {reader rest : List UInt8} {found : Bool}
    (h : seekStart2 reader = some (found, rest)) : rest.length < reader.length := by
  induction reader with
  | nil => cases h
  | cons byte reader ih =>
      rw [seekStart2] at h
      split at h
      · cases h
        exact Nat.lt_succ_self _
      · split at h
        · cases h
          exact Nat.lt_succ_self _
        · exact Nat.lt_succ_of_lt (ih h)

/-- An exact read takes that many bytes from the front. -/
theorem read_exact_eq_some_iff {count : Nat} {reader bytes rest : List UInt8} :
    readExact count reader = some (bytes, rest) ↔
      bytes.length = count ∧ reader = bytes ++ rest := by
  rw [readExact]
  constructor
  · intro h
    split at h
    · cases h
    · rename_i hlength
      cases h
      exact ⟨List.length_take_of_le (Nat.not_lt.mp hlength), (List.take_append_drop _ _).symm⟩
  · rintro ⟨rfl, rfl⟩
    rw [if_neg (by rw [List.length_append]; omega), List.take_left, List.drop_left]

/-- How one turn of the outer loop of `read_frame` ends. -/
inductive Turn where
  | endOfStream
  | resync (reader : List UInt8)
  | frame (body reader : List UInt8)
  deriving DecidableEq, Repr

/-- One turn of the outer loop: to the end of the stream, back to its start, or to a frame. -/
def readTurn (reader : List UInt8) : Turn :=
  match seekStart1 reader with
  | none => .endOfStream
  | some reader =>
      match seekStart2 reader with
      | none => .endOfStream
      | some (false, reader) => .resync reader
      | some (true, reader) =>
          match readExact 2 reader with
          | none => .endOfStream
          | some (lenBytes, reader) =>
              let len := (u16OfBe lenBytes).toNat
              if maxDeviceApiFrameLen < len then .resync reader
              else
                match readExact len reader with
                | none => .endOfStream
                | some (body, reader) => .frame body reader

/-- A turn reads something. -/
theorem read_turn_length {reader rest : List UInt8}
    (h : readTurn reader = .resync rest ∨ ∃ body, readTurn reader = .frame body rest) :
    rest.length < reader.length := by
  unfold readTurn at h
  split at h
  · simp at h
  · rename_i afterStart1 hstart1
    have hlength1 := seek_start1_length hstart1
    split at h
    · simp at h
    · rename_i afterStart2 hstart2
      have hlength2 := seek_start2_length hstart2
      simp only [Turn.resync.injEq, reduceCtorEq, exists_const, or_false] at h
      subst h
      omega
    · rename_i afterStart2 hstart2
      have hlength2 := seek_start2_length hstart2
      split at h
      · simp at h
      · rename_i lenBytes afterLen hlen
        have hlength3 := congrArg List.length (read_exact_eq_some_iff.mp hlen).2
        rw [List.length_append] at hlength3
        dsimp only at h
        split at h
        · simp only [Turn.resync.injEq, reduceCtorEq, exists_const, or_false] at h
          subst h
          omega
        · split at h
          · simp at h
          · rename_i body afterBody hbody
            have hlength4 := congrArg List.length (read_exact_eq_some_iff.mp hbody).2
            rw [List.length_append] at hlength4
            simp only [reduceCtorEq, Turn.frame.injEq, false_or, exists_eq_left'] at h
            subst h
            omega

/-- The body of the next frame and what the reader has left. -/
def readFrame (reader : List UInt8) : Except IoError (List UInt8 × List UInt8) :=
  match hturn : readTurn reader with
  | .endOfStream => .error .unexpectedEof
  | .resync rest =>
      have _hshorter := read_turn_length (Or.inl hturn)
      readFrame rest
  | .frame body rest => .ok (body, rest)
termination_by reader.length

/-! ## The push/pull reader -/

/-- The states of the incremental decoder. -/
inductive State where
  | seekingStart1
  | seekingStart2
  | readingLenHigh
  | readingLenLow (high : UInt8)
  | readingBody (remaining : Nat)
  deriving DecidableEq, Repr

/-- The incremental decoder. -/
structure FrameDecoder where
  state : State
  body : List UInt8
  ready : List (List UInt8)
  deriving DecidableEq, Repr

namespace FrameDecoder

/-- `FrameDecoder::new`. -/
def new : FrameDecoder where
  state := .seekingStart1
  body := []
  ready := []

/-- `FrameDecoder::push_byte`. -/
def pushByte (self : FrameDecoder) (byte : UInt8) : FrameDecoder :=
  match self.state with
  | .seekingStart1 =>
      if byte = start1 then { self with state := .seekingStart2 }
      else { self with state := .seekingStart1 }
  | .seekingStart2 =>
      if byte = start2 then { self with state := .readingLenHigh }
      else if byte = start1 then { self with state := .seekingStart2 }
      else { self with state := .seekingStart1 }
  | .readingLenHigh => { self with state := .readingLenLow byte }
  | .readingLenLow high =>
      let len := (u16OfBe [high, byte]).toNat
      if len = 0 then { self with state := .seekingStart1, ready := self.ready ++ [[]] }
      else if maxDeviceApiFrameLen < len then { self with state := .seekingStart1 }
      else { self with state := .readingBody len, body := [] }
  | .readingBody remaining =>
      let body := self.body ++ [byte]
      if remaining = 1 then
        { state := .seekingStart1, body := [], ready := self.ready ++ [body] }
      else { self with state := .readingBody (remaining - 1), body }

/-- `FrameDecoder::push`. -/
def push (self : FrameDecoder) (chunk : List UInt8) : FrameDecoder :=
  chunk.foldl pushByte self

/-- `FrameDecoder::pull`. -/
def pull (self : FrameDecoder) : FrameDecoder × Option (List UInt8) :=
  match self.ready with
  | [] => (self, none)
  | body :: ready => ({ self with ready }, some body)

/-- A body that is pulled is gone. -/
theorem pull_length {self next : FrameDecoder} {body : List UInt8}
    (h : self.pull = (next, some body)) : next.ready.length < self.ready.length := by
  unfold pull at h
  split at h
  · cases h
  · rename_i hready
    cases h
    rw [hready]
    exact Nat.lt_succ_self _

end FrameDecoder

/-- One-shot decode of a buffer that is exactly one frame. -/
def decodeSingleFrame : List UInt8 → Result (List UInt8)
  | s1 :: s2 :: lenHi :: lenLo :: body =>
      if s1 ≠ start1 ∨ s2 ≠ start2 then .error .frameCorrupt
      else
        let len := (u16OfBe [lenHi, lenLo]).toNat
        if maxDeviceApiFrameLen < len ∨ len ≠ body.length then .error .frameTooLarge
        else .ok body
  | _ => .error .frameCorrupt

end LatentMesh.Meshtastic
