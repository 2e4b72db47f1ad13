import LatentMesh.AirCore.Fec

/-!
# The burst modem framing

The burst codec and the streaming deframer of `phy.rs`: a sync word, a triply repeated coded-length
header, and the interleaved code bits.
-/

namespace LatentMesh.AirRadio

open LatentMesh.AirCore

/-- `PHY_SYNC`. -/
def phySync : UInt32 := 0xd391c5a7

/-- `SYNC_BITS`. -/
def syncBits : Nat := 32

/-- `LENGTH_BITS_REPEATED`. -/
def lengthBitsRepeated : Nat := 16 * 3

/-- `PHY_PREFIX_BITS`. -/
def phyPrefixBits : Nat := syncBits + lengthBitsRepeated

/-! ## Burst codec -/

/-- The field is private in the source and `new` checks it, so every codec has 1 to 256 columns. -/
structure BurstCodec where
  interleaverColumns : Nat
  columns_pos : 0 < interleaverColumns
  columns_le : interleaverColumns ≤ 256
  deriving DecidableEq, Repr

/-- `BurstCodec::new`. -/
def BurstCodec.new (interleaverColumns : Nat) : Result BurstCodec :=
  if h : interleaverColumns = 0 ∨ 256 < interleaverColumns then .error .invalidLength
  else .ok ⟨interleaverColumns, by omega, by omega⟩

/-- The sync bits in the order `encode` pushes them. -/
def syncWord : List UInt8 :=
  (List.range 32).reverse.map fun shift => ((phySync >>> UInt32.ofNat shift) &&& 1).toUInt8

/-- The length bits in the order `encode` pushes them. -/
def repeatedLength (codedLen : UInt16) : List UInt8 :=
  (List.range 16).reverse.flatMap fun shift =>
    let bit := ((codedLen >>> UInt16.ofNat shift) &&& 1).toUInt8
    [bit, bit, bit]

/-- `BurstCodec::encode`. -/
def BurstCodec.encode (self : BurstCodec) (frameBytes : List UInt8) : Result (List UInt8) :=
  (convolutionalEncode (bytesToBitsMsb frameBytes)).bind fun coded =>
  (interleaveBits coded self.interleaverColumns).bind fun interleaved =>
  if UInt16.size ≤ interleaved.length then .error .limitExceeded
  else .ok (syncWord ++ repeatedLength (UInt16.ofNat interleaved.length) ++ interleaved)

/-- `((PHY_SYNC >> (31 - index)) & 1) != 0`. -/
def expectedSync (index : Nat) : Bool :=
  (phySync >>> UInt32.ofNat (31 - index)) &&& 1 != 0

/-- The sync errors that `decode_aligned` counts. -/
def syncErrors (llrs : List Int8) : Nat :=
  (llrs.take syncBits).zipIdx.countP fun entry => decide (0 < entry.1) != expectedSync entry.2

/-- `triplet.iter().filter(|llr| **llr > 0).count() >= 2`. -/
def majority (triplet : List Int8) : Bool :=
  2 ≤ triplet.countP (0 < ·)

/-- The loop of `decode_repeated_length`. -/
def readTriplets : UInt16 → List Int8 → UInt16
  | value, first :: second :: third :: rest =>
      readTriplets ((value <<< 1) ||| (majority [first, second, third]).toUInt16) rest
  | value, _ => value

/-- `decode_repeated_length`. -/
def decodeRepeatedLength (llrs : List Int8) : Result Nat :=
  if llrs.length ≠ lengthBitsRepeated then .error .invalidLength
  else .ok (readTriplets 0 llrs).toNat

/-- `BurstCodec::decode_coded`. -/
def BurstCodec.decodeCoded (self : BurstCodec) (llrs : List Int8) : Result (List UInt8) :=
  (deinterleaveSoft llrs self.interleaverColumns).bind fun ordered =>
  (softViterbiDecode ordered).bind fun decoded =>
  bitsToBytesMsb decoded.bits

/-- The coded lengths that the decoder and the deframer refuse. -/
def badCodedLength (codedLen : Nat) : Prop :=
  ¬ (12 ≤ codedLen ∧ codedLen ≤ maxCodedBits) ∨ codedLen % 2 ≠ 0

instance (codedLen : Nat) : Decidable (badCodedLength codedLen) :=
  inferInstanceAs (Decidable (_ ∨ _))

/-- Decode an aligned burst. -/
def BurstCodec.decodeAligned (self : BurstCodec) (llrs : List Int8) : Result (List UInt8) :=
  if llrs.length < phyPrefixBits then .error .truncated
  else if 3 < syncErrors llrs then .error .invalidMarker
  else
    (decodeRepeatedLength ((llrs.take phyPrefixBits).drop syncBits)).bind fun codedLen =>
    if badCodedLength codedLen then .error .invalidLength
    else if llrs.length ≠ phyPrefixBits + codedLen then .error .invalidLength
    else self.decodeCoded (llrs.drop phyPrefixBits)

/-! ## Streaming deframer -/

/-- `usize::MAX`. -/
def usizeMax : Nat := 2 ^ 64 - 1

/-- The states of `SoftBurstReceiver::state`. -/
inductive SoftBurstState where
  | searching
  | readingHeader
  | readingPayload (received expected : Nat)
  deriving DecidableEq, Repr

/-- Streaming LLR burst deframer. -/
structure SoftBurstReceiver where
  codec : BurstCodec
  shift : UInt32
  seen : Nat
  header : List Int8
  payload : List Int8
  expected : Option Nat
  deriving DecidableEq, Repr

namespace SoftBurstReceiver

/-- `SoftBurstReceiver::new`. -/
def new (codec : BurstCodec) : SoftBurstReceiver where
  codec := codec
  shift := 0
  seen := 0
  header := []
  payload := []
  expected := none

/-- `SoftBurstReceiver::state`. -/
def state (self : SoftBurstReceiver) : SoftBurstState :=
  match self.expected with
  | some expected => .readingPayload self.payload.length expected
  | none =>
      if ¬ self.header.isEmpty ∨ (syncBits ≤ self.seen ∧ self.shift = phySync) then .readingHeader
      else .searching

/-- `SoftBurstReceiver::reset`. -/
def reset (self : SoftBurstReceiver) : SoftBurstReceiver :=
  { self with shift := 0, seen := 0, header := [], payload := [], expected := none }

/-- The receiver after one LLR, and what `push_llr` returns. -/
def pushLlr (self : SoftBurstReceiver) (llr : Int8) :
    SoftBurstReceiver × Result (Option (List UInt8)) :=
  match self.expected with
  | some expected =>
      let self := { self with payload := self.payload ++ [llr] }
      if self.payload.length = expected then
        (self.reset, (self.codec.decodeCoded self.payload).map some)
      else (self, .ok none)
  | none =>
      if self.header.isEmpty then
        let self := { self with
          shift := (self.shift <<< 1) ||| (decide (0 < llr)).toUInt32
          seen := min (self.seen + 1) usizeMax }
        if self.seen < syncBits ∨ self.shift ≠ phySync then (self, .ok none)
        -- the sentinel distinguishes header collection from sync search
        else ({ self with header := [Int8.minValue] }, .ok none)
      else
        let header := if self.header.head? = some Int8.minValue then [] else self.header
        let self := { self with header := header ++ [llr] }
        if self.header.length = lengthBitsRepeated then
          match decodeRepeatedLength self.header with
          | .error error => (self, .error error)
          | .ok expected =>
              if badCodedLength expected then (self.reset, .error .invalidLength)
              else ({ self with header := [], payload := [], expected := some expected }, .ok none)
        else (self, .ok none)

/-- The loop of `push_slice`, which stops at the first error. -/
def pushSlice (self : SoftBurstReceiver) :
    List Int8 → SoftBurstReceiver × Result (List (List UInt8))
  | [] => (self, .ok [])
  | llr :: rest =>
      match self.pushLlr llr with
      | (self, .error error) => (self, .error error)
      | (self, .ok frame) =>
          match self.pushSlice rest with
          | (self, .error error) => (self, .error error)
          | (self, .ok frames) => (self, .ok (frame.toList ++ frames))

end SoftBurstReceiver

end LatentMesh.AirRadio
