import Mathlib.Algebra.Group.Int.Defs
import Mathlib.Data.List.FinRange
import LatentMesh.AirC.Common

/-!
# The C forward error correction

The convolutional encoder, the Viterbi decoder and the bit interleaver of `fec.c`. A bit string is
packed into bytes, most significant bit first. Buffers are lists of bytes and their length is the
capacity. An `unsigned` holds small values only and is a `Nat`; an `int32_t` metric is an `Int`. The
decoder takes the branch metric as a parameter, as `fec_decode` does.
-/

namespace LatentMesh.AirC

/-- `LM_AIR_G0`, the first generator. -/
def lmAirG0 : Nat := 0x79

/-- `LM_AIR_G1`, the second generator. -/
def lmAirG1 : Nat := 0x5b

/-- `LM_AIR_FEC_TAIL_BITS`. -/
def lmAirFecTailBits : Nat := 6

/-- `LM_AIR_FEC_MAX_STEPS`. -/
def lmAirFecMaxSteps : Nat := lmAirMaxWireBytes * 8 + lmAirFecTailBits

/-- `LM_AIR_FEC_MAX_CODED_BITS`. -/
def lmAirFecMaxCodedBits : Nat := lmAirFecMaxSteps * 2

/-- `LM_AIR_FEC_MAX_CODED_BYTES`. -/
def lmAirFecMaxCodedBytes : Nat := (lmAirFecMaxCodedBits + 7) / 8

/-- `INT32_MAX / 4`. -/
def lmAirMetricInf : Int := (2 ^ 31 - 1) / 4

/-! ## Packed bits -/

/-- `get_bit`. -/
def getBit (data : List UInt8) (bit : Nat) : Nat :=
  ((data.getD (bit >>> 3) 0).toNat >>> (7 - (bit &&& 7))) &&& 1

/-- `(uint8_t)(1u << (7u - (bit & 7u)))`. -/
def bitMask (bit : Nat) : UInt8 := UInt8.ofNat (1 <<< (7 - (bit &&& 7)))

/-- `set_bit`. -/
def setBit (data : List UInt8) (bit value : Nat) : List UInt8 :=
  data.modify (bit >>> 3) fun byte =>
    if value ≠ 0 then byte ||| bitMask bit else byte &&& ~~~ bitMask bit

/-- `memset(data, 0, count)`. -/
def clearBytes (data : List UInt8) (count : Nat) : List UInt8 :=
  List.replicate (min count data.length) 0 ++ data.drop count

/-- `parity7`. -/
def parity7 (value : Nat) : Nat :=
  let value := value ^^^ (value >>> 4)
  let value := value ^^^ (value >>> 2)
  let value := value ^^^ (value >>> 1)
  value &&& 1

/-! ## Encoder -/

/-- `lm_air_fec_encoded_bits`. -/
def lmAirFecEncodedBits (inputBytes : Nat) : Nat :=
  if lmAirMaxWireBytes < inputBytes then 0
  else (inputBytes * 8 + lmAirFecTailBits) * 2

/-- The loop body of `lm_air_fec_encode`: the state and the coded buffer. -/
def fecEncodeStep (input : List UInt8) (acc : Nat × List UInt8) (i : Nat) : Nat × List UInt8 :=
  let bit := if i < input.length * 8 then getBit input i else 0
  let reg := ((acc.1 <<< 1) ||| bit) &&& 0x7f
  let coded := setBit acc.2 (i * 2) (parity7 (reg &&& lmAirG0))
  let coded := setBit coded (i * 2 + 1) (parity7 (reg &&& lmAirG1))
  (reg &&& 0x3f, coded)

/-- `lm_air_fec_encode` into the buffer `coded`: the status, the buffer and the number of coded
bits. -/
def lmAirFecEncode (input coded : List UInt8) : LmAirStatus × List UInt8 × Nat :=
  let outputBits := lmAirFecEncodedBits input.length
  if outputBits = 0 ∧ input.length ≠ 0 then (.errCapacity, coded, 0)
  else
    let outputBytes := (outputBits + 7) / 8
    if coded.length < outputBytes then (.errCapacity, coded, 0)
    else
      let coded := clearBytes coded outputBytes
      let inputBits := input.length * 8
      let (_, coded) := (List.range (inputBits + lmAirFecTailBits)).foldl (fecEncodeStep input)
        (0, coded)
      (.ok, coded, outputBits)

/-! ## Decoder -/

/-- `hard_metric`. -/
def hardMetric (observations : List UInt8) (observationIndex expected : Nat) : Int :=
  if getBit observations observationIndex = expected then 0 else 1

/-- The metric of an edge at step `t`: `branch0` or `branch1`. -/
def branchCost (metric : Nat → Nat → Int) (t predecessor inputBit : Nat) : Int :=
  let reg := ((predecessor <<< 1) ||| inputBit) &&& 0x7f
  metric (t * 2) (parity7 (reg &&& lmAirG0)) + metric (t * 2 + 1) (parity7 (reg &&& lmAirG1))

/-- `candidate0` or `candidate1`. -/
def candidateCost (metric : Nat → Nat → Int) (previous : Vector Int 64) (t : Nat)
    (predecessor : Fin 64) (inputBit : Nat) : Int :=
  if lmAirMetricInf ≤ previous.get predecessor then lmAirMetricInf
  else previous.get predecessor + branchCost metric t predecessor inputBit

/-- The lower predecessor is a state. -/
theorem predecessor0_lt (nextState : Fin 64) : nextState.val >>> 1 < 64 := by
  have hlt := nextState.isLt
  rw [Nat.shiftRight_eq_div_pow]
  omega

/-- The upper predecessor is a state. -/
theorem predecessor1_lt (nextState : Fin 64) : nextState.val >>> 1 ||| 0x20 < 64 :=
  Nat.or_lt_two_pow (n := 6) (predecessor0_lt nextState) (by decide)

/-- `next_state >> 1`. -/
def predecessor0 (nextState : Fin 64) : Fin 64 := ⟨nextState.val >>> 1, predecessor0_lt nextState⟩

/-- `predecessor0 | 0x20u`. -/
def predecessor1 (nextState : Fin 64) : Fin 64 :=
  ⟨nextState.val >>> 1 ||| 0x20, predecessor1_lt nextState⟩

/-- The candidates of a state at step `t`. -/
def candidates (metric : Nat → Nat → Int) (previous : Vector Int 64) (t : Nat)
    (nextState : Fin 64) : Int × Int :=
  let inputBit := nextState.val &&& 1
  (candidateCost metric previous t (predecessor0 nextState) inputBit,
    candidateCost metric previous t (predecessor1 nextState) inputBit)

/-- The loop over the states: every entry of `next` is assigned once, from `previous` only. -/
def nextMetrics (metric : Nat → Nat → Int) (previous : Vector Int 64) (t : Nat) : Vector Int 64 :=
  Vector.ofFn fun nextState =>
    let (candidate0, candidate1) := candidates metric previous t nextState
    if candidate1 < candidate0 then candidate1 else candidate0

/-- The decisions that the loop over the states collects. -/
def decisionWord (metric : Nat → Nat → Int) (previous : Vector Int 64) (t : Nat) : UInt64 :=
  (List.finRange 64).foldl (fun decisions nextState =>
    let (candidate0, candidate1) := candidates metric previous t nextState
    if candidate1 < candidate0 then decisions ||| ((1 : UInt64) <<< UInt64.ofNat nextState)
    else decisions) 0

/-- The metrics before the first step. -/
def initialMetrics : Vector Int 64 :=
  Vector.ofFn fun state => if state.val = 0 then 0 else lmAirMetricInf

/-- The loop over the steps: the metrics and the survivor words. -/
def fecForward (metric : Nat → Nat → Int) (steps : Nat) : Vector Int 64 × List UInt64 :=
  (List.range steps).foldl (fun acc t =>
    (nextMetrics metric acc.1 t, acc.2 ++ [decisionWord metric acc.1 t]))
    (initialMetrics, [])

/-- The traceback loop. -/
def fecTraceback (survivor : List UInt64) (outputBits : Nat) :
    Nat → Nat → List UInt8 → List UInt8
  | 0, _, output => output
  | step + 1, state, output =>
      let inputBit := state &&& 1
      let highPredecessor := ((survivor.getD step 0 >>> UInt64.ofNat state) &&& 1).toNat
      let output := if step < outputBits then setBit output step inputBit else output
      fecTraceback survivor outputBits step ((state >>> 1) ||| (highPredecessor <<< 5)) output

/-- There is a first state. -/
theorem first_state_lt : 0 < 64 := by decide

/-- `fec_decode` into the buffer `output`: the status, the buffer and the path metric. -/
def fecDecode (metric : Nat → Nat → Int) (codedBits : Nat) (output : List UInt8)
    (expectedOutputBytes : Nat) : LmAirStatus × List UInt8 × Int :=
  if output.length < expectedOutputBytes ∨ lmAirMaxWireBytes < expectedOutputBytes then
    (.errCapacity, output, 0)
  else
    let expectedBits := lmAirFecEncodedBits expectedOutputBytes
    if codedBits ≠ expectedBits ∨ codedBits &&& 1 ≠ 0 then (.errFec, output, 0)
    else
      let steps := codedBits / 2
      if lmAirFecMaxSteps < steps then (.errCapacity, output, 0)
      else
        let (previous, survivor) := fecForward metric steps
        let best := previous.get ⟨0, first_state_lt⟩
        if lmAirMetricInf ≤ best then (.errFec, output, 0)
        else
          let output := clearBytes output expectedOutputBytes
          (.ok, fecTraceback survivor (expectedOutputBytes * 8) steps 0 output, best)

/-- `lm_air_fec_decode_hard`. -/
def lmAirFecDecodeHard (coded : List UInt8) (codedBits : Nat) (output : List UInt8)
    (expectedOutputBytes : Nat) : LmAirStatus × List UInt8 × Int :=
  fecDecode (hardMetric coded) codedBits output expectedOutputBytes

/-! ## Interleaver -/

/-- The loop body of `lm_air_interleave_bits`: the output and `out_bit`. -/
def interleaveStep (input : List UInt8) (bitCount columns column : Nat)
    (acc : List UInt8 × Nat) (row : Nat) : List UInt8 × Nat :=
  let inBit := row * columns + column
  if inBit < bitCount then (setBit acc.1 acc.2 (getBit input inBit), acc.2 + 1) else acc

/-- `lm_air_interleave_bits` into the buffer `output`. -/
def lmAirInterleaveBits (input : List UInt8) (bitCount : Nat) (output : List UInt8)
    (rows : UInt8) : LmAirStatus × List UInt8 :=
  let bytes := (bitCount + 7) / 8
  if rows = 0 then (.errArgument, output)
  else if output.length < bytes then (.errCapacity, output)
  else
    let output := clearBytes output bytes
    if bitCount = 0 then (.ok, output)
    else
      let columns := (bitCount + rows.toNat - 1) / rows.toNat
      let (output, outBit) := (List.range columns).foldl (fun acc column =>
        (List.range rows.toNat).foldl (interleaveStep input bitCount columns column) acc)
        (output, 0)
      (if outBit = bitCount then .ok else .errState, output)

/-- The loop body of `lm_air_deinterleave_bits`: the output and `in_bit`. -/
def deinterleaveStep (input : List UInt8) (bitCount columns column : Nat)
    (acc : List UInt8 × Nat) (row : Nat) : List UInt8 × Nat :=
  let outBit := row * columns + column
  if outBit < bitCount then (setBit acc.1 outBit (getBit input acc.2), acc.2 + 1) else acc

/-- `lm_air_deinterleave_bits` into the buffer `output`. -/
def lmAirDeinterleaveBits (input : List UInt8) (bitCount : Nat) (output : List UInt8)
    (rows : UInt8) : LmAirStatus × List UInt8 :=
  let bytes := (bitCount + 7) / 8
  if rows = 0 then (.errArgument, output)
  else if output.length < bytes then (.errCapacity, output)
  else
    let output := clearBytes output bytes
    if bitCount = 0 then (.ok, output)
    else
      let columns := (bitCount + rows.toNat - 1) / rows.toNat
      let (output, inBit) := (List.range columns).foldl (fun acc column =>
        (List.range rows.toNat).foldl (deinterleaveStep input bitCount columns column) acc)
        (output, 0)
      (if inBit = bitCount then .ok else .errState, output)

end LatentMesh.AirC
